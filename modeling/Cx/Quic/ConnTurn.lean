import Cx.Quic.ConnFlush

/-!
# What a call does

Every handler of what arrives is a sequence of `ConnMove`s, so a call is a `ConnTurn`.
-/

namespace Cx.Quic

open Relation

/-- A NEW_CONNECTION_ID does not ask for itself to be retired. -/
def QuicFrame.Ordered : QuicFrame → Prop
  | .newConnId seq retirePrior _ _ => retirePrior ≤ seq
  | _ => True

section Decode

variable {rd : QuicRd} {f : QuicFrame}

theorem ordered_frameDecodeNewConnId (read : (frameDecodeNewConnId rd).1 = some f) : f.Ordered := by
  revert read
  fun_cases frameDecodeNewConnId rd with
  | case4 _ _ _ _ _ _ _ _ _ checked =>
    rintro ⟨⟩
    simp only [not_or, not_lt] at checked
    exact checked.2.2.2
  | _ => rintro ⟨⟩

theorem ordered_frameDecodeFields (type : Nat) (read : (frameDecodeFields type rd).1 = some f) :
    f.Ordered := by
  cases f with
  | newConnId seq retirePrior cid token =>
    fun_cases frameDecodeFields type rd with
    | case18 => exact ordered_frameDecodeNewConnId read
    | _ =>
      -- a frame of another type is not read as a NEW_CONNECTION_ID
      grind [frameDecodeFields, frameDecode1, frameDecode2, frameDecode3, frameDecodeData,
        frameDecodeAck, frameDecodeStream, frameStreams]
  | _ => trivial

theorem ordered_quicFrameDecode (read : (quicFrameDecode rd).1 = some f) : f.Ordered := by
  unfold quicFrameDecode at read
  dsimp only at read
  split at read
  · cases read
  · split at read
    · cases read
    · exact ordered_frameDecodeFields _ read

end Decode

namespace Conn

variable {source : Option NetAddr}
variable (c : QuicConnOwn) (h : QuicPktHdr) (data : List UInt8)

/-! ### Handlers -/

theorem abort_moves (c : QuicConn) (error frameType : Nat) :
    ConnMoves source c.view (abort c error frameType).view :=
  quicConnAbort_moves c.toQuicConnOwn error frameType

theorem handleAck_moves (c : QuicConn) (sp : QuicPns) (f : QuicAck) (now : Time) :
    ConnMoves source c.view (handleAck c sp f now).2.view := by
  have settled (own : QuicConnOwn) (view_eq : own.view = c.view) : ConnMoves source c.view _ :=
    view_eq ▸ recovMoves_moves (s := (c.recov, own))
      (quicRecovOnAck_moves quicRecovHandlers sp f (handleAckDelay c.localTp sp f) now _)
  fun_cases handleAck c sp f now with
  | case1 | case2 | case3 => exact abort_moves c _ _
  | case4 _ _ _ _ _ _ _ own => exact (settled own rfl).trans (abort_moves (ofRecov _) _ _)
  | case5 => fun_cases ecnOnAck <;> exact settled _ rfl

variable (env : ConnEnv) (sp : QuicPns) (eliciting : Bool) (tls : List TlsAnswer)
  (ack : QuicAckState) (d : ConnDatagram) (opened : QuicOpened) (now : Time)

theorem handleStreamFrame_moves (c : QuicConnOwn) (f : QuicFrame) :
    ConnMoves source c.view (handleStreamFrame env c f).2.view := by
  unfold handleStreamFrame
  dsimp only
  let told : QuicConnOwn := { c with streams := (quicStreamsFrame env.toStreamEnv c.streams f).2 }
  split
  · exact .refl
  · have closed : ConnMoves source c.view _ := quicConnAbort_moves told told.streams.error
      told.streams.errorFrame
    split
    · exact closed.trans (quicConnAbort_moves _ _ _)
    · exact closed

theorem handleDatagram_moves (f : QuicFrame) (hasLen : Bool)
    (data : List UInt8) : ConnMoves source c.view (handleDatagram c f hasLen data).2.view := by
  unfold handleDatagram
  dsimp only
  generalize (quicVarintSize f.type + data.length +
    if hasLen then quicVarintSize data.length else 0) = size
  split
  · exact quicConnAbort_moves c _ _
  · exact .refl

theorem handleHandshakeDone_moves (c : QuicConn) (frameType : Nat) (now : Time) :
    ConnMoves source c.view (handleHandshakeDone env c frameType now).2.view := by
  fun_cases handleHandshakeDone env c frameType now with
  | case1 => exact abort_moves c _ _
  | case2 => exact .refl
  | case3 =>
    change ConnMoves source c.view (spaceDiscard _ .handshake now).view
    rw [view_spaceDiscard]
    exact .single (.confirmed c.view)

theorem handleFrame_moves (c : QuicConn) (sp : QuicPns) {f : QuicFrame} (ordered : f.Ordered)
    (arrives : source.isSome = true) (dcid : List UInt8) (now : Time) :
    ConnMoves source c.view (handleFrame env c sp f dcid now).2.view := by
  cases f with
  | padding | ping => exact .refl
  | ack fields => exact handleAck_moves c sp fields now
  | crypto offset data =>
    simp only [handleFrame, handleCrypto]
    split
    · exact abort_moves c _ _
    · exact .refl
  | newToken =>
    simp only [handleFrame]
    split
    · exact abort_moves c _ _
    · exact .refl
  | newConnId seq retirePrior cid token =>
    exact .single (.newConnId c.toQuicConnOwn _ seq retirePrior cid token ordered)
  | retireConnId seq =>
    simp only [handleFrame]
    fun_cases handleRetireConnId with
    | case1 | case2 => exact abort_moves c _ _
    | case3 => exact .refl
  | pathChallenge data => exact .single (.challenged c.view data arrives)
  | pathResponse =>
    simp only [handleFrame]
    split
    · next answers =>
        subst answers
        exact .single (.answered c.view)
    · exact .refl
  | datagram hasLen data => exact handleDatagram_moves c.toQuicConnOwn _ hasLen data
  | connClose | connCloseApp => exact handleConnClose_moves c.toQuicConnOwn _ _ _ now
  | handshakeDone => exact handleHandshakeDone_moves env c _ now
  | resetStream | stopSending | stream | maxData | maxStreamData | maxStreams | dataBlocked
  | streamDataBlocked | streamsBlocked => exact handleStreamFrame_moves env c.toQuicConnOwn _

theorem processFramesLoop_moves (h : QuicPktHdr) (now : Time) (fuel : Nat) (rd : QuicRd)
    (p : FrameProgress) (arrives : source.isSome = true) :
    ConnMoves source p.conn.view (processFramesLoop env sp h now fuel rd p).2.conn.view := by
  have decoded {rd rest : QuicRd} {f : QuicFrame} {c c' : QuicConn} {ok : Bool}
      (read : quicFrameDecode rd = (some f, rest))
      (handled : handleFrame env c sp f h.dcid now = (ok, c')) :
      ConnMoves source c.view c'.view := by
    have ordered := ordered_quicFrameDecode (congrArg Prod.fst read)
    have moves : ConnMoves source c.view _ :=
      handleFrame_moves env c sp ordered arrives h.dcid now
    rwa [handled] at moves
  fun_induction processFramesLoop env sp h now fuel rd p with
  | case1 | case4 => exact .refl
  | case2 | case3 | case5 => exact abort_moves _ _ _
  | case6 _ _ _ _ _ read _ _ _ _ handled | case7 _ _ _ _ _ read _ _ _ _ handled =>
    exact decoded read handled
  | case8 _ _ _ _ _ read _ _ _ _ handled _ _ ih => exact (decoded read handled).trans ih

/-! ### TLS -/

theorem connEarlyOpen_view (tp : Option QuicConnParams) : (connEarlyOpen c tp).view = c.view := by
  unfold connEarlyOpen
  split <;> rfl

theorem tlsEarlyParams_view : (tlsEarlyParams c data).view = c.view := by
  fun_cases tlsEarlyParams c data with
  | case1 | case2 => rfl
  | case3 => exact connEarlyOpen_view _ _

theorem earlyRefused_moves (c : QuicConn) : ConnMoves source c.view (earlyRefused c).view := by
  fun_cases earlyRefused c with
  | case1 => exact .refl
  | case2 early =>
    let own : QuicConnOwn := { early.toQuicConnOwn with earlyState := .refused }
    exact recovMoves_moves (s := (c.recov, own))
      (quicRecovDiscardEarly_moves quicRecovHandlers (c.pns .app).next c.now _)

theorem tlsEarlyData_moves (c : QuicConn) (accepted : Bool) :
    ConnMoves source c.view (tlsEarlyData c accepted).view := by
  fun_cases tlsEarlyData c accepted with
  | case1 => exact earlyRefused_moves c
  | case2 => exact abort_moves c _ _
  | case3 =>
    change ConnMoves source c.view (connEarlyOpen c.toQuicConnOwn none).view
    rw [connEarlyOpen_view]
  | case4 => exact .refl

theorem tlsTransportParams_moves (c : QuicConn) (data : List UInt8) :
    ConnMoves source c.view (tlsTransportParams c data).view := by
  unfold tlsTransportParams
  split
  · exact abort_moves c _ _
  · next tp decoded =>
      dsimp only
      split
      · have told : ConnMoves source c.view _ := .single (.parameters c.view tp)
        exact told.trans (abort_moves { c with peerTp := tp, log := .parameters :: c.log } _ _)
      · have size_eq : (if tp.maxUdpPayload < c.mtu then tp.maxUdpPayload else c.mtu) =
            min tp.maxUdpPayload c.mtu := by
          split_ifs <;> omega
        rw [size_eq]
        have told : ConnMoves source c.view _ := .single (.accepted c.view tp tp.maxUdpPayload)
        cases token_eq : tp.resetToken with
        | none => exact told
        | some token =>
          exact told.tail (.relabelled _ c.remoteActive
            (fun entry => { entry with resetToken := some token }) fun _ => ⟨rfl, rfl⟩)

theorem tlsComplete_moves (c : QuicConn) : ConnMoves source c.view (tlsComplete env c).view := by
  have opened : ConnMoves source c.view
      { c.view with
        state := if c.state = .handshake ∨ c.state = .new then .connected else c.state } := by
    split
    · next young =>
        exact .single (.opened c.view .connected (young.elim (fun h => .inr (.inl h)) .inl)
          (.inr (.inr rfl)))
    · exact .refl
  unfold tlsComplete
  dsimp only
  split
  · next server => exact opened.tail (.completed _ server)
  · exact opened

theorem tlsEvent_moves (c : QuicConn) (event : TlsEvent) :
    ConnMoves source c.view (tlsEvent env c event).view := by
  cases event with
  | sendCrypto level data =>
    change ConnMoves source c.view (tlsSendCrypto env c.toQuicConnOwn level data).view
    fun_cases tlsSendCrypto <;> exact .refl
  | secrets level read write =>
    change ConnMoves source c.view (tlsSecrets c level read write).view
    fun_cases tlsSecrets <;> exact .refl
  | transportParams data => exact tlsTransportParams_moves c data
  | earlyParams data =>
    change ConnMoves source c.view (tlsEarlyParams c.toQuicConnOwn data).view
    rw [tlsEarlyParams_view]
  | earlyData accepted => exact tlsEarlyData_moves c accepted
  | complete => exact tlsComplete_moves env c
  | alert => exact quicConnClose_moves c.toQuicConnOwn _ _ _

theorem tlsEvents_moves (events : List TlsEvent) (c : QuicConn) :
    ConnMoves source c.view (events.foldl (tlsEvent env) c).view := by
  induction events generalizing c with
  | nil => exact .refl
  | cons event events ih => exact (tlsEvent_moves env c event).trans (ih _)

theorem cryptoDrain_moves (answers : List TlsAnswer)
    (c : QuicConn) : ConnMoves source c.view (cryptoDrain env sp answers c).2.view := by
  fun_induction cryptoDrain env sp answers c with
  | case1 | case2 => exact .refl
  | case3 answer _ c =>
    have told : ConnMoves source c.view _ := tlsEvents_moves env answer.events c
    dsimp only
    split
    · exact told.trans (abort_moves _ _ _)
    · exact told
  | case4 answer _ c => exact tlsEvents_moves env answer.events c
  | case5 answer _ c _ _ _ _ _ ih => exact (tlsEvents_moves env answer.events c).trans ih

/-! ### Packets and datagrams -/

theorem learnPeerCid_moves : ConnMoves source c.view (learnPeerCid c h).view := by
  unfold learnPeerCid
  split
  · exact .single (.relabelled c.view 0 (fun entry => { entry with cid := h.scid })
      fun _ => ⟨rfl, rfl⟩)
  · exact .refl

theorem noteReceived_moves : ConnMoves (some d.peer) c.view (noteReceived c sp ack d).view := by
  unfold noteReceived
  dsimp only
  split
  · next handshake => exact .single (.handshakeRead c.view d.peer rfl handshake.1)
  · exact .refl

theorem finishPacket_moves (c : QuicConn) :
    ConnMoves source c.view (finishPacket env sp eliciting tls now c).view := by
  have owed_view : (if eliciting then onOwn c fun own => noteEliciting own sp now else c).view =
      c.view := by
    split <;> rfl
  have drained : ConnMoves source _ _ := cryptoDrain_moves env sp tls
    (if eliciting then onOwn c fun own => noteEliciting own sp now else c)
  rw [owed_view] at drained
  fun_cases finishPacket env sp eliciting tls now c with
  | case1 _ after handed | case3 _ after handed =>
    rw [handed] at drained
    exact drained
  | case2 _ after handed young =>
    rw [handed] at drained
    exact drained.tail (.opened _ .handshake (.inl young) (.inr (.inl rfl)))

theorem processOpened_moves (p : RecvProgress) :
    ConnMoves (some d.peer) p.conn.view (processOpened env sp d opened now p).conn.view := by
  have learned : ConnMoves (some d.peer) p.conn.view _ :=
    learnPeerCid_moves p.conn.toQuicConnOwn opened.h
  unfold processOpened
  dsimp only
  split
  · exact learned
  · next ack added =>
      have noted := learned.trans
        (noteReceived_moves (learnPeerCid p.conn.toQuicConnOwn opened.h) sp ack d)
      let start : FrameProgress := ⟨false, false, p.probing,
        onOwn (onOwn p.conn fun own => learnPeerCid own opened.h) fun own =>
          noteReceived own sp ack d⟩
      have loop : ConnMoves (some d.peer) start.conn.view _ := processFramesLoop_moves env sp
        opened.h now (opened.payload.length + 1) (quicRdInit opened.payload) start rfl
      have framed := noted.trans loop
      split
      · next failed =>
          rw [processFrames] at failed
          rw [failed] at framed
          exact framed
      · next handled =>
          rw [processFrames] at handled
          rw [handled] at framed
          exact framed.trans (finishPacket_moves env sp _ opened.tls now _)

theorem processPacket_moves (h : QuicPktHdr) (pkt : List UInt8) (now : Time) (p : RecvProgress) :
    ConnMoves (some d.peer) p.conn.view (processPacket env d h pkt now p).conn.view := by
  fun_cases processPacket env d h pkt now p with
  | case1 | case2 | case3 => exact .refl
  | case4 _ _ _ _ _ opened => exact processOpened_moves env _ d opened now p
  | case5 => exact abort_moves p.conn _ _
  | case6 _ _ _ _ _ opened =>
    exact processOpened_moves env _ d opened now { p with conn := onOwn p.conn keyUpdate }

theorem handleVersionNeg_moves : ConnMoves source c.view (handleVersionNeg c h).view := by
  fun_cases handleVersionNeg c h with
  | case4 => exact connSilentClose_moves c _ _
  | _ => exact .refl

theorem handleRetry_moves (genuine : Bool) :
    ConnMoves source c.view (handleRetry c h genuine).view := by
  fun_cases handleRetry c h genuine with
  | case4 =>
    exact .single (.relabelled c.view 0 (fun entry => { entry with cid := h.scid })
      fun _ => ⟨rfl, rfl⟩)
  | _ => exact .refl

theorem checkStatelessReset_moves : ConnMoves source c.view (checkStatelessReset c data).view := by
  fun_cases checkStatelessReset c data with
  | case2 => exact connSilentClose_moves c _ _
  | _ => exact .refl

/-- What the packets of a datagram do, whether or not the call returns early. -/
theorem recvLoop_moves (fuel : Nat) (rest : List UInt8) (p : RecvProgress) :
    match recvLoop env d now fuel rest p with
    | .ok p' => ConnMoves (some d.peer) p.conn.view p'.conn.view
    | .error c => ∃ mid, ConnMoves (some d.peer) p.conn.view mid ∧ SendMoves mid c.view := by
  fun_induction recvLoop env d now fuel rest p with
  | case1 | case2 | case3 | case4 | case7 => exact .refl
  | case5 _ _ p h => exact ⟨_, handleVersionNeg_moves p.conn.toQuicConnOwn h, .refl⟩
  | case6 _ _ p h =>
    let retried := onOwn p.conn fun own => handleRetry own h d.genuine
    exact ⟨retried.view, handleRetry_moves p.conn.toQuicConnOwn h d.genuine,
      (quicConnFlush_sends retried now).2⟩
  | case8 _ rest p h => exact ⟨_, processPacket_moves env d h rest now p, .refl⟩
  | case9 _ rest p h _ _ _ _ _ _ _ _ ih =>
    have packet := processPacket_moves env d h rest now p
    split at ih
    · exact packet.trans ih
    · obtain ⟨mid, moves, sends⟩ := ih
      exact ⟨mid, packet.trans moves, sends⟩

/-- The first entry of a table with an index is the one at that index. -/
theorem live_of_find {remote : List QuicRemoteCid} {active : Nat} {entry : QuicRemoteCid × Nat}
    (found : remote.zipIdx.find? (fun entry => entry.2 ≠ active && entry.1.live) = some entry) :
    (remote.getD entry.2 QuicRemoteCid.zero).live = true := by
  have live := List.find?_some found
  have listed := List.mem_of_find?_eq_some found
  rw [List.mem_zipIdx_iff_getElem?] at listed
  simp only [Bool.and_eq_true] at live
  rw [List.getD_eq_getElem?_getD, listed]
  exact live.2

/-- A new path is challenged at once, whatever is remembered of the one before. -/
theorem pathSwitch_moves (env : ConnEnv) (c : QuicConn) (peer : NetAddr) (peerChose : Bool)
    (now : Time) (prev : Option NetAddr) :
    ConnMoves none { c.view.switched peer peerChose with prev := prev }
      { (pathSwitch env c peer peerChose now).view with prev := prev } := by
  unfold pathSwitch
  unfold quicConnValidatePath
  split
  · exact .single (.deadline _ _)
  · next data drawn =>
      have issued : ConnMoves none { c.view.switched peer peerChose with prev := prev } _ :=
        .single (.issued _ data)
      exact issued.tail (.deadline _ _)

theorem view_pathSwitch_prev (c : QuicConn) (peer : NetAddr) (peerChose : Bool) (now : Time) :
    { (pathSwitch env c peer peerChose now).view with prev := some c.peer } =
      (pathSwitch env c peer peerChose now).view := by
  have prev_eq : (pathSwitch env c peer peerChose now).prev = some c.peer := by
    unfold pathSwitch quicConnValidatePath
    split <;> rfl
  rw [← prev_eq]
  rfl

/-! ### Calls -/

theorem connPeerMoved_turn {env : ConnEnv} {c c' : QuicConn} {d : ConnDatagram} {v : ConnView}
    {now : Time} (elsewhere : d.peer ≠ v.peer) (probing newest : Bool)
    (moves : ConnMoves (some d.peer) (v.receive d) c.view)
    (sends : SendMoves ((connPeerMoved env c d.peer probing newest now).view.counted d) c'.view) :
    ConnTurn (.recv d now) v c'.view := by
  have settled := pathSwitch_moves env c d.peer true now (some c.peer)
  rw [view_pathSwitch_prev] at settled
  revert sends
  fun_cases connPeerMoved env c d.peer probing newest now with
  | case1 => exact .tested d now elsewhere moves
  | case2 => exact .handled d now moves
  | case3 _ stays =>
    simp only [not_or, Bool.not_eq_true', Bool.not_eq_false] at stays
    exact .moved d now elsewhere stays.2.1 moves settled
  | case4 _ stays switched entry found =>
    simp only [not_or, Bool.not_eq_true', Bool.not_eq_false] at stays
    exact .moved d now elsewhere stays.2.1 moves
      (settled.tail (.activated switched.view entry.2 (live_of_find found)))

theorem quicConnRecv_turn (c : QuicConn) (d : ConnDatagram) (now : Time) :
    ConnTurn (.recv d now) c.view (quicConnRecv env c d now).view := by
  let start : QuicConn := { c with
    now := now
    bytesRecv := c.bytesRecv + d.data.length
    log := .received d.peer d.data.length :: c.log }
  have outcome := recvLoop_moves env d now (d.data.length + 1) d.data ⟨false, true, false, start⟩
  have ends (heard : QuicConn) (p : RecvProgress) {after : QuicConn}
      (moves : ConnMoves (some d.peer) (c.view.receive d) heard.view)
      (sends : SendMoves ((if d.peer ≠ c.peer then
        connPeerMoved env heard d.peer p.probing p.newest now else heard).view.counted d)
          after.view) : ConnTurn (.recv d now) c.view after.view := by
    split at sends
    · next elsewhere => exact connPeerMoved_turn elsewhere p.probing p.newest moves sends
    · exact .handled d now moves sends
  fun_cases quicConnRecv env c d now with
  | case1 => exact .calm _ .refl .refl
  | case2 _ _ after failed =>
    rw [failed] at outcome
    obtain ⟨mid, moves, sends⟩ := outcome
    exact .arrived d now moves sends
  | case3 _ _ p done =>
    rw [done] at outcome
    exact .arrived d now (outcome.trans (checkStatelessReset_moves p.conn.toQuicConnOwn d.data))
      .refl
  | case4 _ _ _ p done _ heard =>
    rw [done] at outcome
    exact ends heard p outcome .refl
  | case5 _ _ _ p done _ heard _ counted =>
    rw [done] at outcome
    exact ends heard p outcome (quicConnFlush_sends counted now).2

theorem mtuRaise_moves (c : QuicConn) (now : Time) : ConnMoves source c.view
      (if c.state ≠ .closed ∧ c.mtuState = .done ∧ c.mtuRaiseAt ≠ 0 ∧ now ≥ c.mtuRaiseAt then
        onOwn c fun own =>
          mtuSearch { own with mtuRaiseAt := 0, mtuHigh := mtuCeiling own + 1 } now
      else c).view := by
  split
  · next raise =>
      exact (mtuSearch_moves { c.toQuicConnOwn with
        mtuRaiseAt := 0, mtuHigh := mtuCeiling c.toQuicConnOwn + 1 } now
        (.inl (by simp [raise.2.1]))).connMoves
  · exact .refl

theorem pathValidationFailed_cases (c : QuicConn) :
    ConnMoves none c.view (pathValidationFailed c).view ∨
      ∃ peer, c.prev = some peer ∧ (pathValidationFailed c).view = c.view.fallback peer := by
  unfold pathValidationFailed
  cases left : c.prev with
  | none =>
    let stopped : QuicConnOwn := { c.toQuicConnOwn with pathDeadline := 0, prev := none }
    have same : stopped.view = { c.view with pathDeadline := 0 } := by
      simp only [stopped, QuicConnOwn.view, left]
    have stops : ConnMoves none c.view stopped.view := by
      rw [same]
      exact .single (.deadline c.view 0)
    exact .inl (stops.trans (connSilentClose_moves stopped QUIC_ERR_NO_VIABLE_PATH _))
  | some peer => exact .inr ⟨peer, rfl, rfl⟩

theorem quicConnTick_turn (c : QuicConn) (now : Time) :
    ConnTurn (.tick now) c.view (quicConnTick c now).view := by
  fun_cases quicConnTick c now with
  | case1 | case4 => exact .calm _ .refl .refl
  | case2 => exact .calm _ .refl (quicConnFlush_sends c now).2
  | case3 _ ended => exact .calm _ (.single (.forgotten c.view ended)) .refl
  | case5 => exact .calm _ (connSilentClose_moves c.toQuicConnOwn _ _) .refl
  | case6 _ _ _ late path =>
    have timed : ConnMoves none c.view late.view :=
      recovMoves_moves (s := (c.recov, { c.toQuicConnOwn with now := now }))
        (quicRecovOnTimeout_moves quicRecovHandlers now _)
    have checked : ConnMoves none late.view path.view ∨
        ∃ peer, late.prev = some peer ∧ path.view = late.view.fallback peer := by
      dsimp only [path]
      split
      · exact pathValidationFailed_cases late
      · exact .inl .refl
    have raised : ConnMoves none path.view _ := mtuRaise_moves path now
    rcases checked with ended | ⟨peer, left, view_eq⟩
    · exact .calm _ ((timed.trans ended).trans raised) (quicConnFlush_sends _ now).2
    · exact .fellBack now peer timed left (view_eq ▸ raised) (quicConnFlush_sends _ now).2

theorem quicConnStart_turn (c : QuicConn) (answer : TlsAnswer) (now : Time) :
    ConnTurn (.start answer now) c.view (quicConnStart env c answer now).view := by
  unfold quicConnStart
  split
  · exact .calm _ .refl .refl
  · next fresh =>
      rw [not_or, not_not] at fresh
      let started : QuicConn := { c with
        state := .handshake
        now := now
        idleDeadline := now + idleTimeoutOf c.toQuicConnOwn }
      have opened : ConnMoves none c.view started.view :=
        .single (.opened c.view .handshake (.inl fresh.2) (.inr (.inl rfl)))
      have told := opened.trans (tlsEvents_moves env answer.events started)
      split
      · exact .calm _ told (quicConnFlush_sends _ now).2
      · exact .calm _ told .refl

theorem quicConnMigrate_turn (c : QuicConn) (now : Time) :
    ConnTurn (.migrate now) c.view (quicConnMigrate env c now).view := by
  fun_cases quicConnMigrate env c now with
  | case1 | case2 | case3 => exact .calm _ .refl .refl
  | case4 _ _ entry found =>
    have settled := pathSwitch_moves env c c.peer false now none
    have remote_eq : (pathSwitch env c c.peer false now).remote = c.remote := by
      unfold pathSwitch quicConnValidatePath
      split <;> rfl
    have live := live_of_find found
    rw [← remote_eq] at live
    exact .migrated now (settled.tail (.activated _ entry.2 live))

theorem quicConnValidatePath_moves (c : QuicConnOwn) :
    ConnMoves source c.view (quicConnValidatePath env c).view := by
  unfold quicConnValidatePath
  split
  · exact .refl
  · next data drawn => exact .single (.issued c.view data)

theorem quicConnDatagramSend_turn :
    ConnTurn (.datagramSend data) c.view (quicConnDatagramSend c data).view := by
  fun_cases quicConnDatagramSend c data with
  | case1 | case2 => exact .calm _ .refl .refl
  | case3 idle fits =>
    rw [not_or, not_lt] at fits
    rw [not_or] at idle
    exact .queued c data (by simpa using idle.1) (Nat.pos_of_ne_zero fits.1) fits.2

end Conn

theorem connStep_turn (c : QuicConn) (call : ConnCall) :
    ConnTurn call.op c.view (connStep c call).view := by
  obtain ⟨env, op⟩ := call
  cases op with
  | start answer now => exact Conn.quicConnStart_turn env c answer now
  | recv d now => exact Conn.quicConnRecv_turn env c d now
  | flush now => exact .calm _ .refl (Conn.quicConnFlush_sends c now).2
  | tick now => exact Conn.quicConnTick_turn c now
  | validatePath => exact .calm _ (Conn.quicConnValidatePath_moves env c.toQuicConnOwn) .refl
  | migrate now => exact Conn.quicConnMigrate_turn env c now
  | close => exact .calm _ (Conn.quicConnClose_moves c.toQuicConnOwn _ _ _) .refl
  | datagramSend data => exact Conn.quicConnDatagramSend_turn c.toQuicConnOwn data
  | keyUpdate => exact .calm _ .refl .refl
  | stream op =>
    unfold connStep
    dsimp only
    split <;> exact .calm _ .refl .refl

/-! ### NEW_CONNECTION_ID -/

def ConnEvent.aboutIds : ConnEvent → Bool
  | .newConnId .. | .retired _ | .retireDropped _ => true
  | _ => false

structure IdsOnly (v v' : ConnView) : Prop where
  rest_eq : v' =
    { v with
      remote := v'.remote
      remoteActive := v'.remoteActive
      remoteRetirePrior := v'.remoteRetirePrior
      retireQueue := v'.retireQueue
      log := v'.log }
  noted : ∃ events, v'.log = events ++ v.log ∧ ∀ event ∈ events, event.aboutIds = true

theorem IdsOnly.refl (v : ConnView) : IdsOnly v v := ⟨rfl, [], rfl, by simp⟩

theorem IdsOnly.trans {v v' v'' : ConnView} (first : IdsOnly v v') (second : IdsOnly v' v'') :
    IdsOnly v v'' := by
  obtain ⟨rest₁, events₁, log₁, about₁⟩ := first
  obtain ⟨rest₂, events₂, log₂, about₂⟩ := second
  refine ⟨?_, events₂ ++ events₁, ?_, ?_⟩
  · rw [rest₁] at rest₂
    exact rest₂
  · rw [log₂, log₁, List.append_assoc]
  · intro event noted
    exact (List.mem_append.1 noted).elim (about₂ event) (about₁ event)

namespace Conn

theorem cidQueueRetire_idsOnly (c : QuicConnOwn) (seq : Nat) :
    IdsOnly c.view (cidQueueRetire c seq).view := by
  unfold cidQueueRetire
  dsimp only
  split_ifs
  · exact ⟨rfl, [.retired seq], rfl, by simp [ConnEvent.aboutIds]⟩
  · exact ⟨rfl, [.retired seq], rfl, by simp [ConnEvent.aboutIds]⟩
  · exact ⟨rfl, [.retireDropped seq, .retired seq], rfl, by simp [ConnEvent.aboutIds]⟩

/-- What handling a NEW_CONNECTION_ID keeps until it is done or aborts the connection. -/
theorem handleNewConnId_rule (Kept Done : QuicConnOwn → Prop) {c : QuicConnOwn}
    {frameType seq retirePrior : Nat} (start : Kept c)
    (noted : Kept { c with log := .newConnId seq retirePrior :: c.log })
    (queued : ∀ own seq, Kept own → Kept (cidQueueRetire own seq))
    (ids : ∀ own prior remote active, Kept own → Kept { own with
      remoteRetirePrior := prior, remote := remote, remoteActive := active })
    (done : ∀ own, Kept own → Done own)
    (aborted : ∀ own error, Kept own → Done (quicConnAbort own error frameType))
    (cid token : List UInt8) : Done (handleNewConnId c frameType seq retirePrior cid token).2 := by
  have replaced (own : QuicConnOwn) (kept : Kept own) : Done (remoteReplace own) := by
    fun_cases remoteReplace own with
    | case1 | case2 => exact done own kept
    | case3 => exact done _ (ids own _ _ _ kept)
  have given_back (remote : List QuicRemoteCid) (own : QuicConnOwn) (kept : Kept own) :
      Kept (remoteRetire retirePrior remote own).2 := by
    induction remote generalizing own with
    | nil => exact kept
    | cons entry rest ih =>
      rw [remoteRetire]
      split
      · exact ih own kept
      · exact ih _ (queued own entry.seq kept)
  have stored (own : QuicConnOwn) (kept : Kept own) :
      Done (remoteStore own frameType seq cid token).2 := by
    fun_cases remoteStore own frameType seq cid token with
    | case1 | case3 => exact aborted own _ kept
    | case2 => exact done own kept
    | case4 => exact replaced _ (ids own _ _ _ kept)
  unfold handleNewConnId
  split
  · exact aborted c _ start
  · dsimp only
    generalize retired_eq : (ite (retirePrior > _) _ _ : QuicConnOwn) = retired
    have kept : Kept retired := by
      rw [← retired_eq]
      split
      · exact ids _ _ _ _ (given_back _ _ noted)
      · exact noted
    split
    · exact replaced _ (queued retired seq kept)
    · exact stored retired kept

/-- Handling a NEW_CONNECTION_ID changes the connection IDs, and may close the connection. -/
theorem handleNewConnId_keeps (Good : ConnView → Prop) (c : QuicConnOwn)
    (kept : ∀ {v}, IdsOnly c.view v → Good v)
    (closed : ∀ {v : ConnView}, v.state.Open → Good v →
      Good { v with state := .closing, log := .closed :: v.log }) {frameType seq retirePrior : Nat}
    {cid token : List UInt8} :
    Good (handleNewConnId c frameType seq retirePrior cid token).2.view := by
  refine handleNewConnId_rule (fun own => IdsOnly c.view own.view) (fun own => Good own.view)
    (.refl _) ⟨rfl, [.newConnId seq retirePrior], rfl, by simp [ConnEvent.aboutIds]⟩
    (fun own seq ids => ids.trans (cidQueueRetire_idsOnly own seq))
    (fun own _ _ _ ids => ids.trans ⟨rfl, [], rfl, by simp⟩) (fun own ids => kept ids)
    (fun own error ids => ?_) cid token
  unfold quicConnAbort quicConnClose
  split
  · exact kept ids
  · next live => exact closed (QuicConnState.open_iff.2 live) (kept ids)

end Conn

/-! ### Runs -/

/-- A property of what the promises see that nothing breaks, unless a datagram is queued. -/
structure QuietInvariant (Good : ConnView → Prop) : Prop where
  move : ∀ {source : Option NetAddr} {v v' : ConnView}, ConnMove source v v' → Good v → Good v'
  send : ∀ {v v' : ConnView}, SendMove v v' → Good v → Good v'
  receive : ∀ {v : ConnView} (d : ConnDatagram), Good v → Good (v.receive d)
  counted : ∀ {v : ConnView} (d : ConnDatagram), Good v → Good (v.counted d)
  tested : ∀ {v : ConnView} (peer : NetAddr), Good v →
    Good { v with respondElsewhere := true, respondTo := peer }
  switched : ∀ {v : ConnView} (peer : NetAddr), Good v → Good (v.switched peer true)
  fallback : ∀ {v : ConnView} (peer : NetAddr), v.prev = some peer → Good v →
    Good (v.fallback peer)
  migrated : ∀ {v : ConnView}, Good v → Good { v.switched v.peer false with prev := none }

def Queues (v v' : ConnView) : Prop :=
  ∃ (c : QuicConnOwn) (data : List UInt8), v = c.view ∧ c.dgramOut = none ∧
    0 < Conn.quicConnMaxDatagram c ∧ data.length ≤ Conn.quicConnMaxDatagram c ∧
    v' = { c.view with dgramOut := some data }

/-- A property of what the promises see that nothing breaks. -/
structure ViewInvariant (Good : ConnView → Prop) : Prop extends QuietInvariant Good where
  queued : ∀ {v : ConnView} (data : List UInt8), Good v → Good { v with dgramOut := some data }

section Invariant

variable {Good : ConnView → Prop}

variable {v v' : ConnView}

theorem QuietInvariant.moves (invariant : QuietInvariant Good) {source : Option NetAddr}
    (moves : ConnMoves source v v') (good : Good v) : Good v' :=
  Library.steps_keep moves invariant.move good

theorem QuietInvariant.sends (invariant : QuietInvariant Good)
    (sends : SendMoves v v') (good : Good v) : Good v' :=
  Library.steps_keep sends invariant.send good

theorem QuietInvariant.turn (invariant : QuietInvariant Good) {op : ConnOp}
    (turn : ConnTurn op v v') (good : Good v) : Good v' ∨ Queues v v' := by
  cases turn with
  | queued c data free room fits => exact .inr ⟨c, data, rfl, free, room, fits, rfl⟩
  | calm _ moves sends => exact .inl (invariant.sends sends (invariant.moves moves good))
  | arrived d _ moves sends =>
    exact .inl (invariant.sends sends (invariant.moves moves (invariant.receive d good)))
  | handled d _ moves sends =>
    have handled := invariant.moves moves (invariant.receive d good)
    exact .inl (invariant.sends sends (invariant.counted d handled))
  | tested d _ _ moves sends =>
    have handled := invariant.moves moves (invariant.receive d good)
    exact .inl (invariant.sends sends (invariant.counted d (invariant.tested d.peer handled)))
  | moved d _ _ _ moves settles sends =>
    have handled := invariant.moves moves (invariant.receive d good)
    have settled := invariant.moves settles (invariant.switched d.peer handled)
    exact .inl (invariant.sends sends (invariant.counted d settled))
  | fellBack _ peer moves left settles sends =>
    have back := invariant.fallback peer left (invariant.moves moves good)
    exact .inl (invariant.sends sends (invariant.moves settles back))
  | migrated _ settles => exact .inl (invariant.moves settles (invariant.migrated good))

theorem ViewInvariant.turn (invariant : ViewInvariant Good) {op : ConnOp}
    (turn : ConnTurn op v v') (good : Good v) : Good v' := by
  rcases invariant.toQuietInvariant.turn turn good with kept | ⟨c, data, rfl, -, -, -, rfl⟩
  · exact kept
  · exact invariant.queued data good

/-- What nothing breaks holds in every run. -/
theorem ViewInvariant.run (invariant : ViewInvariant Good) (c : QuicConn) (initially : Good c.view)
    (calls : List ConnCall) : Good (Library.run connStep c calls).view :=
  Library.run_invariant (fun c : QuicConn => Good c.view) initially
    (fun c call good => invariant.turn (connStep_turn c call) good) calls

end Invariant

/-! ### A connection to look at -/

namespace Scene

/-- Memory and random bytes are there when they are asked for. -/
def env : ConnEnv where
  alloc _ := true
  opens _ := true
  cid seq := some (List.replicate 8 (UInt8.ofNat (64 + seq)), List.replicate 16 (UInt8.ofNat seq))
  challenge := some (List.replicate 8 9)

def ownCid : List UInt8 := List.replicate 8 64

/-- The connection ID of its client. -/
def peerCid : List UInt8 := List.replicate 8 1

/-- A server whose client is at address 1. -/
def config (tp : QuicConnParams) : QuicConnConfig where
  server := true
  tp := tp
  localCidLen := 8
  cid := (ownCid, List.replicate 16 0)
  peer := 1
  origDcid := none
  clientDcid := List.replicate 8 5
  peerCid := peerCid

def header (type : QuicPktType) : QuicPktHdr :=
  { quicPktHdrZero with
    type := type
    version := QUIC_VERSION_1
    dcid := ownCid
    scid := if type = .short then [] else peerCid
    pnLen := 1
    lenSize := if type = .short then 0 else 2 }

/-- A datagram of a given size with one packet of the client, and what TLS does with it. -/
def datagram (peer : NetAddr) (type : QuicPktType) (pn : Nat) (frames : List QuicFrame) (size : Nat)
    (tls : List TlsAnswer) : ConnDatagram :=
  let written := frames.flatMap QuicFrame.bytes
  let payload := written ++
    List.replicate (size - quicHdrSize (header type) - QUIC_TAG_LEN - written.length) 0
  { peer := peer
    ecn := none
    data := QuicPktHdr.bytes { header type with
        pn := pn, pnEnc := pn, len := 1 + payload.length + QUIC_TAG_LEN } ++
      (payload ++ List.replicate QUIC_TAG_LEN 0)
    opens := fun found _ => some ⟨{ found with pn := pn }, payload, false, tls⟩
    genuine := false }

/-- The client's first datagram, after which the server can seal 1-RTT packets. -/
def hello (params : List (QuicTp × List UInt8)) : ConnDatagram :=
  datagram 1 .initial 0 [.crypto 0 [1]] 1200
    [⟨true, [.transportParams (tpBytes ((.initScid, peerCid) :: params)),
      .secrets .handshake true true, .sendCrypto .initial [2], .sendCrypto .handshake [3],
      .secrets .app false true]⟩]

def finished : ConnDatagram :=
  datagram 1 .handshake 0 [.crypto 0 [4]] 80 [⟨true, [.secrets .app true false, .complete]⟩]

def handshake (params : List (QuicTp × List UInt8)) : List ConnCall :=
  [⟨env, .recv (hello params) 1000⟩, ⟨env, .recv finished 2000⟩]

/-- A 1-RTT packet of the client arrives. -/
def short (peer : NetAddr) (pn : Nat) (frames : List QuicFrame) (size : Nat) (now : Time) :
    ConnCall :=
  ⟨env, .recv (datagram peer .short pn frames size []) now⟩

end Scene

end Cx.Quic
