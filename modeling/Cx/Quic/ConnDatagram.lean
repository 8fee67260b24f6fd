import Cx.Quic.ConnTurn

/-!
# Unreliable datagrams

An unreliable datagram is measured once, when it is queued, against the size of the path and the
length of the connection ID that packets are addressed to.  Both may change while it waits.  Where
neither gets worse the datagram still fits a packet of its own; where one does, no packet ever takes
it, and it holds the slot for good.
-/

namespace Cx.Quic

open Library

/-! ### What fits -/

/-- The largest unreliable datagram, from all that it depends on. -/
def datagramRoom (localTp peerTp : QuicConnParams) (peerTpValid : Bool) (mtu cidLen : Nat) : Nat :=
  if localTp.maxDatagramFrame = 0 ∨ !peerTpValid ∨ peerTp.maxDatagramFrame = 0 then 0
  else
    let cap := if mtu > QUIC_MAX_DATAGRAM then QUIC_MAX_DATAGRAM else mtu
    let extra := 1 + cidLen + 4 + QUIC_TAG_LEN + QUIC_DGRAM_FRAME_OVERHEAD
    if cap ≤ extra then 0
    else
      let byPeer := peerTp.maxDatagramFrame - QUIC_DGRAM_FRAME_OVERHEAD
      if byPeer < cap - extra then byPeer else cap - extra

/-- A larger path and a shorter ID leave more room. -/
theorem datagramRoom_mono {localTp peerTp : QuicConnParams} {peerTpValid : Bool}
    {mtu mtu' cidLen cidLen' : Nat} (mtu_le : mtu ≤ mtu') (len_le : cidLen' ≤ cidLen) :
    datagramRoom localTp peerTp peerTpValid mtu cidLen ≤
      datagramRoom localTp peerTp peerTpValid mtu' cidLen' := by
  unfold datagramRoom
  split
  · exact Nat.zero_le _
  · have cap_le : (if mtu > QUIC_MAX_DATAGRAM then QUIC_MAX_DATAGRAM else mtu) ≤
        if mtu' > QUIC_MAX_DATAGRAM then QUIC_MAX_DATAGRAM else mtu' := by
      split_ifs <;> omega
    dsimp only
    generalize (if mtu > QUIC_MAX_DATAGRAM then QUIC_MAX_DATAGRAM else mtu) = cap at cap_le ⊢
    generalize (if mtu' > QUIC_MAX_DATAGRAM then QUIC_MAX_DATAGRAM else mtu') = cap' at cap_le ⊢
    split_ifs <;> omega

/-- A datagram that is within the limit fits beside the longest short header. -/
theorem datagramRoom_le {localTp peerTp : QuicConnParams} {peerTpValid : Bool} {mtu cidLen : Nat}
    (room : 0 < datagramRoom localTp peerTp peerTpValid mtu cidLen) :
    datagramRoom localTp peerTp peerTpValid mtu cidLen +
        (1 + cidLen + 4 + QUIC_TAG_LEN + QUIC_DGRAM_FRAME_OVERHEAD) ≤
      if mtu > QUIC_MAX_DATAGRAM then QUIC_MAX_DATAGRAM else mtu := by
  unfold datagramRoom at room ⊢
  split at room
  · cases room
  · dsimp only at room ⊢
    generalize (if mtu > QUIC_MAX_DATAGRAM then QUIC_MAX_DATAGRAM else mtu) = cap at room ⊢
    split_ifs at room ⊢ <;> omega

namespace Conn

variable (c : QuicConnOwn)

theorem quicConnMaxDatagram_eq : quicConnMaxDatagram c =
      datagramRoom c.localTp c.peerTp c.peerTpValid c.mtu (remoteCid c).cid.length := rfl

/-- The room in a 1-RTT packet that has a datagram of the path's size to itself. -/
def emptyRoom (c : QuicConnOwn) : Nat :=
  (if c.mtu > QUIC_MAX_DATAGRAM then QUIC_MAX_DATAGRAM else c.mtu) -
    quicHdrSize (buildHdr c .app false
      (quicPnSize (c.pns .app).next (c.pns .app).largestAcked) 0) - QUIC_TAG_LEN

theorem quicHdrSize_buildHdr_le (pnLen : Nat) :
    quicHdrSize (buildHdr c .app false pnLen 0) ≤ 1 + (remoteCid c).cid.length + 4 := by
  have size_eq : quicHdrSize (buildHdr c .app false pnLen 0) =
      if (remoteCid c).cid.length > QUIC_MAX_CID ∨ 0 > QUIC_MAX_CID then 0
      else if pnLen < 1 ∨ pnLen > 4 then 0 else 1 + (remoteCid c).cid.length + pnLen := rfl
  rw [size_eq]
  split_ifs <;> omega

/-- A DATAGRAM frame that can be sent at all has a short length field. -/
theorem quicFrameSize_datagram (data : List UInt8) (short : data.length ≤ QUIC_MAX_DATAGRAM) :
    quicFrameSize (.datagram true data) ≤ QUIC_DGRAM_FRAME_OVERHEAD + data.length ∧
      QuicFrame.Formed (.datagram true data) := by
  unfold QUIC_MAX_DATAGRAM at short
  have length_size : quicVarintSize data.length ≤ 2 := by
    unfold quicVarintSize
    split_ifs <;> omega
  have size_eq : quicFrameSize (.datagram true data) =
      1 + quicVarintSize data.length + data.length := rfl
  refine ⟨?_, rfl, ?_⟩
  · rw [size_eq]
    unfold QUIC_DGRAM_FRAME_OVERHEAD
    omega
  · unfold FitsVarint QUIC_MAX_PACKET_NUMBER
    omega

/-- A datagram within the limit goes into an empty packet. -/
theorem putDatagram_empty {c : QuicConnOwn} {data : List UInt8} (waits : c.dgramOut = some data)
    (room : 0 < quicConnMaxDatagram c) (fits : data.length ≤ quicConnMaxDatagram c) :
    (putDatagram c ⟨quicWrInit (emptyRoom c), [], false⟩).1.dgramOut = none := by
  have header_le := quicHdrSize_buildHdr_le c
    (quicPnSize (c.pns .app).next (c.pns .app).largestAcked)
  have room_le := datagramRoom_le room
  rw [← quicConnMaxDatagram_eq] at room_le
  have cap_le : (if c.mtu > QUIC_MAX_DATAGRAM then QUIC_MAX_DATAGRAM else c.mtu) ≤
      QUIC_MAX_DATAGRAM := by
    split_ifs <;> omega
  obtain ⟨size_le, formed⟩ := quicFrameSize_datagram data (by omega)
  have enough : quicFrameSize (.datagram true data) ≤ emptyRoom c := by
    unfold emptyRoom
    omega
  have length_eq := length_bytes formed.typed formed.size_ne
  have encoded : quicFrameEncode (quicWrInit (emptyRoom c)) (.datagram true data) = (true, _) :=
    quicFrameEncode_eq formed rfl (by
      rw [length_eq]
      exact (Nat.zero_add _).le.trans enough)
  have size_pos : quicFrameSize (.datagram true data) ≠ 0 := by
    change 1 + quicVarintSize data.length + data.length ≠ 0
    omega
  have left_eq : quicWrLeft (quicWrInit (emptyRoom c)) = emptyRoom c := rfl
  have put : (putFrame ⟨quicWrInit (emptyRoom c), [], false⟩ (.datagram true data)).1 = true := by
    unfold putFrame
    rw [left_eq, if_neg (by omega), encoded]
    rfl
  unfold putDatagram
  rw [waits]
  dsimp only
  split
  · next refused =>
      rw [refused] at put
      cases put
  · rfl

end Conn

/-! ### What changes while a datagram waits -/

def ConnView.maxDatagram (v : ConnView) : Nat :=
  datagramRoom v.localTp v.peerTp v.peerTpValid v.size.mtu
    (v.remote.getD v.remoteActive QuicRemoteCid.zero).cid.length

structure SizeSound (size : MtuView) : Prop where
  idle : size.mtuState = .idle → size.mtu ≤ QUIC_INITIAL_MTU ∧ size.mtuProbePn = none
  busy : size.mtuState ≠ .idle → size.mtu ≤ size.mtuLow

/-- Whether an event can leave less room than there was on a path of a given size. -/
def ConnEvent.shrinks (mtu : Nat) : ConnEvent → Bool
  | .parameters => true
  | .switched .. => decide (QUIC_INITIAL_MTU < mtu)
  | _ => false

/-- How often there may have been less room than before. -/
def shrinkings (mtu : Nat) (log : List ConnEvent) : Nat := log.countP (ConnEvent.shrinks mtu)

/-- What is left of the start of a call: no other datagram waits, and the path is no smaller, unless
something happened that can make it so. -/
structure RoomKept (start : ConnView) (localTp peerTp : QuicConnParams) (peerTpValid : Bool)
    (mtu : Nat) (out : Option (List UInt8)) (log : List ConnEvent) : Prop where
  same : out = none ∨ out = start.dgramOut
  grows : shrinkings start.size.mtu start.log ≤ shrinkings start.size.mtu log
  kept : shrinkings start.size.mtu log = shrinkings start.size.mtu start.log →
    localTp = start.localTp ∧ peerTp = start.peerTp ∧ peerTpValid = start.peerTpValid ∧
      start.size.mtu ≤ mtu

section Kept

variable {start v v' : ConnView} {localTp peerTp : QuicConnParams} {peerTpValid : Bool}
  {mtu mtu' : Nat} {out : Option (List UInt8)} {log : List ConnEvent}

section

variable (kept : RoomKept start localTp peerTp peerTpValid mtu out log)

include kept

theorem RoomKept.quiet
    {events : List ConnEvent} (quiet : ∀ event ∈ events, event.shrinks start.size.mtu = false) :
    RoomKept start localTp peerTp peerTpValid mtu out (events ++ log) := by
  have same_count : shrinkings start.size.mtu (events ++ log) = shrinkings start.size.mtu log := by
    have none_shrink : events.countP (ConnEvent.shrinks start.size.mtu) = 0 :=
      List.countP_eq_zero.2 fun event noted shrinks => by
        rw [quiet event noted] at shrinks
        cases shrinks
    rw [shrinkings, List.countP_append, none_shrink, Nat.zero_add]
    rfl
  refine ⟨kept.same, ?_, ?_⟩
  · rw [same_count]
    exact kept.grows
  · rw [same_count]
    exact kept.kept

theorem RoomKept.event {event : ConnEvent} (quiet : event.shrinks start.size.mtu = false) :
    RoomKept start localTp peerTp peerTpValid mtu out (event :: log) := by
  have single : ∀ noted ∈ [event], ConnEvent.shrinks start.size.mtu noted = false :=
    fun noted here => by rw [List.mem_singleton.1 here, quiet]
  exact kept.quiet single

theorem RoomKept.grow
    (larger : mtu ≤ mtu') : RoomKept start localTp peerTp peerTpValid mtu' out log := by
  refine ⟨kept.same, kept.grows, fun unshrunk => ?_⟩
  obtain ⟨local_eq, peer_eq, valid_eq, mtu_le⟩ := kept.kept unshrunk
  exact ⟨local_eq, peer_eq, valid_eq, mtu_le.trans larger⟩

theorem RoomKept.shrink {localTp' peerTp' : QuicConnParams} {peerTpValid' : Bool}
    {event : ConnEvent}
    (shrinks : event.shrinks start.size.mtu = true) :
    RoomKept start localTp' peerTp' peerTpValid' mtu' out (event :: log) := by
  have more : shrinkings start.size.mtu (event :: log) = shrinkings start.size.mtu log + 1 :=
    List.countP_cons_of_pos shrinks
  have grows := kept.grows
  exact ⟨kept.same, by omega, fun unshrunk => by omega⟩

/-- The path changes.  On one that was not larger than any other this takes nothing away. -/
theorem RoomKept.switch {old new : NetAddr} {peerChose : Bool} :
    RoomKept start localTp peerTp peerTpValid QUIC_INITIAL_MTU out
      (.switched old new peerChose :: log) := by
  by_cases large : QUIC_INITIAL_MTU < start.size.mtu
  · exact kept.shrink (decide_eq_true large)
  · have quiet : ConnEvent.shrinks start.size.mtu (.switched old new peerChose) = false :=
      decide_eq_false large
    have noted := kept.event quiet
    refine ⟨noted.same, noted.grows, fun unshrunk => ?_⟩
    obtain ⟨local_eq, peer_eq, valid_eq, -⟩ := noted.kept unshrunk
    exact ⟨local_eq, peer_eq, valid_eq, not_lt.1 large⟩

end

abbrev ConnView.RoomKept (start v : ConnView) : Prop :=
  Quic.RoomKept start v.localTp v.peerTp v.peerTpValid v.size.mtu v.dgramOut v.log

theorem sizeSound_sizeMove (move : SizeMove v v') (sound : SizeSound v.size) :
    SizeSound v'.size := by
  cases move with
  | started state valid idle awake =>
    exact ⟨fun asleep => absurd asleep awake, fun _ => (sound.idle idle).1⟩
  | searched state busy awake =>
    refine ⟨fun asleep => absurd asleep awake, fun _ => ?_⟩
    have active : v.size.mtuState ≠ .idle := by
      intro idle
      rcases busy with not_idle | probing
      · exact not_idle idle
      · rw [(sound.idle idle).2] at probing
        cases probing
    have mtu_le := sound.busy active
    change v.size.mtu ≤ if v.size.mtuLow < QUIC_INITIAL_MTU then QUIC_INITIAL_MTU
      else v.size.mtuLow
    split_ifs <;> omega
  | grown mtu larger probing =>
    refine ⟨fun idle => ?_, fun _ => le_rfl⟩
    have no_probe := (sound.idle idle).2
    rw [no_probe] at probing
    cases probing
  | settled => exact ⟨fun idle => ⟨(sound.idle idle).1, rfl⟩, sound.busy⟩

theorem roomKept_sizeMove (move : SizeMove v v') (sound : SizeSound v.size)
    (kept : start.RoomKept v) : start.RoomKept v' := by
  cases move with
  | grown mtu larger probing =>
    have active : v.size.mtuState ≠ .idle := by
      intro idle
      rw [(sound.idle idle).2] at probing
      cases probing
    exact kept.grow ((sound.busy active).trans larger.le)
  | started | searched | settled => exact kept

def Roomy (start v : ConnView) : Prop := SizeSound v.size ∧ start.RoomKept v

theorem roomy_idsOnly (ids : IdsOnly v v') (roomy : Roomy start v) : Roomy start v' := by
  obtain ⟨rest_eq, events, log_eq, about⟩ := ids
  have quiet : ∀ event ∈ events, event.shrinks start.size.mtu = false := by
    intro event noted
    have about_ids := about event noted
    cases event with
    | newConnId | retired | retireDropped => rfl
    | _ => cases about_ids
  have kept := roomy.2.quiet quiet
  rw [← log_eq] at kept
  rw [rest_eq]
  exact ⟨roomy.1, kept⟩

theorem roomy_connMove {source : Option NetAddr} (move : ConnMove source v v')
    (roomy : Roomy start v) : Roomy start v' := by
  obtain ⟨sound, kept⟩ := roomy
  cases move with
  | size move => exact ⟨sizeSound_sizeMove move sound, roomKept_sizeMove move sound kept⟩
  | closeRead => exact ⟨sound, (kept.event rfl).event rfl⟩
  | newConnId c =>
    exact Conn.handleNewConnId_keeps (Roomy start) c (roomy_idsOnly · ⟨sound, kept⟩)
      fun _ mid => ⟨mid.1, mid.2.event rfl⟩
  | parameters => exact ⟨sound, kept.shrink rfl⟩
  | accepted _ tp mtu =>
    have smaller : min mtu v.size.mtu ≤ v.size.mtu := min_le_right _ _
    exact ⟨⟨fun idle => ⟨smaller.trans (sound.idle idle).1, (sound.idle idle).2⟩,
      fun busy => smaller.trans (sound.busy busy)⟩, kept.shrink rfl⟩
  | forgotten | opened | lost | relabelled | activated | deadline => exact ⟨sound, kept⟩
  | close | silentClose | closeReread | acked | issued | challenged | answered | confirmed
  | completed | handshakeRead => exact ⟨sound, kept.event rfl⟩

theorem roomy_sendMove (move : SendMove v v') (roomy : Roomy start v) : Roomy start v' := by
  obtain ⟨sound, kept⟩ := roomy
  cases move with
  | size move => exact ⟨sizeSound_sizeMove move sound, roomKept_sizeMove move sound kept⟩
  | flushed c c' cap size pn packets frames limit size_le written =>
    have quiet : ConnEvent.shrinks start.size.mtu (.sent c.peer size packets) = false := rfl
    have noted := kept.event quiet
    have same : c'.dgramOut = none ∨ c'.dgramOut = start.dgramOut := by
      rcases written.dgram with unsent | ⟨sent, -⟩
      · rw [unsent]
        exact kept.same
      · exact .inl sent
    rw [written.rest_eq]
    exact ⟨sound, same, noted.grows, noted.kept⟩
  | probed _ size pn searching =>
    have awake : v.size.mtuState ≠ .idle := by
      rw [searching]
      exact nofun
    exact ⟨⟨fun idle => absurd idle awake, sound.busy⟩, kept.event rfl⟩
  | responded => exact ⟨sound, kept.event rfl⟩

theorem roomy_switched (peer : NetAddr) (peerChose : Bool) (prev : Option NetAddr)
    (roomy : Roomy start v) : Roomy start { v.switched peer peerChose with prev := prev } :=
  ⟨⟨fun _ => ⟨le_rfl, rfl⟩, fun busy => absurd rfl busy⟩, roomy.2.switch⟩

end Kept

theorem roomy_invariant (start : ConnView) : QuietInvariant (Roomy start) where
  move := roomy_connMove
  send := roomy_sendMove
  receive _ roomy := ⟨roomy.1, roomy.2.event rfl⟩
  counted _ roomy := roomy
  tested _ roomy := roomy
  switched peer roomy := roomy_switched peer true _ roomy
  fallback _ _ roomy := roomy
  migrated roomy := roomy_switched _ false none roomy

/-! ### Datagrams that can leave -/

structure DatagramFits (c : QuicConn) : Prop where
  sized : SizeSound c.view.size
  fits : ∀ data, c.dgramOut = some data →
    0 < Conn.quicConnMaxDatagram c.toQuicConnOwn ∧
      data.length ≤ Conn.quicConnMaxDatagram c.toQuicConnOwn

/-- While a datagram waits, the peer's parameters do not arrive, a path that was found to carry more
than every path must is not left, and packets are not addressed to a longer connection ID. -/
def RoomStays (c c' : QuicConn) : Prop :=
  c.dgramOut.isSome = true → c'.dgramOut.isSome = true →
    shrinkings c.mtu c'.log = shrinkings c.mtu c.log ∧
      (Conn.remoteCid c'.toQuicConnOwn).cid.length ≤ (Conn.remoteCid c.toQuicConnOwn).cid.length

instance (c c' : QuicConn) : Decidable (RoomStays c c') :=
  inferInstanceAs (Decidable (_ → _ → _))

theorem datagramFits_step (c : QuicConn) (call : ConnCall) (fit : DatagramFits c)
    (stays : RoomStays c (connStep c call)) : DatagramFits (connStep c call) := by
  have start : Roomy c.view c.view :=
    ⟨fit.sized, .inr rfl, le_rfl, fun _ => ⟨rfl, rfl, rfl, le_rfl⟩⟩
  have turn := (roomy_invariant c.view).turn (connStep_turn c call) start
  generalize connStep c call = c' at stays turn ⊢
  rcases turn with ⟨sized, kept⟩ | ⟨own, data, view_eq, -, room, fits, view_eq'⟩
  · refine ⟨sized, fun data waits => ?_⟩
    have waited : c.dgramOut = some data := by
      rcases kept.same with empty | same
      · rw [show c'.dgramOut = none from empty] at waits
        cases waits
      · rw [← waits]
        exact same.symm
    obtain ⟨unshrunk, len_le⟩ := stays (by rw [waited]; rfl) (by rw [waits]; rfl)
    obtain ⟨local_eq, peer_eq, valid_eq, mtu_le⟩ : c'.localTp = c.localTp ∧ c'.peerTp = c.peerTp ∧
        c'.peerTpValid = c.peerTpValid ∧ c.mtu ≤ c'.mtu := kept.kept unshrunk
    have grown : Conn.quicConnMaxDatagram c.toQuicConnOwn ≤
        Conn.quicConnMaxDatagram c'.toQuicConnOwn := by
      rw [Conn.quicConnMaxDatagram_eq, Conn.quicConnMaxDatagram_eq, local_eq, peer_eq, valid_eq]
      exact datagramRoom_mono mtu_le len_le
    have before := fit.fits data waited
    exact ⟨before.1.trans_le grown, before.2.trans grown⟩
  · -- a datagram is queued, and nothing else changes
    have max_eq : Conn.quicConnMaxDatagram c'.toQuicConnOwn = Conn.quicConnMaxDatagram own := by
      change c'.view.maxDatagram = own.view.maxDatagram
      rw [view_eq']
      rfl
    refine ⟨?_, fun other waits => ?_⟩
    · rw [view_eq', ← view_eq]
      exact fit.sized
    · have same : c'.view.dgramOut = some data := by rw [view_eq']
      cases waits.symm.trans same
      rw [max_eq]
      exact ⟨room, fits⟩

/-- A datagram that waits is within the limit and goes into an empty packet, as long as the room for
it does not get smaller while it waits. -/
theorem datagram_can_leave (cfg : QuicConnConfig) (calls : List ConnCall)
    (stays : Admits connStep (fun c call => RoomStays c (connStep c call)) (quicConnCreate cfg)
      calls) (data : List UInt8)
    (waits : (run connStep (quicConnCreate cfg) calls).dgramOut = some data) :
    data.length ≤
        Conn.quicConnMaxDatagram (run connStep (quicConnCreate cfg) calls).toQuicConnOwn ∧
      (Conn.putDatagram (run connStep (quicConnCreate cfg) calls).toQuicConnOwn
        ⟨quicWrInit (Conn.emptyRoom (run connStep (quicConnCreate cfg) calls).toQuicConnOwn), [],
          false⟩).1.dgramOut = none := by
  have fit : DatagramFits (run connStep (quicConnCreate cfg) calls) :=
    admits_invariant DatagramFits ⟨⟨fun _ => ⟨le_rfl, rfl⟩, fun _ => le_rfl⟩, nofun⟩
      datagramFits_step stays
  obtain ⟨room, fits⟩ := fit.fits data waits
  exact ⟨fits, Conn.putDatagram_empty waits room fits⟩

namespace Scene

def datagramParams : QuicConnParams := { quicTpDefaults with maxDatagramFrame := 16000 }

def takesDatagrams : List (QuicTp × List UInt8) := [(.int .maxDatagramFrame, varintBytes 16000)]

end Scene

def fullDatagram : List UInt8 := List.replicate 1168 7

/-- The server queues it, and challenges the path before anything is sent. -/
def queueingCalls : List ConnCall :=
  Scene.handshake Scene.takesDatagrams ++
    [⟨Scene.env, .datagramSend fullDatagram⟩, ⟨Scene.env, .validatePath⟩]

theorem datagram_can_leave_queued : fullDatagram.length ≤ Conn.quicConnMaxDatagram
      (run connStep (quicConnCreate (Scene.config Scene.datagramParams))
        queueingCalls).toQuicConnOwn :=
  (datagram_can_leave (Scene.config Scene.datagramParams) queueingCalls (by decide +kernel)
    fullDatagram (by decide +kernel)).1

/-- Then the client replaces its connection ID by a longer one, and the server sends what it can. -/
def lengtheningCalls : List ConnCall :=
  queueingCalls ++
    [Scene.short 1 0 [.newConnId 1 1 (List.replicate 20 2) (List.replicate 16 2)] 80 3000,
      ⟨Scene.env, .flush 1000000⟩]

/-- The datagram is longer than what the connection says it can send, and no packet takes it. -/
theorem datagram_stuck :
    (run connStep (quicConnCreate (Scene.config Scene.datagramParams)) lengtheningCalls).state =
        .connected ∧
      (run connStep (quicConnCreate (Scene.config Scene.datagramParams))
        lengtheningCalls).dgramOut =
        some fullDatagram ∧
      Conn.quicConnMaxDatagram (run connStep (quicConnCreate (Scene.config Scene.datagramParams))
        lengtheningCalls).toQuicConnOwn < fullDatagram.length ∧
      (Conn.putDatagram
        (run connStep (quicConnCreate (Scene.config Scene.datagramParams))
          lengtheningCalls).toQuicConnOwn
        ⟨quicWrInit (Conn.emptyRoom
          (run connStep (quicConnCreate (Scene.config Scene.datagramParams))
            lengtheningCalls).toQuicConnOwn), [], false⟩).1.dgramOut = some fullDatagram := by
  decide +kernel

end Cx.Quic
