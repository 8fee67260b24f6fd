import Cx.Quic.ConnRecv
import Cx.Quic.Ledger
import Cx.Quic.PacketRoom

/-!
# What a connection can do

A call into a connection runs through many handlers, but what they do to the path, the connection
IDs of the peer, the state of the connection and the record of what happened is one of a few moves.
`ConnView` is that part of a connection, and `ConnTurn` says how a call is made of moves: what
arrives is handled first, then the path may change, and what is sent goes out last.
-/

namespace Cx.Quic

open Relation

def QuicConnState.Open (state : QuicConnState) : Prop :=
  state = .new ∨ state = .handshake ∨ state = .connected

instance (state : QuicConnState) : Decidable state.Open :=
  inferInstanceAs (Decidable (_ ∨ _ ∨ _))

theorem QuicConnState.open_iff {state : QuicConnState} :
    state.Open ↔ ¬ (state = .closing ∨ state = .draining ∨ state = .closed) := by
  cases state <;> simp [QuicConnState.Open]

structure MtuView where
  mtu : Nat
  mtuLow : Nat
  mtuState : QuicMtuState
  mtuProbePn : Option Nat

structure ConnView extends QuicConnPath where
  size : MtuView
  remote : List QuicRemoteCid
  remoteActive : Nat
  remoteRetirePrior : Nat
  addrValidated : Bool
  pathResponse : QuicCtl
  pathResponseData : List UInt8
  pathChallengeData : List UInt8
  retireQueue : List QuicRetire
  server : Bool
  state : QuicConnState
  localTp : QuicConnParams
  peerTp : QuicConnParams
  peerTpValid : Bool
  bytesRecv : Nat
  bytesSent : Nat
  dgramOut : Option (List UInt8)
  log : List ConnEvent

def QuicConnOwn.view (c : QuicConnOwn) : ConnView :=
  { c.toQuicConnPath with
    size := ⟨c.mtu, c.mtuLow, c.mtuState, c.mtuProbePn⟩
    remote := c.remote
    remoteActive := c.remoteActive
    remoteRetirePrior := c.remoteRetirePrior
    addrValidated := c.addrValidated
    pathResponse := c.pathResponse
    pathResponseData := c.pathResponseData
    pathChallengeData := c.pathChallengeData
    retireQueue := c.retireQueue
    server := c.server
    state := c.state
    localTp := c.localTp
    peerTp := c.peerTp
    peerTpValid := c.peerTpValid
    bytesRecv := c.bytesRecv
    bytesSent := c.bytesSent
    dgramOut := c.dgramOut
    log := c.log }

abbrev QuicConn.view (c : QuicConn) : ConnView := c.toQuicConnOwn.view

/-! ### The moves -/

inductive SizeMove : ConnView → ConnView → Prop
  | started (v : ConnView) (state : QuicMtuState) (valid : v.pathValidated = true)
      (idle : v.size.mtuState = .idle) (awake : state ≠ .idle) :
      SizeMove v { v with size := { v.size with mtuLow := QUIC_INITIAL_MTU, mtuState := state } }
  | searched (v : ConnView) (state : QuicMtuState)
      (busy : v.size.mtuState ≠ .idle ∨ v.size.mtuProbePn.isSome) (awake : state ≠ .idle) :
      SizeMove v
        { v with
          size := { v.size with
            mtuLow := if v.size.mtuLow < QUIC_INITIAL_MTU then QUIC_INITIAL_MTU else v.size.mtuLow
            mtuState := state } }
  | grown (v : ConnView) (mtu : Nat) (larger : v.size.mtuLow < mtu)
      (probing : v.size.mtuProbePn.isSome = true) :
      SizeMove v { v with size := { v.size with mtu := mtu, mtuLow := mtu } }
  | settled (v : ConnView) : SizeMove v { v with size := { v.size with mtuProbePn := none } }

/-- What handling what arrives can do; `source` is where the datagram came from, if there is one. -/
inductive ConnMove (source : Option NetAddr) : ConnView → ConnView → Prop
  | size {v v' : ConnView} (move : SizeMove v v') : ConnMove source v v'
  | close (v : ConnView) (live : v.state.Open) :
      ConnMove source v { v with state := .closing, log := .closed :: v.log }
  | silentClose (v : ConnView) (live : v.state.Open) :
      ConnMove source v { v with state := .closed, log := .closed :: v.log }
  | forgotten (v : ConnView) (ended : v.state = .closing ∨ v.state = .draining) :
      ConnMove source v { v with state := .closed }
  | closeRead (v : ConnView) (news : v.state ≠ .draining ∧ v.state ≠ .closed) :
      ConnMove source v
        { v with state := .draining, log := .closed :: .closeRead v.state :: v.log }
  | closeReread (v : ConnView) (known : v.state = .draining ∨ v.state = .closed) :
      ConnMove source v { v with state := .draining, log := .closeRead v.state :: v.log }
  | opened (v : ConnView) (state : QuicConnState) (live : v.state.Open) (still_live : state.Open) :
      ConnMove source v { v with state := state }
  | acked (v : ConnView) (pn : Nat) :
      ConnMove source v
        { v with
          pathResponse := (quicCtlAcked v.pathResponse pn).2
          retireQueue := Conn.retireAcked pn v.retireQueue
          log := .acked pn :: v.log }
  | lost (v : ConnView) (pn : Nat) :
      ConnMove source v
        { v with
          pathResponse := (quicCtlLost v.pathResponse pn).2
          retireQueue := v.retireQueue.map fun entry =>
            { entry with ctl := (quicCtlLost entry.ctl pn).2 } }
  | newConnId (c : QuicConnOwn) (frameType seq retirePrior : Nat) (cid token : List UInt8)
      (ordered : retirePrior ≤ seq) :
      ConnMove source c.view (Conn.handleNewConnId c frameType seq retirePrior cid token).2.view
  | relabelled (v : ConnView) (slot : Nat) (relabel : QuicRemoteCid → QuicRemoteCid)
      (kept : ∀ entry, (relabel entry).live = entry.live ∧ (relabel entry).seq = entry.seq) :
      ConnMove source v { v with remote := v.remote.modify slot relabel }
  | activated (v : ConnView) (slot : Nat)
      (live : (v.remote.getD slot QuicRemoteCid.zero).live = true) :
      ConnMove source v { v with remoteActive := slot }
  | parameters (v : ConnView) (tp : QuicConnParams) :
      ConnMove source v { v with peerTp := tp, log := .parameters :: v.log }
  | accepted (v : ConnView) (tp : QuicConnParams) (mtu : Nat) :
      ConnMove source v
        { v with
          peerTp := tp
          peerTpValid := true
          size := { v.size with mtu := min mtu v.size.mtu }
          log := .parameters :: v.log }
  | issued (v : ConnView) (data : List UInt8) :
      ConnMove source v
        { v with
          pathChallengeData := data
          pathValidated := false
          log := .issued v.peer data :: v.log }
  | deadline (v : ConnView) (time : Time) : ConnMove source v { v with pathDeadline := time }
  | challenged (v : ConnView) (data : List UInt8) (arrives : source.isSome = true) :
      ConnMove source v
        { v with
          pathResponseData := data
          pathResponse := .pending
          respondElsewhere := false
          log := .challenged data :: v.log }
  | answered (v : ConnView) :
      ConnMove source v
        { v with
          pathValidated := true
          pathDeadline := 0
          prev := none
          log := .answered v.peer v.pathChallengeData :: v.log }
  | confirmed (v : ConnView) :
      ConnMove source v { v with pathValidated := true, log := .confirmed v.peer :: v.log }
  | completed (v : ConnView) (server : v.server = true) :
      ConnMove source v
        { v with
          pathValidated := true
          addrValidated := true
          log := .confirmed v.peer :: v.log }
  | handshakeRead (v : ConnView) (peer : NetAddr) (from_source : source = some peer)
      (server : v.server = true) :
      ConnMove source v { v with addrValidated := true, log := .handshakeRead peer :: v.log }

abbrev SizeMoves : ConnView → ConnView → Prop := ReflTransGen SizeMove

abbrev ConnMoves (source : Option NetAddr) : ConnView → ConnView → Prop :=
  ReflTransGen (ConnMove source)

/-- An entry of the retire queue before and after a packet is filled: it may be written into it. -/
def Announced (pn : Nat) (frames : List QuicFrame) (entry entry' : QuicRetire) : Prop :=
  entry' = entry ∨
    entry' = { entry with ctl := .sent pn } ∧ QuicFrame.retireConnId entry.seq ∈ frames

/-- What the frames of a packet say about the connection that wrote them. -/
structure Written (pn : Nat) (frames : List QuicFrame) (c c' : QuicConnOwn) : Prop where
  rest_eq : c'.view =
    { c.view with
      pathResponse := c'.pathResponse
      retireQueue := c'.retireQueue
      dgramOut := c'.dgramOut }
  retires : List.Forall₂ (Announced pn frames) c.retireQueue c'.retireQueue
  response : c'.pathResponse = c.pathResponse ∨
    c'.pathResponse = .sent pn ∧ .pathResponse c.pathResponseData ∈ frames
  /-- A response carries what the last challenge did, and goes where everything else goes. -/
  responses : ∀ data, QuicFrame.pathResponse data ∈ frames →
    c.respondElsewhere = false ∧ c.pathResponse = .pending ∧ data = c.pathResponseData
  dgram : c'.dgramOut = c.dgramOut ∨
    c'.dgramOut = none ∧ ∃ data, c.dgramOut = some data ∧ .datagram true data ∈ frames

inductive SendMove : ConnView → ConnView → Prop
  | size {v v' : ConnView} (move : SizeMove v v') : SendMove v v'
  | flushed (c c' : QuicConnOwn) (cap size pn : Nat) (packets : List SentPacket)
      (frames : List QuicFrame) (limit : Conn.flushCap c = some cap) (size_le : size ≤ cap)
      (written : Written pn frames c c')
      (app : ∀ frame ∈ frames, ∃ packet ∈ packets, packet.sp = .app ∧ packet.pn = pn ∧
        packet.frames = frames)
      (others : ∀ packet ∈ packets, ∀ data, .pathResponse data ∈ packet.frames →
        packet.frames = frames) :
      SendMove c.view
        { c'.view with
          bytesSent := c.bytesSent + size
          pathSent := c.pathSent + size
          log := .sent c.peer size packets :: c.log }
  | probed (v : ConnView) (size pn : Nat) (searching : v.size.mtuState = .searching) :
      SendMove v
        { v with
          size := { v.size with mtuProbePn := some pn }
          bytesSent := v.bytesSent + size
          pathSent := v.pathSent + size
          log := .sent v.peer size [⟨.app, pn, [.ping]⟩] :: v.log }
  | responded (v : ConnView) (size pn : Nat) (elsewhere : v.respondElsewhere = true)
      (waiting : v.pathResponse = .pending) :
      SendMove v
        { v with
          pathResponse := .sent pn
          bytesSent := v.bytesSent + size
          pathSent := v.pathSent + size
          log := .sent v.respondTo size
            [⟨.app, pn, [.pathResponse v.pathResponseData]⟩] :: v.log }

abbrev SendMoves : ConnView → ConnView → Prop := ReflTransGen SendMove

def ConnView.receive (v : ConnView) (d : ConnDatagram) : ConnView :=
  { v with
    bytesRecv := v.bytesRecv + d.data.length
    log := .received d.peer d.data.length :: v.log }

def ConnView.counted (v : ConnView) (d : ConnDatagram) : ConnView :=
  { v with pathRecv := v.pathRecv + d.data.length }

def ConnView.switched (v : ConnView) (peer : NetAddr) (peerChose : Bool) : ConnView :=
  { v with
    prev := some v.peer
    peer := peer
    pathValidated := false
    pathSent := 0
    pathRecv := 0
    pathAmpLimited := peerChose
    size := ⟨QUIC_INITIAL_MTU, v.size.mtuLow, .idle, none⟩
    log := .switched v.peer peer peerChose :: v.log }

def ConnView.fallback (v : ConnView) (peer : NetAddr) : ConnView :=
  { v with
    pathDeadline := 0
    peer := peer
    prev := none
    pathValidated := true
    pathSent := 0
    pathRecv := 0
    pathAmpLimited := false }

inductive ConnTurn : ConnOp → ConnView → ConnView → Prop
  | calm (op : ConnOp) {v mid v' : ConnView} (moves : ConnMoves none v mid)
      (sends : SendMoves mid v') : ConnTurn op v v'
  | arrived (d : ConnDatagram) (now : Time) {v mid v' : ConnView}
      (moves : ConnMoves (some d.peer) (v.receive d) mid) (sends : SendMoves mid v') :
      ConnTurn (.recv d now) v v'
  | handled (d : ConnDatagram) (now : Time) {v mid v' : ConnView}
      (moves : ConnMoves (some d.peer) (v.receive d) mid) (sends : SendMoves (mid.counted d) v') :
      ConnTurn (.recv d now) v v'
  | tested (d : ConnDatagram) (now : Time) {v mid v' : ConnView} (elsewhere : d.peer ≠ v.peer)
      (moves : ConnMoves (some d.peer) (v.receive d) mid)
      (sends : SendMoves
        ({ mid with respondElsewhere := true, respondTo := d.peer }.counted d) v') :
      ConnTurn (.recv d now) v v'
  | moved (d : ConnDatagram) (now : Time) {v mid after v' : ConnView} (elsewhere : d.peer ≠ v.peer)
      (server : mid.server = true) (moves : ConnMoves (some d.peer) (v.receive d) mid)
      (settles : ConnMoves none (mid.switched d.peer true) after)
      (sends : SendMoves (after.counted d) v') :
      ConnTurn (.recv d now) v v'
  | fellBack (now : Time) {v mid after v' : ConnView} (peer : NetAddr)
      (moves : ConnMoves none v mid) (left : mid.prev = some peer)
      (settles : ConnMoves none (mid.fallback peer) after) (sends : SendMoves after v') :
      ConnTurn (.tick now) v v'
  | migrated (now : Time) {v v' : ConnView}
      (settles : ConnMoves none { v.switched v.peer false with prev := none } v') :
      ConnTurn (.migrate now) v v'
  | queued (c : QuicConnOwn) (data : List UInt8) (free : c.dgramOut = none)
      (room : 0 < Conn.quicConnMaxDatagram c) (fits : data.length ≤ Conn.quicConnMaxDatagram c) :
      ConnTurn (.datagramSend data) c.view { c.view with dgramOut := some data }

theorem SizeMoves.connMoves {source : Option NetAddr} {v v' : ConnView} (moves : SizeMoves v v') :
    ConnMoves source v v' :=
  ReflTransGen.mono (fun _ _ => ConnMove.size) _ _ moves

theorem SizeMoves.sendMoves {v v' : ConnView} (moves : SizeMoves v v') : SendMoves v v' :=
  ReflTransGen.mono (fun _ _ => SendMove.size) _ _ moves

/-! ### Closing and the search for the path's size -/

namespace Conn

variable {source : Option NetAddr}
variable (c : QuicConnOwn) (now : Time) (error : Nat) (app : Bool) (reason : List UInt8)

theorem quicConnClose_moves : ConnMoves source c.view (quicConnClose c error app reason).view := by
  unfold quicConnClose
  split
  · exact .refl
  · next live => exact .single (.close c.view (QuicConnState.open_iff.2 live))

theorem quicConnAbort_moves (frameType : Nat) :
    ConnMoves source c.view (quicConnAbort c error frameType).view :=
  quicConnClose_moves c error false []

theorem connSilentClose_moves : ConnMoves source c.view (connSilentClose c error reason).view := by
  unfold connSilentClose
  split
  · exact .refl
  · next not_closed =>
      split
      · next ended => exact .single (.forgotten c.view ended)
      · next live =>
          refine .single (.silentClose c.view (QuicConnState.open_iff.2 ?_))
          rintro (closing | draining | closed)
          · exact live (.inl closing)
          · exact live (.inr draining)
          · exact not_closed closed

theorem handleConnClose_moves (now : Time) : ConnMoves source c.view
    (handleConnClose c error app reason now).view := by
  unfold handleConnClose
  dsimp only
  split
  · next news => exact .single (.closeRead c.view news)
  · next known =>
      refine .single (.closeReread c.view ?_)
      by_contra unknown
      exact known (not_or.1 unknown)

/-- A search that goes on has a result. -/
theorem mtuSearch_view : ∃ state, state ≠ .idle ∧ (mtuSearch c now).view =
      { c.view with
        size := { c.view.size with
          mtuLow := if c.mtuLow < QUIC_INITIAL_MTU then QUIC_INITIAL_MTU else c.mtuLow
          mtuState := state } } := by
  unfold mtuSearch
  simp only
  by_cases high : c.mtuHigh > mtuCeiling c + 1 <;> by_cases low : c.mtuLow < QUIC_INITIAL_MTU <;>
    simp only [high, low, if_true, if_false] <;> split
  all_goals first
    | exact ⟨.done, by simp, rfl⟩
    | exact ⟨.searching, by simp, rfl⟩

theorem mtuSearch_moves (busy : c.mtuState ≠ .idle ∨ c.mtuProbePn.isSome) :
    SizeMoves c.view (mtuSearch c now).view := by
  obtain ⟨state, awake, view_eq⟩ := mtuSearch_view c now
  rw [view_eq]
  exact .single (.searched c.view state busy awake)

theorem mtuStart_moves : SizeMoves c.view (mtuStart c now).view := by
  unfold mtuStart
  split
  · exact .refl
  · next start =>
      simp only [not_or, not_not, Bool.not_eq_true', Bool.not_eq_false] at start
      obtain ⟨state, awake, view_eq⟩ := mtuSearch_view
        { c with mtuLow := QUIC_INITIAL_MTU, mtuHigh := mtuCeiling c + 1 } now
      rw [view_eq]
      exact .single (.started c.view state start.2.2 start.1 awake)

/-- The number of a probe is what says that a search is going on, so it is forgotten last. -/
theorem mtuSearch_settles (now : Time) (probing : c.mtuProbePn.isSome) :
    SizeMoves c.view (mtuSearch { c with mtuProbePn := none } now).view := by
  obtain ⟨state, awake, view_eq⟩ := mtuSearch_view { c with mtuProbePn := none } now
  rw [view_eq]
  have searched : SizeMoves c.view _ := .single (.searched c.view state (.inr probing) awake)
  exact searched.tail (.settled _)

/-- The answer to a probe may raise the size, and the search goes on. -/
theorem mtuProbeAcked_moves (size : Nat) (now : Time) (probing : c.mtuProbePn.isSome) :
    SizeMoves c.view (mtuProbeAcked { c with mtuProbePn := none } size now).1.view := by
  unfold mtuProbeAcked
  split
  · next larger =>
      let grown : QuicConnOwn := { c with mtuLow := size, mtu := size, mtuProbing := 0 }
      have raised : SizeMoves c.view grown.view := .single (.grown c.view size larger probing)
      exact raised.trans (mtuSearch_settles grown now probing)
  · exact mtuSearch_settles { c with mtuProbing := 0 } now probing

/-- A probe that was lost is forgotten, and the search may go on. -/
theorem mtuProbeLost_settles (size : Nat) (now : Time) (probing : c.mtuProbePn.isSome) :
    SizeMoves c.view (mtuProbeLost { c with mtuProbePn := none } size now).view := by
  unfold mtuProbeLost
  dsimp only
  split
  · exact .single (.settled c.view)
  · split
    · exact mtuSearch_settles { c with
        mtuTries := c.mtuTries + 1, mtuHigh := size, mtuProbing := 0 } now probing
    · exact mtuSearch_settles { c with mtuTries := c.mtuTries + 1, mtuProbing := 0 } now probing

/-- A probe that could not be built narrows the search. -/
theorem mtuProbeLost_moves (size : Nat) (now : Time)
    (searching : c.mtuState = .searching) : SizeMoves c.view (mtuProbeLost c size now).view := by
  have busy : c.mtuState ≠ .idle ∨ c.mtuProbePn.isSome := .inl (by simp [searching])
  unfold mtuProbeLost
  dsimp only
  split
  · exact .refl
  · split
    · exact mtuSearch_moves { c with
        mtuTries := c.mtuTries + 1, mtuHigh := size, mtuProbing := 0 } now busy
    · exact mtuSearch_moves { c with mtuTries := c.mtuTries + 1, mtuProbing := 0 } now busy

/-! ### Loss recovery -/

variable (sp : QuicPns) (pn : Nat) (recov : QuicRecovery)

theorem connOnAcked_moves (c : QuicConnOwn) :
    ConnMoves source c.view (connOnAcked sp pn recov c).1.view := by
  unfold connOnAcked
  split
  · exact .refl
  · let own := setSpace c sp (spaceAcked (c.pns sp) pn (quicRecovMarkedEct0 recov sp pn))
    let phased : QuicConnOwn := if pn ≥ own.txPhaseFirst then { own with keyPhaseAcked := true }
      else own
    have phased_view : phased.view = c.view := by
      dsimp only [phased]
      split <;> rfl
    change ConnMoves source c.view (itemsAcked (if phased.mtuProbePn = some pn then
      mtuProbeAcked { phased with mtuProbePn := none } phased.mtuProbing phased.now
        else (phased, none)).1 pn).view
    rw [← phased_view]
    split
    · next probe =>
        have measured : ConnMoves source phased.view _ :=
          (mtuProbeAcked_moves phased phased.mtuProbing phased.now (by simp [probe])).connMoves
        exact measured.tail (.acked _ pn)
    · exact .single (.acked _ pn)

theorem connOnLost_moves (c : QuicConnOwn) :
    ConnMoves source c.view (connOnLost sp pn recov c).view := by
  unfold connOnLost
  dsimp only
  split
  · exact .refl
  · split
    · next probe =>
        exact (mtuProbeLost_settles (setSpace c sp (spaceLost (c.pns sp) pn)) _ _
          (by simp [probe])).connMoves
    · exact .single (.lost _ pn)

/-- Whatever loss recovery does, the connection hears of it through its handlers. -/
theorem recovMoves_moves {s s' : QuicRecovery × QuicConnOwn}
    (moves : RecovMoves quicRecovHandlers s s') : ConnMoves source s.2.view s'.2.view := by
  induction moves with
  | refl => exact .refl
  | tail _ move ih =>
    cases move with
    | still => exact ih
    | acked own sp front back p =>
      exact ih.trans (connOnAcked_moves sp p.pn _ own)
    | @lost _ after own sp front back p => exact ih.trans (connOnLost_moves sp p.pn after own)
    | trimmed => exact ih

end Conn

end Cx.Quic
