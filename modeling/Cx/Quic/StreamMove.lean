import Cx.Quic.Stream
import Mathlib.Logic.Relation

/-!
# What the stream layer can do

Everything a call into the stream layer does is a sequence of a few moves.  `StreamMove` lists them
with the state each one leads to, and what holds in every state is proved by one case per move.
Filling a packet has moves of its own, on a stream and on the packet at once, since what a stream
gives up and what the packet gains go together; such a move names the packet as its carrier.
-/

namespace Cx.Quic

open Library Relation Function

def QuicFill.wrote (fill : QuicFill) (wr : QuicWr) (f : QuicFrame) : QuicFill :=
  ⟨wr, fill.frames ++ [f], true⟩

/-- What filling packet `pn` from one stream does to the stream and to the packet. -/
inductive FillMove (pn : Nat) : QuicStreamState × QuicFill → QuicStreamState × QuicFill → Prop
  | none {st : QuicStreamState} {fill : QuicFill} (wr : QuicWr) :
      FillMove pn (st, fill) (st, { fill with wr := wr })
  | stopSending {st : QuicStreamState} {fill : QuicFill} (wr : QuicWr)
      (waiting : st.stopSending = .pending) :
      FillMove pn (st, fill)
        ({ st with stopSending := .sent pn }, fill.wrote wr (.stopSending st.id st.stopError))
  | maxData {st : QuicStreamState} {fill : QuicFill} (wr : QuicWr)
      (waiting : st.maxData = .pending) :
      FillMove pn (st, fill)
        ({ st with maxData := .sent pn }, fill.wrote wr (.maxStreamData st.id st.inn.limit))
  | reset {st : QuicStreamState} {fill : QuicFill} (wr : QuicWr)
      (waiting : st.reset = .pending) :
      FillMove pn (st, fill)
        ({ st with reset := .sent pn },
          fill.wrote wr (.resetStream st.id st.resetError st.sendFinal))
  | blocked {st : QuicStreamState} {fill : QuicFill} (wr : QuicWr)
      (waiting : st.blocked = .pending) :
      FillMove pn (st, fill)
        ({ st with blocked := .sent pn }, fill.wrote wr (.streamDataBlocked st.id st.sendMax))
  /-- A STREAM frame with bytes, and with the end of the stream if it reaches it. -/
  | data {st : QuicStreamState} {fill : QuicFill} (wr : QuicWr) {max : Nat} {segment : QuicSegment}
      (fin : Bool) (sending : st.sendState = .send ∨ st.sendState = .dataSent)
      (handed : quicSendBufNext st.out max = some segment)
      (ends : fin = true → st.fin = .pending ∧
        segment.off + segment.data.length = st.out.endOff)
      (fits : segment.data.length < QUIC_MAX_PACKET_NUMBER) :
      FillMove pn (st, fill)
        ({ st with
            out := quicSendBufSent st.out segment.off segment.data.length pn
            fin := if fin then .sent pn else st.fin },
          fill.wrote wr
            (.stream fin true (decide (segment.off > 0)) st.id segment.off segment.data))
  | fin {st : QuicStreamState} {fill : QuicFill} (wr : QuicWr)
      (sending : st.sendState = .send ∨ st.sendState = .dataSent) (waiting : st.fin = .pending)
      (drained : quicSendBufPending st.out = false) :
      FillMove pn (st, fill)
        ({ st with fin := .sent pn },
          fill.wrote wr (.stream true true (decide (st.out.endOff > 0)) st.id st.out.endOff []))

def FillMoves (pn : Nat) : QuicStreamState × QuicFill → QuicStreamState × QuicFill → Prop :=
  ReflTransGen (FillMove pn)

variable (ss : QuicStreams) (st : QuicStreamState) (fill : QuicFill) (ctl : QuicCtl) (f : QuicFrame)
  (pn fuel : Nat)

theorem putFrame_cases : (∃ wr, putFrame fill f = (false, { fill with wr := wr })) ∨
      (quicFrameEncode fill.wr f).1 = true ∧
        ∃ wr, putFrame fill f = (true, { fill with wr := wr, frames := fill.frames ++ [f] }) := by
  simp only [putFrame]
  split_ifs with no_room written
  · exact .inl ⟨fill.wr, rfl⟩
  · exact .inr ⟨written, _, rfl⟩
  · exact .inl ⟨_, rfl⟩

theorem bad_quicWrVarint_of_le {value : Nat} (long : QUIC_MAX_PACKET_NUMBER ≤ value) (wr : QuicWr) :
    (quicWrVarint wr value).bad = true := by
  have no_size : quicVarintSize value = 0 := by
    unfold QUIC_MAX_PACKET_NUMBER at long
    unfold quicVarintSize QUIC_MAX_PACKET_NUMBER
    split_ifs <;> omega
  simp [quicWrVarint, quicWrVarintSized, no_size]

/-- A STREAM frame that was written carries no more bytes than its length field can say. -/
theorem length_lt_of_written {wr : QuicWr} {fin hasOff : Bool} {id offset : Nat} {data : List UInt8}
    (written : (quicFrameEncode wr (.stream fin true hasOff id offset data)).1 = true) :
    data.length < QUIC_MAX_PACKET_NUMBER := by
  by_contra long
  simp only [quicFrameEncode] at written
  split_ifs at written
  · simp only [quicFrameFields, if_true] at written
    simp [quicWrBytes, bad_quicWrVarint_of_le (not_lt.mp long)] at written

theorem putCtl_cases : (∃ wr, putCtl fill ctl f pn = ({ fill with wr := wr }, ctl)) ∨
      (ctl = .pending ∧ ∃ wr, putCtl fill ctl f pn = (fill.wrote wr f, .sent pn)) := by
  by_cases waiting : ctl = .pending
  · rcases putFrame_cases fill f with ⟨wr, put_eq⟩ | ⟨-, wr, put_eq⟩
    · exact .inl ⟨wr, by simp [putCtl, waiting, put_eq]⟩
    · exact .inr ⟨waiting, wr, by simp [putCtl, waiting, put_eq, quicCtlSent, QuicFill.wrote]⟩
  · exact .inl ⟨fill.wr, by simp [putCtl, waiting]⟩

/-- Writing one owed frame is a move, whichever item it is. -/
theorem putCtl_moves {σ : Type*} (Move : σ × QuicFill → σ × QuicFill → Prop) {state : σ}
    {fill : QuicFill} {ctl : QuicCtl} {f : QuicFrame} {pn : Nat} (set : QuicCtl → σ)
    (set_ctl : set ctl = state) (none : ∀ wr, Move (state, fill) (state, { fill with wr := wr }))
    (move : ctl = .pending → ∀ wr, Move (state, fill) (set (.sent pn), fill.wrote wr f)) :
    ReflTransGen Move (state, fill)
      (set (putCtl fill ctl f pn).2, (putCtl fill ctl f pn).1) := by
  rcases putCtl_cases fill ctl f pn with ⟨wr, put_eq⟩ | ⟨waiting, wr, put_eq⟩
  · rw [put_eq, set_ctl]
    exact .single (none wr)
  · rw [put_eq]
    exact .single (move waiting wr)

theorem fillStreamCtl_moves : FillMoves pn (st, fill) (fillStreamCtl st fill pn) := by
  have stop : FillMoves pn (st, fill) ({ st with stopSending :=
          (putCtl fill st.stopSending (.stopSending st.id st.stopError) pn).2 },
        (putCtl fill st.stopSending (.stopSending st.id st.stopError) pn).1) :=
    putCtl_moves (FillMove pn) (fun ctl => { st with stopSending := ctl }) rfl .none
      fun waiting wr => .stopSending wr waiting
  simp only [fillStreamCtl]
  generalize putCtl fill st.stopSending (.stopSending st.id st.stopError) pn = stopped at stop ⊢
  have limit : FillMoves pn ({ st with stopSending := stopped.2 }, stopped.1) ({ st with
          stopSending := stopped.2
          maxData := (putCtl stopped.1 st.maxData (.maxStreamData st.id st.inn.limit) pn).2 },
        (putCtl stopped.1 st.maxData (.maxStreamData st.id st.inn.limit) pn).1) :=
    putCtl_moves (FillMove pn)
      (fun ctl => { st with stopSending := stopped.2, maxData := ctl }) rfl .none
      fun waiting wr => .maxData wr waiting
  generalize putCtl stopped.1 st.maxData (.maxStreamData st.id st.inn.limit) pn = limited
    at limit ⊢
  have reset : FillMoves pn ({ st with stopSending := stopped.2, maxData := limited.2 }, limited.1)
      ({ st with
          stopSending := stopped.2
          maxData := limited.2
          reset := (putCtl limited.1 st.reset
            (.resetStream st.id st.resetError st.sendFinal) pn).2 },
        (putCtl limited.1 st.reset (.resetStream st.id st.resetError st.sendFinal) pn).1) :=
    putCtl_moves (FillMove pn)
      (fun ctl => { st with stopSending := stopped.2, maxData := limited.2, reset := ctl }) rfl
        .none
      fun waiting wr => .reset wr waiting
  generalize putCtl limited.1 st.reset (.resetStream st.id st.resetError st.sendFinal) pn = ended
    at reset ⊢
  refine ((stop.trans limit).trans reset).trans ?_
  exact putCtl_moves (FillMove pn) (fun ctl => { st with
      stopSending := stopped.2, maxData := limited.2, reset := ended.2, blocked := ctl }) rfl .none
    fun waiting wr => .blocked wr waiting

theorem fillStreamDataLoop_moves (st : QuicStreamState) (fill : QuicFill)
    (sending : st.sendState = .send ∨ st.sendState = .dataSent) :
    FillMoves pn (st, fill) (fillStreamDataLoop pn fuel st fill) ∧
      (fillStreamDataLoop pn fuel st fill).1.sendState = st.sendState := by
  induction fuel generalizing st fill with
  | zero => exact ⟨.refl, rfl⟩
  | succ fuel ih =>
    rw [fillStreamDataLoop]
    split
    · exact ⟨.refl, rfl⟩
    · split
      · exact ⟨.refl, rfl⟩
      · next segment handed =>
          generalize fin_eq : decide (st.fin = .pending ∧
            segment.off + segment.data.length = st.out.endOff) = fin
          have ends : fin = true → st.fin = .pending ∧
              segment.off + segment.data.length = st.out.endOff := by
            intro fin_true
            rw [← fin_eq] at fin_true
            exact of_decide_eq_true fin_true
          simp only [putStreamFrame]
          rcases putFrame_cases fill
              (.stream fin true (decide (segment.off > 0)) st.id segment.off segment.data) with
            ⟨wr, put_eq⟩ | ⟨written, wr, put_eq⟩
          · simp only [put_eq, Bool.not_false, if_true]
            exact ⟨.single (.none wr), trivial⟩
          · simp only [put_eq, Bool.not_true, Bool.false_eq_true, if_false]
            obtain ⟨moves, state_eq⟩ := ih
              { st with
                out := quicSendBufSent st.out segment.off segment.data.length pn
                fin := if fin then quicCtlSent pn else st.fin }
              (fill.wrote wr
                (.stream fin true (decide (segment.off > 0)) st.id segment.off segment.data))
              sending
            exact ⟨.head (.data wr fin sending handed ends (length_lt_of_written written)) moves,
              state_eq⟩

theorem fillStreamData_moves : FillMoves pn (st, fill) (fillStreamData st fill pn) := by
  unfold fillStreamData
  split_ifs with idle
  · exact .refl
  · have sending : st.sendState = .send ∨ st.sendState = .dataSent := by
      tauto
    obtain ⟨moves, state_eq⟩ :=
      fillStreamDataLoop_moves pn (quicWrLeft fill.wr + 1) st fill sending
    generalize fillStreamDataLoop pn (quicWrLeft fill.wr + 1) st fill = looped at moves state_eq
    obtain ⟨after, filled⟩ := looped
    simp only at state_eq ⊢
    split
    · next ending =>
      simp only [Bool.not_eq_true'] at ending
      simp only [putStreamFrame]
      rcases putFrame_cases filled
          (.stream true true (decide (after.out.endOff > 0)) after.id after.out.endOff []) with
        ⟨wr, put_eq⟩ | ⟨-, wr, put_eq⟩
      · simp only [put_eq, Bool.false_eq_true, if_false]
        exact moves.tail (.none wr)
      · simp only [put_eq, if_true]
        exact moves.tail (.fin wr (state_eq ▸ sending) ending.1 ending.2)
    · exact moves

theorem fillStream_moves : FillMoves pn (st, fill) (fillStream st fill pn) :=
  (fillStreamCtl_moves st fill pn).trans (fillStreamData_moves _ _ pn)

/-- What filling packet `pn` with connection-wide frames does to the items and to the packet. -/
inductive ConnFillMove (pn : Nat) : QuicStreams × QuicFill → QuicStreams × QuicFill → Prop
  | none {ss : QuicStreams} {fill : QuicFill} (wr : QuicWr) :
      ConnFillMove pn (ss, fill) (ss, { fill with wr := wr })
  | maxData {ss : QuicStreams} {fill : QuicFill} (wr : QuicWr) (waiting : ss.maxData = .pending) :
      ConnFillMove pn (ss, fill)
        ({ ss with maxData := .sent pn }, fill.wrote wr (.maxData ss.recvMax))
  | dataBlocked {ss : QuicStreams} {fill : QuicFill} (wr : QuicWr)
      (waiting : ss.dataBlocked = .pending) :
      ConnFillMove pn (ss, fill)
        ({ ss with dataBlocked := .sent pn }, fill.wrote wr (.dataBlocked ss.sendMax))
  | maxStreams {ss : QuicStreams} {fill : QuicFill} (wr : QuicWr) (dir : QuicDir)
      (waiting : ss.maxStreams dir = .pending) :
      ConnFillMove pn (ss, fill)
        ({ ss with maxStreams := update ss.maxStreams dir (.sent pn) },
          fill.wrote wr (.maxStreams dir (ss.recvMaxStreams dir)))
  | streamsBlocked {ss : QuicStreams} {fill : QuicFill} (wr : QuicWr) (dir : QuicDir)
      (waiting : ss.streamsBlocked dir = .pending) :
      ConnFillMove pn (ss, fill)
        ({ ss with streamsBlocked := update ss.streamsBlocked dir (.sent pn) },
          fill.wrote wr (.streamsBlocked dir (ss.sendMaxStreams dir)))

def ConnFillMoves (pn : Nat) : QuicStreams × QuicFill → QuicStreams × QuicFill → Prop :=
  ReflTransGen (ConnFillMove pn)

theorem fillConnDir_moves (dir : QuicDir) :
    ConnFillMoves pn (ss, fill) (fillConnDir ss fill pn dir) := by
  have granted : ConnFillMoves pn (ss, fill) ({ ss with
          maxStreams := update ss.maxStreams dir
            (putCtl fill (ss.maxStreams dir) (.maxStreams dir (ss.recvMaxStreams dir)) pn).2 },
        (putCtl fill (ss.maxStreams dir) (.maxStreams dir (ss.recvMaxStreams dir)) pn).1) :=
    putCtl_moves (ConnFillMove pn)
      (fun ctl => { ss with maxStreams := update ss.maxStreams dir ctl })
      (by rw [update_eq_self]) .none fun waiting wr => .maxStreams wr dir waiting
  simp only [fillConnDir]
  generalize putCtl fill (ss.maxStreams dir) (.maxStreams dir (ss.recvMaxStreams dir)) pn = put
    at granted ⊢
  refine granted.trans (putCtl_moves (ConnFillMove pn) (fun ctl => { ss with
    maxStreams := update ss.maxStreams dir put.2
    streamsBlocked := update ss.streamsBlocked dir ctl }) ?_ .none
    fun waiting wr => .streamsBlocked wr dir waiting)
  rw [update_eq_self]

theorem fillConn_moves : ConnFillMoves pn (ss, fill) (fillConn ss fill pn) := by
  have limit : ConnFillMoves pn (ss, fill)
      ({ ss with maxData := (putCtl fill ss.maxData (.maxData ss.recvMax) pn).2 },
        (putCtl fill ss.maxData (.maxData ss.recvMax) pn).1) :=
    putCtl_moves (ConnFillMove pn) (fun ctl => { ss with maxData := ctl }) rfl .none
      fun waiting wr => .maxData wr waiting
  simp only [fillConn]
  generalize putCtl fill ss.maxData (.maxData ss.recvMax) pn = limited at limit ⊢
  have complaint : ConnFillMoves pn ({ ss with maxData := limited.2 }, limited.1) ({ ss with
          maxData := limited.2
          dataBlocked := (putCtl limited.1 ss.dataBlocked (.dataBlocked ss.sendMax) pn).2 },
        (putCtl limited.1 ss.dataBlocked (.dataBlocked ss.sendMax) pn).1) :=
    putCtl_moves (ConnFillMove pn)
      (fun ctl => { ss with maxData := limited.2, dataBlocked := ctl }) rfl .none
      fun waiting wr => .dataBlocked wr waiting
  exact ((limit.trans complaint).trans (fillConnDir_moves _ _ pn .bidi)).trans
    (fillConnDir_moves _ _ pn .uni)

/-- Some connection-wide item of the stream layer is in packet `pn`. -/
def QuicStreamsCtl.Names (ctl : QuicStreamsCtl) (pn : Nat) : Prop :=
  ctl.maxData = .sent pn ∨ ctl.dataBlocked = .sent pn ∨
    ∃ dir, ctl.maxStreams dir = .sent pn ∨ ctl.streamsBlocked dir = .sent pn

/-- Tell a stream's writer that there is room, if it is to be woken. -/
def QuicStreams.wake (ss : QuicStreams) (woken : Bool) (id : Nat) : QuicStreams :=
  if woken then ss.tell (.writable id) else ss

/-- Which calls are admitted, for a result that holds only under a condition. -/
structure StreamGuard where
  params : QuicTransportParams → Prop
  configure : (sendBufMax sendLow : Nat) → Prop
  /-- Counting that many more bytes as received, on top of `recvOff`. -/
  count : (recvOff amount : Nat) → Prop
  reset : (id : Nat) → QuicRecvState → Prop
  size : (id size : Nat) → Prop
  take : (id count : Nat) → Prop
  acked : (pn : Nat) → Prop
  limit : (id max : Nat) → Prop
  connLimit : (max : Nat) → Prop
  /-- A sender that wanted `want` bytes and had `room` left is refused. -/
  refuse : (id want room : Nat) → Prop
  /-- The peer asks for a stop. -/
  stopped : (id error : Nat) → Prop
  /-- The application asks the peer for one. -/
  stop : (id error : Nat) → Prop

def StreamGuard.any : StreamGuard where
  params := fun _ => True
  configure := fun _ _ => True
  count := fun _ _ => True
  reset := fun _ _ => True
  size := fun _ _ => True
  take := fun _ _ => True
  acked := fun _ => True
  limit := fun _ _ => True
  connLimit := fun _ => True
  refuse := fun _ _ _ => True
  stopped := fun _ _ => True
  stop := fun _ _ => True

/-- What a walk over the list does to the stream it visits: fill a packet from it, or tell it what
became of one. -/
inductive Visit (guard : StreamGuard) (carrier : Option Nat) (st : QuicStreamState) :
    QuicStreamState → Prop
  | filled {pn : Nat} {fill filled : QuicFill} {after : QuicStreamState}
      (carries : carrier = some pn) (moves : FillMoves pn (st, fill) (after, filled)) :
      Visit guard carrier st after
  | acked (pn : Nat) (permitted : guard.acked pn) : Visit guard carrier st (streamAcked st pn)
  | lost (pn : Nat) : Visit guard carrier st (streamLost st pn)

def QuicStreams.arm (ss : QuicStreams) (st : QuicStreamState) : QuicStreams :=
  (streamArm ss st).1.store (streamArm ss st).2

/-- Whether bytes that arrive have somewhere to go. -/
def QuicRecvState.Stores (state : QuicRecvState) : Prop :=
  ¬ (state = .reset ∨ state = .resetRead ∨ state = .dataRead)

/-- A sender waits for as much room as it did, or for what a refusal asks for. -/
def StreamGuard.Waits (guard : StreamGuard) (ss : QuicStreams) (st : QuicStreamState)
    (wait : QuicSendWait) : Prop :=
  wait.sendWaitLow = st.sendWaitLow ∨
    ∃ want room, guard.refuse st.id want room ∧ wait.sendWaitLow = sendWatermark ss want room

inductive StreamMove (env : StreamEnv) (guard : StreamGuard) (carrier : Option Nat)
    (ss : QuicStreams) : QuicStreams → Prop
  | params {tp : QuicTransportParams} (permitted : guard.params tp) :
      StreamMove env guard carrier ss (quicStreamsPeerParams ss tp)
  | configure {sendBufMax sendLow : Nat} (permitted : guard.configure sendBufMax sendLow) :
      StreamMove env guard carrier ss { ss with sendBufMax := sendBufMax, sendLow := sendLow }
  | fail {error : Nat} (frameType : Nat) (nonzero : error ≠ 0) :
      StreamMove env guard carrier ss (streamsFail ss error frameType)
  /-- Connection-wide items changed; what is newly in flight is in the packet being built. -/
  | ctl {ctl : QuicStreamsCtl}
      (names : ∀ pn, ctl.Names pn → ss.toQuicStreamsCtl.Names pn ∨ carrier = some pn) :
      StreamMove env guard carrier ss { ss with toQuicStreamsCtl := ctl }
  /-- The connection's receive limit moves forward if enough was read. -/
  | credit : StreamMove env guard carrier ss (connWindowUpdate ss)
  | connLimit {max : Nat} (raised : ss.sendMax < max) (permitted : guard.connLimit max) :
      StreamMove env guard carrier ss { ss with sendMax := max, dataBlocked := .idle }
  | countLimit (dir : QuicDir) (max : Nat) :
      StreamMove env guard carrier ss (handleMaxStreams ss dir max)
  | admitted {dir : QuicDir} (room : ss.nextRemote dir < ss.recvMaxStreams dir) :
      StreamMove env guard carrier ss (streamAdmitNext ss dir)
  | opened {dir : QuicDir} (room : ss.nextLocal dir < ss.sendMaxStreams dir) :
      StreamMove env guard carrier ss (streamOpenNext ss dir)
  | wait {st : QuicStreamState} (found : ss.byId.find st.id = some st) (wait : QuicSendWait)
      (woken : Bool) (waits : guard.Waits ss st wait) :
      StreamMove env guard carrier ss
        ((ss.wake woken st.id).store { st with toQuicSendWait := wait })
  | limit {st : QuicStreamState} (found : ss.byId.find st.id = some st) {max : Nat}
      (raised : st.sendMax < max) (permitted : guard.limit st.id max) :
      StreamMove env guard carrier ss (ss.store { st with sendMax := max, blocked := .idle })
  | sized {st : QuicStreamState} (found : ss.byId.find st.id = some st) {size : Nat}
      (unknown : st.recvFinalKnown = false) (above : st.recvHighest ≤ size)
      (permitted : guard.size st.id size) :
      StreamMove env guard carrier ss
        (ss.store { st with recvFinal := size, recvFinalKnown := true })
  | counted {st : QuicStreamState} (found : ss.byId.find st.id = some st) {endOff : Nat}
      (receives : canRecv ss st.id = true) (above : st.recvHighest < endOff)
      (below : endOff ≤ st.inn.limit)
      (room : uint64Add ss.recvOff (endOff - st.recvHighest) ≤ ss.recvMax)
      (final : st.recvFinalKnown = true → endOff ≤ st.recvFinal)
      (permitted : guard.count ss.recvOff (endOff - st.recvHighest)) :
      StreamMove env guard carrier ss
        ({ ss with recvOff := uint64Add ss.recvOff (endOff - st.recvHighest) }.store
          { st with recvHighest := endOff })
  /-- Bytes of a stream that were counted are put where they belong. -/
  | placed {st : QuicStreamState} (found : ss.byId.find st.id = some st)
      (stores : st.recvState.Stores) {offset : Nat} {data : List UInt8} {inn : QuicReasm}
      (within : offset + data.length ≤ st.recvHighest)
      (added : quicReasmAdd env.alloc st.inn offset data = some inn) :
      StreamMove env guard carrier ss (ss.store { st with inn := inn })
  | advanced {st : QuicStreamState} (found : ss.byId.find st.id = some st)
      (stores : st.recvState.Stores) :
      StreamMove env guard carrier ss (ss.store (recvAdvance st))
  | notified {st : QuicStreamState} (found : ss.byId.find st.id = some st)
      (stores : st.recvState.Stores) :
      StreamMove env guard carrier ss (recvNotify ss st)
  | peerReset {st : QuicStreamState} (found : ss.byId.find st.id = some st)
      (receives : canRecv ss st.id = true) (known : st.recvFinalKnown = true)
      (final : st.recvFinal ≤ st.recvHighest) (first : st.recvState ≠ .reset)
      (unread : st.recvState ≠ .resetRead) (error : Nat)
      (permitted : guard.reset st.id st.recvState) :
      StreamMove env guard carrier ss
        ((((recvReturn ss (recvAbandon st) st.recvFinal).1.store
          (recvReturn ss (recvAbandon st) st.recvFinal).2).tell (.reset st.id error)).tell
            (.readable st.id))
  | stopped {st : QuicStreamState} (found : ss.byId.find st.id = some st) {error : Nat}
      (permitted : guard.stopped st.id error) :
      StreamMove env guard carrier ss
        ((ss.tell (.stopped st.id error)).store { st with stopError := error })
  | abandon {st : QuicStreamState} (found : ss.byId.find st.id = some st)
      (sending : st.sendState = .ready ∨ st.sendState = .send ∨ st.sendState = .dataSent)
      (error : Nat) :
      StreamMove env guard carrier ss (ss.arm (sendAbandon st error))
  | write {st : QuicStreamState} (found : ss.byId.find st.id = some st) {data : List UInt8}
      {out : QuicSendBuf} (writing : st.sendState = .ready ∨ st.sendState = .send)
      (some_data : 0 < data.length) (fits : data.length ≤ sendRoom ss st)
      (added : quicSendBufAdd env.alloc st.out data = some out) :
      StreamMove env guard carrier ss
        ({ ss with sendOff := ss.sendOff + data.length }.arm
          { st with out := out, sendState := .send })
  /-- The peer will be told that a stream's limit stopped a write. -/
  | complain {st : QuicStreamState} (found : ss.byId.find st.id = some st)
      (writing : st.sendState = .ready ∨ st.sendState = .send)
      (full : st.sendMax ≤ st.out.endOff) :
      StreamMove env guard carrier ss
        (ss.arm { st with sendBlocked := st.sendMax, blocked := quicCtlQueue })
  | finish {st : QuicStreamState} (found : ss.byId.find st.id = some st)
      (writing : st.sendState = .ready ∨ st.sendState = .send) :
      StreamMove env guard carrier ss
        (ss.arm { st with sendState := .dataSent, fin := quicCtlQueue })
  | stop {st : QuicStreamState} (found : ss.byId.find st.id = some st)
      (receiving : st.recvState = .recv) {error : Nat} (permitted : guard.stop st.id error) :
      StreamMove env guard carrier ss
        (ss.arm { st with stopError := error, stopSending := quicCtlQueue })
  | take {st : QuicStreamState} (found : ss.byId.find st.id = some st) {count : Nat}
      (not_reset : st.recvState ≠ .reset) (some_bytes : 0 < count)
      (readable : count ≤ quicReasmReadable st.inn) (permitted : guard.take st.id count) :
      StreamMove env guard carrier ss
        ({ ss with recvRead := uint64Add ss.recvRead count }.store
          { st with inn := quicReasmConsume st.inn count, recvRead := st.recvRead + count })
  | window {st : QuicStreamState} (found : ss.byId.find st.id = some st)
      (receiving : st.recvState = .recv)
      (forward : st.inn.limit < st.recvRead + st.recvWindow) :
      StreamMove env guard carrier ss
        (ss.arm { st with
          inn := { st.inn with limit := st.recvRead + st.recvWindow }
          maxData := quicCtlQueue })
  /-- The application reads the end of a stream the peer finished. -/
  | ended {st : QuicStreamState} (found : ss.byId.find st.id = some st)
      (arrived : st.recvState = .dataRecvd) (drained : quicReasmReadable st.inn = 0) :
      StreamMove env guard carrier ss (streamEnd ss st .dataRead)
  /-- The application reads the end of a stream the peer abandoned. -/
  | endedReset {st : QuicStreamState} (found : ss.byId.find st.id = some st)
      (abandoned : st.recvState = .reset) :
      StreamMove env guard carrier ss (streamEnd ss st .resetRead)
  | dropped (front back : List Nat) {id : Nat} (listed : ss.active = front ++ id :: back)
      (gone : ss.byId.find id = none) :
      StreamMove env guard carrier ss { ss with active := front ++ back }
  | rotated {id : Nat} {rest : List Nat} (listed : ss.active = id :: rest) :
      StreamMove env guard carrier ss { ss with active := rest ++ [id] }
  | kept {st after : QuicStreamState} (found : ss.byId.find st.id = some st)
      (visit : Visit guard carrier st after) (wait : QuicSendWait) (woken : Bool)
      (busy : streamPending after = true ∨ streamOutstanding after = true)
      (waits : guard.Waits ss st wait) :
      StreamMove env guard carrier ss
        ((ss.wake woken st.id).store { after with toQuicSendWait := wait })
  | retired {st after : QuicStreamState} (front back : List Nat)
      (found : ss.byId.find st.id = some st) (listed : ss.active = front ++ st.id :: back)
      (visit : Visit guard carrier st after) (wait : QuicSendWait) (woken : Bool)
      (idle : streamPending after = false) (settled : streamOutstanding after = false)
      (waits : guard.Waits ss st wait) :
      StreamMove env guard carrier ss
        (streamRetire { ss.wake woken st.id with active := front ++ back }
          { after with toQuicSendWait := wait })

inductive StreamChange (env : StreamEnv) (guard : StreamGuard) (carrier : Option Nat)
    (ss : QuicStreams) (st : QuicStreamState) : QuicStreamState → Prop
  | wait (wait : QuicSendWait) (waits : guard.Waits ss st wait) :
      StreamChange env guard carrier ss st { st with toQuicSendWait := wait }
  | limit {max : Nat} (raised : st.sendMax < max) (permitted : guard.limit st.id max) :
      StreamChange env guard carrier ss st { st with sendMax := max, blocked := .idle }
  | sized {size : Nat} (unknown : st.recvFinalKnown = false) (above : st.recvHighest ≤ size)
      (permitted : guard.size st.id size) :
      StreamChange env guard carrier ss st { st with recvFinal := size, recvFinalKnown := true }
  | counted {endOff : Nat} (receives : canRecv ss st.id = true) (above : st.recvHighest < endOff)
      (below : endOff ≤ st.inn.limit)
      (final : st.recvFinalKnown = true → endOff ≤ st.recvFinal) :
      StreamChange env guard carrier ss st { st with recvHighest := endOff }
  | placed (stores : st.recvState.Stores) {offset : Nat} {data : List UInt8} {inn : QuicReasm}
      (within : offset + data.length ≤ st.recvHighest)
      (added : quicReasmAdd env.alloc st.inn offset data = some inn) :
      StreamChange env guard carrier ss st { st with inn := inn }
  | advanced (stores : st.recvState.Stores) :
      StreamChange env guard carrier ss st (recvAdvance st)
  | peerReset (receives : canRecv ss st.id = true) (known : st.recvFinalKnown = true)
      (final : st.recvFinal ≤ st.recvHighest) (first : st.recvState ≠ .reset)
      (unread : st.recvState ≠ .resetRead) (permitted : guard.reset st.id st.recvState) :
      StreamChange env guard carrier ss st
        { recvAbandon st with recvRead := max st.recvRead st.recvFinal }
  | stopped {error : Nat} (permitted : guard.stopped st.id error) :
      StreamChange env guard carrier ss st { st with stopError := error }
  | abandon (sending : st.sendState = .ready ∨ st.sendState = .send ∨ st.sendState = .dataSent)
      (error : Nat) :
      StreamChange env guard carrier ss st { sendAbandon st error with active := true }
  | write {data : List UInt8} {out : QuicSendBuf}
      (writing : st.sendState = .ready ∨ st.sendState = .send) (some_data : 0 < data.length)
      (fits : data.length ≤ sendRoom ss st)
      (added : quicSendBufAdd env.alloc st.out data = some out) :
      StreamChange env guard carrier ss st
        { st with out := out, sendState := .send, active := true }
  | complain (writing : st.sendState = .ready ∨ st.sendState = .send)
      (full : st.sendMax ≤ st.out.endOff) :
      StreamChange env guard carrier ss st
        { st with sendBlocked := st.sendMax, blocked := quicCtlQueue, active := true }
  | finish (writing : st.sendState = .ready ∨ st.sendState = .send) :
      StreamChange env guard carrier ss st
        { st with sendState := .dataSent, fin := quicCtlQueue, active := true }
  | stop (receiving : st.recvState = .recv) {error : Nat} (permitted : guard.stop st.id error) :
      StreamChange env guard carrier ss st
        { st with stopError := error, stopSending := quicCtlQueue, active := true }
  | take {count : Nat} (not_reset : st.recvState ≠ .reset) (some_bytes : 0 < count)
      (readable : count ≤ quicReasmReadable st.inn) (permitted : guard.take st.id count) :
      StreamChange env guard carrier ss st
        { st with inn := quicReasmConsume st.inn count, recvRead := st.recvRead + count }
  | window (receiving : st.recvState = .recv)
      (forward : st.inn.limit < st.recvRead + st.recvWindow) :
      StreamChange env guard carrier ss st
        { st with
          inn := { st.inn with limit := st.recvRead + st.recvWindow }
          maxData := quicCtlQueue
          active := true }
  | ended (arrived : st.recvState = .dataRecvd) (drained : quicReasmReadable st.inn = 0)
      (sending : sendHalfDone st = false) :
      StreamChange env guard carrier ss st { st with recvState := .dataRead }
  | endedReset (abandoned : st.recvState = .reset) (sending : sendHalfDone st = false) :
      StreamChange env guard carrier ss st { st with recvState := .resetRead }
  | kept {after : QuicStreamState} (visit : Visit guard carrier st after) (wait : QuicSendWait)
      (busy : streamPending after = true ∨ streamOutstanding after = true)
      (waits : guard.Waits ss st wait) :
      StreamChange env guard carrier ss st { after with toQuicSendWait := wait }
  | retired {after : QuicStreamState} (visit : Visit guard carrier st after) (wait : QuicSendWait)
      (idle : streamPending after = false) (settled : streamOutstanding after = false)
      (unfinished : sendHalfDone after = false ∨ recvHalfDone after = false)
      (waits : guard.Waits ss st wait) :
      StreamChange env guard carrier ss st
        { after with toQuicSendWait := wait, active := false }

def StreamMoves (env : StreamEnv) (guard : StreamGuard) (carrier : Option Nat) :
    QuicStreams → QuicStreams → Prop :=
  ReflTransGen (StreamMove env guard carrier)

end Cx.Quic
