import Cx.Library.Run
import Cx.Quic.StreamMove

/-!
# Taking the stream layer apart

Every function of the stream layer is a sequence of moves, shown once here.  The walk over the list
of streams that fills a packet also gets an induction rule.  A guard that restricts the moves asks
the same of the calls.
-/

namespace Cx.Quic

open Library Relation List Function

variable {counted later sized : QuicStreamState} {failed start : QuicStreams}
  {endOff error size : Nat}

variable (ss : QuicStreams) (st : QuicStreamState)

@[simp] theorem find_store (id : Nat) :
    (ss.store st).byId.find id = if id = st.id then some st else ss.byId.find id :=
  Table.find_put ss.byId st id

theorem find_store_self : (ss.store st).byId.find st.id = some st := by
  simp

theorem store_of_find {ss : QuicStreams} {st : QuicStreamState} {id : Nat}
    (found : ss.byId.find id = some st) : ss.store st = ss := by
  rw [QuicStreams.store, Table.put_of_find found]

variable {first second : QuicStreamState}

theorem store_store (same : first.id = second.id) :
    (ss.store first).store second = ss.store second := by
  simp only [QuicStreams.store, Table.put_put ss.byId same]

theorem store_wake_store (woken : Bool) (id : Nat) (same : first.id = second.id) :
    ((ss.store first).wake woken id).store second = (ss.wake woken id).store second := by
  cases woken
  · exact store_store ss same
  · exact store_store (ss.tell (.writable id)) same

theorem quicStreamFind_eq {ss : QuicStreams} {id : Nat} {st : QuicStreamState}
    (found : quicStreamFind ss id = some st) : ss.byId.find st.id = some st := by
  have id_eq : st.id = id := Table.key_of_find found
  rw [id_eq]
  exact found

/-- Waiting keeps the watermark or sets the one it asks for. -/
theorem sendWait_eq (want room : Nat) :
    ∃ wait : QuicSendWait, sendWait ss st want room = { st with toQuicSendWait := wait } ∧
      (wait.sendWaitLow = st.sendWaitLow ∨ wait.sendWaitLow = sendWatermark ss want room) := by
  fun_cases sendWait ss st want room with
  | case1 => exact ⟨st.toQuicSendWait, rfl, .inl rfl⟩
  | case2 low => exact ⟨⟨low, true⟩, rfl, .inr rfl⟩

theorem sendStall_eq : ∃ wait : QuicSendWait, sendStall ss st = { st with toQuicSendWait := wait } ∧
      (wait.sendWaitLow = st.sendWaitLow ∨ wait.sendWaitLow = sendWatermark ss 1 0) := by
  unfold sendStall
  split_ifs
  · exact sendWait_eq ss st 1 0
  · exact ⟨st.toQuicSendWait, rfl, .inl rfl⟩

theorem sendUnblock_eq : ∃ (wait : QuicSendWait) (woken : Bool),
      sendUnblock ss st = (ss.wake woken st.id, { st with toQuicSendWait := wait }) ∧
      wait.sendWaitLow = st.sendWaitLow := by
  fun_cases sendUnblock ss st with
  | case1 | case2 => exact ⟨st.toQuicSendWait, false, rfl, rfl⟩
  | case3 => exact ⟨⟨st.sendWaitLow, false⟩, true, rfl, rfl⟩

theorem arm_eq : ss.arm st = { ss with
      byId := ss.byId.put { st with active := true }
      active := if st.active then ss.active else ss.active ++ [st.id] } := by
  unfold QuicStreams.arm streamArm
  split_ifs with listed
  · have same : st = { st with active := true } := by rw [← listed]
    rw [← same]
    rfl
  · rfl

theorem store_arm (same : first.id = second.id) : (ss.store first).arm second = ss.arm second := by
  have same_active : first.id = { second with active := true }.id := same
  simp only [arm_eq, QuicStreams.store, Table.put_put ss.byId same_active]

@[simp] theorem id_recvAdvance : (recvAdvance st).id = st.id := by
  unfold recvAdvance
  dsimp only
  split_ifs <;> rfl

/-- Advancing leads from a state that stores bytes to one that does. -/
theorem stores_recvAdvance {st : QuicStreamState} (stores : st.recvState.Stores) :
    (recvAdvance st).recvState.Stores := by
  unfold recvAdvance
  dsimp only
  split_ifs
  all_goals simp_all [QuicRecvState.Stores]

theorem streamsFail_store (error frameType : Nat) :
    (streamsFail ss error frameType).store st = streamsFail (ss.store st) error frameType := by
  unfold streamsFail
  exact apply_ite (QuicStreams.store · st) _ _ _

theorem connWindowUpdate_store :
    connWindowUpdate (ss.store st) = (connWindowUpdate ss).store st := by
  unfold connWindowUpdate
  dsimp only
  rw [apply_ite (QuicStreams.store · st), apply_ite (QuicStreams.store · st)]
  rfl

theorem connWindowUpdate_tell (event : QuicStreamEvent) :
    connWindowUpdate (ss.tell event) = (connWindowUpdate ss).tell event := by
  unfold connWindowUpdate
  dsimp only
  rw [apply_ite (QuicStreams.tell · event), apply_ite (QuicStreams.tell · event)]
  rfl

/-- Returning credit is counting the bytes and then moving the connection's limit. -/
theorem recvRelease_eq (upto : Nat) :
    recvRelease ss st upto = recvReturn ss st upto ∨
      recvRelease ss st upto =
        (connWindowUpdate (recvReturn ss st upto).1, (recvReturn ss st upto).2) := by
  unfold recvRelease
  split_ifs
  · exact .inl rfl
  · exact .inr rfl

theorem recvReturn_store (upto : Nat) (same : first.id = second.id) :
    (recvReturn (ss.store first) second upto).1.store (recvReturn (ss.store first) second upto).2 =
      (recvReturn ss second upto).1.store (recvReturn ss second upto).2 := by
  unfold recvReturn
  split_ifs
  · exact store_store ss same
  · have same_read : first.id = { second with recvRead := upto }.id := same
    simp only [QuicStreams.store, Table.put_put ss.byId same_read]

theorem streamAcked_wait (wait : QuicSendWait) (pn : Nat) :
    streamAcked { st with toQuicSendWait := wait } pn =
      { streamAcked st pn with toQuicSendWait := wait } := by
  unfold streamAcked
  dsimp only
  split_ifs <;> rfl

theorem wait_streamAcked (pn : Nat) :
    (streamAcked st pn).toQuicSendWait = st.toQuicSendWait := by
  fun_cases streamAcked st pn <;> rfl

/-- What the answer to a packet makes of a stream, apart from who is waiting. -/
def streamAnswer (st : QuicStreamState) (pn : Nat) (acked : Bool) : QuicStreamState :=
  if acked then streamAcked st pn else streamLost st pn

@[simp] theorem id_streamAnswer (pn : Nat) (acked : Bool) :
    (streamAnswer st pn acked).id = st.id := by
  unfold streamAnswer streamAcked streamLost
  dsimp only
  split_ifs <;> rfl

/-- Only an acknowledgement can raise the watermark. -/
theorem streamResolve_eq (pn : Nat) (acked : Bool) :
    ∃ (wait : QuicSendWait) (woken : Bool), streamResolve ss st pn acked =
      (ss.wake woken st.id, { streamAnswer st pn acked with toQuicSendWait := wait }) ∧
      (wait.sendWaitLow = st.sendWaitLow ∨
        acked = true ∧ wait.sendWaitLow = sendWatermark ss 1 0) := by
  cases acked with
  | false => exact ⟨st.toQuicSendWait, false, rfl, .inl rfl⟩
  | true =>
    obtain ⟨stalled, stall_eq, low⟩ := sendStall_eq ss st
    obtain ⟨wait, woken, unblock_eq, low_eq⟩ := sendUnblock_eq ss
      { streamAnswer st pn true with toQuicSendWait := stalled }
    refine ⟨wait, woken, ?_, ?_⟩
    · have id_eq : ss.wake woken st.id = ss.wake woken (streamAnswer st pn true).id := by
        rw [id_streamAnswer]
      rw [id_eq, streamResolve, if_pos rfl, stall_eq, streamAcked_wait]
      exact unblock_eq
    · rw [low_eq]
      exact low.imp_right fun raised => ⟨rfl, raised⟩

@[simp] theorem active_wake (woken : Bool) (id : Nat) : (ss.wake woken id).active = ss.active := by
  cases woken <;> rfl

@[simp] theorem byId_wake (woken : Bool) (id : Nat) : (ss.wake woken id).byId = ss.byId := by
  cases woken <;> rfl

@[simp] theorem active_streamForget (id : Nat) : (streamForget ss id).active = ss.active := by
  unfold streamForget streamsGrantMore
  dsimp only
  split_ifs <;> rfl

@[simp] theorem active_streamSettle :
    (streamSettle ss st).active = ss.active := by
  unfold streamSettle
  split_ifs
  · rfl
  · exact active_streamForget ss st.id

section Ctl

variable {ctl answer : QuicCtl} {pn other : Nat}

/-- An item that a packet carried is not sent once the packet is answered. -/
theorem answered_eq_sent (unsent : ∀ pn, answer ≠ .sent pn) :
    (if ctl = .sent pn then answer else ctl) = .sent other ↔ ctl = .sent other ∧ other ≠ pn := by
  split_ifs with carried
  · simp [carried, unsent, eq_comm]
  · refine ⟨fun sent => ⟨sent, ?_⟩, fun both => both.1⟩
    rintro rfl
    exact carried sent

theorem quicCtlAcked_eq_sent :
    (quicCtlAcked ctl pn).2 = .sent other ↔ ctl = .sent other ∧ other ≠ pn := by
  rw [quicCtlAcked, apply_ite Prod.snd]
  exact answered_eq_sent nofun

theorem quicCtlLost_eq_sent :
    (quicCtlLost ctl pn).2 = .sent other ↔ ctl = .sent other ∧ other ≠ pn := by
  rw [quicCtlLost, apply_ite Prod.snd]
  exact answered_eq_sent nofun

end Ctl

/-- The connection's items name no packet that they did not, but for those of one set. -/
theorem names_of_items {ctl ctl' : QuicStreamsCtl} {Fresh : Nat → Prop}
    (maxData : ∀ pn, ctl'.maxData = .sent pn → ctl.maxData = .sent pn ∨ Fresh pn)
    (dataBlocked : ∀ pn, ctl'.dataBlocked = .sent pn → ctl.dataBlocked = .sent pn ∨ Fresh pn)
    (maxStreams : ∀ dir pn, ctl'.maxStreams dir = .sent pn →
      ctl.maxStreams dir = .sent pn ∨ Fresh pn)
    (streamsBlocked : ∀ dir pn, ctl'.streamsBlocked dir = .sent pn →
      ctl.streamsBlocked dir = .sent pn ∨ Fresh pn) (pn : Nat) (named : ctl'.Names pn) :
    ctl.Names pn ∨ Fresh pn := by
  rcases named with sent | sent | ⟨dir, sent | sent⟩
  · exact (maxData pn sent).imp_left .inl
  · exact (dataBlocked pn sent).imp_left fun sent => .inr (.inl sent)
  · exact (maxStreams dir pn sent).imp_left fun sent => .inr (.inr ⟨dir, .inl sent⟩)
  · exact (streamsBlocked dir pn sent).imp_left fun sent => .inr (.inr ⟨dir, .inr sent⟩)

/-- One of the items of both kinds of streams is put. -/
theorem update_eq_sent {items : QuicDir → QuicCtl} {dir kind : QuicDir} {ctl : QuicCtl} {pn : Nat}
    (sent : update items dir ctl kind = .sent pn) : items kind = .sent pn ∨ ctl = .sent pn := by
  by_cases same : kind = dir
  · subst same
    rw [update_self] at sent
    exact .inr sent
  · rw [update_of_ne same] at sent
    exact .inl sent

theorem streamForget_store :
    streamForget (ss.store st) st.id = streamForget ss st.id := by
  have erased : (ss.byId.put st).erase st.id = ss.byId.erase st.id := Table.erase_put ss.byId st
  simp only [streamForget, QuicStreams.tell, QuicStreams.store, erased]
  rfl

theorem streamEnd_store (state : QuicRecvState) :
    streamEnd (ss.store st) st state = streamEnd ss st state := by
  unfold streamEnd streamSettle
  split_ifs
  · have same : st.id = { st with recvState := state }.id := rfl
    rw [store_store ss same]
  · exact congrArg (QuicStreams.tell · _) (streamForget_store ss st)

section Decomposition

variable {env : StreamEnv} {guard : StreamGuard} {carrier : Option Nat}

/-- What stands before and after a place of a list, and what is left without it. -/
theorem split_of_getElem? {ids : List Nat} {i id : Nat} (here : ids[i]? = some id) :
    ∃ front back, ids = front ++ id :: back ∧ ids.eraseIdx i = front ++ back := by
  obtain ⟨inside, rfl⟩ := List.getElem?_eq_some_iff.1 here
  refine ⟨ids.take i, ids.drop (i + 1), ?_, eraseIdx_eq_take_drop_succ ..⟩
  rw [cons_getElem_drop_succ, take_append_drop]

/-- A sender of the stream stored last starts or stops waiting. -/
theorem wait_store (wait : QuicSendWait) (woken : Bool) (waits : guard.Waits ss st wait) :
    StreamMove env guard carrier (ss.store st)
      ((ss.wake woken st.id).store { st with toQuicSendWait := wait }) := by
  have same : st.id = { st with toQuicSendWait := wait }.id := rfl
  rw [← store_wake_store ss woken st.id same]
  exact .wait (find_store_self ss st) wait woken waits

variable {ss before after : QuicStreams} {st : QuicStreamState} {id frameType pn : Nat}
  {data : List UInt8}

/-- The stream stored last changes, and is stored instead. -/
theorem moves_of_store (same : st.id = later.id)
    (move : StreamMove env guard carrier (ss.store st) ((ss.store st).store later)) :
    StreamMoves env guard carrier (ss.store st) (ss.store later) := by
  rw [store_store ss same] at move
  exact .single move

/-- The stream stored last changes and has something to send. -/
theorem moves_of_arm (same : st.id = later.id)
    (move : StreamMove env guard carrier (ss.store st) ((ss.store st).arm later)) :
    StreamMoves env guard carrier (ss.store st) (ss.arm later) := by
  rw [store_arm ss same] at move
  exact .single move

theorem sendUnblock_moves (found : ss.byId.find st.id = some st) :
    StreamMoves env guard carrier ss ((sendUnblock ss st).1.store (sendUnblock ss st).2) := by
  obtain ⟨wait, woken, unblock_eq, low⟩ := sendUnblock_eq ss st
  rw [unblock_eq]
  exact .single (.wait found wait woken (.inl low))

theorem forEach_induction (ss : QuicStreams) (visit : QuicStreams → QuicStreamState → QuicStreams)
    (Good : QuicStreams → Prop) (initially : Good ss)
    (preserved : ∀ ss st, Good ss → ss.byId.find st.id = some st → Good (visit ss st)) :
    Good (ss.forEach visit) := by
  unfold QuicStreams.forEach
  generalize ss.byId.keys = ids
  induction ids generalizing ss with
  | nil => exact initially
  | cons id ids ih =>
    rw [foldl_cons]
    refine ih _ ?_
    split
    · exact initially
    · next st found => exact preserved ss st initially (quicStreamFind_eq found)

theorem connMaxData_moves (ss : QuicStreams) {max : Nat} (permitted : guard.connLimit max)
    (stalls : ∀ id, guard.refuse id 1 0) :
    StreamMoves env guard carrier ss (connMaxData ss max) := by
  unfold connMaxData
  split_ifs with lower
  · exact .refl
  · dsimp only
    obtain ⟨waited, sendMax_eq⟩ := forEach_induction ss (fun ss st => ss.store (sendStall ss st))
      (fun after => StreamMoves env guard carrier ss after ∧ after.sendMax = ss.sendMax)
      ⟨.refl, rfl⟩ (by
        intro before st ⟨moves, sendMax_eq⟩ found
        obtain ⟨wait, stall_eq, low⟩ := sendStall_eq before st
        rw [stall_eq]
        exact ⟨moves.tail (.wait found wait false (low.imp_right fun raised =>
          ⟨1, 0, stalls st.id, raised⟩)), sendMax_eq⟩)
    refine forEach_induction _ _ (StreamMoves env guard carrier ss)
      (waited.tail (.connLimit (sendMax_eq ▸ Nat.lt_of_not_le lower) permitted)) ?_
    intro before st moves found
    exact moves.trans (sendUnblock_moves found)

theorem streamMaxData_moves (found : ss.byId.find st.id = some st) {max : Nat}
    (permitted : guard.limit st.id max) (stalls : guard.refuse st.id 1 0) :
    StreamMoves env guard carrier ss (streamMaxData ss st max).2 := by
  unfold streamMaxData
  split_ifs with lower
  · exact .refl
  · obtain ⟨wait, stall_eq, low⟩ := sendStall_eq ss st
    obtain ⟨later, woken, unblock_eq, low_eq⟩ := sendUnblock_eq ss
      { st with toQuicSendWait := wait, sendMax := max, blocked := .idle }
    have waits : guard.Waits ss { st with sendMax := max, blocked := .idle } later := by
      refine low.imp low_eq.trans fun raised => ⟨1, 0, stalls, low_eq.trans raised⟩
    simp only [stall_eq, unblock_eq]
    exact .head (.limit found (Nat.lt_of_not_le lower) permitted)
      (.single (wait_store ss { st with sendMax := max, blocked := .idle } later woken waits))

/-- What is true of a stream that a frame names, once every stream it opens exists. -/
structure Admitted (before : QuicStreams) (id : Nat) (after : QuicStreams)
    (st : QuicStreamState) : Prop where
  found : after.byId.find id = some st
  origin : after = before ∨ (before.byId.find id = none ∧ st = streamInit before id)
  config : after.toQuicStreamsConfig = before.toQuicStreamsConfig
  flow : after.toQuicRecvFlow = before.toQuicRecvFlow

@[simp] theorem config_streamsFail (ss : QuicStreams) (error frameType : Nat) :
    (streamsFail ss error frameType).toQuicStreamsConfig = ss.toQuicStreamsConfig := by
  unfold streamsFail
  split_ifs <;> rfl

@[simp] theorem recvFlow_streamsFail (ss : QuicStreams) (error frameType : Nat) :
    (streamsFail ss error frameType).toQuicRecvFlow = ss.toQuicRecvFlow := by
  unfold streamsFail
  split_ifs <;> rfl

@[simp] theorem byId_streamsFail (ss : QuicStreams) (error frameType : Nat) :
    (streamsFail ss error frameType).byId = ss.byId := by
  unfold streamsFail
  split_ifs <;> rfl

/-- Admitting streams is a sequence of moves that leaves every other stream alone. -/
structure Widened (env : StreamEnv) (guard : StreamGuard) (carrier : Option Nat)
    (before after : QuicStreams) : Prop where
  moves : StreamMoves env guard carrier before after
  config : after.toQuicStreamsConfig = before.toQuicStreamsConfig
  flow : after.toQuicRecvFlow = before.toQuicRecvFlow
  finds (id : Nat) : after.byId.find id = before.byId.find id ∨
    after.byId.find id = some (streamInit before id)

theorem Widened.refl (ss : QuicStreams) : Widened env guard carrier ss ss :=
  ⟨.refl, rfl, rfl, fun _ => .inl rfl⟩

theorem Widened.trans {middle : QuicStreams} (first : Widened env guard carrier before middle)
    (second : Widened env guard carrier middle after) : Widened env guard carrier before after := by
  refine ⟨first.moves.trans second.moves, second.config.trans first.config,
    second.flow.trans first.flow, fun id => ?_⟩
  rcases second.finds id with same | fresh
  · rw [same]
    exact first.finds id
  · exact .inr (fresh.trans (by simp only [streamInit, first.config]))

theorem widened_streamsFail (ss : QuicStreams) (frameType : Nat) (nonzero : error ≠ 0) :
    Widened env guard carrier ss (streamsFail ss error frameType) :=
  ⟨.single (.fail frameType nonzero), by simp, by simp, fun id => by simp⟩

theorem widened_streamAdmitNext {dir : QuicDir} (room : ss.nextRemote dir < ss.recvMaxStreams dir) :
    Widened env guard carrier ss (streamAdmitNext ss dir) := by
  refine ⟨.single (.admitted room), rfl, rfl, fun id => ?_⟩
  have find_eq : (streamAdmitNext ss dir).byId.find id =
      if id = remoteNextId ss dir then some (streamInit ss (remoteNextId ss dir))
      else ss.byId.find id := find_store ss (streamInit ss (remoteNextId ss dir)) id
  rw [find_eq]
  split_ifs with next
  · exact .inr (next ▸ rfl)
  · exact .inl rfl

theorem streamAdmitLoop_spec (dir : QuicDir) (frameType count : Nat) (ss : QuicStreams)
    (room : ss.nextRemote dir + count ≤ ss.recvMaxStreams dir) :
    Widened env guard carrier ss (streamAdmitLoop env dir frameType count ss).2 := by
  fun_induction streamAdmitLoop env dir frameType count ss with
  | case1 => exact .refl _
  | case2 count ss admitted opens ih =>
    have next_eq : admitted.nextRemote dir = ss.nextRemote dir + 1 := update_self dir _ _
    have max_eq : admitted.recvMaxStreams dir = ss.recvMaxStreams dir := rfl
    exact (widened_streamAdmitNext (by omega)).trans (ih (by omega))
  | case3 =>
    exact (widened_streamAdmitNext (by omega)).trans
      (widened_streamsFail _ frameType (by decide))

theorem streamAdmit_spec (ss : QuicStreams) (id frameType : Nat) :
    Widened env guard carrier ss (streamAdmit env ss id frameType).2 := by
  fun_cases streamAdmit env ss id frameType with
  | case1 =>
    dsimp only
    split_ifs
    · exact widened_streamsFail ss frameType (by decide)
    · exact .refl ss
  | case2 => exact .refl ss
  | case3 => exact widened_streamsFail ss frameType (by decide)
  | case4 dir => exact streamAdmitLoop_spec dir frameType _ ss (by omega)

/-- Finding the stream a frame names is a sequence of moves, and what is found was admitted. -/
theorem streamForFrame_spec (ss : QuicStreams) (id frameType : Nat) :
    StreamMoves env guard carrier ss (streamForFrame env ss id frameType).2.2 ∧
      ∀ st, (streamForFrame env ss id frameType).1 = some st →
        Admitted ss id (streamForFrame env ss id frameType).2.2 st := by
  have widened : Widened env guard carrier ss _ := streamAdmit_spec ss id frameType
  fun_cases streamForFrame env ss id frameType with
  | case1 st found =>
    refine ⟨.refl, ?_⟩
    rintro _ ⟨⟩
    exact ⟨found, .inl rfl, rfl, rfl⟩
  | case2 absent after admits =>
    rw [admits] at widened
    refine ⟨widened.moves, fun st found => ⟨found, ?_, widened.config, widened.flow⟩⟩
    dsimp only [quicStreamFind] at found absent
    rcases widened.finds id with same | fresh
    · rw [same, absent] at found
      cases found
    · rw [fresh] at found
      exact .inr ⟨absent, (Option.some.inj found).symm⟩
  | case3 absent admitted after admits =>
    rw [admits] at widened
    exact ⟨widened.moves, by rintro st ⟨⟩⟩

/-- A frame about a stream is handled in moves if what is done with the stream is. -/
theorem withStream_moves {allowed : Bool} {act : QuicStreams → QuicStreamState → Bool × QuicStreams}
    (act_moves : allowed = true → ∀ after st, Admitted ss id after st →
      StreamMoves env guard carrier after (act after st).2) :
    StreamMoves env guard carrier ss (withStream env ss allowed id frameType act).2 := by
  have spec : StreamMoves env guard carrier ss (streamForFrame env ss id frameType).2.2 ∧ _ :=
    streamForFrame_spec ss id frameType
  obtain ⟨moves, admitted⟩ := spec
  fun_cases withStream env ss allowed id frameType act with
  | case1 => exact .single (.fail frameType (by decide))
  | case2 permitted st _ after found_eq =>
    rw [found_eq] at moves admitted
    exact moves.trans (act_moves (by simpa using permitted) after st (admitted st rfl))
  | case3 _ _ after found_eq =>
    rw [found_eq] at moves
    exact moves

theorem recvFinalSize_error (refused : recvFinalSize ss st size frameType = .error failed) :
    failed = streamsFail ss QUIC_ERR_FINAL_SIZE_ERROR frameType := by
  unfold recvFinalSize at refused
  split_ifs at refused <;> exact (Except.error.inj refused).symm

theorem recvFinalSize_ok (accepted : recvFinalSize ss st size frameType = .ok sized) :
    (st.recvFinalKnown = true ∧ st.recvFinal = size ∧ sized = st) ∨
      (st.recvFinalKnown = false ∧ st.recvHighest ≤ size ∧
        sized = { st with recvFinal := size, recvFinalKnown := true }) := by
  unfold recvFinalSize at accepted
  split_ifs at accepted with known other_size low
  · exact .inl ⟨known, by omega, (Except.ok.inj accepted).symm⟩
  · exact .inr ⟨by simpa using known, by omega, (Except.ok.inj accepted).symm⟩

/-- Learning the final size is a move, and changes nothing else. -/
theorem recvFinalSize_spec (found : ss.byId.find st.id = some st)
    (permitted : guard.size st.id size)
    (accepted : recvFinalSize ss st size frameType = .ok sized) :
    StreamMoves env guard carrier ss (ss.store sized) ∧
      sized = { st with recvFinal := size, recvFinalKnown := true } ∧
      (st.recvFinalKnown = false ∨ st.recvFinal = size) := by
  rcases recvFinalSize_ok accepted with ⟨known, same, rfl⟩ | ⟨unknown, above, rfl⟩
  · rw [store_of_find found]
    refine ⟨.refl, ?_, .inr same⟩
    rw [← same, ← known]
  · exact ⟨.single (.sized found unknown above permitted), rfl, .inl unknown⟩

theorem recvAccount_error (refused : recvAccount ss st endOff frameType = .error failed) :
    failed = streamsFail ss QUIC_ERR_FLOW_CONTROL_ERROR frameType := by
  unfold recvAccount at refused
  dsimp only at refused
  split_ifs at refused <;> exact (Except.error.inj refused).symm

theorem recvAccount_ok (accepted : recvAccount ss st endOff frameType = .ok (after, counted)) :
    (endOff ≤ st.recvHighest ∧ after = ss ∧ counted = st) ∨
      (st.recvHighest < endOff ∧ endOff ≤ st.inn.limit ∧
        uint64Add ss.recvOff (endOff - st.recvHighest) ≤ ss.recvMax ∧
        after = { ss with recvOff := uint64Add ss.recvOff (endOff - st.recvHighest) } ∧
        counted = { st with recvHighest := endOff }) := by
  unfold recvAccount at accepted
  dsimp only at accepted
  split_ifs at accepted with seen past full
  · cases accepted
    exact .inl ⟨seen, rfl, rfl⟩
  · cases accepted
    exact .inr ⟨by omega, by omega, by omega, rfl, rfl⟩

/-- Counting received bytes is a move, and changes nothing else of the stream. -/
theorem recvAccount_spec (receives : canRecv ss st.id = true)
    (final : st.recvFinalKnown = true → endOff ≤ st.recvFinal)
    (permitted : endOff ≤ st.inn.limit → uint64Add ss.recvOff (endOff - st.recvHighest) ≤
      ss.recvMax → guard.count ss.recvOff (endOff - st.recvHighest))
    (accepted : recvAccount ss st endOff frameType = .ok (after, counted)) :
    StreamMoves env guard carrier (ss.store st) (after.store counted) ∧
      counted = { st with recvHighest := max st.recvHighest endOff } ∧
      after = { ss with recvOff := after.recvOff } := by
  rcases recvAccount_ok accepted with ⟨seen, rfl, rfl⟩ | ⟨above, below, room, rfl, rfl⟩
  · refine ⟨.refl, ?_, rfl⟩
    rw [Nat.max_eq_left seen]
  · refine ⟨.single ?_, ?_, rfl⟩
    · have move : StreamMove env guard carrier (ss.store st) _ :=
        .counted (find_store_self ss st) receives above below room final (permitted below room)
      have same : st.id = { st with recvHighest := endOff }.id := rfl
      rw [← store_store _ same]
      exact move
    · rw [Nat.max_eq_right above.le]

theorem streamDataStore_moves (ss : QuicStreams) (st : QuicStreamState) (frameType : Nat)
    {offset : Nat} (within : offset + data.length ≤ st.recvHighest) :
    StreamMoves env guard carrier (ss.store st)
      (streamDataStore env ss st frameType offset data).2 := by
  have advanced (stores : st.recvState.Stores) {inn : QuicReasm}
      (added : (if data.length > 0 then quicReasmAdd env.alloc st.inn offset data
        else some st.inn) = some inn) :
      StreamMoves env guard carrier (ss.store st)
        (ss.store (recvAdvance { st with inn := inn })) := by
    have placed : StreamMoves env guard carrier (ss.store st)
        (ss.store { st with inn := inn }) := by
      split_ifs at added
      · exact moves_of_store rfl (.placed (find_store_self ss st) stores within added)
      · cases added
        exact .refl
    exact placed.trans (moves_of_store (id_recvAdvance _).symm
      (.advanced (find_store_self ss { st with inn := inn }) stores))
  fun_cases streamDataStore env ss st frameType offset data with
  | case1 => exact .refl
  | case2 =>
    rw [streamsFail_store]
    exact .single (.fail frameType (by decide))
  | case3 stores inn added =>
    refine (advanced stores added).tail (.notified (find_store_self ss _) ?_)
    exact @stores_recvAdvance { st with inn := inn } stores
  | case4 stores inn added => exact advanced stores added

theorem streamData_moves (found : ss.byId.find st.id = some st) (receives : canRecv ss st.id = true)
    (frameType : Nat) (fin : Bool) {offset : Nat}
    (sizes : fin = true → guard.size st.id (offset + data.length))
    (permitted : offset + data.length ≤ st.inn.limit →
      uint64Add ss.recvOff (offset + data.length - st.recvHighest) ≤ ss.recvMax →
        guard.count ss.recvOff (offset + data.length - st.recvHighest)) :
    StreamMoves env guard carrier ss (streamData env ss st frameType fin offset data).2 := by
  have sized {sized : QuicStreamState} (in_bounds : ¬ (st.recvFinalKnown = true ∧
        (offset + data.length > st.recvFinal ∨ (fin = true ∧ offset + data.length ≠ st.recvFinal))))
      (accepted : (if fin then recvFinalSize ss st (offset + data.length) frameType
        else .ok st) = .ok sized) :
      StreamMoves env guard carrier ss (ss.store sized) ∧
        sized.recvHighest = st.recvHighest ∧ sized.inn = st.inn ∧ sized.id = st.id ∧
        (sized.recvFinalKnown = true → offset + data.length ≤ sized.recvFinal) := by
    split_ifs at accepted with ends
    · obtain ⟨moves, sized_eq, -⟩ := recvFinalSize_spec found (sizes ends) accepted
      subst sized_eq
      exact ⟨moves, rfl, rfl, rfl, fun _ => le_rfl⟩
    · cases accepted
      rw [store_of_find found]
      refine ⟨.refl, rfl, rfl, rfl, fun known => ?_⟩
      by_contra past
      exact in_bounds ⟨known, .inl (by omega)⟩
  fun_cases streamData env ss st frameType fin offset data with
  | case1 => exact .single (.fail frameType (by decide))
  | case2 _ _ failed refused =>
    split_ifs at refused
    rw [recvFinalSize_error refused]
    exact .single (.fail frameType (by decide))
  | case3 _ in_bounds after accepted failed refused =>
    rw [recvAccount_error refused, streamsFail_store]
    exact (sized in_bounds accepted).1.tail (.fail frameType (by decide))
  | case4 _ in_bounds after accepted counted_ss counted counted_eq =>
    obtain ⟨moves, highest_eq, inn_eq, id_eq, final⟩ := sized in_bounds accepted
    rw [← highest_eq, ← inn_eq] at permitted
    obtain ⟨counts, counted_st, -⟩ :=
      recvAccount_spec (id_eq ▸ receives) final permitted counted_eq
    refine (moves.trans counts).trans (streamDataStore_moves _ _ frameType ?_)
    rw [counted_st]
    exact Nat.le_max_right _ _

/-- Giving a stream up is two moves: the stream's credit is counted back, and the limit moves. -/
theorem peerReset_moves (ss : QuicStreams) (st : QuicStreamState)
    (receives : canRecv ss st.id = true) (known : st.recvFinalKnown = true)
    (final : st.recvFinal ≤ st.recvHighest) (first : st.recvState ≠ .reset)
    (unread : st.recvState ≠ .resetRead) (error : Nat)
    (permitted : guard.reset st.id st.recvState) :
    StreamMoves env guard carrier (ss.store st)
      ((((recvRelease ss (recvAbandon st) st.recvFinal).1.store
        (recvRelease ss (recvAbandon st) st.recvFinal).2).tell (.reset st.id error)).tell
          (.readable st.id)) := by
  have move : StreamMove env guard carrier (ss.store st) _ :=
    .peerReset (find_store_self ss st) receives known final first unread error permitted
  have same : st.id = (recvAbandon st).id := rfl
  rw [recvReturn_store ss st.recvFinal same] at move
  rcases recvRelease_eq ss (recvAbandon st) st.recvFinal with release_eq | release_eq
  · rw [release_eq]
    exact .single move
  · rw [release_eq]
    have credited := (ReflTransGen.single move).tail StreamMove.credit
    rw [connWindowUpdate_tell, connWindowUpdate_tell, connWindowUpdate_store] at credited
    exact credited

theorem id_recvRelease (ss : QuicStreams) (st : QuicStreamState) (upto : Nat) :
    (recvRelease ss st upto).2.id = st.id := by
  unfold recvRelease recvReturn
  split_ifs <;> rfl

theorem streamReset_moves (found : ss.byId.find st.id = some st)
    (receives : canRecv ss st.id = true) (frameType error : Nat) {finalSize : Nat}
    (counts : finalSize ≤ st.inn.limit → uint64Add ss.recvOff (finalSize - st.recvHighest) ≤
      ss.recvMax → guard.count ss.recvOff (finalSize - st.recvHighest))
    (sizes : guard.size st.id finalSize)
    (permitted : st.recvFinalKnown = false ∨ st.recvFinal = finalSize →
      guard.reset st.id st.recvState) :
    StreamMoves env guard carrier ss (streamReset ss st frameType error finalSize).2 := by
  have sized {sized : QuicStreamState}
      (accepted : recvFinalSize ss st finalSize frameType = .ok sized) :
      StreamMoves env guard carrier ss (ss.store sized) ∧ _ :=
    recvFinalSize_spec found sizes accepted
  fun_cases streamReset ss st frameType error finalSize with
  | case1 failed refused =>
    rw [recvFinalSize_error refused]
    exact .single (.fail frameType (by decide))
  | case2 after accepted => exact (sized accepted).1
  | case3 after accepted _ failed refused =>
    rw [recvAccount_error refused, streamsFail_store]
    exact (sized accepted).1.tail (.fail frameType (by decide))
  | case4 known accepted open_half after counted counted_eq =>
    obtain ⟨moves, known_eq, agrees⟩ := sized accepted
    have counts_known : known.recvFinal ≤ known.inn.limit →
        uint64Add ss.recvOff (known.recvFinal - known.recvHighest) ≤ ss.recvMax →
        guard.count ss.recvOff (known.recvFinal - known.recvHighest) := by
      rw [known_eq]
      exact counts
    have count_spec : StreamMoves env guard carrier (ss.store known) (after.store counted) ∧ _ :=
      recvAccount_spec (known_eq ▸ receives) (fun _ => le_rfl) counts_known counted_eq
    obtain ⟨count_moves, counted_st, after_eq⟩ := count_spec
    have receives_after : canRecv after counted.id = true := by
      rw [after_eq, counted_st, known_eq]
      exact receives
    refine (moves.trans count_moves).trans ?_
    dsimp only [recvNotify]
    rw [id_recvRelease]
    simp only [not_or] at open_half
    refine peerReset_moves after counted receives_after ?_ ?_ ?_ ?_ error ?_
    · rw [counted_st, known_eq]
    · rw [counted_st]
      exact Nat.le_max_right _ _
    · rw [counted_st]
      exact open_half.1
    · rw [counted_st]
      exact open_half.2
    · rw [counted_st, known_eq]
      exact permitted agrees

/-- Abandoning the sending half is a move, or nothing if there is none to abandon. -/
theorem sendReset_moves (ss : QuicStreams) (st : QuicStreamState) (error : Nat) :
    StreamMoves env guard carrier (ss.store st)
      ((sendReset ss st error).1.store (sendReset ss st error).2) := by
  unfold sendReset
  split_ifs with closed
  · exact .refl
  · have sending : st.sendState = .ready ∨ st.sendState = .send ∨ st.sendState = .dataSent := by
      tauto
    exact moves_of_arm rfl (.abandon (find_store_self ss st) sending error)

def StreamGuard.PermitsFrame (guard : StreamGuard) (ss : QuicStreams) : QuicFrame → Prop
  | .stream fin _ _ id offset data =>
    (fin = true → guard.size id (offset + data.length)) ∧
      ∀ after st, Admitted ss id after st → offset + data.length ≤ st.inn.limit →
        uint64Add after.recvOff (offset + data.length - st.recvHighest) ≤ after.recvMax →
        guard.count after.recvOff (offset + data.length - st.recvHighest)
  | .resetStream id _ finalSize =>
    guard.size id finalSize ∧ ∀ after st, Admitted ss id after st →
      (finalSize ≤ st.inn.limit →
        uint64Add after.recvOff (finalSize - st.recvHighest) ≤ after.recvMax →
        guard.count after.recvOff (finalSize - st.recvHighest)) ∧
        (st.recvFinalKnown = false ∨ st.recvFinal = finalSize → guard.reset id st.recvState)
  | .maxData max => guard.connLimit max
  | .maxStreamData id max => guard.limit id max
  | .stopSending id error => guard.stopped id error
  | _ => True

/-- The streams whose senders a received frame may find out of room. -/
def StallsAt : QuicFrame → Nat → Prop
  | .maxData _, _ => True
  | .maxStreamData named _, id => id = named
  | _, _ => False

theorem Admitted.id_eq (admitted : Admitted before id after st) : st.id = id :=
  Table.key_of_find admitted.found

theorem Admitted.found_self (admitted : Admitted before id after st) :
    after.byId.find st.id = some st :=
  quicStreamFind_eq admitted.found

theorem Admitted.canRecv_eq (admitted : Admitted before id after st) :
    canRecv after st.id = canRecv before id := by
  rw [admitted.id_eq, canRecv, canRecv, admitted.config]

theorem quicStreamsFrame_moves (ss : QuicStreams) (f : QuicFrame)
    (permitted : guard.PermitsFrame ss f) (stalls : ∀ id, StallsAt f id → guard.refuse id 1 0) :
    StreamMoves env guard carrier ss (quicStreamsFrame env ss f).2 := by
  cases f with
  | stream fin =>
    exact withStream_moves fun receives after st admitted =>
      streamData_moves admitted.found_self (admitted.canRecv_eq.trans receives) _ fin
        (admitted.id_eq.symm ▸ permitted.1) (permitted.2 after st admitted)
  | resetStream id error =>
    refine withStream_moves fun receives after st admitted => ?_
    obtain ⟨sizes, each⟩ := permitted
    obtain ⟨counts, resets⟩ := each after st admitted
    exact streamReset_moves admitted.found_self (admitted.canRecv_eq.trans receives) _ error
      counts (admitted.id_eq.symm ▸ sizes) (admitted.id_eq.symm ▸ resets)
  | stopSending id error =>
    exact withStream_moves fun _ after st admitted =>
      .head (.stopped admitted.found_self (admitted.id_eq.symm ▸ permitted))
        (sendReset_moves _ _ error)
  | maxData => exact connMaxData_moves ss permitted fun id => stalls id trivial
  | maxStreamData =>
    exact withStream_moves fun _ after st admitted =>
      streamMaxData_moves admitted.found_self (admitted.id_eq.symm ▸ permitted)
        (stalls st.id admitted.id_eq)
  | maxStreams dir max => exact .single (.countLimit dir max)
  | streamDataBlocked => exact withStream_moves fun _ after st admitted => .refl
  | dataBlocked | streamsBlocked => exact .refl
  | padding | ping | ack | crypto | newToken | newConnId | retireConnId | pathChallenge
  | pathResponse | connClose | connCloseApp | handshakeDone | datagram =>
    exact .single (.fail _ (by decide))

/-- A property of the streams and the packet that every visit keeps holds when the list was
walked. -/
theorem fillLoop_induction (pn visits : Nat) (ss : QuicStreams) (fill : QuicFill)
    (Good : QuicStreams → QuicFill → Prop) (initially : Good ss fill)
    (dropped : ∀ ss fill id rest, Good ss fill → ss.active = id :: rest →
      ss.byId.find id = none → Good { ss with active := rest } fill)
    (kept : ∀ ss fill st rest after filled, Good ss fill → ss.active = st.id :: rest →
      ss.byId.find st.id = some st → FillMoves pn (st, fill) (after, filled) →
      streamPending after = true ∨ streamOutstanding after = true →
      Good { ss.store after with active := rest ++ [st.id] } filled)
    (retired : ∀ ss fill st rest after filled, Good ss fill → ss.active = st.id :: rest →
      ss.byId.find st.id = some st → FillMoves pn (st, fill) (after, filled) →
      streamPending after = false → streamOutstanding after = false →
      Good (streamRetire { ss with active := rest } after) filled) :
    Good (fillLoop pn visits ss fill).1 (fillLoop pn visits ss fill).2 := by
  fun_induction fillLoop pn visits ss fill with
  | case1 | case2 | case3 => exact initially
  | case4 visits ss fill id rest listed _ _ gone ih =>
    exact ih (dropped ss fill id rest initially listed gone)
  | case5 visits ss fill id rest listed _ _ st found _ _ busy ih =>
    obtain rfl : st.id = id := Table.key_of_find found
    exact ih (kept ss fill st rest _ _ initially listed found (fillStream_moves st fill pn) busy)
  | case6 visits ss fill id rest listed _ _ st found _ _ idle ih =>
    obtain rfl : st.id = id := Table.key_of_find found
    simp only [not_or, Bool.not_eq_true] at idle
    exact ih (retired ss fill st rest _ _ initially listed found (fillStream_moves st fill pn)
      idle.1 idle.2)

theorem ConnFillMove.streamMove {before after : QuicStreams × QuicFill}
    (move : ConnFillMove pn before after) : StreamMove env guard (some pn) before.1 after.1 := by
  have carries {other : Nat} (sent : QuicCtl.sent pn = .sent other) : some pn = some other := by
    cases sent
    rfl
  cases move with
  | none => exact .ctl fun _ named => .inl named
  | maxData =>
    exact .ctl (names_of_items (fun _ sent => .inr (carries sent)) (fun _ => .inl)
      (fun _ _ => .inl) fun _ _ => .inl)
  | dataBlocked =>
    exact .ctl (names_of_items (fun _ => .inl) (fun _ sent => .inr (carries sent))
      (fun _ _ => .inl) fun _ _ => .inl)
  | maxStreams wr dir =>
    exact .ctl (names_of_items (fun _ => .inl) (fun _ => .inl)
      (fun _ _ sent => (update_eq_sent sent).imp_right carries) fun _ _ => .inl)
  | streamsBlocked wr dir =>
    exact .ctl (names_of_items (fun _ => .inl) (fun _ => .inl) (fun _ _ => .inl)
      fun _ _ sent => (update_eq_sent sent).imp_right carries)

theorem ConnFillMoves.streamMoves {before after : QuicStreams × QuicFill}
    (moves : ConnFillMoves pn before after) : StreamMoves env guard (some pn) before.1 after.1 := by
  induction moves with
  | refl => exact .refl
  | tail _ move ih => exact ih.tail move.streamMove

theorem low_of_fillMoves {first last : QuicStreamState × QuicFill}
    (moves : FillMoves pn first last) : last.1.sendWaitLow = first.1.sendWaitLow := by
  induction moves with
  | refl => rfl
  | tail _ move ih => cases move <;> exact ih

theorem quicStreamsFill_moves (ss : QuicStreams) (bufsz pn : Nat) :
    StreamMoves env guard (some pn) ss (quicStreamsFill ss bufsz pn).1 := by
  refine fillLoop_induction pn _ _ _ (fun after _ => StreamMoves env guard (some pn) ss after)
    (fillConn_moves ss _ pn).streamMoves ?_ ?_ ?_
  · intro before fill id rest moves listed gone
    exact moves.tail (.dropped [] rest listed gone)
  · intro before fill st rest after filled moves listed found filling busy
    refine (moves.tail (.kept found (.filled rfl filling) after.toQuicSendWait false busy
      (.inl (low_of_fillMoves filling)))).tail ?_
    exact .rotated listed
  · intro before fill st rest after filled moves listed found filling idle settled
    exact moves.tail (.retired [] rest found listed (.filled rfl filling)
      after.toQuicSendWait false idle settled (.inl (low_of_fillMoves filling)))

theorem Visit.answer {guard : StreamGuard} {carrier : Option Nat} (st : QuicStreamState)
    {acked : Bool} (permitted : acked = true → guard.acked pn) :
    Visit guard carrier st (streamAnswer st pn acked) := by
  cases acked with
  | false => exact .lost pn
  | true => exact .acked pn (permitted rfl)

section

variable (ss : QuicStreams)

theorem streamsResolveLoop_moves (acked : Bool) (permitted : acked = true → guard.acked pn)
    (stalls : acked = true → ∀ id, guard.refuse id 1 0) (fuel i : Nat) :
    StreamMoves env guard carrier ss (streamsResolveLoop pn acked fuel i ss) := by
  have resolved (ss : QuicStreams) (st : QuicStreamState) : ∃ (wait : QuicSendWait) (woken : Bool),
      streamResolve ss st pn acked =
        (ss.wake woken st.id, { streamAnswer st pn acked with toQuicSendWait := wait }) ∧
      guard.Waits ss st wait := by
    obtain ⟨wait, woken, resolve_eq, low⟩ := streamResolve_eq ss st pn acked
    exact ⟨wait, woken, resolve_eq,
      low.imp_right fun raised => ⟨1, 0, stalls raised.1 _, raised.2⟩⟩
  fun_induction streamsResolveLoop pn acked fuel i ss with
  | case1 | case2 => exact .refl
  | case3 fuel i ss id here gone ih =>
    obtain ⟨front, back, listed, erased⟩ := split_of_getElem? here
    rw [erased] at ih ⊢
    exact .head (.dropped front back listed gone) ih
  | case4 fuel i ss id here st found done idle ih =>
    obtain rfl : st.id = id := Table.key_of_find found
    obtain ⟨front, back, listed, erased⟩ := split_of_getElem? here
    obtain ⟨wait, woken, resolve_eq, waits⟩ := resolved ss st
    simp only [done, Bool.not_eq_true', resolve_eq, active_wake, erased] at idle ih ⊢
    exact .head (.retired front back found listed (.answer st permitted) wait woken idle.1 idle.2
      waits) ih
  | case5 fuel i ss id here st found done busy ih =>
    obtain rfl : st.id = id := Table.key_of_find found
    obtain ⟨wait, woken, resolve_eq, waits⟩ := resolved ss st
    simp only [done, resolve_eq] at busy ih ⊢
    refine .head (.kept found (.answer st permitted) wait woken ?_ waits) ih
    by_contra neither
    simp only [not_or, Bool.not_eq_true] at neither
    exact busy ⟨congrArg not neither.1, congrArg not neither.2⟩

theorem quicStreamsAcked_moves (permitted : guard.acked pn) (stalls : ∀ id, guard.refuse id 1 0) :
    StreamMoves env guard carrier ss (quicStreamsAcked ss pn) := by
  have kept {ctl : QuicCtl} (other : Nat) (sent : (quicCtlAcked ctl pn).2 = .sent other) :
      ctl = .sent other ∨ carrier = some other := .inl (quicCtlAcked_eq_sent.1 sent).1
  exact .head (.ctl (names_of_items kept kept (fun _ => kept) fun _ => kept))
    (streamsResolveLoop_moves _ true (fun _ => permitted) (fun _ => stalls) _ _)

theorem quicStreamsLost_moves (pn : Nat) :
    StreamMoves env guard carrier ss (quicStreamsLost ss pn) := by
  have kept {ctl : QuicCtl} (other : Nat) (sent : (quicCtlLost ctl pn).2 = .sent other) :
      ctl = .sent other ∨ carrier = some other := .inl (quicCtlLost_eq_sent.1 sent).1
  refine .head (.ctl ?_) (streamsResolveLoop_moves _ false nofun nofun _ _)
  exact names_of_items kept kept (fun _ => kept) fun _ => kept

theorem connBlocked_moves : StreamMoves env guard carrier ss (connBlocked ss).2 := by
  unfold connBlocked
  split_ifs
  · exact .single (.ctl (names_of_items (fun _ => .inl) nofun (fun _ _ => .inl) fun _ _ => .inl))
  · exact .refl

theorem streamBlocked_moves (st : QuicStreamState)
    (writing : st.sendState = .ready ∨ st.sendState = .send) :
    StreamMoves env guard carrier (ss.store st)
      ((streamBlocked ss st).2.1.store (streamBlocked ss st).2.2) := by
  unfold streamBlocked
  split_ifs with full
  · exact moves_of_arm rfl (.complain (find_store_self ss st) writing full.1)
  · exact .refl

theorem sendRefused_moves (st : QuicStreamState) (want : Nat)
    (writing : st.sendState = .ready ∨ st.sendState = .send)
    (refused : guard.refuse st.id want (sendRoom ss st)) :
    StreamMoves env guard carrier (ss.store st) (sendRefused ss st want).2 := by
  obtain ⟨wait, wait_eq, low⟩ := sendWait_eq ss st want (sendRoom ss st)
  have waits : guard.Waits ss st wait := low.imp_right fun raised => ⟨want, _, refused, raised⟩
  simp only [sendRefused, wait_eq]
  refine .head (wait_store ss st wait false waits) ?_
  exact (streamBlocked_moves ss { st with toQuicSendWait := wait } writing).trans
    (connBlocked_moves _)

/-- Refusing a write leaves the room of the stream as it was. -/
theorem writable_sendRefused (st : QuicStreamState) (want : Nat) :
    quicStreamWritable (sendRefused ss st want).2 st.id = sendRoom ss st := by
  obtain ⟨wait, wait_eq, -⟩ := sendWait_eq ss st want (sendRoom ss st)
  simp only [sendRefused, wait_eq]
  unfold connBlocked streamBlocked streamArm quicStreamWritable quicStreamFind
  split_ifs <;> simp only [find_store, if_true] <;> rfl

end

theorem streamWrite_spec {after : QuicStreams × QuicStreamState}
    (found : ss.byId.find st.id = some st) (writing : st.sendState = .ready ∨ st.sendState = .send)
    (fits : data.length ≤ sendRoom ss st) (written : streamWrite env ss st data = some after) :
    StreamMoves env guard carrier ss (after.1.store after.2) ∧
      (after.2.sendState = .ready ∨ after.2.sendState = .send) ∧ after.2.id = st.id := by
  revert written
  fun_cases streamWrite env ss st data with
  | case1 => exact nofun
  | case2 some_data out added =>
    rintro ⟨⟩
    refine ⟨.single (.write found writing some_data fits added), ?_⟩
    unfold streamArm
    split_ifs <;> exact ⟨.inr rfl, rfl⟩
  | case3 =>
    rintro ⟨⟩
    rw [store_of_find found]
    exact ⟨.refl, writing, rfl⟩

theorem streamSend_moves (found : ss.byId.find st.id = some st)
    (writing : st.sendState = .ready ∨ st.sendState = .send) (data : List UInt8)
    (refused : (streamSend env ss st data).1 < data.length →
      guard.refuse st.id data.length (quicStreamWritable (streamSend env ss st data).2 st.id)) :
    StreamMoves env guard carrier ss (streamSend env ss st data).2 := by
  have fits : (if data.length > sendRoom ss st then data.take (sendRoom ss st)
      else data).length ≤ sendRoom ss st := by
    split_ifs with long
    · exact (length_take_le _ _)
    · exact Nat.le_of_not_gt long
  simp only [streamSend] at refused ⊢
  generalize (if data.length > sendRoom ss st then data.take (sendRoom ss st) else data) = taken
    at fits refused ⊢
  cases written : streamWrite env ss st taken with
  | none => exact .refl
  | some after =>
    obtain ⟨after, st_after⟩ := after
    have spec : StreamMoves env guard carrier ss (after.store st_after) ∧ _ :=
      streamWrite_spec found writing fits written
    obtain ⟨moves, still_writing, id_eq⟩ := spec
    simp only [written] at refused ⊢
    split_ifs at refused ⊢ with short
    · refine moves.trans (sendRefused_moves after st_after data.length still_writing ?_)
      have writable_eq := writable_sendRefused after st_after data.length
      simp only at id_eq
      rw [id_eq] at writable_eq ⊢
      rw [← writable_eq]
      exact refused short
    · exact moves

section

variable (ss : QuicStreams)

theorem quicStreamSend_moves (id : Nat) (data : List UInt8)
    (refused : (quicStreamSend env ss id data).1 < data.length →
      guard.refuse id data.length (quicStreamWritable (quicStreamSend env ss id data).2 id)) :
    StreamMoves env guard carrier ss (quicStreamSend env ss id data).2 := by
  unfold quicStreamSend at refused ⊢
  cases found : quicStreamFind ss id with
  | none => exact .refl
  | some st =>
    have id_eq : st.id = id := Table.key_of_find found
    simp only [found] at refused ⊢
    split_ifs at refused ⊢ with closed
    · exact .refl
    · rw [← id_eq] at refused
      exact streamSend_moves (quicStreamFind_eq found) (by tauto) data refused

theorem quicStreamSendAll_moves (id : Nat) (data : List UInt8)
    (refused : (quicStreamSendAll env ss id data).1 = false →
      guard.refuse id data.length (quicStreamWritable (quicStreamSendAll env ss id data).2.2 id)) :
    StreamMoves env guard carrier ss (quicStreamSendAll env ss id data).2.2 := by
  unfold quicStreamSendAll at refused ⊢
  cases found : quicStreamFind ss id with
  | none => exact .refl
  | some st =>
    have id_eq : st.id = id := Table.key_of_find found
    simp only [found] at refused ⊢
    split_ifs at refused ⊢ with closed short
    · exact .refl
    · have room_eq := writable_sendRefused ss st data.length
      rw [id_eq] at room_eq
      have moves : StreamMoves env guard carrier (ss.store st) _ :=
        sendRefused_moves ss st data.length (by tauto) (id_eq.symm ▸ room_eq ▸ refused rfl)
      rw [store_of_find found] at moves
      exact moves
    · refine quicStreamSend_moves ss id data fun short_write => refused ?_
      exact decide_eq_false short_write.ne

theorem quicStreamOpen_moves (uni : Bool) :
    StreamMoves env guard carrier ss (quicStreamOpen ss uni).2 := by
  fun_cases quicStreamOpen ss uni with
  | case1 dir =>
    exact .single (.ctl (names_of_items (fun _ => .inl) (fun _ => .inl) (fun _ _ => .inl)
      fun _ _ sent => (update_eq_sent sent).imp_right nofun))
  | case2 => exact .refl
  | case3 => exact .single (.opened (by omega))

theorem quicStreamFinish_moves (id : Nat) :
    StreamMoves env guard carrier ss (quicStreamFinish ss id) := by
  fun_cases quicStreamFinish ss id with
  | case1 | case2 => exact .refl
  | case3 st found writing => exact .single (.finish (quicStreamFind_eq found) (by tauto))

theorem quicStreamReset_moves (id error : Nat) :
    StreamMoves env guard carrier ss (quicStreamReset ss id error) := by
  unfold quicStreamReset
  split
  · exact .refl
  · next st found =>
      have moves : StreamMoves env guard carrier (ss.store st) _ := sendReset_moves ss st error
      rw [store_of_find found] at moves
      exact moves

theorem quicStreamStopSending_moves (permitted : guard.stop id error) :
    StreamMoves env guard carrier ss (quicStreamStopSending ss id error) := by
  fun_cases quicStreamStopSending ss id error with
  | case1 | case2 => exact .refl
  | case3 st found receiving =>
    obtain rfl := Table.key_of_find found
    exact .single (.stop found (by tauto) permitted)

theorem recvWindowUpdate_moves (st : QuicStreamState) : StreamMoves env guard carrier (ss.store st)
      ((recvWindowUpdate ss st).1.store (recvWindowUpdate ss st).2) := by
  fun_cases recvWindowUpdate ss st with
  | case1 | case2 => exact .refl
  | case3 closed want enough =>
    have receiving : st.recvState = .recv := by tauto
    exact moves_of_arm rfl (.window (find_store_self ss st) receiving (by omega))

end

/-- The streams once bytes of one were taken and nothing else was done yet. -/
def QuicStreams.afterTake (ss : QuicStreams) (st : QuicStreamState) (count : Nat) : QuicStreams :=
  if count > 0 then
    { ss with recvRead := uint64Add ss.recvRead count }.store
      { st with inn := quicReasmConsume st.inn count, recvRead := st.recvRead + count }
  else ss.store st

/-- Taking bytes moves the limits once the bytes are gone. -/
theorem streamTake_moves (ss : QuicStreams) (st : QuicStreamState) (count : Nat) :
    StreamMoves env guard carrier (ss.afterTake st count)
      ((streamTake ss st count).1.store (streamTake ss st count).2) := by
  unfold streamTake QuicStreams.afterTake
  split_ifs with some_bytes
  · dsimp only
    rw [← connWindowUpdate_store]
    exact (recvWindowUpdate_moves _ _).tail .credit
  · exact .refl

/-- Reading ends a stream that was abandoned, or takes bytes and goes on with moves that take
none. -/
theorem quicStreamRecv_split (ss : QuicStreams) (id outsz : Nat) :
    ((quicStreamRecv ss id outsz).1 = [] ∧
        StreamMoves env guard carrier ss (quicStreamRecv ss id outsz).2.2) ∨
      ∃ st count, quicStreamFind ss id = some st ∧ st.recvState ≠ .reset ∧
        count ≤ quicReasmReadable st.inn ∧
        (quicStreamRecv ss id outsz).1 = Memory.slice (quicReasmData st.inn) 0 count ∧
        StreamMoves env guard carrier (ss.afterTake st count) (quicStreamRecv ss id outsz).2.2 := by
  fun_cases quicStreamRecv ss id outsz with
  | case1 => exact .inl ⟨rfl, .refl⟩
  | case2 st found =>
    fun_cases streamRecv ss st outsz with
    | case1 abandoned =>
      exact .inl ⟨rfl, .single (.endedReset (quicStreamFind_eq found) abandoned)⟩
    | case2 not_reset readable count data taken drained =>
      have bounded : count ≤ readable := by
        dsimp only [count]
        split_ifs <;> omega
      refine .inr ⟨st, count, found, not_reset, bounded, rfl, ?_⟩
      refine (streamTake_moves ss st count).tail ?_
      rw [← streamEnd_store]
      exact .ended (find_store_self _ _) drained.1 drained.2
    | case3 not_reset readable count =>
      have bounded : count ≤ readable := by
        dsimp only [count]
        split_ifs <;> omega
      exact .inr ⟨st, count, found, not_reset, bounded, rfl, streamTake_moves ss st count⟩

theorem afterTake_moves {count : Nat} (found : ss.byId.find st.id = some st)
    (not_reset : st.recvState ≠ .reset) (readable : count ≤ quicReasmReadable st.inn)
    (permitted : guard.take st.id count) :
    StreamMoves env guard carrier ss (ss.afterTake st count) := by
  unfold QuicStreams.afterTake
  split_ifs with some_bytes
  · exact .single (.take found not_reset some_bytes readable permitted)
  · rw [store_of_find found]
    exact .refl

theorem quicStreamRecv_moves (ss : QuicStreams) (outsz : Nat)
    (permitted : ∀ count, guard.take id count) :
    StreamMoves env guard carrier ss (quicStreamRecv ss id outsz).2.2 := by
  rcases @quicStreamRecv_split env guard carrier ss id outsz with
    ⟨-, moves⟩ | ⟨st, count, found, not_reset, readable, -, moves⟩
  · exact moves
  · have same : st.id = id := Table.key_of_find found
    exact (afterTake_moves (quicStreamFind_eq found) not_reset readable
      (same ▸ permitted count)).trans moves

end Decomposition

inductive StreamOp where
  | params (tp : QuicTransportParams)
  | configure (sendBufMax sendLow : Nat)
  | frame (f : QuicFrame)
  | fill (bufsz pn : Nat)
  | acked (pn : Nat)
  | lost (pn : Nat)
  | open (uni : Bool)
  | send (id : Nat) (data : List UInt8)
  | sendAll (id : Nat) (data : List UInt8)
  | finish (id : Nat)
  | recv (id outsz : Nat)
  | reset (id error : Nat)
  | stopSending (id error : Nat)
deriving DecidableEq, Repr

def streamStep (env : StreamEnv) (ss : QuicStreams) : StreamOp → QuicStreams
  | .params tp => quicStreamsPeerParams ss tp
  | .configure sendBufMax sendLow => { ss with sendBufMax := sendBufMax, sendLow := sendLow }
  | .frame f => (quicStreamsFrame env ss f).2
  | .fill bufsz pn => (quicStreamsFill ss bufsz pn).1
  | .acked pn => quicStreamsAcked ss pn
  | .lost pn => quicStreamsLost ss pn
  | .open uni => (quicStreamOpen ss uni).2
  | .send id data => (quicStreamSend env ss id data).2
  | .sendAll id data => (quicStreamSendAll env ss id data).2.2
  | .finish id => quicStreamFinish ss id
  | .recv id outsz => (quicStreamRecv ss id outsz).2.2
  | .reset id error => quicStreamReset ss id error
  | .stopSending id error => quicStreamStopSending ss id error

/-- The packet a call fills. -/
def StreamOp.carrier : StreamOp → Option Nat
  | .fill _ pn => some pn
  | _ => none

/-- A call may find that a sender wants more room than it has.  A write that is not taken whole
does, with the room it leaves; an event that is about to make room does for every sender that has
none. -/
def StreamOp.Refuses (env : StreamEnv) (ss : QuicStreams) (op : StreamOp) (id want room : Nat) :
    Prop :=
  match op with
  | .send named data => id = named ∧ want = data.length ∧
      (quicStreamSend env ss named data).1 < data.length ∧
      room = quicStreamWritable (quicStreamSend env ss named data).2 named
  | .sendAll named data => id = named ∧ want = data.length ∧
      (quicStreamSendAll env ss named data).1 = false ∧
      room = quicStreamWritable (quicStreamSendAll env ss named data).2.2 named
  | .frame f => StallsAt f id ∧ want = 1 ∧ room = 0
  | .acked _ => want = 1 ∧ room = 0
  | _ => False

def StreamGuard.Permits (guard : StreamGuard) (ss : QuicStreams) : StreamOp → Prop
  | .params tp => guard.params tp
  | .configure sendBufMax sendLow => guard.configure sendBufMax sendLow
  | .frame f => guard.PermitsFrame ss f
  | .acked pn => guard.acked pn
  | .recv id _ => ∀ count, guard.take id count
  | .stopSending id error => guard.stop id error
  | _ => True

/-- A call the guard permits is a sequence of moves the guard permits. -/
theorem streamStep_moves {env : StreamEnv} {guard : StreamGuard} {ss : QuicStreams} {op : StreamOp}
    (permitted : guard.Permits ss op)
    (refused : ∀ id want room, op.Refuses env ss id want room → guard.refuse id want room) :
    StreamMoves env guard op.carrier ss (streamStep env ss op) := by
  cases op with
  | params => exact .single (.params permitted)
  | configure => exact .single (.configure permitted)
  | frame f =>
    exact quicStreamsFrame_moves ss f permitted fun id stalls =>
      refused id 1 0 ⟨stalls, rfl, rfl⟩
  | fill bufsz pn => exact quicStreamsFill_moves ss bufsz pn
  | acked => exact quicStreamsAcked_moves ss permitted fun id => refused id 1 0 ⟨rfl, rfl⟩
  | lost pn => exact quicStreamsLost_moves ss pn
  | «open» uni => exact quicStreamOpen_moves ss uni
  | send id data =>
    exact quicStreamSend_moves ss id data fun short =>
      refused id data.length _ ⟨rfl, rfl, short, rfl⟩
  | sendAll id data =>
    exact quicStreamSendAll_moves ss id data fun short =>
      refused id data.length _ ⟨rfl, rfl, short, rfl⟩
  | finish id => exact quicStreamFinish_moves ss id
  | recv id outsz => exact quicStreamRecv_moves ss outsz permitted
  | reset id error => exact quicStreamReset_moves ss id error
  | stopSending => exact quicStreamStopSending_moves ss permitted

theorem StreamGuard.permits_any (ss : QuicStreams) (op : StreamOp) :
    StreamGuard.any.Permits ss op := by
  cases op with
  | frame f => cases f <;> simp [StreamGuard.Permits, StreamGuard.PermitsFrame, StreamGuard.any]
  | _ => simp [StreamGuard.Permits, StreamGuard.any]

/-- What every permitted move keeps, every permitted call keeps. -/
theorem StreamMoves.invariant {env : StreamEnv} {guard : StreamGuard} {carrier : Option Nat}
    {before after : QuicStreams} (Good : QuicStreams → Prop)
    (preserved : ∀ before after, Good before → StreamMove env guard carrier before after →
      Good after) (moves : StreamMoves env guard carrier before after) (initially : Good before) :
    Good after :=
  steps_keep moves (fun move good => preserved _ _ good move) initially

/-- What every permitted move keeps holds along every run of permitted calls. -/
theorem streamRun_invariant_of_permits {env : StreamEnv} {guard : StreamGuard}
    {allowed : QuicStreams → StreamOp → Prop} (Good : QuicStreams → Prop)
    (permits : ∀ ss op, Good ss → allowed ss op → guard.Permits ss op)
    (refuses : ∀ id want room, guard.refuse id want room)
    (preserved : ∀ carrier before after, Good before → StreamMove env guard carrier before after →
      Good after) (initially : Good start) {ops : List StreamOp}
    (admitted : Admits (streamStep env) allowed start ops) :
    Good (run (streamStep env) start ops) := by
  refine admits_invariant Good initially ?_ admitted
  intro ss op good permitted
  exact (streamStep_moves (permits ss op good permitted) fun id want room _ =>
    refuses id want room).invariant Good (preserved op.carrier) good

/-- What every move keeps holds along every run. -/
theorem streamRun_invariant {env : StreamEnv} (Good : QuicStreams → Prop)
    (preserved : ∀ carrier before after, Good before →
      StreamMove env .any carrier before after → Good after) (initially : Good start)
    (ops : List StreamOp) : Good (run (streamStep env) start ops) :=
  streamRun_invariant_of_permits Good (fun ss op _ _ => StreamGuard.permits_any ss op)
    (fun _ _ _ => trivial) preserved initially
    (admits_of_forall (fun _ _ => trivial : ∀ op ∈ ops, (fun _ => True) op) start)

end Cx.Quic
