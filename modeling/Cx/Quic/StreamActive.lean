import Cx.Quic.StreamLife

/-!
# The list of active streams

A stream that owes the peer something, a frame of its own or bytes that are not acknowledged, is on
the list that the packet builder and the answers to packets walk.

A stream both of whose halves are done is forgotten when it leaves the list, or when the application
reads the end of it.  One that is still there is on the list, and owes a frame; or it owed a
STREAM_DATA_BLOCKED, and the peer raised the limit that frame was about.
-/

namespace Cx.Quic

open Library Relation List

def QuicStreamState.OwesFrame (st : QuicStreamState) : Prop :=
  st.stopSending ≠ .idle ∨ st.maxData ≠ .idle ∨ st.reset ≠ .idle ∨ st.blocked ≠ .idle ∨
    st.fin ≠ .idle

def QuicStreamState.OwesBytes (st : QuicStreamState) : Prop :=
  ∃ position state, Tile.HasState st.out.chunks position state ∧ state ≠ .acked

def QuicStreamState.Busy (st : QuicStreamState) : Prop := st.OwesFrame ∨ st.OwesBytes

section

variable {env : StreamEnv} {guard : StreamGuard} {carrier : Option Nat}
  {before after ss : QuicStreams} {id : Nat} {st later : QuicStreamState} {server : Bool}

theorem ctl_ne_idle_iff (ctl : QuicCtl) : ctl ≠ .idle ↔ ctl = .pending ∨ ctl.isSent = true := by
  cases ctl <;> simp [QuicCtl.isSent]

theorem owesBytes_iff (sound : st.SendSound server) :
    st.OwesBytes ↔ 0 < quicSendBufOutstanding st.out := by
  rw [Nat.pos_iff_ne_zero, ne_eq, sound.buffer.outstanding_eq_zero_iff]
  simp [QuicStreamState.OwesBytes]

/-- What a stream owes is waiting or in flight. -/
theorem busy_iff (sound : st.SendSound server) :
    (streamPending st = true ∨ streamOutstanding st = true) ↔ st.Busy := by
  have pending_owes : quicSendBufPending st.out = true → st.OwesBytes := by
    intro waiting
    obtain ⟨position, held⟩ := sound.buffer.pending_iff.1 waiting
    exact ⟨position, .pending, held, nofun⟩
  rw [QuicStreamState.Busy, QuicStreamState.OwesFrame]
  simp only [ctl_ne_idle_iff, streamPending, streamOutstanding, Bool.or_eq_true,
    decide_eq_true_eq, ← owesBytes_iff sound]
  tauto

theorem busy_of_fillMove {pn : Nat} {first last : QuicStreamState × QuicFill}
    (sound : first.1.SendSound server) (move : FillMove pn first last) (busy : last.1.Busy) :
    first.1.Busy := by
  cases move with
  | none => exact busy
  | stopSending wr waiting => exact .inl (.inl (by simp [waiting]))
  | maxData wr waiting => exact .inl (.inr (.inl (by simp [waiting])))
  | reset wr waiting => exact .inl (.inr (.inr (.inl (by simp [waiting]))))
  | blocked wr waiting => exact .inl (.inr (.inr (.inr (.inl (by simp [waiting])))))
  | fin wr sending waiting => exact .inl (.inr (.inr (.inr (.inr (by simp [waiting])))))
  | @data st fill wr max segment fin sending handed =>
    obtain ⟨-, front, chunk, rest, chunks_eq, -, waiting, -⟩ := QuicSendBuf.next_eq_some handed
    have chunk_mem : chunk ∈ st.out.chunks := by simp [chunks_eq]
    obtain ⟨-, nonempty, -⟩ := sound.buffer.tiles.bounds chunk_mem
    exact .inr ⟨chunk.off, .pending, ⟨chunk, chunk_mem, le_rfl, nonempty, waiting⟩, nofun⟩

theorem busy_of_fillMoves {pn : Nat} {first last : QuicStreamState × QuicFill}
    (moves : FillMoves pn first last) (sound : first.1.SendSound server) (busy : last.1.Busy) :
    first.1.Busy := by
  induction moves with
  | refl => exact busy
  | tail earlier move ih =>
    exact ih (busy_of_fillMove (sendSound_fillMoves earlier sound) move busy)

theorem streamAcked_recvCtl (st : QuicStreamState) (pn : Nat) :
    (streamAcked st pn).toQuicRecvCtl = { st.toQuicRecvCtl with
      maxData := (quicCtlAcked st.maxData pn).2
      stopSending := (quicCtlAcked st.stopSending pn).2 } := by
  unfold streamAcked
  dsimp only
  split_ifs <;> rfl

/-- A visit adds nothing to what a stream owes. -/
theorem Visit.busy (visit : Visit guard carrier st later) (sound : st.SendSound server)
    (busy : later.Busy) : st.Busy := by
  cases visit with
  | filled _ moves => exact busy_of_fillMoves moves sound busy
  | acked pn =>
    obtain ⟨sendState, finAcked, half_eq, -⟩ := streamAcked_sendHalf st pn
    obtain ⟨-, -, -, -, states, -⟩ := QuicSendBuf.acked_spec pn sound.buffer
    rw [QuicStreamState.Busy, QuicStreamState.OwesFrame, QuicStreamState.OwesBytes,
      streamAcked_recvCtl, half_eq] at busy
    refine busy.imp (.imp quicCtlAcked_ne_idle <| .imp quicCtlAcked_ne_idle <|
      .imp quicCtlAcked_ne_idle <| .imp quicCtlAcked_ne_idle quicCtlAcked_ne_idle) ?_
    rintro ⟨position, state, held, unacked⟩
    obtain ⟨⟨old, old_held, resolved⟩, -⟩ := (states position state).1 held
    exact ⟨position, old, old_held, fun old_acked => unacked (acked_resolve resolved old_acked)⟩
  | lost pn =>
    obtain ⟨-, states⟩ := QuicSendBuf.relabel_spec (QuicChunkState.resolve pn .pending)
      sound.buffer
    refine busy.imp (.imp quicCtlLost_ne_idle <| .imp quicCtlLost_ne_idle <|
      .imp quicCtlLost_ne_idle <| .imp quicCtlLost_ne_idle quicCtlLost_ne_idle) ?_
    rintro ⟨position, state, held, unacked⟩
    obtain ⟨old, old_held, resolved⟩ := (states position state).1 held
    exact ⟨position, old, old_held, fun old_acked => unacked (acked_resolve resolved old_acked)⟩

def QuicStreamState.Finished (st : QuicStreamState) : Prop :=
  sendHalfDone st = true ∧ recvHalfDone st = true

/-- A STREAM_DATA_BLOCKED was owed for a limit that has been raised since. -/
def QuicStreamState.Withdrawn (st : QuicStreamState) : Prop :=
  st.blocked = .idle ∧ st.sendBlocked < st.sendMax

/-- A stream that owes something is marked as listed; one that is finished as well, and it owes a
frame or withdrew one. -/
structure QuicStreamState.Marked (st : QuicStreamState) : Prop where
  busy : st.Busy → st.active = true
  finished : st.Finished → st.active = true
  reason : st.Finished → st.OwesFrame ∨ st.Withdrawn

/-- A stream with a half that is not done is listed when it owes something. -/
theorem marked_of_unfinished (busy : st.Busy → st.active = true) (unfinished : ¬ st.Finished) :
    st.Marked :=
  ⟨busy, fun finished => absurd finished unfinished, fun finished => absurd finished unfinished⟩

theorem marked_init (ss : QuicStreams) (id : Nat) : (streamInit ss id).Marked := by
  have unfinished : ¬ (streamInit ss id).Finished := by
    rintro ⟨send_done, recv_done⟩
    simp only [streamInit, sendHalfDone, recvHalfDone] at send_done recv_done
    cases uni : quicStreamUni id <;> cases opened : quicStreamLocal id ss.server <;>
      simp [uni, opened] at send_done recv_done
  refine marked_of_unfinished ?_ unfinished
  rintro ((owed | owed | owed | owed | owed) | ⟨position, state, held, -⟩)
  all_goals first
    | exact absurd rfl owed
    | exact (Tile.hasState_nil held).elim

/-- A finished stream has no bytes left that are not acknowledged. -/
theorem not_owesBytes_of_finished (sound : st.SendSound server) (finished : st.Finished) :
    ¬ st.OwesBytes := by
  rintro ⟨position, state, held, unacked⟩
  have done := finished.1
  simp only [sendHalfDone, Bool.or_eq_true, decide_eq_true_eq] at done
  rcases done with (acked | reset) | absent
  · exact unacked (sound.done acked position state held)
  all_goals
    have nothing := sound.unsent (by simp [*]) (by simp [*]) (by simp [*])
    obtain ⟨chunk, chunk_mem, -, lt_end, -⟩ := held
    obtain ⟨-, -, end_le⟩ := sound.buffer.tiles.bounds chunk_mem
    omega

theorem not_finished_of_sending (sending : sendHalfDone st = false) : ¬ st.Finished := by
  rintro ⟨done, -⟩
  rw [sending] at done
  cases done

theorem not_finished_of_receiving (receiving : recvHalfDone st = false) : ¬ st.Finished := by
  rintro ⟨-, done⟩
  rw [receiving] at done
  cases done

theorem StreamChange.marked (change : StreamChange env guard carrier before st later)
    (sound : st.SendSound server) (marked : st.Marked) : later.Marked := by
  have writing_open : st.sendState = .ready ∨ st.sendState = .send → sendHalfDone st = false := by
    rintro (state_eq | state_eq) <;> simp [sendHalfDone, state_eq]
  cases change with
  | wait | sized | counted | placed | stopped | take =>
    exact { marked with }
  | limit raised =>
    refine ⟨?_, marked.finished, ?_⟩
    · exact fun busy => marked.busy (busy.imp_left
        (.imp_right <| .imp_right <| .imp_right <| .imp_left (absurd rfl)))
    · intro finished
      rcases marked.reason finished with (owed | owed | owed | owed | owed) | withdrawn
      · exact .inl (.inl owed)
      · exact .inl (.inr (.inl owed))
      · exact .inl (.inr (.inr (.inl owed)))
      · exact .inr ⟨rfl, (sound.blocked_owed owed).trans_lt raised⟩
      · exact .inl (.inr (.inr (.inr (.inr owed))))
      · exact .inr ⟨rfl, withdrawn.2.trans raised⟩
  | advanced =>
    rcases recvAdvance_cases st with same | ⟨-, -, named⟩ | ⟨-, -, whole⟩
    · rw [same]
      exact marked
    · rw [named]
      exact marked_of_unfinished marked.busy (not_finished_of_receiving rfl)
    · rw [whole]
      exact marked_of_unfinished marked.busy (not_finished_of_receiving rfl)
  | peerReset => exact marked_of_unfinished marked.busy (not_finished_of_receiving rfl)
  | abandon | write | finish =>
    exact marked_of_unfinished (fun _ => rfl) (not_finished_of_sending rfl)
  | complain writing =>
    exact marked_of_unfinished (fun _ => rfl) (not_finished_of_sending (writing_open writing))
  | stop receiving | window receiving =>
    refine marked_of_unfinished (fun _ => rfl) (not_finished_of_receiving ?_)
    simp [recvHalfDone, receiving]
  | ended arrived drained sending | endedReset abandoned sending =>
    exact marked_of_unfinished marked.busy (not_finished_of_sending sending)
  | @kept after visit wait still =>
    have after_sound := visit.sendSound sound
    have after_busy := (busy_iff after_sound).1 still
    have active : after.active = true :=
      visit.frame.2.1.trans (marked.busy (visit.busy sound after_busy))
    refine ⟨fun _ => active, fun _ => active, fun finished => .inl ?_⟩
    exact after_busy.resolve_right (not_owesBytes_of_finished after_sound finished)
  | @retired after visit wait idle settled unfinished =>
    have after_sound := visit.sendSound sound
    have quiet : ¬ after.Busy := by
      rw [← busy_iff after_sound, idle, settled]
      simp
    exact marked_of_unfinished (fun busy => absurd busy quiet)
      (unfinished.elim not_finished_of_sending not_finished_of_receiving)

def QuicStreams.AllMarked (ss : QuicStreams) : Prop :=
  ∀ id st, ss.byId.find id = some st → st.Marked

/-- The list names every stream at most once, and the streams know whether they are named. -/
structure QuicStreams.Listed (ss : QuicStreams) : Prop where
  marked : ∀ id st, ss.byId.find id = some st → (st.active = true ↔ id ∈ ss.active)
  nodup : ss.active.Nodup
  known : ∀ id ∈ ss.active, ss.Knows id

section

variable (listed : before.Listed) (knows : ∀ id, before.Knows id → after.Knows id)
include listed knows

/-- With the list as it was, every stream has the mark it had, or is new and not marked. -/
theorem QuicStreams.Listed.same (list_eq : after.active = before.active)
    (streams : ∀ id later, after.byId.find id = some later →
      (∃ st, before.byId.find id = some st ∧ later.active = st.active) ∨
        (¬ before.Knows id ∧ later.active = false)) :
    after.Listed := by
  refine ⟨?_, list_eq ▸ listed.nodup,
    fun id id_mem => knows id (listed.known id (list_eq ▸ id_mem))⟩
  intro id later found
  rw [list_eq]
  rcases streams id later found with ⟨st, st_found, mark_eq⟩ | ⟨unknown, unmarked⟩
  · rw [mark_eq]
    exact listed.marked id st st_found
  · rw [unmarked]
    exact ⟨nofun, fun id_mem => absurd (listed.known id id_mem) unknown⟩

theorem QuicStreams.Listed.put (list_eq : after.active = before.active)
    (found : before.byId.find st.id = some st) (byId_eq : after.byId = before.byId.put later)
    (id_eq : later.id = st.id) (mark_eq : later.active = st.active) : after.Listed := by
  refine listed.same knows list_eq fun id other other_found => ?_
  rw [byId_eq, Table.find_put] at other_found
  split_ifs at other_found with here
  · cases other_found
    exact .inl ⟨st, by rw [here, id_eq]; exact found, mark_eq⟩
  · exact .inl ⟨other, other_found, rfl⟩

theorem QuicStreams.Listed.init (list_eq : after.active = before.active)
    (byId_eq : after.byId = before.byId.put (streamInit before id)) (fresh : ¬ before.Knows id) :
    after.Listed := by
  refine listed.same knows list_eq fun other later found => ?_
  rw [byId_eq, Table.find_put] at found
  split_ifs at found with here
  · cases found
    subst here
    exact .inr ⟨fresh, rfl⟩
  · exact .inl ⟨later, found, rfl⟩

theorem QuicStreams.Listed.settle (found : before.byId.find st.id = some st)
    (byId_eq : after.byId = (streamSettle before later).byId)
    (list_eq : after.active = (streamSettle before later).active) (id_eq : later.id = st.id)
    (mark_eq : later.active = st.active) : after.Listed := by
  refine listed.same knows (list_eq.trans (active_streamSettle before later)) ?_
  intro id other other_found
  rw [byId_eq] at other_found
  rcases find_streamSettle other_found with ⟨here, rfl, -⟩ | ⟨-, same⟩
  · exact .inl ⟨st, by rw [here, id_eq]; exact found, mark_eq⟩
  · exact .inl ⟨other, same, rfl⟩

theorem QuicStreams.Listed.arm (known : before.Knows st.id)
    (found : before.byId.find st.id = some st)
    (byId_eq : after.byId = before.byId.put { later with active := true })
    (list_eq : after.active = if later.active then before.active else before.active ++ [later.id])
    (id_eq : later.id = st.id) (mark_eq : later.active = st.active) : after.Listed := by
  have named := listed.marked st.id st found
  rw [mark_eq, id_eq] at list_eq
  split_ifs at list_eq with marked
  · exact listed.put knows list_eq found byId_eq id_eq marked.symm
  · have absent : st.id ∉ before.active := fun id_mem => marked (named.2 id_mem)
    refine ⟨?_, ?_, ?_⟩
    · intro id other other_found
      rw [byId_eq, Table.find_put] at other_found
      rw [list_eq]
      split_ifs at other_found with here
      · cases other_found
        have id_st : id = st.id := here.trans id_eq
        simp [id_st]
      · have id_ne : id ≠ st.id := fun same => here (same.trans id_eq.symm)
        simp [listed.marked id other other_found, id_ne]
    · rw [list_eq, nodup_append]
      refine ⟨listed.nodup, nodup_singleton _, ?_⟩
      rintro id id_mem last last_mem rfl
      exact absent (mem_singleton.1 last_mem ▸ id_mem)
    · intro id id_mem
      rw [list_eq, mem_append, mem_singleton] at id_mem
      rcases id_mem with early | rfl
      · exact knows id (listed.known id early)
      · exact knows _ known

theorem QuicStreams.Listed.remove {front back : List Nat}
    (old_eq : before.active = front ++ id :: back) (list_eq : after.active = front ++ back)
    (streams : ∀ other later, after.byId.find other = some later →
      (other = id ∧ later.active = false) ∨ (other ≠ id ∧ before.byId.find other = some later)) :
    after.Listed := by
  have nodup := listed.nodup
  rw [old_eq, nodup_middle, nodup_cons] at nodup
  refine ⟨?_, list_eq ▸ nodup.2, fun other other_mem => knows other (listed.known other ?_)⟩
  · intro other later found
    rw [list_eq]
    rcases streams other later found with ⟨rfl, unmarked⟩ | ⟨other_ne, old_found⟩
    · rw [unmarked]
      exact ⟨nofun, fun other_mem => absurd other_mem nodup.1⟩
    · rw [listed.marked other later old_found, old_eq]
      simp [other_ne]
  · rw [list_eq] at other_mem
    rw [old_eq]
    simp only [mem_append, mem_cons] at other_mem ⊢
    tauto

end

theorem StreamMove.listed (move : StreamMove env guard carrier before after)
    (all_known : before.AllKnown) (listed : before.Listed) : after.Listed := by
  have knows : ∀ id, before.Knows id → after.Knows id := fun id known => move.knows known
  have unchanged : after.byId = before.byId → after.active = before.active → after.Listed := by
    intro byId_eq list_eq
    refine listed.same knows list_eq fun id later found => ?_
    exact .inl ⟨later, byId_eq ▸ found, rfl⟩
  cases move with
  | params | configure | ctl | connLimit | notified => exact unchanged rfl rfl
  | fail frameType =>
    refine unchanged (byId_streamsFail before _ frameType) ?_
    unfold streamsFail
    split_ifs <;> rfl
  | credit =>
    refine unchanged (byId_connWindowUpdate before) ?_
    rcases connWindowUpdate_cases before with same | ⟨-, moved⟩
    · rw [same]
    · rw [moved]
  | countLimit dir max =>
    refine unchanged (byId_handleMaxStreams before dir max) ?_
    unfold handleMaxStreams
    split_ifs <;> rfl
  | @admitted dir => exact listed.init knows rfl rfl (not_knows_remoteNextId before dir)
  | @opened dir => exact listed.init knows rfl rfl (not_knows_localNextId before dir)
  | limit found | sized found | counted found | placed found | stopped found | take found =>
    exact listed.put knows rfl found rfl rfl rfl
  | @advanced st found =>
    exact listed.put knows rfl found rfl (id_recvAdvance st) (recvAdvance_frame st).2.2
  | @peerReset st found =>
    obtain ⟨recvRead, return_eq⟩ := recvReturn_eq before (recvAbandon st) st.recvFinal
    rw [return_eq, recvReturn_stream] at knows ⊢
    exact listed.put knows rfl found rfl rfl rfl
  | abandon found | write found | complain found | finish found | stop found | window found =>
    rw [arm_eq] at knows ⊢
    exact listed.arm knows (all_known _ _ found) found rfl rfl rfl rfl
  | ended found | endedReset found => exact listed.settle knows found rfl rfl rfl rfl
  | wait found wait woken =>
    cases woken <;> exact listed.put knows rfl found rfl rfl rfl
  | kept found visit wait woken =>
    cases woken <;> exact listed.put knows rfl found rfl visit.id_eq visit.frame.2.1
  | dropped front back old_eq gone =>
    refine listed.remove knows old_eq rfl fun other later found => .inr ⟨?_, found⟩
    rintro rfl
    exact absurd (gone.symm.trans found) nofun
  | rotated old_eq =>
    have perm : ∀ {id : Nat} {rest : List Nat}, List.Perm (rest ++ [id]) (id :: rest) :=
      fun {id rest} => perm_append_singleton id rest
    refine ⟨?_, ?_, ?_⟩
    · intro other later found
      rw [listed.marked other later found, old_eq]
      exact perm.mem_iff.symm
    · exact perm.nodup_iff.2 (old_eq ▸ listed.nodup)
    · intro other other_mem
      exact listed.known other (old_eq ▸ perm.mem_iff.1 other_mem)
  | @retired st visited front back found old_eq visit wait woken =>
    refine listed.remove knows old_eq (active_streamSettle _ _) fun other later later_found => ?_
    rcases find_streamSettle later_found with ⟨here, rfl, -⟩ | ⟨other_ne, same⟩
    · exact .inl ⟨here.trans visit.id_eq, rfl⟩
    · refine .inr ⟨fun here => other_ne (here.trans visit.id_eq.symm), ?_⟩
      exact byId_wake before woken st.id ▸ same

end

section

variable (env : StreamEnv) (server : Bool) (tp : QuicTransportParams)

/-- In every run the list and the marks agree, and every stream is marked as it should be. -/
theorem listed_run (ops : List StreamOp) :
    (run (streamStep env) (quicStreamsInit server tp) ops).Listed ∧
      (run (streamStep env) (quicStreamsInit server tp) ops).AllMarked := by
  refine (streamRun_invariant
    (fun ss => ss.Sound ∧ ss.AllKnown ∧ ss.Listed ∧ ss.AllMarked) ?_
    ⟨QuicStreams.sound_init server tp, QuicStreams.allKnown_init server tp,
      ⟨by rintro id st ⟨⟩, nodup_nil, nofun⟩, by rintro id st ⟨⟩⟩ ops).2.2
  rintro carrier before after ⟨sound, all_known, listed, marked⟩ move
  refine ⟨move.sound sound, move.allKnown all_known, move.listed all_known listed, ?_⟩
  exact move.forall_streams (marked_init before)
    (fun st _ marked found change => change.marked (sound st.id st found).1 marked) marked

/-- The list that the packet builder walks names every stream once that has something to send or
waits for an acknowledgement. -/
theorem active_list_complete (ops : List StreamOp) :
    let ss := run (streamStep env) (quicStreamsInit server tp) ops
    ss.active.Nodup ∧ ∀ id st, ss.byId.find id = some st →
      streamPending st = true ∨ streamOutstanding st = true → id ∈ ss.active := by
  intro ss
  obtain ⟨listed, marked⟩ := listed_run env server tp ops
  refine ⟨listed.nodup, fun id st found owes => (listed.marked id st found).1 ?_⟩
  have sound := (QuicStreams.sound_run env server tp ops id st found).1
  exact (marked id st found).busy ((busy_iff sound).1 owes)

end

end Cx.Quic
