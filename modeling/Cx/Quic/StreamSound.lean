import Cx.Quic.StreamStep

/-!
# What holds of every stream

`StreamMove.change` says what a move can have done to a stream that exists after it: nothing, one of
the changes of `StreamChange`, or created it.  A property of single streams is therefore an
invariant as soon as a new stream has it and every change keeps it.  `SendSound` and `RecvSound` say
how the buffer, the counters, the owed frames and the state of a half fit together.
-/

namespace Cx.Quic

open Library Relation

variable (ss : QuicStreams)

theorem byId_streamForget (id : Nat) : (streamForget ss id).byId = ss.byId.erase id := by
  unfold streamForget streamsGrantMore
  dsimp only
  split_ifs <;> rfl

theorem streamSettle_cases (st : QuicStreamState) :
    ((sendHalfDone st = false ∨ recvHalfDone st = false) ∧ streamSettle ss st = ss.store st) ∨
      (sendHalfDone st = true ∧ recvHalfDone st = true ∧
        streamSettle ss st = streamForget ss st.id) := by
  unfold streamSettle
  split_ifs with busy
  · exact .inl ⟨by simpa using busy, rfl⟩
  · simp only [Bool.or_eq_true, Bool.not_eq_true', not_or, Bool.not_eq_false] at busy
    exact .inr ⟨busy.1, busy.2, rfl⟩

/-- A stream that exists after another was settled is that one, with a half that is not done, or
existed before. -/
theorem find_streamSettle {ss : QuicStreams} {st after : QuicStreamState} {id : Nat}
    (found : (streamSettle ss st).byId.find id = some after) :
    (id = st.id ∧ after = st ∧ (sendHalfDone st = false ∨ recvHalfDone st = false)) ∨
      (id ≠ st.id ∧ ss.byId.find id = some after) := by
  rcases streamSettle_cases ss st with ⟨unfinished, settle_eq⟩ | ⟨-, -, settle_eq⟩
  · rw [settle_eq, find_store] at found
    split_ifs at found with here
    · exact .inl ⟨here, (Option.some.inj found).symm, unfinished⟩
    · exact .inr ⟨here, found⟩
  · rw [settle_eq, byId_streamForget, Table.find_erase] at found
    split_ifs at found with here
    exact .inr ⟨here, found⟩

@[simp] theorem byId_connWindowUpdate : (connWindowUpdate ss).byId = ss.byId := by
  unfold connWindowUpdate
  dsimp only
  split_ifs <;> rfl

@[simp] theorem byId_handleMaxStreams (dir : QuicDir) (max : Nat) :
    (handleMaxStreams ss dir max).byId = ss.byId := by
  unfold handleMaxStreams
  split_ifs <;> rfl

variable (st : QuicStreamState) (upto : Nat)

theorem byId_recvReturn : (recvReturn ss st upto).1.byId = ss.byId := by
  unfold recvReturn
  split_ifs <;> rfl

theorem recvReturn_stream :
    (recvReturn ss st upto).2 = { st with recvRead := max st.recvRead upto } := by
  unfold recvReturn
  split_ifs with read
  · rw [Nat.max_eq_left read]
  · rw [Nat.max_eq_right (Nat.le_of_not_le read)]

/-- Where a stream that exists after a move comes from: it was there, it changed, or it is new. -/
def StreamOrigin (env : StreamEnv) (guard : StreamGuard) (carrier : Option Nat)
    (before after : QuicStreams) (id : Nat) (later : QuicStreamState) : Prop :=
  before.byId.find id = some later ∨
    (∃ st, before.byId.find id = some st ∧ StreamChange env guard carrier before st later) ∨
    ∃ dir, later = streamInit before id ∧
      ((id = remoteNextId before dir ∧ after = streamAdmitNext before dir) ∨
        (id = quicStreamMakeId (before.nextLocal dir) before.server (dir = .uni) ∧
          after = streamOpenNext before dir))

section

variable {env : StreamEnv} {guard : StreamGuard} {carrier : Option Nat}
  {before after : QuicStreams} {id : Nat} {st changed later : QuicStreamState}

/-- What a move does to the streams: nothing, or one of them changes, is forgotten or is new. -/
inductive StreamTable (env : StreamEnv) (guard : StreamGuard) (carrier : Option Nat)
    (before after : QuicStreams) : Prop
  | same (byId_eq : after.byId = before.byId)
  | changed {st later : QuicStreamState} (found : before.byId.find st.id = some st)
      (change : StreamChange env guard carrier before st later) (id_eq : later.id = st.id)
      (byId_eq : after.byId = before.byId.put later)
  /-- The receiving half was at its end, or reached it with the move. -/
  | forgot {st : QuicStreamState} (found : before.byId.find st.id = some st)
      (ended : recvHalfDone st = true ∨ st.recvState = .reset ∨
        (st.recvState = .dataRecvd ∧ quicReasmReadable st.inn = 0))
      (byId_eq : after.byId = before.byId.erase st.id)
  | opened (dir : QuicDir) {id : Nat}
      (next : (id = remoteNextId before dir ∧ after = streamAdmitNext before dir) ∨
        (id = quicStreamMakeId (before.nextLocal dir) before.server (dir = .uni) ∧
          after = streamOpenNext before dir))
      (byId_eq : after.byId = before.byId.put (streamInit before id))

theorem StreamTable.settle {ss : QuicStreams}
    (after_eq : after.byId = (streamSettle ss changed).byId) (byId_eq : ss.byId = before.byId)
    (found : before.byId.find st.id = some st) (id_eq : changed.id = st.id)
    (change : sendHalfDone changed = false ∨ recvHalfDone changed = false →
      StreamChange env guard carrier before st changed)
    (ended : recvHalfDone changed = true → recvHalfDone st = true ∨ st.recvState = .reset ∨
      (st.recvState = .dataRecvd ∧ quicReasmReadable st.inn = 0)) :
    StreamTable env guard carrier before after := by
  rcases streamSettle_cases ss changed with ⟨unfinished, settle_eq⟩ | ⟨-, done, settle_eq⟩
  · refine .changed found (change unfinished) id_eq ?_
    rw [after_eq, settle_eq, QuicStreams.store, byId_eq]
  · refine .forgot found (ended done) ?_
    rw [after_eq, settle_eq, byId_streamForget, byId_eq, id_eq]

variable {pn : Nat} {first last : QuicStreamState × QuicFill} {server : Bool}
variable (ss : QuicStreams)

theorem id_of_fillMoves (moves : FillMoves pn first last) : last.1.id = first.1.id := by
  induction moves with
  | refl => rfl
  | tail _ move ih => cases move <;> exact ih

theorem Visit.id_eq (visit : Visit guard carrier st later) : later.id = st.id := by
  cases visit with
  | filled _ moves => exact id_of_fillMoves moves
  | acked pn => exact id_streamAnswer st pn true
  | lost => rfl

/-- Filling a packet from a stream leaves its receiving half, its limit and its place alone. -/
theorem frame_of_fillMoves (moves : FillMoves pn first last) :
    last.1.toQuicRecvHalf = first.1.toQuicRecvHalf ∧ last.1.active = first.1.active ∧
      last.1.sendState = first.1.sendState ∧ last.1.sendMax = first.1.sendMax := by
  induction moves with
  | refl => exact ⟨rfl, rfl, rfl, rfl⟩
  | tail _ move ih => cases move <;> exact ih

/-- A visit leaves the receiving half, the limit and the place on the list alone. -/
theorem Visit.frame (visit : Visit guard carrier st later) :
    later.toQuicRecvHalf = st.toQuicRecvHalf ∧ later.active = st.active ∧
      later.sendMax = st.sendMax := by
  cases visit with
  | filled _ moves =>
    obtain ⟨recv, active, -, limit⟩ := frame_of_fillMoves moves
    exact ⟨recv, active, limit⟩
  | acked pn => fun_cases streamAcked st pn <;> exact ⟨rfl, rfl, rfl⟩
  | lost => exact ⟨rfl, rfl, rfl⟩

theorem StreamMove.table (move : StreamMove env guard carrier before after) :
    StreamTable env guard carrier before after := by
  cases move with
  | params | configure | ctl | connLimit | dropped | rotated | notified => exact .same rfl
  | fail frameType => exact .same (byId_streamsFail before _ frameType)
  | credit => exact .same (byId_connWindowUpdate before)
  | countLimit dir max => exact .same (byId_handleMaxStreams before dir max)
  | @admitted dir => exact .opened dir (.inl ⟨rfl, rfl⟩) rfl
  | @opened dir => exact .opened dir (.inr ⟨rfl, rfl⟩) rfl
  | wait found wait woken waits =>
    exact .changed found (.wait wait waits) rfl (by rw [QuicStreams.store, byId_wake])
  | limit found raised permitted => exact .changed found (.limit raised permitted) rfl rfl
  | sized found unknown above permitted =>
    exact .changed found (.sized unknown above permitted) rfl rfl
  | counted found receives above below room final =>
    exact .changed found (.counted receives above below final) rfl rfl
  | placed found stores within added => exact .changed found (.placed stores within added) rfl rfl
  | advanced found stores => exact .changed found (.advanced stores) (id_recvAdvance _) rfl
  | peerReset found receives known final first unread error permitted =>
    refine .changed found (.peerReset receives known final first unread permitted) rfl ?_
    rw [recvReturn_stream, ← byId_recvReturn before (recvAbandon _)]
    rfl
  | stopped found permitted => exact .changed found (.stopped permitted) rfl rfl
  | abandon found sending error =>
    exact .changed found (.abandon sending error) rfl (by rw [arm_eq])
  | write found writing some_data fits added =>
    exact .changed found (.write writing some_data fits added) rfl (by rw [arm_eq])
  | complain found writing full =>
    exact .changed found (.complain writing full) rfl (by rw [arm_eq])
  | finish found writing => exact .changed found (.finish writing) rfl (by rw [arm_eq])
  | stop found receiving permitted =>
    exact .changed found (.stop receiving permitted) rfl (by rw [arm_eq])
  | take found not_reset some_bytes readable permitted =>
    exact .changed found (.take not_reset some_bytes readable permitted) rfl rfl
  | window found receiving forward =>
    exact .changed found (.window receiving forward) rfl (by rw [arm_eq])
  | ended found arrived drained =>
    refine .settle rfl rfl found rfl (fun unfinished => ?_) fun _ => .inr (.inr ⟨arrived, drained⟩)
    exact .ended arrived drained (unfinished.resolve_right (by simp [recvHalfDone]))
  | endedReset found abandoned =>
    refine .settle rfl rfl found rfl (fun unfinished => ?_) fun _ => .inr (.inl abandoned)
    exact .endedReset abandoned (unfinished.resolve_right (by simp [recvHalfDone]))
  | kept found visit wait woken busy waits =>
    exact .changed found (.kept visit wait busy waits) visit.id_eq
      (by rw [QuicStreams.store, byId_wake])
  | retired front back found listed visit wait woken idle settled waits =>
    refine .settle rfl (byId_wake before woken _) found visit.id_eq
      (StreamChange.retired visit wait idle settled · waits) fun done => .inl ?_
    have half_eq := congrArg QuicRecvHalf.recvState visit.frame.1
    simp only [recvHalfDone] at done ⊢
    rw [← half_eq]
    exact done

/-- What a move can have done to a stream that exists after it. -/
theorem StreamMove.change (move : StreamMove env guard carrier before after)
    (found_later : after.byId.find id = some later) :
    StreamOrigin env guard carrier before after id later := by
  cases move.table with
  | same byId_eq => exact .inl (byId_eq ▸ found_later)
  | changed found change id_eq byId_eq =>
    rw [byId_eq, Table.find_put] at found_later
    split_ifs at found_later with here
    · cases found_later
      exact .inr (.inl ⟨_, by rw [here, id_eq]; exact found, change⟩)
    · exact .inl found_later
  | forgot found ended byId_eq =>
    rw [byId_eq, Table.find_erase] at found_later
    split_ifs at found_later
    exact .inl found_later
  | opened dir next byId_eq =>
    rw [byId_eq, Table.find_put] at found_later
    split_ifs at found_later with here
    · cases found_later
      exact .inr (.inr ⟨dir, by rw [here]; rfl, by rw [here]; exact next⟩)
    · exact .inl found_later

/-- A property that new streams have and every change keeps is kept by every move. -/
theorem StreamMove.forall_streams {Good : QuicStreamState → Prop}
    (created : ∀ id, Good (streamInit before id))
    (changed : ∀ st later, Good st → before.byId.find st.id = some st →
      StreamChange env guard carrier before st later → Good later)
    (all : ∀ id st, before.byId.find id = some st → Good st)
    (move : StreamMove env guard carrier before after) :
    ∀ id st, after.byId.find id = some st → Good st := by
  intro id st found
  rcases move.change found with same | ⟨old, old_found, change⟩ | ⟨dir, rfl, -⟩
  · exact all id st same
  · exact changed old st (all id old old_found) (quicStreamFind_eq old_found) change
  · exact created id

structure QuicStreamState.SendSound (server : Bool) (st : QuicStreamState) : Prop where
  buffer : st.out.Sound
  /-- The half is absent exactly on a one-way stream the peer opened. -/
  absent : st.sendState = .none ↔ (quicStreamUni st.id && !quicStreamLocal st.id server) = true
  /-- RESET_STREAM is owed only while the reset is not acknowledged. -/
  reset_owed : st.reset ≠ .idle → st.sendState = .resetSent
  /-- The end of the stream is owed only after the application finished. -/
  fin_owed : st.fin ≠ .idle → st.sendState = .dataSent
  /-- Once the end of the stream is acknowledged it is not owed again. -/
  fin_acked : st.finAcked = true →
    st.fin = .idle ∧ st.sendState ≠ .ready ∧ st.sendState ≠ .send
  blocked_owed : st.blocked ≠ .idle → st.sendBlocked = st.sendMax
  unsent : st.sendState ≠ .send → st.sendState ≠ .dataSent → st.sendState ≠ .dataDone →
    st.out.endOff = 0
  done : st.sendState = .dataDone → ∀ position state,
    Tile.HasState st.out.chunks position state → state = .acked
  within : st.out.endOff ≤ st.sendMax

theorem QuicStreamState.SendSound.congr (sound : st.SendSound server)
    (half : later.toQuicSendHalf = st.toQuicSendHalf) (id_eq : later.id = st.id) :
    later.SendSound server := by
  obtain ⟨buffer, absent, reset_owed, fin_owed, fin_acked, blocked_owed, unsent, done, within⟩ :=
    sound
  constructor <;> (try rw [half]) <;> (try rw [id_eq]) <;> assumption

/-- A half that is there does not go away. -/
theorem QuicStreamState.SendSound.stays (sound : st.SendSound server) {next : QuicSendState}
    (present : st.sendState ≠ .none) (next_present : next ≠ .none) :
    next = .none ↔ (quicStreamUni st.id && !quicStreamLocal st.id server) = true :=
  ⟨fun gone => absurd gone next_present, fun gone => absurd (sound.absent.2 gone) present⟩

/-- While the application writes, neither the end of the stream nor a reset is on its way. -/
theorem QuicStreamState.SendSound.writing (sound : st.SendSound server)
    (writing : st.sendState = .ready ∨ st.sendState = .send) :
    st.sendState ≠ .none ∧ st.reset = .idle ∧ st.fin = .idle ∧ st.finAcked = false := by
  have elsewhere {state : QuicSendState} (here : st.sendState = state) :
      state = .ready ∨ state = .send := here ▸ writing
  refine ⟨fun absent => ?_, ?_, ?_, ?_⟩
  · simpa using elsewhere absent
  · by_contra owed
    simpa using elsewhere (sound.reset_owed owed)
  · by_contra owed
    simpa using elsewhere (sound.fin_owed owed)
  · by_contra acked
    obtain ⟨-, not_ready, not_send⟩ := sound.fin_acked (by simpa using acked)
    exact (writing.elim not_ready not_send).elim

theorem sendSound_init (id : Nat) : (streamInit ss id).SendSound ss.server where
  buffer := QuicSendBuf.sound_init
  absent := by
    simp only [streamInit]
    split_ifs with absent <;> simpa using absent
  reset_owed := fun owed => absurd rfl owed
  fin_owed := fun owed => absurd rfl owed
  fin_acked := nofun
  blocked_owed := fun owed => absurd rfl owed
  unsent := fun _ _ _ => rfl
  done := fun _ position state held => (Tile.hasState_nil held).elim
  within := Nat.zero_le _

/-- A write that fits in the room stays below the stream's and the connection's limit. -/
theorem le_of_fits {ss : QuicStreams} {size : Nat} (some_data : 0 < size)
    (fits : size ≤ sendRoom ss st) :
    st.out.endOff + size ≤ st.sendMax ∧ ss.sendOff + size ≤ ss.sendMax := by
  simp only [sendRoom] at fits
  split_ifs at fits <;> omega

theorem sendSound_fillMove (sound : first.1.SendSound server) (move : FillMove pn first last) :
    last.1.SendSound server := by
  cases move with
  | none | stopSending | maxData => exact sound.congr rfl rfl
  | reset wr waiting =>
    exact { sound with reset_owed := fun _ => sound.reset_owed (by simp [waiting]) }
  | blocked wr waiting =>
    exact { sound with blocked_owed := fun _ => sound.blocked_owed (by simp [waiting]) }
  | @data st fill wr max segment fin sending handed ends =>
    obtain ⟨chunks, sent_eq, tiles, states⟩ := QuicSendBuf.sent_next_spec pn sound.buffer handed
    simp only [sent_eq]
    refine { sound with
      buffer := sound.buffer.withChunks tiles, fin_owed := ?_, fin_acked := ?_, done := ?_ }
    · intro owed
      simp only at owed
      split_ifs at owed with with_fin
      · exact sound.fin_owed (by simp [(ends with_fin).1])
      · exact sound.fin_owed owed
    · intro acked
      obtain ⟨fin_idle, states⟩ := sound.fin_acked acked
      refine ⟨?_, states⟩
      simp only
      split_ifs with with_fin
      · have waiting := (ends with_fin).1
        rw [fin_idle] at waiting
        cases waiting
      · exact fin_idle
    · intro state_done
      rcases sending with state_eq | state_eq <;> cases state_eq.symm.trans state_done
  | fin wr sending waiting =>
    refine { sound with
      fin_owed := fun _ => sound.fin_owed (by simp [waiting]), fin_acked := fun acked => ?_ }
    have idle := (sound.fin_acked acked).1
    rw [waiting] at idle
    cases idle

theorem sendSound_fillMoves (moves : FillMoves pn first last) (sound : first.1.SendSound server) :
    last.1.SendSound server := by
  induction moves with
  | refl => exact sound
  | tail _ move ih => exact sendSound_fillMove ih move

theorem quicCtlAcked_ne_idle {ctl : QuicCtl} (owed : (quicCtlAcked ctl pn).2 ≠ .idle) :
    ctl ≠ .idle := by
  rintro rfl
  exact owed rfl

theorem quicCtlLost_ne_idle {ctl : QuicCtl} (owed : (quicCtlLost ctl pn).2 ≠ .idle) :
    ctl ≠ .idle := by
  rintro rfl
  exact owed rfl

theorem acked_resolve {old state : QuicChunkState} {fate : QuicChunkState}
    (resolved : QuicChunkState.resolve pn fate old = state) (old_acked : old = .acked) :
    state = .acked := by
  subst old_acked
  rw [← resolved, QuicChunkState.resolve, if_neg (by simp)]

theorem sendSound_lost (sound : st.SendSound server) (pn : Nat) :
    (streamLost st pn).SendSound server := by
  obtain ⟨lost_sound, states⟩ := QuicSendBuf.relabel_spec
    (QuicChunkState.resolve pn .pending) sound.buffer
  refine { sound with
    buffer := lost_sound
    reset_owed := fun owed => sound.reset_owed (quicCtlLost_ne_idle owed)
    fin_owed := fun owed => sound.fin_owed (quicCtlLost_ne_idle owed)
    fin_acked := fun acked => ⟨?_, (sound.fin_acked acked).2⟩
    blocked_owed := fun owed => sound.blocked_owed (quicCtlLost_ne_idle owed)
    done := fun state_done position state held => ?_ }
  · by_contra owed
    exact quicCtlLost_ne_idle owed (sound.fin_acked acked).1
  · obtain ⟨old, old_held, resolved⟩ := (states position state).1 held
    exact acked_resolve resolved (sound.done state_done position old old_held)

/-- What an acknowledged packet makes of the sending half. -/
theorem streamAcked_sendHalf (st : QuicStreamState) (pn : Nat) :
    ∃ sendState finAcked, (streamAcked st pn).toQuicSendHalf = { st.toQuicSendHalf with
        out := quicSendBufAcked st.out pn
        blocked := (quicCtlAcked st.blocked pn).2
        fin := (quicCtlAcked st.fin pn).2
        finAcked := finAcked
        reset := (quicCtlAcked st.reset pn).2
        sendState := sendState } ∧
      (finAcked = true ↔ st.fin = .sent pn ∨ st.finAcked = true) ∧
      ((st.reset = .sent pn ∧ sendState = .resetDone) ∨
        (st.reset ≠ .sent pn ∧ st.sendState = .dataSent ∧ finAcked = true ∧
          quicSendBufOutstanding (quicSendBufAcked st.out pn) = 0 ∧ sendState = .dataDone) ∨
        (st.reset ≠ .sent pn ∧ sendState = st.sendState)) := by
  have acked_iff : ((quicCtlAcked st.fin pn).1 || st.finAcked) = true ↔
      st.fin = .sent pn ∨ st.finAcked = true := by
    unfold quicCtlAcked
    split_ifs with carried <;> simp [carried]
  by_cases carried : st.reset = .sent pn
  · have flag : (quicCtlAcked st.reset pn).1 = true := by simp [quicCtlAcked, carried]
    refine ⟨.resetDone, _, ?_, acked_iff, .inl ⟨carried, rfl⟩⟩
    simp [streamAcked, flag]
  · have flag : (quicCtlAcked st.reset pn).1 = false := by simp [quicCtlAcked, carried]
    by_cases finished : st.sendState = .dataSent ∧
        ((quicCtlAcked st.fin pn).1 || st.finAcked) = true ∧
        quicSendBufOutstanding (quicSendBufAcked st.out pn) = 0
    · refine ⟨.dataDone, _, ?_, acked_iff,
        .inr (.inl ⟨carried, finished.1, finished.2.1, finished.2.2, rfl⟩)⟩
      simp only [streamAcked, flag, Bool.false_eq_true, if_false]
      rw [if_pos finished]
    · refine ⟨st.sendState, _, ?_, acked_iff, .inr (.inr ⟨carried, rfl⟩)⟩
      simp only [streamAcked, flag, Bool.false_eq_true, if_false]
      rw [if_neg finished]

theorem sendSound_acked (sound : st.SendSound server) (pn : Nat) :
    (streamAcked st pn).SendSound server := by
  obtain ⟨acked_sound, end_eq, -, -, states, -⟩ := QuicSendBuf.acked_spec pn sound.buffer
  obtain ⟨sendState, finAcked, half_eq, acked_iff, state_cases⟩ := streamAcked_sendHalf st pn
  have fin_idle : finAcked = true → (quicCtlAcked st.fin pn).2 = .idle := by
    intro acked
    rcases acked_iff.1 acked with carried | before
    · exact congrArg Prod.snd (if_pos carried)
    · by_contra owed
      exact quicCtlAcked_ne_idle owed (sound.fin_acked before).1
  have fin_states : finAcked = true → st.sendState ≠ .ready ∧ st.sendState ≠ .send := by
    intro acked
    rcases acked_iff.1 acked with carried | before
    · have finishing := sound.fin_owed (by simp [carried])
      simp [finishing]
    · exact (sound.fin_acked before).2
  -- the half as it is when the acknowledgement settles no state
  let same : QuicStreamState := { st with
    out := quicSendBufAcked st.out pn
    blocked := (quicCtlAcked st.blocked pn).2
    fin := (quicCtlAcked st.fin pn).2
    finAcked := finAcked
    reset := (quicCtlAcked st.reset pn).2 }
  have kept : same.SendSound server :=
    { sound with
      buffer := acked_sound
      reset_owed := fun owed => sound.reset_owed (quicCtlAcked_ne_idle owed)
      fin_owed := fun owed => sound.fin_owed (quicCtlAcked_ne_idle owed)
      fin_acked := fun acked => ⟨fin_idle acked, fin_states acked⟩
      blocked_owed := fun owed => sound.blocked_owed (quicCtlAcked_ne_idle owed)
      unsent := fun not_send not_sent not_done =>
        end_eq.trans (sound.unsent not_send not_sent not_done)
      done := by
        intro state_done position state held
        obtain ⟨⟨old, old_held, resolved⟩, -⟩ := (states position state).1 held
        exact acked_resolve resolved (sound.done state_done position old old_held)
      within := end_eq.trans_le sound.within }
  have half : { same with sendState := sendState }.SendSound server := by
    rcases state_cases with ⟨carried, rfl⟩ | ⟨-, finishing, acked, drained, rfl⟩ | ⟨-, rfl⟩
    · have resetting := sound.reset_owed (by simp [carried])
      refine { kept with
        absent := sound.stays (by simp [resetting]) nofun
        reset_owed := fun owed => absurd (congrArg Prod.snd (if_pos carried)) owed
        fin_owed := fun owed => ?_
        fin_acked := fun acked => ⟨fin_idle acked, nofun, nofun⟩
        unsent := fun _ _ _ => end_eq.trans
          (sound.unsent (by simp [resetting]) (by simp [resetting]) (by simp [resetting]))
        done := nofun }
      have finishing := kept.fin_owed owed
      rw [resetting] at finishing
      cases finishing
    · refine { kept with
        absent := sound.stays (by simp [finishing]) nofun
        reset_owed := fun owed => ?_
        fin_owed := fun owed => absurd (fin_idle acked) owed
        fin_acked := fun _ => ⟨fin_idle acked, nofun, nofun⟩
        unsent := fun _ _ not_done => absurd rfl not_done
        done := fun _ => acked_sound.outstanding_eq_zero_iff.1 drained }
      have resetting := kept.reset_owed owed
      rw [finishing] at resetting
      cases resetting
    · exact kept
  exact half.congr half_eq (id_streamAnswer st pn true)

theorem Visit.sendSound (visit : Visit guard carrier st later) (sound : st.SendSound server) :
    later.SendSound server := by
  cases visit with
  | filled _ moves => exact sendSound_fillMoves moves sound
  | acked pn => exact sendSound_acked sound pn
  | lost pn => exact sendSound_lost sound pn

theorem recvAdvance_frame (st : QuicStreamState) :
    (recvAdvance st).toQuicSendHalf = st.toQuicSendHalf ∧
      (recvAdvance st).toQuicRecvCtl = st.toQuicRecvCtl ∧
      (recvAdvance st).active = st.active := by
  unfold recvAdvance
  dsimp only
  split_ifs <;> exact ⟨rfl, rfl, rfl⟩

theorem StreamChange.sendSound (change : StreamChange env guard carrier before st later)
    (sound : st.SendSound server) : later.SendSound server := by
  cases change with
  | wait | sized | counted | placed | stopped | stop | take | window | ended | endedReset
  | peerReset => exact sound.congr rfl rfl
  | advanced => exact sound.congr (recvAdvance_frame st).1 (id_recvAdvance st)
  | kept visit | retired visit => exact (visit.sendSound sound).congr rfl rfl
  | limit raised =>
    exact { sound with
      blocked_owed := fun owed => absurd rfl owed, within := sound.within.trans raised.le }
  | abandon sending =>
    have present : st.sendState ≠ .none := by
      rcases sending with state_eq | state_eq | state_eq <;> simp [state_eq]
    exact ⟨QuicSendBuf.sound_init, sound.stays present nofun, fun _ => rfl,
      fun owed => absurd rfl owed, fun _ => ⟨rfl, nofun, nofun⟩, fun owed => absurd rfl owed,
      fun _ _ _ => rfl, nofun, Nat.zero_le _⟩
  | write writing some_data fits added =>
    obtain ⟨out_sound, -, end_eq, -, -⟩ := QuicSendBuf.add_spec sound.buffer added
    obtain ⟨present, reset_idle, fin_idle, unfinished⟩ := sound.writing writing
    exact { sound with
      buffer := out_sound
      absent := sound.stays present nofun
      reset_owed := fun owed => absurd reset_idle owed
      fin_owed := fun owed => absurd fin_idle owed
      fin_acked := fun acked => absurd (unfinished.symm.trans acked) nofun
      unsent := fun not_send => absurd rfl not_send
      done := nofun
      within := end_eq.trans_le (le_of_fits some_data fits).1 }
  | complain => exact { sound with blocked_owed := fun _ => rfl }
  | finish writing =>
    obtain ⟨present, reset_idle, -, unfinished⟩ := sound.writing writing
    exact { sound with
      absent := sound.stays present nofun
      reset_owed := fun owed => absurd reset_idle owed
      fin_owed := fun _ => rfl
      fin_acked := fun acked => absurd (unfinished.symm.trans acked) nofun
      unsent := fun _ not_sent => absurd rfl not_sent
      done := nofun }

structure QuicStreamState.RecvSound (server : Bool) (st : QuicStreamState) : Prop where
  buffer : st.inn.Sound
  /-- The half is absent exactly on a one-way stream this endpoint opened. -/
  absent : st.recvState = .none ↔ (quicStreamUni st.id && quicStreamLocal st.id server) = true
  unused : st.recvState = .none → st.recvHighest = 0
  read_le : st.recvRead ≤ st.recvHighest
  highest_le : st.recvHighest ≤ st.inn.limit
  recorded : ∀ position, Span.Covers st.inn.ranges position → position < st.recvHighest
  final : st.recvFinalKnown = true → st.recvHighest ≤ st.recvFinal
  /-- The buffer starts where the application stopped reading, until the peer resets. -/
  base : st.recvState ≠ .reset → st.recvState ≠ .resetRead → st.inn.base = st.recvRead
  known : st.recvState ≠ .recv → st.recvState ≠ .none → st.recvFinalKnown = true
  /-- When all bytes are there, they are readable up to the final size. -/
  arrived : st.recvState = .dataRecvd → st.inn.base + quicReasmReadable st.inn = st.recvFinal
  /-- A half that stores nothing more counts as read to the end, and holds nothing. -/
  ended : ¬ st.recvState.Stores → st.recvRead = st.recvFinal ∧
    ∀ position, ¬ Span.Covers st.inn.ranges position

theorem QuicStreamState.RecvSound.congr (sound : st.RecvSound server)
    (half : later.toQuicRecvHalf = st.toQuicRecvHalf) (id_eq : later.id = st.id) :
    later.RecvSound server := by
  obtain ⟨buffer, absent, unused, read_le, highest_le, recorded, final, base, known, arrived,
    ended⟩ := sound
  constructor <;> (try rw [half]) <;> (try rw [id_eq]) <;> assumption

theorem recvSound_init (id : Nat) : (streamInit ss id).RecvSound ss.server where
  buffer := QuicReasm.sound_init _
  absent := by
    simp only [streamInit]
    split_ifs with absent <;> simpa using absent
  unused := fun _ => rfl
  read_le := le_rfl
  highest_le := Nat.zero_le _
  recorded := fun position covered => by
    obtain ⟨range, range_mem, -⟩ := covered
    cases range_mem
  final := nofun
  base := fun _ _ => rfl
  known := by
    simp only [streamInit]
    split_ifs <;> simp
  arrived := by
    simp only [streamInit]
    split_ifs <;> simp
  ended := by
    simp only [streamInit, QuicRecvState.Stores]
    split_ifs <;> simp

theorem QuicStreamState.RecvSound.stays (sound : st.RecvSound server) {next : QuicRecvState}
    (present : st.recvState ≠ .none) (next_present : next ≠ .none) :
    next = .none ↔ (quicStreamUni st.id && quicStreamLocal st.id server) = true :=
  ⟨fun gone => absurd gone next_present, fun gone => absurd (sound.absent.2 gone) present⟩

/-- The final size is known once nothing more is stored. -/
theorem QuicStreamState.RecvSound.known_of_closed (sound : st.RecvSound server)
    (closed : ¬ st.recvState.Stores) : st.recvFinalKnown = true := by
  unfold QuicRecvState.Stores at closed
  refine sound.known ?_ ?_
  · rintro receiving
    simp [receiving] at closed
  · rintro absent
    simp [absent] at closed

/-- Received and final size agree once nothing more is stored. -/
theorem QuicStreamState.RecvSound.highest_eq (sound : st.RecvSound server)
    (closed : ¬ st.recvState.Stores) : st.recvHighest = st.recvFinal := by
  have read_eq := (sound.ended closed).1
  have read_le := sound.read_le
  have final := sound.final (sound.known_of_closed closed)
  omega

theorem recvSound_counted {endOff : Nat} (sound : st.RecvSound server)
    (receives : (quicStreamUni st.id && quicStreamLocal st.id server) = false)
    (above : st.recvHighest < endOff) (below : endOff ≤ st.inn.limit)
    (final : st.recvFinalKnown = true → endOff ≤ st.recvFinal) :
    { st with recvHighest := endOff }.RecvSound server := by
  have present : st.recvState ≠ .none := by
    intro absent
    rw [sound.absent.1 absent] at receives
    cases receives
  exact { sound with
    unused := fun absent => absurd absent present
    read_le := sound.read_le.trans above.le
    highest_le := below
    recorded := fun position covered => (sound.recorded position covered).trans above
    final := final }

/-- Bytes that fill the buffer up to an end, and none beyond it, are readable up to there. -/
theorem QuicReasm.Sound.readable_end {r : QuicReasm} (sound : r.Sound) {top highest : Nat}
    (base_le : r.base ≤ highest) (highest_le : highest ≤ top)
    (below : ∀ position, Span.Covers r.ranges position → position < highest)
    (whole : ∀ position, r.base ≤ position → position < top → Span.Covers r.ranges position) :
    r.base + quicReasmReadable r = top := by
  refine le_antisymm ?_ (QuicReasm.le_readable sound whole)
  by_contra long
  have covered := QuicReasm.covers_of_lt_readable base_le (highest_le.trans_lt (not_le.1 long))
  exact Nat.lt_irrefl _ (below highest covered)

theorem recvSound_placed {alloc : Nat → Bool} {offset : Nat} {data : List UInt8} {inn : QuicReasm}
    (sound : st.RecvSound server) (stores : st.recvState.Stores)
    (within : offset + data.length ≤ st.recvHighest)
    (added : quicReasmAdd alloc st.inn offset data = some inn) :
    { st with inn := inn }.RecvSound server := by
  obtain ⟨inn_sound, base_eq, limit_eq, kept, bounded⟩ :=
    QuicReasm.add_bounds sound.buffer added
  have recorded : ∀ position, Span.Covers inn.ranges position → position < st.recvHighest := by
    intro position covered
    rcases bounded position covered with old | low
    · exact sound.recorded position old
    · exact low.trans_le within
  refine { sound with
    buffer := inn_sound
    highest_le := sound.highest_le.trans limit_eq.ge
    recorded := recorded
    base := fun not_reset unread => base_eq.trans (sound.base not_reset unread)
    arrived := ?_
    ended := fun closed => absurd stores closed }
  intro (arrived : st.recvState = .dataRecvd)
  have known := sound.known (by simp [arrived]) (by simp [arrived])
  have base_read := sound.base (by simp [arrived]) (by simp [arrived])
  have all_here := sound.arrived arrived
  have read_le := sound.read_le
  refine inn_sound.readable_end (by omega) (sound.final known) recorded
    fun position low (high : position < st.recvFinal) => kept position ?_
  exact QuicReasm.covers_of_lt_readable (by omega) (by omega)

/-- Advancing goes one or two states further, or nowhere. -/
theorem recvAdvance_cases (st : QuicStreamState) :
    recvAdvance st = st ∨ (st.recvFinalKnown = true ∧ st.recvState = .recv ∧
        recvAdvance st = { st with recvState := .sizeKnown }) ∨
      ((st.recvState = .sizeKnown ∨ (st.recvFinalKnown = true ∧ st.recvState = .recv)) ∧
        st.inn.base + quicReasmReadable st.inn = st.recvFinal ∧
        recvAdvance st = { st with recvState := .dataRecvd }) := by
  unfold recvAdvance
  dsimp only
  split_ifs with named all_here all_here
  · exact .inr (.inr ⟨.inr named, all_here.2, rfl⟩)
  · exact .inr (.inl ⟨named.1, named.2, rfl⟩)
  · exact .inr (.inr ⟨.inl all_here.1, all_here.2, rfl⟩)
  · exact .inl rfl

section

variable (sound : st.RecvSound server)
include sound

theorem recvSound_advanced : (recvAdvance st).RecvSound server := by
  rcases recvAdvance_cases st with same | ⟨known, receiving, named⟩ | ⟨open_state, all_here, whole⟩
  · rw [same]
    exact sound
  · rw [named]
    exact { sound with
      absent := sound.stays (by simp [receiving]) nofun
      unused := nofun
      base := fun _ _ => sound.base (by simp [receiving]) (by simp [receiving])
      known := fun _ _ => known
      arrived := nofun
      ended := fun closed => absurd (by simp [QuicRecvState.Stores]) closed }
  · rw [whole]
    have open_half : st.recvState = .sizeKnown ∨ st.recvState = .recv :=
      open_state.imp_right And.right
    have known : st.recvFinalKnown = true := by
      rcases open_state with named | both
      · exact sound.known (by simp [named]) (by simp [named])
      · exact both.1
    exact { sound with
      absent := sound.stays (by rcases open_half with h | h <;> simp [h]) (by simp)
      unused := by simp
      base := fun _ _ => sound.base (by rcases open_half with h | h <;> simp [h])
        (by rcases open_half with h | h <;> simp [h])
      known := fun _ _ => known
      arrived := fun _ => all_here
      ended := fun closed => absurd (by simp [QuicRecvState.Stores]) closed }

theorem recvSound_peerReset
    (receives : (quicStreamUni st.id && quicStreamLocal st.id server) = false)
    (known : st.recvFinalKnown = true) (final : st.recvFinal ≤ st.recvHighest) :
    { recvAbandon st with recvRead := max st.recvRead st.recvFinal }.RecvSound server := by
  have highest_le := sound.final known
  have read_le := sound.read_le
  have nothing : ∀ position, ¬ Span.Covers (quicReasmInit st.inn.limit).ranges position := by
    rintro position ⟨range, range_mem, -⟩
    cases range_mem
  refine ⟨QuicReasm.sound_init _, ⟨nofun, fun gone => absurd (receives.symm.trans gone) nofun⟩,
    nofun, ?_, sound.highest_le, fun position covered => absurd covered (nothing position),
      sound.final,
    fun not_reset => absurd rfl not_reset, fun _ _ => known, nofun, fun _ => ⟨?_, nothing⟩⟩
  · exact Nat.max_le.2 ⟨read_le, final⟩
  · exact Nat.max_eq_right (by omega)

theorem recvSound_take {count : Nat} (not_reset : st.recvState ≠ .reset) (some_bytes : 0 < count)
    (readable : count ≤ quicReasmReadable st.inn) :
    { st with
      inn := quicReasmConsume st.inn count
      recvRead := st.recvRead + count }.RecvSound server := by
  obtain ⟨inn_sound, base_eq, limit_eq, covers, -⟩ :=
    QuicReasm.consume_spec sound.buffer readable
  have covered : Span.Covers st.inn.ranges st.inn.base :=
    QuicReasm.covers_of_lt_readable le_rfl (by omega)
  have stores : st.recvState.Stores := by
    by_contra closed
    exact (sound.ended closed).2 _ covered
  have unread : st.recvState ≠ .resetRead := fun read => stores (.inr (.inl read))
  have base_read := sound.base not_reset unread
  have recorded : ∀ position, Span.Covers (quicReasmConsume st.inn count).ranges position →
      position < st.recvHighest :=
    fun position later => sound.recorded position ((covers position).1 later).1
  have last : st.recvRead + count ≤ st.recvHighest := by
    have := sound.recorded _ (QuicReasm.covers_of_lt_readable
      (show st.inn.base ≤ st.inn.base + (count - 1) by omega) (by omega))
    omega
  refine { sound with
    buffer := inn_sound
    read_le := last
    highest_le := sound.highest_le.trans limit_eq.ge
    recorded := recorded
    base := fun _ _ => by simp only; omega
    arrived := ?_
    ended := fun closed => absurd stores closed }
  intro (arrived : st.recvState = .dataRecvd)
  have all_here := sound.arrived arrived
  have known := sound.known (by simp [arrived]) (by simp [arrived])
  refine inn_sound.readable_end (by omega) (sound.final known) recorded
    fun position low (high : position < st.recvFinal) => (covers position).2 ⟨?_, by omega⟩
  exact QuicReasm.covers_of_lt_readable (by omega) (by omega)

theorem recvSound_ended (arrived : st.recvState = .dataRecvd)
    (drained : quicReasmReadable st.inn = 0) :
    { st with recvState := .dataRead }.RecvSound server := by
  have known := sound.known (by simp [arrived]) (by simp [arrived])
  have base_read := sound.base (by simp [arrived]) (by simp [arrived])
  have all_here := sound.arrived arrived
  have highest_le := sound.final known
  refine { sound with
    absent := sound.stays (by simp [arrived]) nofun
    unused := nofun
    base := fun _ _ => base_read
    known := fun _ _ => known
    arrived := nofun
    ended := fun _ => ⟨by simp only; omega, fun position covered => ?_⟩ }
  have low := sound.buffer.separated.low_le covered
  have high := sound.recorded position covered
  omega

theorem recvSound_endedReset (abandoned : st.recvState = .reset) :
    { st with recvState := .resetRead }.RecvSound server := by
  exact { sound with
    absent := sound.stays (by simp [abandoned]) nofun
    unused := nofun
    base := fun _ unread => absurd rfl unread
    known := fun _ _ => sound.known (by simp [abandoned]) (by simp [abandoned])
    arrived := nofun
    ended := fun _ => sound.ended (by simp [QuicRecvState.Stores, abandoned]) }

end

theorem StreamChange.recvSound (change : StreamChange env guard carrier before st later)
    (sound : st.RecvSound before.server) : later.RecvSound before.server := by
  cases change with
  | wait | limit | stopped | abandon | write | complain | finish | stop => exact sound.congr rfl rfl
  | kept visit | retired visit => exact sound.congr visit.frame.1 visit.id_eq
  | sized unknown above =>
    have not_known (known : st.recvFinalKnown = true) : False :=
      absurd (unknown.symm.trans known) nofun
    exact { sound with
      final := fun _ => above
      known := fun _ _ => rfl
      arrived := fun arrived : st.recvState = .dataRecvd =>
        (not_known (sound.known (by simp [arrived]) (by simp [arrived]))).elim
      ended := fun closed => (not_known (sound.known_of_closed closed)).elim }
  | counted receives above below final =>
    exact recvSound_counted sound (by simpa only [canRecv, Bool.not_eq_true'] using receives) above
      below final
  | placed stores within added => exact recvSound_placed sound stores within added
  | advanced => exact recvSound_advanced sound
  | peerReset receives known final =>
    exact recvSound_peerReset sound (by simpa only [canRecv, Bool.not_eq_true'] using receives)
      known final
  | take not_reset some_bytes readable => exact recvSound_take sound not_reset some_bytes readable
  | window receiving forward =>
    exact { sound with
      buffer := { sound.buffer with
        below_limit := fun range range_mem =>
          (sound.buffer.below_limit range range_mem).trans forward.le }
      highest_le := sound.highest_le.trans forward.le }
  | ended arrived drained => exact recvSound_ended sound arrived drained
  | endedReset abandoned => exact recvSound_endedReset sound abandoned

theorem streamForget_eq (id : Nat) : streamForget ss id = { ss with
      byId := ss.byId.erase id
      events := ss.events ++ [.closed id]
      recvMaxStreams :=
        if quicStreamLocal id ss.server = true ∨
          QUIC_MAX_STREAM_COUNT ≤ ss.recvMaxStreams (quicStreamDir id) then ss.recvMaxStreams
        else Function.update ss.recvMaxStreams (quicStreamDir id)
          (ss.recvMaxStreams (quicStreamDir id) + 1)
      maxStreams :=
        if quicStreamLocal id ss.server = true ∨
          QUIC_MAX_STREAM_COUNT ≤ ss.recvMaxStreams (quicStreamDir id) then ss.maxStreams
        else Function.update ss.maxStreams (quicStreamDir id) quicCtlQueue } := by
  unfold streamForget streamsGrantMore
  dsimp only [QuicStreams.tell]
  by_cases opened : quicStreamLocal id ss.server = true
  · simp [opened]
  · by_cases capped : QUIC_MAX_STREAM_COUNT ≤ ss.recvMaxStreams (quicStreamDir id) <;>
      simp [opened, capped]

theorem connWindowUpdate_cases :
    connWindowUpdate ss = ss ∨ (ss.recvMax < uint64Add ss.recvRead ss.recvWindow ∧
      connWindowUpdate ss = { ss with
        recvMax := uint64Add ss.recvRead ss.recvWindow
        maxData := quicCtlQueue }) := by
  unfold connWindowUpdate
  dsimp only
  split_ifs with no_window enough
  · exact .inl rfl
  · exact .inl rfl
  · exact .inr ⟨by omega, rfl⟩

theorem recvReturn_eq (st : QuicStreamState) (upto : Nat) :
    ∃ recvRead, (recvReturn ss st upto).1 = { ss with recvRead := recvRead } := by
  unfold recvReturn
  split_ifs
  · exact ⟨ss.recvRead, rfl⟩
  · exact ⟨_, rfl⟩

def QuicStreams.opened (ss : QuicStreams) : Bool × (QuicDir → Nat) × (QuicDir → Nat) :=
  (ss.server, ss.nextLocal, ss.nextRemote)

/-- Settling a stream leaves alone what the streams share. -/
theorem streamSettle_frame (st : QuicStreamState) :
    (streamSettle ss st).toQuicStreamsConfig = ss.toQuicStreamsConfig ∧
      (streamSettle ss st).toQuicSendFlow = ss.toQuicSendFlow ∧
      (streamSettle ss st).toQuicRecvFlow = ss.toQuicRecvFlow ∧
      (streamSettle ss st).nextRemote = ss.nextRemote := by
  rcases streamSettle_cases ss st with ⟨-, settle_eq⟩ | ⟨-, -, settle_eq⟩
  · rw [settle_eq]
    exact ⟨rfl, rfl, rfl, rfl⟩
  · rw [settle_eq, streamForget_eq]
    exact ⟨rfl, rfl, rfl, rfl⟩

theorem opened_streamSettle (st : QuicStreamState) : (streamSettle ss st).opened = ss.opened := by
  obtain ⟨config, send, -, remote⟩ := streamSettle_frame ss st
  rw [QuicStreams.opened, config, send, remote]
  rfl

/-- Frames that say nothing of a single stream. -/
def QuicFrame.ConnWide : QuicFrame → Prop
  | .maxData _ | .dataBlocked _ | .maxStreams _ _ | .streamsBlocked _ _ => True
  | _ => False

section

variable {P : QuicStreamState → Prop} {Q : QuicFrame → Prop}

theorem QuicFill.wrote_new {fill : QuicFill} {wr : QuicWr} {new : QuicFrame} (holds : Q new) :
    ∀ f ∈ (fill.wrote wr new).frames, f ∈ fill.frames ∨ Q f :=
  List.forall_mem_append.2 ⟨fun _ => .inl, List.forall_mem_singleton.2 (.inr holds)⟩

theorem ConnFillMoves.frames {first last : QuicStreams × QuicFill}
    (moves : ConnFillMoves pn first last) : last.1.byId = first.1.byId ∧
      last.1.opened = first.1.opened ∧ ∀ f ∈ last.2.frames, f ∈ first.2.frames ∨ f.ConnWide := by
  induction moves with
  | refl => exact ⟨rfl, rfl, fun _ early => .inl early⟩
  | tail _ move ih =>
    obtain ⟨byId_eq, opened_eq, new⟩ := ih
    cases move with
    | none => exact ⟨byId_eq, opened_eq, new⟩
    | maxData | dataBlocked | maxStreams | streamsBlocked =>
      refine ⟨byId_eq, opened_eq, fun f f_mem => ?_⟩
      exact (QuicFill.wrote_new (by trivial) f f_mem).elim (new f) .inr

variable (step : ∀ {first last : QuicStreamState × QuicFill}, FillMove pn first last → P first.1 →
  P last.1 ∧ ∀ f ∈ last.2.frames, f ∈ first.2.frames ∨ Q f)
include step

/-- What every move of filling from a stream keeps, and what holds of each frame it writes. -/
theorem FillMoves.frames_of (moves : FillMoves pn first last) (holds : P first.1) :
    P last.1 ∧ ∀ f ∈ last.2.frames, f ∈ first.2.frames ∨ Q f := by
  induction moves with
  | refl => exact ⟨holds, fun _ early => .inl early⟩
  | tail _ move ih =>
    obtain ⟨later_holds, new⟩ := step move ih.1
    exact ⟨later_holds, fun f f_mem => (new f f_mem).elim (ih.2 f) .inr⟩

/-- What holds of each frame that a stream writes holds of the whole packet. -/
theorem quicStreamsFill_frames (retired : ∀ st, P st → P { st with active := false })
    (conn : ∀ f : QuicFrame, f.ConnWide → Q f)
    (all : ∀ id st, ss.byId.find id = some st → P st) (bufsz : Nat) :
    ∀ f ∈ (quicStreamsFill ss bufsz pn).2.frames, Q f := by
  obtain ⟨byId_eq, -, new⟩ := (fillConn_moves ss ⟨quicWrInit bufsz, [], false⟩ pn).frames
  refine (fillLoop_induction pn _ _ _ (fun after fill =>
    (∀ id st, after.byId.find id = some st → P st) ∧ ∀ f ∈ fill.frames, Q f)
    ⟨by rwa [byId_eq], fun f f_mem => conn f ((new f f_mem).resolve_left nofun)⟩ ?_ ?_ ?_).2
  · exact fun _ _ _ _ good _ _ => good
  · rintro before fill st rest later filled ⟨all, written⟩ - found moves -
    obtain ⟨holds, new⟩ := FillMoves.frames_of step moves (all st.id st found)
    refine ⟨fun id other other_found => ?_, fun f f_mem => (new f f_mem).elim (written f) id⟩
    rw [find_store] at other_found
    split_ifs at other_found
    · exact Option.some.inj other_found ▸ holds
    · exact all id other other_found
  · rintro before fill st rest later filled ⟨all, written⟩ - found moves - -
    obtain ⟨holds, new⟩ := FillMoves.frames_of step moves (all st.id st found)
    refine ⟨fun id other other_found => ?_, fun f f_mem => (new f f_mem).elim (written f) id⟩
    rcases find_streamSettle other_found with ⟨-, rfl, -⟩ | ⟨-, same⟩
    · exact retired later holds
    · exact all id other same

end

/-- What a move does to what the streams share: nothing, but for a few that are about it. -/
inductive StreamShared (guard : StreamGuard) (before after : QuicStreams) : Prop
  | same (config : after.toQuicStreamsConfig = before.toQuicStreamsConfig)
      (send : after.toQuicSendFlow = before.toQuicSendFlow)
      (recvMax : after.recvMax = before.recvMax) (remote : after.nextRemote = before.nextRemote)
  | write {st : QuicStreamState} {size : Nat} (found : before.byId.find st.id = some st)
      (fits : before.sendOff + size ≤ before.sendMax)
      (config : after.toQuicStreamsConfig = before.toQuicStreamsConfig)
      (send : after.toQuicSendFlow =
        { before.toQuicSendFlow with sendOff := before.sendOff + size })
      (recvMax : after.recvMax = before.recvMax) (remote : after.nextRemote = before.nextRemote)
  | params {tp : QuicTransportParams} (permitted : guard.params tp)
      (after_eq : after = quicStreamsPeerParams before tp)
  | configure {sendBufMax sendLow : Nat} (permitted : guard.configure sendBufMax sendLow)
      (after_eq : after = { before with sendBufMax := sendBufMax, sendLow := sendLow })
  | connLimit {max : Nat} (raised : before.sendMax < max) (permitted : guard.connLimit max)
      (after_eq : after = { before with sendMax := max, dataBlocked := .idle })
  | countLimit {dir : QuicDir} {max : Nat} (raised : before.sendMaxStreams dir < max)
      (after_eq : after = { before with
        sendMaxStreams := Function.update before.sendMaxStreams dir max
        streamsBlocked := Function.update before.streamsBlocked dir .idle })
  | credit {max : Nat} (raised : before.recvMax < max)
      (after_eq : after = { before with recvMax := max, maxData := quicCtlQueue })
  | admitted {dir : QuicDir} (after_eq : after = streamAdmitNext before dir)
  | opened {dir : QuicDir} (room : before.nextLocal dir < before.sendMaxStreams dir)
      (after_eq : after = streamOpenNext before dir)

theorem StreamMove.shared (move : StreamMove env guard carrier before after) :
    StreamShared guard before after := by
  cases move with
  | params permitted => exact .params permitted rfl
  | configure permitted => exact .configure permitted rfl
  | connLimit raised permitted => exact .connLimit raised permitted rfl
  | admitted => exact .admitted rfl
  | opened room => exact .opened room rfl
  | write found writing some_data fits =>
    rw [arm_eq]
    exact .write found (le_of_fits some_data fits).2 rfl rfl rfl rfl
  | countLimit =>
    unfold handleMaxStreams
    split_ifs with raised
    · exact .countLimit raised rfl
    · exact .same rfl rfl rfl rfl
  | credit =>
    rcases connWindowUpdate_cases before with same | ⟨raised, moved⟩
    · rw [same]
      exact .same rfl rfl rfl rfl
    · exact .credit raised moved
  | ctl | dropped | rotated | notified | limit | sized | counted | placed | advanced | stopped
  | take => exact .same rfl rfl rfl rfl
  | fail =>
    unfold streamsFail
    split_ifs <;> exact .same rfl rfl rfl rfl
  | peerReset =>
    obtain ⟨recvRead, return_eq⟩ := recvReturn_eq before (recvAbandon _) _
    rw [return_eq]
    exact .same rfl rfl rfl rfl
  | abandon | complain | finish | stop | window =>
    rw [arm_eq]
    exact .same rfl rfl rfl rfl
  | @ended st | @endedReset st =>
    obtain ⟨config, send, recv, remote⟩ := streamSettle_frame before { st with recvState := _ }
    exact .same config send (congrArg QuicRecvFlow.recvMax recv) remote
  | wait found wait woken | kept found visit wait woken =>
    cases woken <;> exact .same rfl rfl rfl rfl
  | @retired st after front back found listed visit wait woken =>
    obtain ⟨config, send, recv, remote⟩ := streamSettle_frame
      { before.wake woken st.id with active := front ++ back }
      { after with toQuicSendWait := wait, active := false }
    cases woken <;> exact .same config send (congrArg QuicRecvFlow.recvMax recv) remote

/-- A move that opens no stream leaves the numbers of streams opened alone. -/
theorem StreamMove.opens (move : StreamMove env guard carrier before after) :
    after.opened = before.opened ∨ (∃ dir, after = streamAdmitNext before dir) ∨
      ∃ dir, after = streamOpenNext before dir := by
  cases move.shared with
  | same config send _ remote | write _ _ config send _ remote =>
    exact .inl (by rw [QuicStreams.opened, config, send, remote]; rfl)
  | params _ after_eq | configure _ after_eq | connLimit _ _ after_eq | countLimit _ after_eq
  | credit _ after_eq => exact .inl (after_eq ▸ rfl)
  | admitted after_eq => exact .inr (.inl ⟨_, after_eq⟩)
  | opened _ after_eq => exact .inr (.inr ⟨_, after_eq⟩)

theorem StreamMove.server_eq (move : StreamMove env guard carrier before after) :
    after.server = before.server := by
  rcases move.opens with same | ⟨dir, rfl⟩ | ⟨dir, rfl⟩
  · exact congrArg Prod.fst same
  · rfl
  · rfl

def QuicStreams.Sound (ss : QuicStreams) : Prop :=
  ∀ id st, ss.byId.find id = some st → st.SendSound ss.server ∧ st.RecvSound ss.server

theorem StreamMove.sound (move : StreamMove env guard carrier before after)
    (sound : before.Sound) : after.Sound := by
  unfold QuicStreams.Sound
  rw [move.server_eq]
  refine move.forall_streams ?_ ?_ sound
  · exact fun id => ⟨sendSound_init before id, recvSound_init before id⟩
  · rintro st later ⟨send, recv⟩ found change
    exact ⟨change.sendSound send, change.recvSound recv⟩

theorem StreamMoves.server_eq (moves : StreamMoves env guard carrier before after) :
    after.server = before.server :=
  moves.invariant (·.server = before.server) (fun _ _ same move => move.server_eq.trans same) rfl

theorem StreamMoves.sound (moves : StreamMoves env guard carrier before after)
    (sound : before.Sound) : after.Sound :=
  moves.invariant QuicStreams.Sound (fun _ _ sound move => move.sound sound) sound

theorem QuicStreams.sound_init (server : Bool) (tp : QuicTransportParams) :
    (quicStreamsInit server tp).Sound := by
  rintro id st ⟨⟩

end

theorem QuicStreams.sound_run (env : StreamEnv) (server : Bool) (tp : QuicTransportParams)
    (ops : List StreamOp) : (run (streamStep env) (quicStreamsInit server tp) ops).Sound :=
  streamRun_invariant QuicStreams.Sound (fun _ _ _ sound move => move.sound sound)
    (QuicStreams.sound_init server tp) ops

end Cx.Quic
