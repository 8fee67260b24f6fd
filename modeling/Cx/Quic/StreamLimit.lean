import Cx.Quic.StreamLife

/-!
# The peer's limits

What this endpoint sends stays within three limits of the peer: one for each stream, one over all
streams, and one on how many streams there are.

A stream takes its limit from the parameters when it is created.  A connection that starts early
does so under remembered parameters and installs the real ones later; that replaces the limit over
all streams and the limits of streams to come, and leaves the streams that exist with what the
remembered parameters gave them.
-/

namespace Cx.Quic

open Library Relation Function

variable {ops : List StreamOp} {op : StreamOp} {frameType : Nat}

def written (st : QuicStreamState) : Nat := st.out.endOff

section

variable {env : StreamEnv} {guard : StreamGuard} {carrier : Option Nat}
  {before after ss : QuicStreams} {id : Nat} {st later : QuicStreamState}

theorem written_fillMoves {server : Bool} {pn : Nat} {first last : QuicStreamState × QuicFill}
    (moves : FillMoves pn first last) (sound : first.1.SendSound server) :
    written last.1 = written first.1 := by
  induction moves with
  | refl => rfl
  | tail earlier move ih =>
    refine Eq.trans ?_ ih
    have mid_sound := sendSound_fillMoves earlier sound
    cases move with
    | none | stopSending | maxData | reset | blocked | fin => rfl
    | data wr fin sending handed =>
      obtain ⟨chunks, sent_eq, -⟩ := QuicSendBuf.sent_next_spec pn mid_sound.buffer handed
      simp only [written, sent_eq]

theorem Visit.written_eq {server : Bool} (visit : Visit guard carrier st later)
    (sound : st.SendSound server) : written later = written st := by
  cases visit with
  | filled _ moves => exact written_fillMoves moves sound
  | acked pn =>
    obtain ⟨-, end_eq, -⟩ := QuicSendBuf.acked_spec pn sound.buffer
    obtain ⟨sendState, finAcked, half_eq, -⟩ := streamAcked_sendHalf st pn
    rw [written, half_eq]
    exact end_eq
  | lost => rfl

/-- The limits on sending, what was sent, and the limits of streams to come. -/
def QuicStreams.sendSide (ss : QuicStreams) : QuicSendFlow × Nat × Nat × Nat :=
  (ss.toQuicSendFlow, ss.peerSdBidiLocal, ss.peerSdBidiRemote, ss.peerSdUni)

/-- Storing a stream with no more written to it than before. -/
theorem total_put_le (found : before.byId.find st.id = some st) (id_eq : later.id = st.id)
    (fewer : written later ≤ written st) :
    (before.byId.put later).total written ≤ before.byId.total written := by
  have total := Table.total_put_of_find written
    (id_eq ▸ found : before.byId.find later.id = some st)
  omega

theorem total_settle_le (byId_eq : ss.byId = before.byId)
    (found : before.byId.find st.id = some st) (id_eq : later.id = st.id)
    (fewer : written later ≤ written st) :
    (streamSettle ss later).byId.total written ≤ before.byId.total written := by
  rcases streamSettle_cases ss later with ⟨-, settle_eq⟩ | ⟨-, -, settle_eq⟩
  · rw [settle_eq, QuicStreams.store, byId_eq]
    exact total_put_le found id_eq fewer
  · have erased := Table.total_erase written before.byId later.id
    rw [settle_eq, streamForget_eq]
    simp only [byId_eq]
    omega

theorem total_put_init_le (ss : QuicStreams) (id : Nat) :
    (ss.byId.put (streamInit ss id)).total written ≤ ss.byId.total written := by
  have total : (ss.byId.put (streamInit ss id)).total written + ss.byId.share written id =
      ss.byId.total written + 0 := Table.total_put written ss.byId (streamInit ss id)
  omega

/-- Bytes in the streams' buffers are counted when they are written. -/
theorem StreamMove.written_le (move : StreamMove env guard carrier before after)
    (sound : before.Sound) :
    after.byId.total written + before.sendOff ≤ before.byId.total written + after.sendOff := by
  have unchanged : ∀ {after : QuicStreams}, after.sendOff = before.sendOff →
      after.byId.total written ≤ before.byId.total written →
      after.byId.total written + before.sendOff ≤ before.byId.total written + after.sendOff := by
    intro after off_eq total_le
    omega
  cases move with
  | params | configure | ctl | connLimit | dropped | rotated | notified =>
    exact unchanged rfl le_rfl
  | fail =>
    unfold streamsFail
    split_ifs <;> exact unchanged rfl le_rfl
  | countLimit =>
    unfold handleMaxStreams
    split_ifs <;> exact unchanged rfl le_rfl
  | credit =>
    rcases connWindowUpdate_cases before with same | ⟨-, moved⟩
    · rw [same]
    · rw [moved]
  | admitted | opened => exact unchanged rfl (total_put_init_le before _)
  | limit found | sized found | counted found | placed found | stopped found | take found =>
    exact unchanged rfl (total_put_le found rfl le_rfl)
  | @advanced st found =>
    refine unchanged rfl (total_put_le found (id_recvAdvance st) ?_)
    rw [written, (recvAdvance_frame st).1]
    exact le_rfl
  | @peerReset st found =>
    obtain ⟨recvRead, return_eq⟩ := recvReturn_eq before (recvAbandon st) st.recvFinal
    rw [return_eq, recvReturn_stream]
    exact unchanged rfl (total_put_le found rfl le_rfl)
  | abandon found =>
    rw [arm_eq]
    exact unchanged rfl (total_put_le found rfl (Nat.zero_le _))
  | complain found | finish found | stop found | window found =>
    rw [arm_eq]
    exact unchanged rfl (total_put_le found rfl le_rfl)
  | @write st found data out writing some_data fits added =>
    obtain ⟨-, -, end_eq, -⟩ := QuicSendBuf.add_spec (sound st.id st found).1.buffer added
    have total : (before.byId.put { st with
        out := out, sendState := .send, active := true }).total written + st.out.endOff =
          before.byId.total written + out.endOff := Table.total_put_of_find written found
    have counted : (before.byId.put { st with
        out := out, sendState := .send, active := true }).total written + before.sendOff ≤
          before.byId.total written + (before.sendOff + data.length) := by omega
    rw [arm_eq]
    exact counted
  | ended found | endedReset found =>
    exact unchanged (congrArg QuicSendFlow.sendOff (streamSettle_frame _ _).2.1)
      (total_settle_le rfl found rfl le_rfl)
  | wait found wait woken =>
    cases woken <;> exact unchanged rfl (total_put_le found rfl le_rfl)
  | @kept st after found visit wait woken =>
    have fewer := (visit.written_eq (sound st.id st found).1).le
    cases woken <;> exact unchanged rfl (total_put_le found visit.id_eq fewer)
  | @retired st after front back found listed visit wait woken =>
    have fewer := (visit.written_eq (sound st.id st found).1).le
    refine unchanged ((congrArg QuicSendFlow.sendOff (streamSettle_frame _ _).2.1).trans ?_)
      (total_settle_le (byId_wake before woken st.id) found visit.id_eq fewer)
    cases woken <;> rfl

/-- What was sent and opened is within the limits of the connection. -/
structure QuicStreams.SendWithin (ss : QuicStreams) : Prop where
  counted : ss.byId.total written ≤ ss.sendOff
  within : ss.sendOff ≤ ss.sendMax
  count : ∀ dir, ss.nextLocal dir ≤ ss.sendMaxStreams dir

theorem StreamMove.sendWithin (no_params : ∀ tp, ¬ guard.params tp)
    (move : StreamMove env guard carrier before after) (sound : before.Sound)
    (within : before.SendWithin) : after.SendWithin := by
  have written_le := move.written_le sound
  have counted := within.counted
  suffices flow : after.sendOff ≤ after.sendMax ∧
      ∀ dir, after.nextLocal dir ≤ after.sendMaxStreams dir from ⟨by omega, flow.1, flow.2⟩
  cases move.shared with
  | same _ send =>
    rw [send]
    exact ⟨within.within, within.count⟩
  | write _ fits _ send =>
    rw [send]
    exact ⟨fits, within.count⟩
  | params permitted => exact absurd permitted (no_params _)
  | connLimit raised _ after_eq =>
    subst after_eq
    exact ⟨within.within.trans raised.le, within.count⟩
  | configure _ after_eq | credit _ after_eq | admitted after_eq =>
    subst after_eq
    exact ⟨within.within, within.count⟩
  | @countLimit dir max raised after_eq =>
    subst after_eq
    refine ⟨within.within, fun other => ?_⟩
    change _ ≤ update before.sendMaxStreams dir max other
    rw [update_apply]
    split_ifs with here
    · rw [here]
      exact (within.count dir).trans raised.le
    · exact within.count other
  | @opened dir room after_eq =>
    subst after_eq
    refine ⟨within.within, fun other => ?_⟩
    change update before.nextLocal dir (before.nextLocal dir + 1) other ≤ _
    rw [update_apply]
    split_ifs with here
    · rw [here]
      exact room
    · exact within.count other

def QuicStreams.FrameWithin (ss : QuicStreams) : QuicFrame → Prop
  | .stream _ _ _ id off data =>
    ∃ st, ss.byId.find id = some st ∧ off + data.length ≤ st.sendMax
  | _ => True

/-- Every STREAM frame that filling a packet writes ends within the limit of its stream. -/
theorem frameWithin_fill (sound : ss.Sound) (bufsz pn : Nat) :
    ∀ f ∈ (quicStreamsFill ss bufsz pn).2.frames, ss.FrameWithin f := by
  -- A stream that the walk has yet to visit has the limit that it had.
  refine quicStreamsFill_frames ss (P := fun later => later.SendSound ss.server ∧
    ∃ st, ss.byId.find later.id = some st ∧ st.sendMax = later.sendMax) ?_ ?_ ?_ ?_ bufsz
  · rintro first last move ⟨st_sound, old, found, limit⟩
    refine ⟨⟨sendSound_fillMove st_sound move, old, ?_⟩, ?_⟩
    · rw [id_of_fillMoves (.single move), (frame_of_fillMoves (.single move)).2.2.2]
      exact ⟨found, limit⟩
    · have within := st_sound.within
      cases move with
      | none => exact fun _ early => .inl early
      | stopSending | maxData | reset | blocked => exact QuicFill.wrote_new (by trivial)
      | data wr fin sending handed =>
        refine QuicFill.wrote_new (show ∃ _, _ from ⟨old, found, ?_⟩)
        have end_le := (QuicSendBuf.next_bounds st_sound.buffer handed).2.2
        simp only at limit within end_le
        omega
      | fin =>
        refine QuicFill.wrote_new (show ∃ _, _ from ⟨old, found, ?_⟩)
        simp only [List.length_nil] at limit within ⊢
        omega
  · exact fun st ⟨st_sound, origin⟩ => ⟨st_sound.congr rfl rfl, origin⟩
  · intro f wide
    cases f <;> first | exact wide.elim | trivial
  · intro id st found
    exact ⟨(sound id st found).1, st, (Table.key_of_find found).symm ▸ found, rfl⟩

def StreamGuard.noParams : StreamGuard := { StreamGuard.any with params := fun _ => False }

theorem permits_noParams (other : ∀ tp, op ≠ .params tp) :
    StreamGuard.noParams.Permits ss op := by
  cases op with
  | params tp => exact absurd rfl (other tp)
  | frame f =>
    cases f <;> simp [StreamGuard.Permits, StreamGuard.PermitsFrame, StreamGuard.noParams,
      StreamGuard.any]
  | recv => exact fun _ => trivial
  | _ => trivial

/-- Nothing was sent before a stream was opened. -/
theorem StreamMove.unsent (move : StreamMove env guard carrier before after)
    (all_known : before.AllKnown) (unsent : before.sendOff = 0 ∨ ∃ id, before.Knows id) :
    after.sendOff = 0 ∨ ∃ id, after.Knows id := by
  rcases unsent with zero | ⟨id, known⟩
  · cases move.shared with
    | same _ send =>
      rw [send]
      exact .inl zero
    | write found => exact .inr ⟨_, move.knows (all_known _ _ found)⟩
    | params _ after_eq | configure _ after_eq | connLimit _ _ after_eq | countLimit _ after_eq
    | credit _ after_eq | admitted after_eq | opened _ after_eq => exact .inl (after_eq ▸ zero)
  · exact .inr ⟨id, move.knows known⟩

end

theorem not_knows_init (server : Bool) (tp : QuicTransportParams) (id : Nat) :
    ¬ (quicStreamsInit server tp).Knows id := by
  unfold QuicStreams.Knows
  split_ifs <;> exact Nat.not_lt_zero _

theorem nextLocal_eq_zero {ss : QuicStreams} (unopened : ∀ id, ¬ ss.Knows id) (dir : QuicDir) :
    ss.nextLocal dir = 0 := by
  have first := unopened (quicStreamMakeId 0 ss.server (dir = .uni))
  simpa [QuicStreams.Knows] using first

section

variable (env : StreamEnv) (server : Bool) (own peer : QuicTransportParams)

def QuicStreamState.SendReset (st : QuicStreamState) : Prop :=
  st.sendState = .resetSent ∨ st.sendState = .resetDone

instance (st : QuicStreamState) : Decidable st.SendReset :=
  inferInstanceAs (Decidable (_ ∨ _))

/-- Along a run in which no parameters are installed, what is sent stays within the limits. -/
theorem sendWithin_run {start : QuicStreams} (sound : start.Sound) (within : start.SendWithin)
    (others : ∀ op ∈ ops, ∀ tp, op ≠ .params tp) :
    (run (streamStep env) start ops).SendWithin := by
  refine (streamRun_invariant_of_permits (fun ss => ss.Sound ∧ ss.SendWithin)
    (fun ss op _ other => permits_noParams other) (fun _ _ _ => trivial) ?_ ⟨sound, within⟩
    (admits_of_forall others start)).2
  rintro carrier before after ⟨sound, within⟩ move
  exact ⟨move.sound sound, move.sendWithin (fun _ installed => installed) sound within⟩

theorem unsent_run (ops : List StreamOp) :
    (run (streamStep env) (quicStreamsInit server own) ops).sendOff = 0 ∨
      ∃ id, (run (streamStep env) (quicStreamsInit server own) ops).Knows id := by
  refine (streamRun_invariant (fun ss => ss.AllKnown ∧ (ss.sendOff = 0 ∨ ∃ id, ss.Knows id)) ?_
    ⟨QuicStreams.allKnown_init server own, .inl rfl⟩ ops).2
  rintro carrier before after ⟨all_known, unsent⟩ move
  exact ⟨move.allKnown all_known, move.unsent all_known unsent⟩

/-- When the peer's transport parameters are installed once, before any stream is opened, what is
sent stays within the peer's limits: on every stream, over all streams, in the number of streams,
and in every STREAM frame that is written. -/
theorem sending_within_peer_limits (front back : List StreamOp)
    (once : ∀ op ∈ front ++ back, ∀ tp, op ≠ .params tp)
    (unopened : ∀ id, ¬ (run (streamStep env) (quicStreamsInit server own) front).Knows id) :
    let last := run (streamStep env) (quicStreamsInit server own) (front ++ .params peer :: back)
    (∀ id st, last.byId.find id = some st → ¬ st.SendReset → st.out.endOff ≤ st.sendMax) ∧
    last.sendOff ≤ last.sendMax ∧
    last.byId.total (fun st => if st.SendReset then 0 else st.out.endOff) ≤ last.sendOff ∧
    (∀ dir, last.nextLocal dir ≤ last.sendMaxStreams dir) ∧
    ∀ bufsz pn fin hasLen hasOff id off data,
      .stream fin hasLen hasOff id off data ∈ (quicStreamsFill last bufsz pn).2.frames →
      ∃ st, last.byId.find id = some st ∧ off + data.length ≤ st.sendMax := by
  intro last
  have sound : last.Sound := QuicStreams.sound_run env server own _
  have within : last.SendWithin := by
    have early : (run (streamStep env) (quicStreamsInit server own) front).SendWithin :=
      sendWithin_run env (QuicStreams.sound_init server own) ⟨le_rfl, le_rfl, fun _ => le_rfl⟩
        fun op op_mem => once op (List.mem_append_left back op_mem)
    have unsent := (unsent_run env server own front).resolve_right
      fun ⟨id, known⟩ => unopened id known
    have none_local : ∀ dir,
        (run (streamStep env) (quicStreamsInit server own) front).nextLocal dir = 0 :=
      nextLocal_eq_zero unopened
    have sound_installed := QuicStreams.sound_run env server own (front ++ [.params peer])
    have split : front ++ .params peer :: back = front ++ [.params peer] ++ back := by simp
    rw [run_append] at sound_installed
    change (run (streamStep env) (quicStreamsInit server own) _).SendWithin
    rw [split, run_append, run_append]
    refine sendWithin_run env sound_installed ⟨early.counted, ?_, ?_⟩
      fun op op_mem => once op (List.mem_append_right front op_mem)
    · exact unsent.trans_le (Nat.zero_le _)
    · exact fun dir => (none_local dir).trans_le (Nat.zero_le _)
  refine ⟨?_, within.within, ?_, within.count, ?_⟩
  · exact fun id st found _ => (sound id st found).1.within
  · refine (Table.total_le fun st => ?_).trans within.counted
    split_ifs
    · exact Nat.zero_le _
    · exact le_rfl
  · intro bufsz pn fin hasLen hasOff id off data f_mem
    exact frameWithin_fill sound bufsz pn _ f_mem

end

/-- A stream is opened, written to, and the bytes are sent. -/
theorem sending_within_peer_limits_sent :
    let last := run (streamStep willingEnv) (quicStreamsInit false smallParams)
      [.params smallParams, .open false, .send 0 [1, 2], .fill 100 0]
    last.sendOff = 2 ∧ last.sendOff ≤ last.sendMax := by
  intro last
  exact ⟨by decide, (sending_within_peer_limits willingEnv false smallParams smallParams []
    [.open false, .send 0 [1, 2], .fill 100 0] (by simp)
    (not_knows_init false smallParams)).2.1⟩

def peerLimit (tp : QuicTransportParams) (server : Bool) (id : Nat) : Nat :=
  if quicStreamUni id then (if quicStreamLocal id server then tp.initMaxSdUni else 0)
  else if quicStreamLocal id server then tp.initMaxSdBidiRemote else tp.initMaxSdBidiLocal

/-- The largest limits the peer named in frames that were accepted. -/
structure PeerLimits where
  conn : Nat
  stream : Nat → Nat

def PeerLimits.none : PeerLimits := ⟨0, fun _ => 0⟩

def PeerLimits.see (seen : PeerLimits) : QuicFrame → PeerLimits
  | .maxData max => { seen with conn := Nat.max seen.conn max }
  | .maxStreamData id max =>
    { seen with stream := update seen.stream id (Nat.max (seen.stream id) max) }
  | _ => seen

/-- One call into the stream layer, with a record of the limits the peer named. -/
def limitStep (env : StreamEnv) (state : QuicStreams × PeerLimits) (op : StreamOp) :
    QuicStreams × PeerLimits :=
  (streamStep env state.1 op,
    match op with
    | .frame f => if (quicStreamsFrame env state.1 f).1 then state.2.see f else state.2
    | _ => state.2)

def StreamGuard.limitsOff (conn : Prop) : StreamGuard :=
  { StreamGuard.any with
    params := fun _ => False
    limit := fun _ _ => False
    connLimit := fun _ => conn }

section

variable {env : StreamEnv} {carrier : Option Nat} {before after ss : QuicStreams} {id : Nat}
  {st later : QuicStreamState} {conn : Prop}

theorem StreamChange.sendMax_eq
    (change : StreamChange env (.limitsOff conn) carrier before st later) :
    later.sendMax = st.sendMax := by
  cases change with
  | limit raised permitted => exact permitted.elim
  | wait | sized | counted | placed | peerReset | stopped | abandon | write | complain | finish
  | stop | take | window | ended | endedReset => rfl
  | advanced => exact congrArg QuicSendHalf.sendMax (recvAdvance_frame st).1
  | kept visit | retired visit => exact visit.frame.2.2

/-- From one state to a later one the limits of streams stay as they were. -/
structure QuicStreams.KeepsSendMax (before after : QuicStreams) : Prop where
  server : after.server = before.server
  coming : (after.sendSide).2 = (before.sendSide).2
  known : ∀ id, before.Knows id → after.Knows id
  /-- The limit of a stream is what it was, or what the stream was created with. -/
  stream : ∀ id later, after.byId.find id = some later →
    (∃ st, before.byId.find id = some st ∧ later.sendMax = st.sendMax) ∨
      (¬ before.Knows id ∧ later.sendMax = (streamInit before id).sendMax)

theorem QuicStreams.KeepsSendMax.refl (ss : QuicStreams) : ss.KeepsSendMax ss :=
  ⟨rfl, rfl, fun _ known => known, fun _ later found => .inl ⟨later, found, rfl⟩⟩

theorem StreamMove.coming_eq (move : StreamMove env (.limitsOff conn) carrier before after) :
    (after.sendSide).2 = (before.sendSide).2 := by
  cases move.shared with
  | same config | write _ _ config =>
    rw [QuicStreams.sendSide, config]
    rfl
  | params permitted => exact permitted.elim
  | configure _ after_eq | connLimit _ _ after_eq | countLimit _ after_eq | credit _ after_eq
  | admitted after_eq | opened _ after_eq => exact after_eq ▸ rfl

theorem QuicStreams.KeepsSendMax.move (keeps : ss.KeepsSendMax before)
    (move : StreamMove env (.limitsOff conn) carrier before after) : ss.KeepsSendMax after := by
  refine ⟨move.server_eq.trans keeps.server, move.coming_eq.trans keeps.coming,
    fun id known => move.knows (keeps.known id known), ?_⟩
  intro id later found
  rcases move.change found with same | ⟨st, st_found, change⟩ | ⟨dir, rfl, fresh⟩
  · exact keeps.stream id later same
  · rw [change.sendMax_eq]
    exact keeps.stream id st st_found
  · refine .inr ⟨fun known => ?_, ?_⟩
    · rcases fresh with ⟨fresh, -⟩ | ⟨fresh, -⟩
      · exact not_knows_remoteNextId before dir (fresh ▸ keeps.known id known)
      · exact not_knows_localNextId before dir (fresh ▸ keeps.known id known)
    · have coming := keeps.coming
      simp only [QuicStreams.sendSide, Prod.mk.injEq] at coming
      simp only [streamInit, keeps.server, coming]

/-- The limit over all streams changes only if it may. -/
theorem StreamMoves.sendMax_eq (moves : StreamMoves env (.limitsOff False) carrier before after) :
    after.sendMax = before.sendMax := by
  refine moves.invariant (fun ss => ss.sendMax = before.sendMax) ?_ rfl
  intro first second sendMax_eq move
  refine Eq.trans ?_ sendMax_eq
  cases move.shared with
  | same _ send | write _ _ _ send => rw [send]
  | params permitted | connLimit _ permitted => exact permitted.elim
  | configure _ after_eq | countLimit _ after_eq | credit _ after_eq | admitted after_eq
  | opened _ after_eq => exact after_eq ▸ rfl

theorem sendMax_connMaxData (ss : QuicStreams) (max : Nat) :
    (connMaxData ss max).sendMax = Nat.max ss.sendMax max := by
  unfold connMaxData
  split_ifs with lower
  · exact (Nat.max_eq_left lower).symm
  · refine (forEach_induction _ _ (fun after => after.sendMax = max) rfl ?_).trans
      (Nat.max_eq_right (Nat.le_of_not_le lower)).symm
    intro before st sendMax_eq found
    obtain ⟨wait, woken, unblock_eq, -⟩ := sendUnblock_eq before st
    rw [unblock_eq]
    cases woken <;> exact sendMax_eq

/-- A MAX_STREAM_DATA frame raises the limit of the stream it names, and leaves the others. -/
theorem find_streamMaxData (found : ss.byId.find st.id = some st) (max : Nat)
    (later_found : (streamMaxData ss st max).2.byId.find id = some later) :
    (id ≠ st.id ∧ ss.byId.find id = some later) ∨
      (id = st.id ∧ later.sendMax = Nat.max st.sendMax max) := by
  unfold streamMaxData at later_found
  split_ifs at later_found with lower
  · by_cases here : id = st.id
    · rw [here, found] at later_found
      cases later_found
      exact .inr ⟨here, (Nat.max_eq_left lower).symm⟩
    · exact .inl ⟨here, later_found⟩
  · obtain ⟨wait, stall_eq, -⟩ := sendStall_eq ss st
    obtain ⟨last, woken, unblock_eq, -⟩ := sendUnblock_eq ss
      { st with toQuicSendWait := wait, sendMax := max, blocked := .idle }
    simp only [stall_eq, unblock_eq, find_store, byId_wake] at later_found
    split_ifs at later_found with here
    · cases later_found
      exact .inr ⟨here, (Nat.max_eq_right (Nat.le_of_not_le lower)).symm⟩
    · exact .inl ⟨here, later_found⟩

theorem error_streamsFail (ss : QuicStreams) {error : Nat} (frameType : Nat)
    (nonzero : error ≠ 0) : (streamsFail ss error frameType).error ≠ 0 := by
  unfold streamsFail
  split_ifs with unset
  · exact nonzero
  · exact unset

theorem error_streamAdmitLoop {dir : QuicDir} {count : Nat} {ss : QuicStreams}
    (refused : (streamAdmitLoop env dir frameType count ss).1 = false) :
    (streamAdmitLoop env dir frameType count ss).2.error ≠ 0 := by
  induction count generalizing ss with
  | zero => cases refused
  | succ count ih =>
    rw [streamAdmitLoop] at refused ⊢
    split_ifs at refused ⊢
    · exact ih refused
    · exact error_streamsFail _ _ (by decide)

/-- A frame that is ignored names a stream that was forgotten. -/
theorem streamForFrame_ignored (ignored : (streamForFrame env ss id frameType).2.1 = true) :
    (streamForFrame env ss id frameType).2.2.byId.find id = none ∧
      (streamForFrame env ss id frameType).2.2.Knows id := by
  unfold streamForFrame at ignored ⊢
  split at ignored
  · cases ignored
  · next absent =>
      have unchanged : (streamAdmit env ss id frameType).1 = false →
          (streamAdmit env ss id frameType).2.error = 0 →
          (streamAdmit env ss id frameType).2 = ss ∧ ss.Knows id := by
        intro refused error_eq
        unfold streamAdmit at refused error_eq ⊢
        dsimp only at refused error_eq ⊢
        split_ifs at refused error_eq ⊢ with opened unknown earlier past
        · exact absurd error_eq (error_streamsFail ss frameType (by decide))
        · exact ⟨rfl, by rw [QuicStreams.Knows, if_pos opened]; omega⟩
        · exact ⟨rfl, by rw [QuicStreams.Knows, if_neg opened]; exact earlier⟩
        · exact absurd error_eq (error_streamsFail ss frameType (by decide))
        · exact absurd error_eq (error_streamAdmitLoop refused)
      generalize streamAdmit env ss id frameType = admitted at ignored unchanged ⊢
      obtain ⟨accepted, middle⟩ := admitted
      cases accepted with
      | true => cases ignored
      | false =>
        obtain ⟨same, known⟩ : middle = ss ∧ ss.Knows id :=
          unchanged rfl (by simpa using ignored)
        rw [same]
        exact ⟨absent, known⟩

/-- Handling a frame about a stream is admitting streams, and then what is done with the stream if
it exists. -/
theorem withStream_cases {guard : StreamGuard} (ss : QuicStreams) (allowed : Bool)
    (id frameType : Nat) (act : QuicStreams → QuicStreamState → Bool × QuicStreams) :
    ∃ middle, StreamMoves env guard carrier ss middle ∧
      ((withStream env ss allowed id frameType act).2 = middle ∧
          ((withStream env ss allowed id frameType act).1 = true →
            allowed = true ∧ middle.byId.find id = none ∧ middle.Knows id) ∨
        allowed = true ∧ ∃ st, Admitted ss id middle st ∧
          withStream env ss allowed id frameType act = act middle st) := by
  unfold withStream
  split
  · exact ⟨_, .single (.fail frameType (by decide)), .inl ⟨rfl, by simp⟩⟩
  · next permitted =>
      have allowed_eq : allowed = true := by simpa using permitted
      have spec : StreamMoves env guard carrier ss _ ∧ _ := streamForFrame_spec ss id frameType
      obtain ⟨moves, admitted⟩ := spec
      have ignored : (streamForFrame env ss id frameType).2.1 = true → _ := streamForFrame_ignored
      split
      · next st flag middle found_eq =>
          rw [found_eq] at moves admitted
          exact ⟨middle, moves, .inr ⟨allowed_eq, st, admitted st rfl, rfl⟩⟩
      · next flag middle found_eq =>
          rw [found_eq] at moves ignored
          exact ⟨middle, moves, .inl ⟨rfl, fun accepted => ⟨allowed_eq, ignored accepted⟩⟩⟩

/-- Handling a MAX_STREAM_DATA frame is admitting streams, and then raising a limit if the frame
names a stream that exists. -/
theorem handleMaxStreamData_cases (ss : QuicStreams) (frameType id max : Nat) :
    ∃ middle, StreamMoves env (.limitsOff False) none ss middle ∧
      ((handleMaxStreamData env ss frameType id max).2 = middle ∧
          ((handleMaxStreamData env ss frameType id max).1 = true →
            middle.byId.find id = none ∧ middle.Knows id) ∨
        ∃ st, middle.byId.find st.id = some st ∧ st.id = id ∧
          handleMaxStreamData env ss frameType id max = streamMaxData middle st max) := by
  unfold handleMaxStreamData
  rcases withStream_cases ss (canSend ss id) id frameType (fun ss st => streamMaxData ss st max)
    with
    ⟨middle, moves, ⟨same, ignored⟩ | ⟨-, st, admitted, result⟩⟩
  · exact ⟨middle, moves, .inl ⟨same, fun accepted => (ignored accepted).2⟩⟩
  · exact ⟨middle, moves, .inr ⟨st, admitted.found_self, admitted.id_eq, result⟩⟩

theorem sendSide_streamMaxData (ss : QuicStreams) (st : QuicStreamState) (max : Nat) :
    (streamMaxData ss st max).2.sendSide = ss.sendSide ∧
      (streamMaxData ss st max).2.server = ss.server := by
  unfold streamMaxData
  split_ifs with lower
  · exact ⟨rfl, rfl⟩
  · obtain ⟨last, woken, unblock_eq, -⟩ := sendUnblock_eq ss
      { sendStall ss st with sendMax := max, blocked := .idle }
    rw [unblock_eq]
    cases woken <;> exact ⟨rfl, rfl⟩

/-- Every limit is the larger of what the parameters gave and what the peer named since. -/
structure QuicStreams.LimitsFrom (tp : QuicTransportParams) (seen : PeerLimits)
    (ss : QuicStreams) : Prop where
  coming : (ss.sendSide).2 = (tp.initMaxSdBidiLocal, tp.initMaxSdBidiRemote, tp.initMaxSdUni)
  conn : ss.sendMax = Nat.max tp.initMaxData seen.conn
  stream : ∀ id st, ss.byId.find id = some st →
    st.sendMax = Nat.max (peerLimit tp ss.server id) (seen.stream id)
  unseen : ∀ id, ¬ ss.Knows id → seen.stream id = 0
  known : ss.AllKnown

variable {tp : QuicTransportParams}

theorem QuicStreams.LimitsFrom.kept {seen : PeerLimits} (limits : before.LimitsFrom tp seen)
    (moves : StreamMoves env (.limitsOff conn) carrier before after) (connSeen : Nat)
    (sendMax_eq : after.sendMax = Nat.max tp.initMaxData connSeen) :
    after.LimitsFrom tp { seen with conn := connSeen } := by
  obtain ⟨server, coming, known, stream⟩ :=
    moves.invariant before.KeepsSendMax (fun _ _ keeps move => keeps.move move) (.refl before)
  refine ⟨coming.trans limits.coming, sendMax_eq, ?_,
    fun id unknown => limits.unseen id fun before_known => unknown (known id before_known),
    moves.allKnown limits.known⟩
  intro id later found
  rw [server]
  rcases stream id later found with ⟨st, st_found, same⟩ | ⟨unknown, fresh⟩
  · rw [same]
    exact limits.stream id st st_found
  · have first := limits.coming
    simp only [QuicStreams.sendSide, Prod.mk.injEq] at first
    rw [fresh, limits.unseen id unknown]
    simp [streamInit, peerLimit, first]

/-- A MAX_STREAM_DATA frame, accepted or not, leaves every limit the larger of the two. -/
theorem QuicStreams.LimitsFrom.maxStreamData {seen : PeerLimits}
    (limits : ss.LimitsFrom tp seen) (frameType id max : Nat) :
    (handleMaxStreamData env ss frameType id max).2.LimitsFrom tp
      (if (handleMaxStreamData env ss frameType id max).1 then seen.see (.maxStreamData id max)
        else seen) := by
  obtain ⟨middle, moves, ⟨after_eq, ignored⟩ | ⟨st, found, rfl, handled⟩⟩ :=
    @handleMaxStreamData_cases env ss frameType id max
  · have middle_limits := limits.kept moves seen.conn (moves.sendMax_eq.trans limits.conn)
    rw [after_eq]
    split_ifs with accepted
    · obtain ⟨gone, known⟩ := ignored accepted
      refine ⟨middle_limits.coming, middle_limits.conn, ?_, ?_, middle_limits.known⟩
      · intro other later later_found
        have other_ne : other ≠ id := by
          rintro rfl
          rw [gone] at later_found
          cases later_found
        simp only [PeerLimits.see, update_of_ne other_ne]
        exact middle_limits.stream other later later_found
      · intro other unknown
        have other_ne : other ≠ id := by
          rintro rfl
          exact unknown known
        simp only [PeerLimits.see, update_of_ne other_ne]
        exact middle_limits.unseen other unknown
    · exact middle_limits
  · have middle_limits := limits.kept moves seen.conn (moves.sendMax_eq.trans limits.conn)
    have accepted : (streamMaxData middle st max).1 = true := by
      unfold streamMaxData
      split_ifs <;> rfl
    have raise : StreamMoves env .any none middle (streamMaxData middle st max).2 :=
      streamMaxData_moves found trivial trivial
    obtain ⟨side_eq, server_eq⟩ := sendSide_streamMaxData middle st max
    rw [handled, if_pos accepted]
    refine ⟨(congrArg Prod.snd side_eq).trans middle_limits.coming, ?_, ?_, ?_,
      raise.invariant QuicStreams.AllKnown (fun _ _ known move => move.allKnown known)
        middle_limits.known⟩
    · exact (congrArg (fun side => side.1.sendMax) side_eq).trans middle_limits.conn
    · intro other later later_found
      rw [server_eq]
      rcases find_streamMaxData found max later_found with ⟨other_ne, same⟩ | ⟨rfl, raised⟩
      · simp only [PeerLimits.see, update_of_ne other_ne]
        exact middle_limits.stream other later same
      · simp only [PeerLimits.see, update_self]
        rw [raised, middle_limits.stream _ st found]
        exact Nat.max_assoc _ _ _
    · intro other unknown
      have middle_unknown : ¬ middle.Knows other := fun known => unknown (raise.knows known)
      have other_ne : other ≠ st.id := by
        rintro rfl
        exact middle_unknown (middle_limits.known _ st found)
      simp only [PeerLimits.see, update_of_ne other_ne]
      exact middle_limits.unseen other middle_unknown

theorem permits_limitsOff (other : ∀ tp, op ≠ .params tp)
    (no_stream : ∀ id max, op ≠ .frame (.maxStreamData id max))
    (no_conn : ∀ max, op ≠ .frame (.maxData max)) :
    (StreamGuard.limitsOff False).Permits ss op := by
  cases op with
  | params tp => exact absurd rfl (other tp)
  | frame f =>
    cases f with
    | maxData max => exact absurd rfl (no_conn max)
    | maxStreamData id max => exact absurd rfl (no_stream id max)
    | stream => exact ⟨fun _ => trivial, fun _ _ _ _ _ => trivial⟩
    | resetStream =>
      exact ⟨trivial, fun _ _ _ => ⟨fun _ _ => trivial, fun _ => trivial⟩⟩
    | _ => trivial
  | recv => exact fun _ => trivial
  | _ => trivial

/-- Every call but installing parameters keeps every limit the larger of the two. -/
theorem QuicStreams.LimitsFrom.step {state : QuicStreams × PeerLimits}
    (limits : state.1.LimitsFrom tp state.2) (other : ∀ tp, op ≠ .params tp) :
    (limitStep env state op).1.LimitsFrom tp (limitStep env state op).2 := by
  have quiet : (∀ id max, op ≠ .frame (.maxStreamData id max)) →
      (∀ max, op ≠ .frame (.maxData max)) →
      (streamStep env state.1 op).LimitsFrom tp state.2 := by
    intro no_stream no_conn
    have moves : StreamMoves env _ _ state.1 _ :=
      streamStep_moves (permits_limitsOff other no_stream no_conn) fun _ _ _ _ => trivial
    exact limits.kept moves state.2.conn (moves.sendMax_eq.trans limits.conn)
  cases op with
  | frame f =>
    cases f with
    | maxData max =>
      have moves : StreamMoves env (.limitsOff True) none state.1 (connMaxData state.1 max) :=
        connMaxData_moves state.1 trivial fun _ => trivial
      refine limits.kept moves (Nat.max state.2.conn max) ?_
      rw [sendMax_connMaxData, limits.conn]
      exact Nat.max_assoc _ _ _
    | maxStreamData id max => exact limits.maxStreamData _ id max
    | _ =>
      simp only [limitStep, PeerLimits.see, ite_self]
      exact quiet nofun nofun
  | _ => exact quiet nofun nofun

end

theorem limitsFrom_run (env : StreamEnv) (server : Bool) (own remembered : QuicTransportParams)
    (others : ∀ op ∈ ops, ∀ tp, op ≠ .params tp) :
    let last := run (limitStep env)
      (quicStreamsPeerParams (quicStreamsInit server own) remembered, .none) ops
    last.1.LimitsFrom remembered last.2 ∧ last.1.server = server := by
  refine admits_invariant (fun state : QuicStreams × PeerLimits =>
      state.1.LimitsFrom remembered state.2 ∧ state.1.server = server)
    ⟨⟨rfl, (Nat.max_zero _).symm, ?_, fun _ _ => rfl, QuicStreams.allKnown_init server own⟩, rfl⟩
    ?_ (admits_of_forall others _)
  · rintro id st ⟨⟩
  · rintro state op ⟨limits, server_eq⟩ other
    refine ⟨limits.step other, Eq.trans ?_ server_eq⟩
    exact (streamStep_moves (StreamGuard.permits_any state.1 op) fun _ _ _ _ => trivial).server_eq

/-- Installing parameters after remembered ones leaves every limit the larger of what the new ones
give and what the peer named, exactly if for every stream that exists the two sets of parameters
agree or the peer named no less than both, and the peer named no more in MAX_DATA than the new
parameters give. -/
theorem peer_params_honest_iff (env : StreamEnv) (server : Bool)
    (own remembered tp : QuicTransportParams) (ops : List StreamOp)
    (others : ∀ op ∈ ops, ∀ tp, op ≠ .params tp) :
    let last := run (limitStep env)
      (quicStreamsPeerParams (quicStreamsInit server own) remembered, .none) ops
    let installed := quicStreamsPeerParams last.1 tp
    ((∀ id st, installed.byId.find id = some st →
        st.sendMax = Nat.max (peerLimit tp server id) (last.2.stream id)) ∧
      installed.sendMax = Nat.max tp.initMaxData last.2.conn) ↔
    (∀ id st, last.1.byId.find id = some st →
        peerLimit remembered server id = peerLimit tp server id ∨
          (peerLimit remembered server id ≤ last.2.stream id ∧
            peerLimit tp server id ≤ last.2.stream id)) ∧
      last.2.conn ≤ tp.initMaxData := by
  intro last installed
  obtain ⟨limits, server_eq⟩ := limitsFrom_run env server own remembered others
  have max_eq_iff : ∀ old new seen : Nat, Nat.max old seen = Nat.max new seen ↔
      old = new ∨ (old ≤ seen ∧ new ≤ seen) := by
    intro old new seen
    simp only [Nat.max_def]
    split_ifs <;> omega
  refine and_congr (forall_congr' fun id => forall_congr' fun st => ?_) ?_
  · change (last.1.byId.find id = some st → _) ↔ _
    refine imp_congr_right fun found => ?_
    rw [limits.stream id st found, server_eq]
    exact max_eq_iff _ _ _
  · change tp.initMaxData = Nat.max tp.initMaxData last.2.conn ↔ _
    rw [eq_comm]
    exact max_eq_left_iff

/-- The same parameters again change nothing for a stream that was opened early. -/
theorem peer_params_honest_iff_same :
    let last := run (limitStep willingEnv)
      (quicStreamsPeerParams (quicStreamsInit false smallParams) smallParams, .none) [.open false]
    (quicStreamsPeerParams last.1 smallParams).sendMax = 10 := by
  intro last
  have honest := (peer_params_honest_iff willingEnv false smallParams smallParams smallParams
    [.open false] (by simp)).2 ⟨fun _ _ _ => .inl rfl, by decide⟩
  exact honest.2.trans (by decide)

/-- A stream opened early keeps the remembered limit of 10 when the real one is 20, and MAX_DATA
that arrived early is forgotten. -/
theorem peer_params_stall_open_stream :
    let last := run (limitStep willingEnv)
      (quicStreamsPeerParams (quicStreamsInit false smallParams) smallParams, .none)
      [.open false, .frame (.maxData 50)]
    let installed := quicStreamsPeerParams last.1 ⟨20, 20, 20, 20, 2, 2⟩
    ((installed.byId.find 0).map (·.sendMax) = some 10 ∧
      peerLimit ⟨20, 20, 20, 20, 2, 2⟩ false 0 = 20 ∧ last.2.stream 0 = 0) ∧
    (installed.sendMax = 20 ∧ last.2.conn = 50) := by
  decide

end Cx.Quic
