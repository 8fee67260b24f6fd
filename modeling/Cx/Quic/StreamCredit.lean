import Cx.Quic.StreamLife

/-!
# Credit for received bytes

The connection counts every byte it received in `recvOff` and every byte that was taken, or will
never be, in `recvRead`.  The difference is what the streams that exist hold unread, and the limit
`recvMax` stays within one window of what was taken.  No limit that was advertised is ever lowered.

All of it rests on `recvOff` not wrapping around.  A RESET_STREAM takes up the whole window of a
stream and gives it back in one frame, so a handful of frames is enough under windows as large as a
transport parameter can name.
-/

namespace Cx.Quic

open Library Relation

/-- The bytes a stream received that were neither taken nor given up. -/
def unread (st : QuicStreamState) : Nat := st.recvHighest - st.recvRead

structure QuicStreams.Credit (ss : QuicStreams) : Prop where
  conserved : ss.recvOff = ss.recvRead + ss.byId.total unread
  allowed : ss.recvOff ≤ ss.recvMax
  window : ss.recvMax ≤ ss.recvRead + ss.recvWindow
  fits : ss.recvOff < 2 ^ 64

section

variable {env : StreamEnv} {guard : StreamGuard} {carrier : Option Nat}
  {before after ss : QuicStreams} {id : Nat} {st later : QuicStreamState}

theorem QuicStreams.Credit.congr (credit : before.Credit)
    (flow : after.toQuicRecvFlow = before.toQuicRecvFlow)
    (total : after.byId.total unread = before.byId.total unread) : after.Credit := by
  obtain ⟨conserved, allowed, window, fits⟩ := credit
  constructor <;> (try rw [flow]) <;> (try rw [total]) <;> assumption

/-- Storing a stream that holds as much unread as before. -/
theorem total_put_same (found : before.byId.find st.id = some st) (id_eq : later.id = st.id)
    (same : unread later = unread st) :
    (before.byId.put later).total unread = before.byId.total unread := by
  have total := Table.total_put_of_find unread (id_eq ▸ found : before.byId.find later.id = some st)
  omega

theorem unread_eq_of_recvHalf (half : later.toQuicRecvHalf = st.toQuicRecvHalf) :
    unread later = unread st := by
  rw [unread, unread, half]

/-- A half that is done holds nothing unread. -/
theorem unread_eq_zero {server : Bool} (sound : st.RecvSound server)
    (done : recvHalfDone st = true) : unread st = 0 := by
  simp only [recvHalfDone, Bool.or_eq_true, decide_eq_true_eq] at done
  rcases done with (read | read) | absent
  · have closed : ¬ st.recvState.Stores := by simp [QuicRecvState.Stores, read]
    have highest_eq := sound.highest_eq closed
    have read_eq := (sound.ended closed).1
    unfold unread
    omega
  · have closed : ¬ st.recvState.Stores := by simp [QuicRecvState.Stores, read]
    have highest_eq := sound.highest_eq closed
    have read_eq := (sound.ended closed).1
    unfold unread
    omega
  · have unused := sound.unused absent
    unfold unread
    omega

/-- Settling a stream, whether it is stored or forgotten, loses nothing unread. -/
theorem total_streamSettle {server : Bool} (byId_eq : ss.byId = before.byId)
    (found : before.byId.find st.id = some st) (id_eq : later.id = st.id)
    (sound : later.RecvSound server) (same : unread later = unread st) :
    (streamSettle ss later).byId.total unread = before.byId.total unread := by
  have stored := total_put_same found id_eq same
  rcases streamSettle_cases ss later with ⟨-, settle_eq⟩ | ⟨-, done, settle_eq⟩
  · rw [settle_eq, QuicStreams.store, byId_eq]
    exact stored
  · have erased := Table.total_erase unread before.byId st.id
    rw [Table.share_of_find unread found, ← same, unread_eq_zero sound done] at erased
    rw [settle_eq, streamForget_eq]
    simp only [byId_eq, id_eq]
    exact erased

/-- A reset gives back exactly what the stream held unread. -/
theorem conserves_peerReset (found : before.byId.find st.id = some st)
    (read_le : st.recvRead ≤ st.recvHighest) (final : st.recvHighest = st.recvFinal)
    (credit : before.Credit) (error : Nat) :
    ((((recvReturn before (recvAbandon st) st.recvFinal).1.store
      (recvReturn before (recvAbandon st) st.recvFinal).2).tell (.reset st.id error)).tell
        (.readable st.id)).Credit := by
  obtain ⟨conserved, allowed, window, fits⟩ := credit
  have total : (before.byId.put { recvAbandon st with
      recvRead := max st.recvRead st.recvFinal }).total unread + (st.recvHighest - st.recvRead) =
        before.byId.total unread + (st.recvHighest - max st.recvRead st.recvFinal) :=
    Table.total_put_of_find unread found
  have read_eq : (recvReturn before (recvAbandon st) st.recvFinal).1 =
      { before with recvRead := before.recvRead + (st.recvFinal - st.recvRead) } := by
    have abandon_read : (recvAbandon st).recvRead = st.recvRead := rfl
    unfold recvReturn
    rw [abandon_read]
    split_ifs with nothing
    · rw [Nat.sub_eq_zero_of_le nothing, Nat.add_zero]
    · rw [uint64Add_eq (by omega)]
  rw [read_eq, recvReturn_stream]
  refine ⟨?_, allowed, ?_, fits⟩
  · change before.recvOff = before.recvRead + (st.recvFinal - st.recvRead) +
      (before.byId.put { recvAbandon st with
        recvRead := max st.recvRead st.recvFinal }).total unread
    omega
  · change before.recvMax ≤ before.recvRead + (st.recvFinal - st.recvRead) + before.recvWindow
    omega

/-- Every move conserves credit, as long as the bytes it counts do not make the counter wrap. -/
theorem StreamMove.conserves (counts : ∀ recvOff amount, guard.count recvOff amount →
      recvOff + amount < 2 ^ 64)
    (move : StreamMove env guard carrier before after) (sound : before.Sound)
    (all_known : before.AllKnown) (credit : before.Credit) : after.Credit := by
  have stored : ∀ {st later : QuicStreamState}, before.byId.find st.id = some st →
      later.id = st.id → unread later = unread st →
      (before.byId.put later).total unread = before.byId.total unread :=
    fun found id_eq same => total_put_same found id_eq same
  -- A new stream holds nothing unread.
  have created : ∀ {id : Nat}, ¬ before.Knows id →
      (before.byId.put (streamInit before id)).total unread = before.byId.total unread :=
    fun fresh => total_put_fresh all_known fresh unread
  cases move with
  | params | configure | ctl | connLimit | dropped | rotated | notified =>
    exact credit.congr rfl rfl
  | fail frameType =>
    exact credit.congr (recvFlow_streamsFail before _ frameType) (by rw [byId_streamsFail])
  | countLimit =>
    unfold handleMaxStreams
    split_ifs <;> exact credit.congr rfl rfl
  | credit =>
    rcases connWindowUpdate_cases before with same | ⟨raised, moved⟩
    · rw [same]
      exact credit
    · rw [moved]
      refine ⟨credit.conserved, credit.allowed.trans raised.le, ?_, credit.fits⟩
      exact Nat.mod_le _ _
  | @admitted dir =>
    exact credit.congr rfl (created (not_knows_remoteNextId before dir))
  | @opened dir => exact credit.congr rfl (created (not_knows_localNextId before dir))
  | limit found | sized found | placed found | stopped found =>
    exact credit.congr rfl (stored found rfl rfl)
  | @advanced st found =>
    refine credit.congr rfl (stored found (id_recvAdvance st) ?_)
    rcases recvAdvance_cases st with same | ⟨-, -, named⟩ | ⟨-, -, whole⟩
    · rw [same]
    · rw [named]
      rfl
    · rw [whole]
      rfl
  | @counted st found endOff receives above below room final permitted =>
    have read_le := (sound st.id st found).2.read_le
    have total : (before.byId.put { st with recvHighest := endOff }).total unread +
        (st.recvHighest - st.recvRead) = before.byId.total unread + (endOff - st.recvRead) :=
      Table.total_put_of_find unread found
    have off_eq := uint64Add_eq (counts _ _ permitted)
    have conserved := credit.conserved
    refine ⟨?_, room, credit.window, ?_⟩
    · change uint64Add _ _ = before.recvRead +
        (before.byId.put { st with recvHighest := endOff }).total unread
      omega
    · change uint64Add _ _ < 2 ^ 64
      rw [off_eq]
      exact counts _ _ permitted
  | @peerReset st found receives known final first unread_state error =>
    have recv := (sound st.id st found).2
    exact conserves_peerReset found recv.read_le (le_antisymm (recv.final known) final) credit error
  | @take st found count not_reset some_bytes readable =>
    have read_le : st.recvRead + count ≤ st.recvHighest :=
      (recvSound_take (sound st.id st found).2 not_reset some_bytes readable).read_le
    have total : (before.byId.put { st with
        inn := quicReasmConsume st.inn count
        recvRead := st.recvRead + count }).total unread + (st.recvHighest - st.recvRead) =
          before.byId.total unread + (st.recvHighest - (st.recvRead + count)) :=
      Table.total_put_of_find unread found
    obtain ⟨conserved, allowed, window, fits⟩ := credit
    have read_eq : uint64Add before.recvRead count = before.recvRead + count :=
      uint64Add_eq (by omega)
    refine ⟨?_, allowed, ?_, fits⟩
    · change before.recvOff = uint64Add _ _ + (before.byId.put _).total unread
      omega
    · change before.recvMax ≤ uint64Add _ _ + before.recvWindow
      omega
  | abandon found | write found | complain found | finish found | stop found | window found =>
    rw [arm_eq]
    exact credit.congr rfl (stored found rfl rfl)
  | @ended st found arrived drained =>
    exact credit.congr (streamSettle_frame _ _).2.2.1 (total_streamSettle rfl found rfl
      (recvSound_ended (sound st.id st found).2 arrived drained) rfl)
  | @endedReset st found abandoned =>
    exact credit.congr (streamSettle_frame _ _).2.2.1 (total_streamSettle rfl found rfl
      (recvSound_endedReset (sound st.id st found).2 abandoned) rfl)
  | @wait st found wait woken =>
    cases woken <;> exact credit.congr rfl (stored found rfl rfl)
  | @kept st after found visit wait woken =>
    have same : unread { after with toQuicSendWait := wait } = unread st :=
      unread_eq_of_recvHalf visit.frame.1
    cases woken <;> exact credit.congr rfl (stored found visit.id_eq same)
  | @retired st after front back found listed visit wait woken =>
    have same : unread { after with toQuicSendWait := wait, active := false } = unread st :=
      unread_eq_of_recvHalf visit.frame.1
    have recv := (sound st.id st found).2.congr visit.frame.1 visit.id_eq
    refine credit.congr ((streamSettle_frame _ _).2.2.1.trans ?_)
      (total_streamSettle ?_ found visit.id_eq (recv.congr rfl rfl) same)
    · cases woken <;> rfl
    · exact byId_wake before woken st.id

/-- The limit of a stream that exists never goes down. -/
theorem StreamChange.limit_le {server : Bool} (sound : st.RecvSound server)
    (change : StreamChange env guard carrier before st later) : st.inn.limit ≤ later.inn.limit := by
  cases change with
  | wait | limit | sized | counted | stopped | abandon | write | complain | finish | stop | ended
  | endedReset | peerReset => exact le_rfl
  | placed stores within added =>
    obtain ⟨-, -, limit_eq, -⟩ := QuicReasm.add_bounds sound.buffer added
    exact limit_eq.ge
  | advanced =>
    rcases recvAdvance_cases st with same | ⟨-, -, named⟩ | ⟨-, -, whole⟩
    · rw [same]
    · rw [named]
    · rw [whole]
  | take not_reset some_bytes readable =>
    obtain ⟨-, -, limit_eq, -⟩ := QuicReasm.consume_spec sound.buffer readable
    exact limit_eq.ge
  | window receiving forward => exact forward.le
  | kept visit | retired visit => exact (congrArg (fun half => half.inn.limit) visit.frame.1).ge

/-- The limit over all streams never goes down. -/
theorem StreamMove.recvMax_le (move : StreamMove env guard carrier before after) :
    before.recvMax ≤ after.recvMax := by
  cases move.shared with
  | same _ _ recvMax | write _ _ _ _ recvMax => exact recvMax.ge
  | credit raised after_eq => exact after_eq ▸ raised.le
  | params _ after_eq | configure _ after_eq | connLimit _ _ after_eq | countLimit _ after_eq
  | admitted after_eq | opened _ after_eq => exact after_eq ▸ le_rfl

structure QuicStreams.KeepsLimits (before after : QuicStreams) : Prop where
  conn : before.recvMax ≤ after.recvMax
  stream : before.Follows (fun st later => st.inn.limit ≤ later.inn.limit) after

theorem QuicStreams.KeepsLimits.refl (ss : QuicStreams) : ss.KeepsLimits ss :=
  ⟨le_rfl, .refl (fun st => le_refl st.inn.limit) ss⟩

theorem QuicStreams.KeepsLimits.trans {first second third : QuicStreams}
    (earlier : first.KeepsLimits second) (later : second.KeepsLimits third) :
    first.KeepsLimits third :=
  ⟨earlier.conn.trans later.conn,
    earlier.stream.trans (fun _ _ _ below above => below.trans above) later.stream⟩

def frameStream (ss : QuicStreams) (id : Nat) : QuicStreamState :=
  (ss.byId.find id).getD (streamInit ss id)

/-- Bytes up to an offset are within the stream's limit, and within the connection's only because
the counter wraps around. -/
def wrapsAt (ss : QuicStreams) (id endOff : Nat) : Bool :=
  let delta := endOff - (frameStream ss id).recvHighest
  endOff ≤ (frameStream ss id).inn.limit ∧ uint64Add ss.recvOff delta ≤ ss.recvMax ∧
    2 ^ 64 ≤ ss.recvOff + delta

/-- A STREAM or RESET_STREAM frame that makes the counter of received bytes wrap around. -/
def wrapsRecvOff (ss : QuicStreams) : StreamOp → Bool
  | .frame (.stream _ _ _ id offset data) => wrapsAt ss id (offset + data.length)
  | .frame (.resetStream id _ finalSize) => wrapsAt ss id finalSize
  | _ => false

/-- Bytes are counted only while the counter does not wrap around. -/
def StreamGuard.headroom : StreamGuard :=
  { StreamGuard.any with count := fun recvOff amount => recvOff + amount < 2 ^ 64 }

theorem Admitted.frameStream_eq (admitted : Admitted ss id after st) : frameStream ss id = st := by
  rcases admitted.origin with rfl | ⟨absent, rfl⟩
  · rw [frameStream, admitted.found]
    rfl
  · rw [frameStream, absent]
    rfl

theorem Admitted.headroom (admitted : Admitted ss id after st) {endOff : Nat}
    (no_wrap : wrapsAt ss id endOff = false) (within : endOff ≤ st.inn.limit)
    (room : uint64Add after.recvOff (endOff - st.recvHighest) ≤ after.recvMax) :
    after.recvOff + (endOff - st.recvHighest) < 2 ^ 64 := by
  rw [admitted.flow] at room ⊢
  rw [wrapsAt, admitted.frameStream_eq] at no_wrap
  by_contra wraps
  exact of_decide_eq_false no_wrap ⟨within, room, Nat.le_of_not_lt wraps⟩

theorem permits_headroom {op : StreamOp} (no_wrap : wrapsRecvOff ss op = false) :
    StreamGuard.headroom.Permits ss op := by
  cases op with
  | frame f =>
    cases f with
    | stream =>
      exact ⟨fun _ => trivial, fun after st admitted => admitted.headroom no_wrap⟩
    | resetStream =>
      exact ⟨trivial, fun after st admitted =>
        ⟨admitted.headroom no_wrap, fun _ => trivial⟩⟩
    | _ => trivial
  | recv => exact fun _ => trivial
  | _ => trivial

end

section

variable (env : StreamEnv) (server : Bool) (tp : QuicTransportParams)

theorem credit_run {ops : List StreamOp}
    (no_wrap : Admits (streamStep env) (fun ss op => wrapsRecvOff ss op = false)
      (quicStreamsInit server tp) ops) :
    (run (streamStep env) (quicStreamsInit server tp) ops).Credit := by
  refine (streamRun_invariant_of_permits (fun ss => ss.Sound ∧ ss.AllKnown ∧ ss.Credit)
    (fun ss op _ no_wrap => permits_headroom no_wrap) (fun _ _ _ => trivial) ?_
    ⟨QuicStreams.sound_init server tp, QuicStreams.allKnown_init server tp,
      rfl, Nat.zero_le _, (Nat.zero_add _).ge, Nat.two_pow_pos 64⟩ no_wrap).2.2
  rintro carrier before after ⟨sound, all_known, credit⟩ move
  exact ⟨move.sound sound, move.allKnown all_known,
    move.conserves (fun _ _ small => small) sound all_known credit⟩

theorem keepsLimits_run {start : QuicStreams} (sound : start.Sound) (ops : List StreamOp) :
    start.KeepsLimits (run (streamStep env) start ops) := by
  refine (streamRun_invariant (fun ss => ss.Sound ∧ start.KeepsLimits ss) ?_
    ⟨sound, .refl start⟩ ops).2
  rintro carrier before after ⟨sound, keeps⟩ move
  exact ⟨move.sound sound, keeps.trans ⟨move.recvMax_le, move.follows (fun _ => le_rfl)
    fun st _ found change => change.limit_le (sound st.id st found).2⟩⟩

/-- As long as the counter of received bytes does not wrap around: every stream has read no more
than it received and received no more than its limit, the connection likewise, what was received and
not taken is what the streams that exist hold, and no limit ever goes down. -/
theorem recv_credit_conserved (front back : List StreamOp)
    (no_wrap : Admits (streamStep env) (fun ss op => wrapsRecvOff ss op = false)
      (quicStreamsInit server tp) (front ++ back)) :
    let middle := run (streamStep env) (quicStreamsInit server tp) front
    let last := run (streamStep env) (quicStreamsInit server tp) (front ++ back)
    (∀ id st, last.byId.find id = some st →
      st.recvRead ≤ st.recvHighest ∧ st.recvHighest ≤ st.inn.limit) ∧
    (last.recvOff ≤ last.recvMax ∧ last.recvMax ≤ last.recvRead + last.recvWindow) ∧
    (last.recvRead ≤ last.recvOff ∧ last.recvOff - last.recvRead =
      last.byId.total fun st => st.recvHighest - st.recvRead) ∧
    middle.recvMax ≤ last.recvMax ∧
    ∀ id st later, middle.byId.find id = some st → last.byId.find id = some later →
      st.inn.limit ≤ later.inn.limit := by
  intro middle last
  have credit : last.Credit := credit_run env server tp no_wrap
  have keeps : middle.KeepsLimits last := by
    have later := keepsLimits_run env (QuicStreams.sound_run env server tp front) back
    rw [← run_append] at later
    exact later
  refine ⟨?_, ⟨credit.allowed, credit.window⟩, ⟨?_, ?_⟩, keeps.conn, ?_⟩
  · intro id st found
    have recv := (QuicStreams.sound_run env server tp (front ++ back) id st found).2
    exact ⟨recv.read_le, recv.highest_le⟩
  · rw [credit.conserved]
    exact Nat.le_add_right _ _
  · rw [credit.conserved, Nat.add_sub_cancel_left]
    rfl
  · intro id st later found later_found
    obtain ⟨same, same_found, limit_le⟩ := keeps.stream.stream id later
      (QuicStreams.allKnown_run env server tp front id st found) later_found
    rw [found] at same_found
    cases same_found
    exact limit_le

end

/-- A byte arrives on one stream and is read; another stream is reset before any of its bytes
arrived. -/
theorem recv_credit_conserved_reset :
    let front : List StreamOp := [.frame (.stream false true false 0 0 [1]), .recv 0 10]
    let back : List StreamOp := [.frame (.resetStream 4 7 6)]
    let last := run (streamStep willingEnv) (quicStreamsInit true smallParams) (front ++ back)
    last.recvOff = 7 ∧ last.recvOff ≤ last.recvMax := by
  intro front back last
  exact ⟨by decide, (recv_credit_conserved willingEnv true smallParams front back
    (by decide)).2.1.1⟩

def largeParams : QuicTransportParams :=
  ⟨2 ^ 62 - 1, 2 ^ 62 - 1, 2 ^ 62 - 1, 2 ^ 62 - 1, 5, 5⟩

/-- Five resets, each at the largest offset there is, make the counter of received bytes wrap
around: no error is raised, and the limit ends up far more than a window beyond what was taken. -/
theorem recv_credit_wraps :
    let last := run (streamStep willingEnv) (quicStreamsInit true largeParams)
      ([0, 4, 8, 12, 16].map fun id => .frame (.resetStream id 0 (2 ^ 62 - 1)))
    last.error = 0 ∧ last.recvOff < 4 * (2 ^ 62 - 1) ∧
      last.recvRead + last.recvWindow < last.recvMax := by
  decide

end Cx.Quic
