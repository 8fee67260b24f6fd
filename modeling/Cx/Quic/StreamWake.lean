import Cx.Quic.StreamLife

/-!
# Waking a sender that waits for room

A sender that was refused waits until enough room opens up.  Room is the least of three bounds, and
each of them is raised by an event of its own: a MAX_DATA frame, a MAX_STREAM_DATA frame, an
acknowledgement.
-/

namespace Cx.Quic

open Library

/-- How often the sender of a stream was told that there is room. -/
def QuicStreams.wakes (ss : QuicStreams) (id : Nat) : Nat := ss.events.count (.writable id)

/-- There is less room than the sender waits for, and acknowledgements to come will make more. -/
def RoomComing (ss : QuicStreams) (st : QuicStreamState) : Prop :=
  sendRoom ss st < st.sendWaitLow ∧ 0 < quicSendBufOutstanding st.out

/-- A sender that had been told `calls` times and had `room` was told again, or waits on with no
more room than that, or with more of it coming. -/
def QuicStreams.Attended (ss : QuicStreams) (id calls room : Nat) : Prop :=
  calls < ss.wakes id ∨
    calls ≤ ss.wakes id ∧ ∀ st, ss.byId.find id = some st →
      st.wantWritable = true ∧ (sendRoom ss st ≤ room ∨ RoomComing ss st)

def QuicStreams.roomSide (ss : QuicStreams) : Nat × Nat × Nat :=
  (ss.sendMax, ss.sendOff, ss.sendBufMax)

section

variable {before after ss : QuicStreams} {st later : QuicStreamState}
  {id calls room pn : Nat}

theorem sendRoom_congr (side_eq : after.roomSide = before.roomSide)
    (half_eq : later.toQuicSendHalf = st.toQuicSendHalf) :
    sendRoom after later = sendRoom before st := by
  simp only [QuicStreams.roomSide, Prod.mk.injEq] at side_eq
  unfold sendRoom
  rw [half_eq, side_eq.1, side_eq.2.1, side_eq.2.2]

theorem wakes_tell (ss : QuicStreams) (event : QuicStreamEvent) (id : Nat) :
    (ss.tell event).wakes id = ss.wakes id + if event = .writable id then 1 else 0 := by
  simp [QuicStreams.wakes, QuicStreams.tell, List.count_append, List.count_singleton]

/-- What leaves the sender and its room alone keeps it attended. -/
theorem QuicStreams.Attended.same (attended : before.Attended id calls room)
    (side_eq : after.roomSide = before.roomSide) (wakes_le : before.wakes id ≤ after.wakes id)
    (finds : ∀ st, after.byId.find id = some st → before.byId.find id = some st) :
    after.Attended id calls room := by
  rcases attended with told | ⟨calls_le, waits⟩
  · exact .inl (told.trans_le wakes_le)
  · refine .inr ⟨calls_le.trans wakes_le, fun st found => ?_⟩
    unfold RoomComing
    rw [sendRoom_congr side_eq rfl]
    exact waits st (finds st found)

theorem sendUnblock_cases (ss : QuicStreams) (want : st.wantWritable = true) :
    sendUnblock ss st = (ss.tell (.writable st.id), { st with wantWritable := false }) ∨
      sendUnblock ss st = (ss, st) ∧ (sendRoom ss st = 0 ∨ RoomComing ss st) := by
  unfold sendUnblock
  rw [want]
  simp only [Bool.not_true, Bool.false_eq_true, if_false]
  split_ifs with short
  · exact .inr ⟨rfl, short⟩
  · exact .inl rfl

/-- A sender that waits is attended once it was considered for waking. -/
theorem attended_of_sendUnblock (want : st.wantWritable = true) (calls_le : calls ≤ ss.wakes st.id)
    (side_eq : after.roomSide = ss.roomSide)
    (wakes_le : (sendUnblock ss st).1.wakes st.id ≤ after.wakes st.id)
    (finds : ∀ later, after.byId.find st.id = some later →
      later.toQuicSendHalf = (sendUnblock ss st).2.toQuicSendHalf ∧
        later.toQuicSendWait = (sendUnblock ss st).2.toQuicSendWait) :
    after.Attended st.id calls room := by
  rcases sendUnblock_cases ss want with woken | ⟨waits, short⟩
  · rw [woken, wakes_tell, if_pos rfl] at wakes_le
    exact .inl (by omega)
  · rw [waits] at wakes_le finds
    refine .inr ⟨calls_le.trans wakes_le, fun later found => ?_⟩
    obtain ⟨half_eq, wait_eq⟩ := finds later found
    refine ⟨by rw [wait_eq]; exact want, ?_⟩
    unfold RoomComing at short ⊢
    rw [sendRoom_congr side_eq half_eq, half_eq, wait_eq]
    exact short.imp_left fun none => none.trans_le (Nat.zero_le room)

section

variable (ss : QuicStreams)

theorem roomSide_sendUnblock (st : QuicStreamState) :
    (sendUnblock ss st).1.roomSide = ss.roomSide := by
  obtain ⟨wait, woken, unblock_eq, -⟩ := sendUnblock_eq ss st
  rw [unblock_eq]
  cases woken <;> rfl

theorem byId_sendUnblock (st : QuicStreamState) : (sendUnblock ss st).1.byId = ss.byId := by
  obtain ⟨wait, woken, unblock_eq, -⟩ := sendUnblock_eq ss st
  rw [unblock_eq]
  cases woken <;> rfl

theorem id_sendUnblock (st : QuicStreamState) : (sendUnblock ss st).2.id = st.id := by
  obtain ⟨wait, woken, unblock_eq, -⟩ := sendUnblock_eq ss st
  rw [unblock_eq]

theorem wakes_le_sendUnblock (st : QuicStreamState) (id : Nat) :
    ss.wakes id ≤ (sendUnblock ss st).1.wakes id := by
  fun_cases sendUnblock ss st with
  | case1 | case2 => exact le_rfl
  | case3 => exact (wakes_tell ss _ id).symm ▸ Nat.le_add_right _ _

theorem want_sendStall (want : st.wantWritable = true) : (sendStall ss st).wantWritable = true := by
  unfold sendStall sendWait
  dsimp only
  split_ifs
  · exact want
  · rfl
  · exact want

theorem id_sendStall (st : QuicStreamState) : (sendStall ss st).id = st.id := by
  obtain ⟨wait, stall_eq, -⟩ := sendStall_eq ss st
  rw [stall_eq]

theorem roomSide_streamSettle (st : QuicStreamState) :
    (streamSettle ss st).roomSide = ss.roomSide := by
  obtain ⟨config, send, -⟩ := streamSettle_frame ss st
  rw [QuicStreams.roomSide, config, send]
  rfl

theorem wakes_streamSettle (st : QuicStreamState) (id : Nat) :
    (streamSettle ss st).wakes id = ss.wakes id := by
  rcases streamSettle_cases ss st with ⟨-, settle_eq⟩ | ⟨-, -, settle_eq⟩
  · rw [settle_eq]
    rfl
  · rw [settle_eq, streamForget_eq]
    exact (wakes_tell ss (.closed st.id) id).trans (by simp)

end

/-- What every visit of the walk keeps, the walk keeps. -/
theorem streamsResolveLoop_keeps {acked : Bool} (Good : QuicStreams → Prop)
    (listed : ∀ ss active, Good ss → Good { ss with active := active })
    (visited : ∀ ss st, Good ss → ss.byId.find st.id = some st →
      Good ((streamResolve ss st pn acked).1.store (streamResolve ss st pn acked).2))
    (retired : ∀ ss st active, Good ss → ss.byId.find st.id = some st →
      Good (streamRetire { (streamResolve ss st pn acked).1 with active := active }
        (streamResolve ss st pn acked).2))
    (fuel i : Nat) (ss : QuicStreams) (good : Good ss) :
    Good (streamsResolveLoop pn acked fuel i ss) := by
  fun_induction streamsResolveLoop pn acked fuel i ss with
  | case1 | case2 => exact good
  | case3 fuel i ss id here gone ih => exact ih (listed ss _ good)
  | case4 fuel i ss id here st found _ _ ih =>
    exact ih (retired ss st _ good (quicStreamFind_eq found))
  | case5 fuel i ss id here st found _ _ ih =>
    exact ih (visited ss st good (quicStreamFind_eq found))

/-- A stream changes in a way that leaves its sender waiting, and then the sender is considered for
waking: that keeps every sender attended. -/
theorem QuicStreams.Attended.considered (attended : ss.Attended id calls room)
    (found : ss.byId.find st.id = some st) (id_eq : later.id = st.id)
    (waits_on : st.wantWritable = true → later.wantWritable = true)
    (side_eq : after.roomSide = ss.roomSide)
    (wakes_eq : after.wakes id = (sendUnblock ss later).1.wakes id)
    (finds : ∀ last, after.byId.find id = some last → if id = st.id then
        last.toQuicSendHalf = (sendUnblock ss later).2.toQuicSendHalf ∧
          last.toQuicSendWait = (sendUnblock ss later).2.toQuicSendWait
      else ss.byId.find id = some last) : after.Attended id calls room := by
  have wakes_le : ss.wakes id ≤ after.wakes id := wakes_eq ▸ wakes_le_sendUnblock ss later id
  by_cases here : id = st.id
  · rcases attended with told | ⟨calls_le, waits⟩
    · exact .inl (told.trans_le wakes_le)
    · simp only [if_pos here] at finds
      rw [← here] at found
      have id_later : later.id = id := id_eq.trans here.symm
      rw [← id_later] at calls_le wakes_eq finds ⊢
      exact attended_of_sendUnblock (waits_on (waits st found).1) calls_le side_eq wakes_eq.ge finds
  · refine attended.same side_eq wakes_le fun last last_found => ?_
    have := finds last last_found
    rwa [if_neg here] at this

theorem QuicStreams.Attended.stored (attended : ss.Attended id calls room)
    (found : ss.byId.find st.id = some st) (id_eq : later.id = st.id)
    (waits_on : st.wantWritable = true → later.wantWritable = true) :
    ((sendUnblock ss later).1.store (sendUnblock ss later).2).Attended id calls room := by
  refine attended.considered found id_eq waits_on (roomSide_sendUnblock ss later) rfl ?_
  intro last last_found
  rw [find_store, id_sendUnblock, id_eq, byId_sendUnblock] at last_found
  split_ifs at last_found ⊢ with here
  · cases last_found
    exact ⟨rfl, rfl⟩
  · exact last_found

theorem QuicStreams.Attended.retired (attended : ss.Attended id calls room)
    (found : ss.byId.find st.id = some st) (id_eq : later.id = st.id)
    (waits_on : st.wantWritable = true → later.wantWritable = true) (active : List Nat) :
    (streamRetire { (sendUnblock ss later).1 with active := active }
      (sendUnblock ss later).2).Attended id calls room := by
  refine attended.considered found id_eq waits_on
    ((roomSide_streamSettle _ _).trans (roomSide_sendUnblock ss later))
    (wakes_streamSettle _ _ id) ?_
  intro last last_found
  have id_last : (sendUnblock ss later).2.id = st.id := (id_sendUnblock ss later).trans id_eq
  rcases find_streamSettle last_found with ⟨here, last_eq, -⟩ | ⟨there, last_found⟩
  · rw [if_pos (here.trans id_last)]
    exact ⟨by rw [last_eq], by rw [last_eq]⟩
  · rw [if_neg fun here => there (here.trans id_last.symm)]
    exact byId_sendUnblock ss later ▸ last_found

theorem attended_of_want (found : ss.byId.find id = some st) (want : st.wantWritable = true) :
    ss.Attended id (ss.wakes id) (sendRoom ss st) := by
  refine .inr ⟨le_rfl, fun later later_found => ?_⟩
  cases found.symm.trans later_found
  exact ⟨want, .inl le_rfl⟩

/-- An acknowledged packet leaves every sender that waits attended. -/
theorem attended_quicStreamsAcked (found : ss.byId.find id = some st)
    (want : st.wantWritable = true) (pn : Nat) :
    (quicStreamsAcked ss pn).Attended id (ss.wakes id) (sendRoom ss st) := by
  have waits_on : ∀ (before : QuicStreams) (st : QuicStreamState), st.wantWritable = true →
      (streamAcked (sendStall before st) pn).wantWritable = true := by
    intro before st want
    rw [wait_streamAcked]
    exact want_sendStall before want
  have id_eq : ∀ (before : QuicStreams) (st : QuicStreamState),
      (streamAcked (sendStall before st) pn).id = st.id := fun before st =>
    (id_streamAnswer _ pn true).trans (id_sendStall before st)
  refine streamsResolveLoop_keeps (fun after => after.Attended id (ss.wakes id) (sendRoom ss st))
    ?_ ?_ ?_ _ 0 _ (attended_of_want found want)
  · exact fun before active attended => attended.same rfl le_rfl fun _ found => found
  · exact fun before st attended found => attended.stored found (id_eq before st)
      (waits_on before st)
  · exact fun before st active attended found =>
      attended.retired found (id_eq before st) (waits_on before st) active

/-- A walk over all streams brings about what its visit of one of them does, if the visits before
leave that stream ready and those after keep the result. -/
theorem forEach_reaches {visit : QuicStreams → QuicStreamState → QuicStreams} (id : Nat)
    (Ready Done : QuicStreams → Prop) (ready : Ready ss)
    (present : ∀ ss, Ready ss → ∃ st, ss.byId.find id = some st)
    (here : ∀ ss st, Ready ss → ss.byId.find st.id = some st → st.id = id → Done (visit ss st))
    (there : ∀ ss st, Ready ss → ss.byId.find st.id = some st → st.id ≠ id → Ready (visit ss st))
    (kept : ∀ ss st, Done ss → ss.byId.find st.id = some st → Done (visit ss st)) :
    Done (ss.forEach visit) := by
  obtain ⟨st, found⟩ := present ss ready
  have named : id ∈ ss.byId.keys := Table.mem_keys.2 (found ▸ rfl)
  unfold QuicStreams.forEach
  generalize ss.byId.keys = ids at named
  -- a state that is not done is ready, and then the stream is still to be visited
  have pending : Done ss ∨ Ready ss ∧ id ∈ ids := .inr ⟨ready, named⟩
  clear ready found named
  induction ids generalizing ss with
  | nil => exact pending.resolve_right fun ⟨_, named⟩ => nomatch named
  | cons head ids ih =>
    rw [List.foldl_cons]
    refine ih ?_
    cases head_found : quicStreamFind ss head with
    | none =>
      rcases pending with done | ⟨ready, named⟩
      · exact .inl done
      · obtain ⟨st, found⟩ := present ss ready
        refine .inr ⟨ready, (List.mem_cons.1 named).resolve_left ?_⟩
        rintro rfl
        cases head_found.symm.trans found
    | some st =>
      have found_self := quicStreamFind_eq head_found
      have id_eq : st.id = head := Table.key_of_find head_found
      rcases pending with done | ⟨ready, named⟩
      · exact .inl (kept ss st done found_self)
      · by_cases is_here : st.id = id
        · exact .inl (here ss st ready found_self is_here)
        · refine .inr ⟨there ss st ready found_self is_here, ?_⟩
          exact (List.mem_cons.1 named).resolve_left fun same => is_here (id_eq.trans same.symm)

/-- A sender that waits, told as often as before. -/
def QuicStreams.Pending (ss : QuicStreams) (id calls : Nat) : Prop :=
  calls ≤ ss.wakes id ∧ ∃ st, ss.byId.find id = some st ∧ st.wantWritable = true

theorem QuicStreams.Pending.same (pending : before.Pending id calls)
    (wakes_le : before.wakes id ≤ after.wakes id)
    (find_eq : after.byId.find id = before.byId.find id) : after.Pending id calls := by
  obtain ⟨calls_le, st, found, want⟩ := pending
  exact ⟨calls_le.trans wakes_le, st, find_eq.trans found, want⟩

/-- A MAX_DATA frame leaves every sender that waits attended. -/
theorem attended_connMaxData (found : ss.byId.find id = some st) (want : st.wantWritable = true)
    (max : Nat) : (connMaxData ss max).Attended id (ss.wakes id) (sendRoom ss st) := by
  unfold connMaxData
  split_ifs with lower
  · exact attended_of_want found want
  · have stalled : (ss.forEach fun ss st => ss.store (sendStall ss st)).Pending id
        (ss.wakes id) := by
      refine forEach_induction ss _ (fun after => after.Pending id (ss.wakes id))
        ⟨le_rfl, st, found, want⟩ ?_
      rintro before other pending other_found
      by_cases here : id = other.id
      · obtain ⟨calls_le, st, found, want⟩ := pending
        subst here
        cases other_found.symm.trans found
        refine ⟨calls_le, sendStall before other, ?_, want_sendStall before want⟩
        rw [find_store, if_pos (id_sendStall before other).symm]
      · refine pending.same le_rfl ?_
        rw [find_store, id_sendStall, if_neg here]
    refine forEach_reaches id (fun after => after.Pending id (ss.wakes id))
      (fun after => after.Attended id (ss.wakes id) (sendRoom ss st)) stalled ?_ ?_ ?_ ?_
    · rintro after ⟨-, st, found, -⟩
      exact ⟨st, found⟩
    · rintro before other ⟨calls_le, st, found, want⟩ other_found rfl
      cases other_found.symm.trans found
      refine attended_of_sendUnblock want calls_le (roomSide_sendUnblock before other) le_rfl ?_
      intro later later_found
      rw [find_store, if_pos (id_sendUnblock before other).symm] at later_found
      cases later_found
      exact ⟨rfl, rfl⟩
    · intro before other pending other_found there
      refine pending.same (wakes_le_sendUnblock before other id) ?_
      rw [find_store, id_sendUnblock, if_neg (Ne.symm there), byId_sendUnblock]
    · exact fun before other attended other_found =>
        attended.stored other_found rfl fun want => want

/-- Raising the limit of one stream keeps every sender that waits attended. -/
theorem QuicStreams.Attended.raise (attended : ss.Attended id calls room)
    (found : ss.byId.find st.id = some st) (max : Nat) :
    (streamMaxData ss st max).2.Attended id calls room := by
  unfold streamMaxData
  split_ifs with lower
  · exact attended
  · exact attended.stored found (id_sendStall ss st) (want_sendStall ss)

/-- A stream that was opened before, and the room of every stream, are left alone. -/
structure QuicStreams.Spares (before : QuicStreams) (id : Nat) (after : QuicStreams) : Prop where
  known : after.Knows id
  find_eq : after.byId.find id = before.byId.find id
  side_eq : after.roomSide = before.roomSide
  wakes_eq : after.wakes id = before.wakes id

theorem QuicStreams.Spares.refl (known : ss.Knows id) : ss.Spares id ss := ⟨known, rfl, rfl, rfl⟩

theorem QuicStreams.Spares.trans {middle : QuicStreams} (first : before.Spares id middle)
    (second : middle.Spares id after) : before.Spares id after :=
  ⟨second.known, second.find_eq.trans first.find_eq, second.side_eq.trans first.side_eq,
    second.wakes_eq.trans first.wakes_eq⟩

theorem spares_streamsFail (known : ss.Knows id) (error frameType : Nat) :
    ss.Spares id (streamsFail ss error frameType) := by
  unfold streamsFail
  split_ifs <;> exact ⟨known, rfl, rfl, rfl⟩

theorem spares_streamAdmitNext (known : ss.Knows id) (dir : QuicDir) :
    ss.Spares id (streamAdmitNext ss dir) := by
  refine ⟨(knows_streamAdmitNext ss dir id).2 (.inl known), ?_, rfl, ?_⟩
  · have other : id ≠ remoteNextId ss dir := by
      rintro rfl
      exact not_knows_remoteNextId ss dir known
    exact (find_store ss (streamInit ss (remoteNextId ss dir)) id).trans (if_neg other)
  · exact (wakes_tell _ (.opened (remoteNextId ss dir)) id).trans (by simp; rfl)

variable {env : StreamEnv}

theorem spares_streamAdmitLoop (known : ss.Knows id) (dir : QuicDir) (frameType count : Nat) :
    ss.Spares id (streamAdmitLoop env dir frameType count ss).2 := by
  fun_induction streamAdmitLoop env dir frameType count ss with
  | case1 => exact .refl known
  | case2 count ss _ _ ih =>
    have next := spares_streamAdmitNext known dir
    exact next.trans (ih next.known)
  | case3 count ss =>
    have next := spares_streamAdmitNext known dir
    exact next.trans (spares_streamsFail next.known _ frameType)

theorem spares_streamForFrame (known : ss.Knows id) (named frameType : Nat) :
    ss.Spares id (streamForFrame env ss named frameType).2.2 := by
  have admitted : ss.Spares id (streamAdmit env ss named frameType).2 := by
    fun_cases streamAdmit env ss named frameType with
    | case1 =>
      dsimp only
      split_ifs
      · exact spares_streamsFail known _ frameType
      · exact .refl known
    | case2 => exact .refl known
    | case3 => exact spares_streamsFail known _ frameType
    | case4 => exact spares_streamAdmitLoop known _ frameType _
  fun_cases streamForFrame env ss named frameType with
  | case1 => exact .refl known
  | case2 _ _ admits | case3 _ _ _ admits =>
    rw [admits] at admitted
    exact admitted

/-- A MAX_STREAM_DATA frame leaves every sender that waits attended. -/
theorem attended_handleMaxStreamData (known : ss.Knows id) (found : ss.byId.find id = some st)
    (want : st.wantWritable = true) (frameType named max : Nat) :
    (handleMaxStreamData env ss frameType named max).2.Attended id (ss.wakes id)
      (sendRoom ss st) := by
  have attended := attended_of_want found want
  have spared : ∀ {after}, ss.Spares id after → after.Attended id (ss.wakes id) (sendRoom ss st) :=
    fun spares => attended.same spares.side_eq spares.wakes_eq.ge
      fun later later_found => spares.find_eq ▸ later_found
  unfold handleMaxStreamData withStream
  split_ifs with refused
  · exact spared (spares_streamsFail known _ frameType)
  · have spares : ss.Spares id (streamForFrame env ss named frameType).2.2 :=
      spares_streamForFrame known named frameType
    have spec : StreamMoves env .any none ss (streamForFrame env ss named frameType).2.2 ∧ _ :=
      streamForFrame_spec ss named frameType
    obtain ⟨-, found_named⟩ := spec
    generalize streamForFrame env ss named frameType = outcome at spares found_named ⊢
    obtain ⟨target, ignore, after⟩ := outcome
    cases target with
    | none => exact spared spares
    | some target => exact (spared spares).raise (found_named target rfl).found_self max

/-- How much a sender waits for after a change is what it waited for before, or what a refusal asks
for. -/
theorem StreamChange.low {guard : StreamGuard} {carrier : Option Nat}
    (change : StreamChange env guard carrier before st later) :
    guard.Waits before st later.toQuicSendWait := by
  cases change with
  | wait wait waits => exact waits
  | kept visit wait busy waits => exact waits
  | retired visit wait idle settled unfinished waits => exact waits
  | advanced =>
    refine .inl ?_
    unfold recvAdvance
    dsimp only
    split_ifs <;> rfl
  | limit | sized | counted | placed | peerReset | stopped | abandon | write | complain | finish
  | stop | take | window | ended | endedReset => exact .inl rfl

/-- Only a configuration changes how much is buffered and how much room wakes a sender. -/
theorem StreamMove.buffering_eq {guard : StreamGuard} {carrier : Option Nat}
    (move : StreamMove env guard carrier before after)
    (configured : ∀ sendBufMax sendLow, ¬ guard.configure sendBufMax sendLow) :
    after.sendBufMax = before.sendBufMax ∧ after.sendLow = before.sendLow := by
  cases move.shared with
  | configure permitted => exact absurd permitted (configured _ _)
  | same config | write _ _ config =>
    rw [config]
    exact ⟨rfl, rfl⟩
  | params _ after_eq | connLimit _ _ after_eq | countLimit _ after_eq | credit _ after_eq
  | admitted after_eq | opened _ after_eq => exact after_eq ▸ ⟨rfl, rfl⟩

def StreamGuard.refusals (env : StreamEnv) (ss : QuicStreams) (op : StreamOp) : StreamGuard :=
  { StreamGuard.any with configure := fun _ _ => False, refuse := op.Refuses env ss }

theorem permits_refusals {op : StreamOp}
    (configured : ∀ sendBufMax sendLow, op ≠ .configure sendBufMax sendLow) :
    (StreamGuard.refusals env ss op).Permits ss op := by
  cases op with
  | configure sendBufMax sendLow => exact absurd rfl (configured sendBufMax sendLow)
  | frame f =>
    cases f <;> simp [StreamGuard.Permits, StreamGuard.PermitsFrame, StreamGuard.refusals,
      StreamGuard.any]
  | recv => exact fun _ => trivial
  | _ => trivial

/-- A call leaves the configuration alone, and after it a sender waits for what it did before or for
what the call refused it. -/
theorem streamStep_refusals {env : StreamEnv} {op : StreamOp}
    (configured : ∀ sendBufMax sendLow, op ≠ .configure sendBufMax sendLow) :
    ((streamStep env ss op).sendBufMax = ss.sendBufMax ∧
        (streamStep env ss op).sendLow = ss.sendLow) ∧
      ∀ id later, (streamStep env ss op).byId.find id = some later → later.sendWaitLow = 0 ∨
        (∃ st, ss.byId.find id = some st ∧ later.sendWaitLow = st.sendWaitLow) ∨
        ∃ want room, op.Refuses env ss id want room ∧
          later.sendWaitLow = sendWatermark ss want room := by
  have moves : StreamMoves env (.refusals env ss op) op.carrier ss (streamStep env ss op) :=
    streamStep_moves (permits_refusals configured) fun _ _ _ refused => refused
  refine moves.invariant
    (fun after => (after.sendBufMax = ss.sendBufMax ∧ after.sendLow = ss.sendLow) ∧
      ∀ id later, after.byId.find id = some later → later.sendWaitLow = 0 ∨
        (∃ st, ss.byId.find id = some st ∧ later.sendWaitLow = st.sendWaitLow) ∨
        ∃ want room, op.Refuses env ss id want room ∧
          later.sendWaitLow = sendWatermark ss want room) ?_
    ⟨⟨rfl, rfl⟩, fun id st found => .inr (.inl ⟨st, found, rfl⟩)⟩
  rintro before after ⟨same_config, lows⟩ move
  have buffering := move.buffering_eq fun _ _ => False.elim
  refine ⟨⟨buffering.1.trans same_config.1, buffering.2.trans same_config.2⟩, ?_⟩
  intro id later found
  rcases move.change found with same | ⟨st, st_found, change⟩ | ⟨dir, rfl, -⟩
  · exact lows id later same
  · rcases change.low with same | ⟨want, room, refused, raised⟩
    · rw [same]
      exact lows id st st_found
    · have id_eq : st.id = id := Table.key_of_find st_found
      refine .inr (.inr ⟨want, room, id_eq ▸ refused, raised.trans ?_⟩)
      unfold sendWatermark
      rw [same_config.1, same_config.2]
  · exact .inl rfl

/-- A watermark beyond the buffer is one more than the room there was. -/
theorem le_room_of_sendWatermark {want : Nat}
    (beyond : ss.sendBufMax < sendWatermark ss want room) : ss.sendBufMax ≤ room := by
  unfold sendWatermark at beyond
  dsimp only at beyond
  split_ifs at beyond <;> omega

/-- In a run without further configuration a sender waits for more than the buffer holds only since
it was refused with that much room. -/
theorem refused_of_low (fresh : ∀ id, ss.byId.find id = none) {ops : List StreamOp}
    (configured : ∀ op ∈ ops, ∀ sendBufMax sendLow, op ≠ .configure sendBufMax sendLow) :
    (run (streamStep env) ss ops).sendBufMax = ss.sendBufMax ∧
      ∀ id st, (run (streamStep env) ss ops).byId.find id = some st →
        ss.sendBufMax < st.sendWaitLow →
        ∃ front op back want room, ops = front ++ op :: back ∧
          op.Refuses env (run (streamStep env) ss front) id want room ∧ ss.sendBufMax ≤ room := by
  induction ops using List.reverseRecOn with
  | nil =>
    refine ⟨rfl, fun id st found => ?_⟩
    rw [run_nil, fresh id] at found
    cases found
  | append_singleton ops op ih =>
    obtain ⟨buffer_eq, earlier⟩ := ih fun op op_mem => configured op (List.mem_append_left _ op_mem)
    obtain ⟨⟨step_eq, -⟩, lows⟩ := @streamStep_refusals (run (streamStep env) ss ops) env op
      (configured op (by simp))
    rw [run_append, run_cons, run_nil]
    refine ⟨step_eq.trans buffer_eq, fun id st found beyond => ?_⟩
    rcases lows id st found with zero | ⟨old, old_found, same⟩ | ⟨want, room, refused, raised⟩
    · omega
    · obtain ⟨front, first, back, want, room, ops_eq, refused, reached⟩ :=
        earlier id old old_found (same ▸ beyond)
      exact ⟨front, first, back ++ [op], want, room, by simp [ops_eq], refused, reached⟩
    · refine ⟨ops, op, [], want, room, rfl, refused, ?_⟩
      rw [raised, ← buffer_eq] at beyond
      exact buffer_eq ▸ le_room_of_sendWatermark beyond

end

def StreamOp.makesRoom : StreamOp → Bool
  | .frame (.maxData _) | .frame (.maxStreamData _ _) | .acked _ => true
  | _ => false

/-- No sender sleeps through room that opened up: when a call gives more room to a stream whose
sender waits, the sender is told, or the room is short of what it waits for and bytes in flight will
make more.  And what it waits for fits the buffer, unless it was refused with that much room. -/
theorem no_sender_sleeps (env : StreamEnv) (server : Bool) (tp : QuicTransportParams)
    (sendBufMax sendLow : Nat) {ops : List StreamOp}
    (configured : ∀ op ∈ ops, ∀ sendBufMax sendLow, op ≠ .configure sendBufMax sendLow) :
    let start := streamStep env (quicStreamsInit server tp) (.configure sendBufMax sendLow)
    let ss := run (streamStep env) start ops
    (∀ op id st later, op.makesRoom = true → ss.byId.find id = some st →
        st.wantWritable = true → (streamStep env ss op).byId.find id = some later →
        sendRoom ss st < sendRoom (streamStep env ss op) later →
        ss.wakes id < (streamStep env ss op).wakes id ∨
          sendRoom (streamStep env ss op) later < later.sendWaitLow ∧
            0 < quicSendBufOutstanding later.out) ∧
      ∀ id st, ss.byId.find id = some st → sendBufMax < st.sendWaitLow →
        ∃ front op back want room, ops = front ++ op :: back ∧
          op.Refuses env (run (streamStep env) start front) id want room ∧ sendBufMax ≤ room := by
  intro start ss
  have known : ss.AllKnown :=
    QuicStreams.allKnown_run env server tp (.configure sendBufMax sendLow :: ops)
  refine ⟨?_, (refused_of_low (fun id => rfl) configured).2⟩
  intro op id st later makes found want later_found more
  have attended : (streamStep env ss op).Attended id (ss.wakes id) (sendRoom ss st) := by
    cases op with
    | frame f =>
      cases f with
      | maxData max => exact attended_connMaxData found want max
      | maxStreamData named max =>
        exact attended_handleMaxStreamData (known id st found) found want _ named max
      | _ => cases makes
    | acked pn => exact attended_quicStreamsAcked found want pn
    | _ => cases makes
  rcases attended with told | ⟨-, waits⟩
  · exact .inl told
  · exact .inr ((waits later later_found).2.resolve_left (Nat.not_le_of_lt more))

/-- A writer fills the buffer and is refused one byte more; the acknowledgement of what it wrote
wakes it. -/
theorem no_sender_sleeps_acked :
    let ss := run (streamStep willingEnv)
      (streamStep willingEnv (quicStreamsInit false smallParams) (.configure 8 0))
      [.params smallParams, .open false, .send 0 [1, 2, 3, 4, 5, 6, 7, 8], .sendAll 0 [9],
        .fill 100 0]
    ss.wakes 0 < (streamStep willingEnv ss (.acked 0)).wakes 0 := by
  intro ss
  have told := (no_sender_sleeps willingEnv false smallParams 8 0
    (show ∀ op ∈ ([.params smallParams, .open false, .send 0 [1, 2, 3, 4, 5, 6, 7, 8],
      .sendAll 0 [9], .fill 100 0] : List StreamOp), ∀ sendBufMax sendLow,
        op ≠ .configure sendBufMax sendLow by simp)).1 (.acked 0) 0 _ _ rfl rfl rfl rfl (by decide)
  exact told.resolve_right (by decide)

end Cx.Quic
