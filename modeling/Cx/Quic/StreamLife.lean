import Cx.Quic.StreamSound

/-!
# The life of one stream

Identifiers are handed out in order and never again, so a stream that was opened and is gone does
not come back.  What a stream was at one moment can therefore be compared with what it is later:
`QuicStreams.Follows` carries a relation between the two along whole runs.

The receiving half ends once, when the application is told.  The only frame that leads out of that
state again is a RESET_STREAM for a half that was read to its end: the handler of STREAM frames
looks for that state and the handler of RESET_STREAM does not.
-/

namespace Cx.Quic

open Library Relation List

variable (id index : Nat) (opener server : Bool) (dir : QuicDir) (uni : Bool)

@[simp] theorem quicStreamIndex_makeId :
    quicStreamIndex (quicStreamMakeId index server uni) = index := by
  cases server <;> cases uni <;> simp [quicStreamIndex, quicStreamMakeId] <;> omega

@[simp] theorem quicStreamUni_makeId : quicStreamUni (quicStreamMakeId index server uni) = uni := by
  cases server <;> cases uni <;> simp [quicStreamUni, quicStreamMakeId] <;> omega

@[simp] theorem quicStreamDir_makeId :
    quicStreamDir (quicStreamMakeId index server (dir = .uni)) = dir := by
  rw [quicStreamDir, quicStreamUni_makeId]
  cases dir <;> rfl

@[simp] theorem quicStreamLocal_makeId :
    quicStreamLocal (quicStreamMakeId index opener uni) server = (opener == server) := by
  cases opener <;> cases server <;> cases uni <;> simp [quicStreamLocal, quicStreamMakeId] <;> omega

theorem quicStreamLocal_not : quicStreamLocal id (!server) = !quicStreamLocal id server := by
  cases server <;> simp [quicStreamLocal]

/-- An identifier is determined by who opens the stream, which way it runs and its position. -/
theorem eq_makeId_iff : id = quicStreamMakeId index opener (dir = .uni) ↔
      quicStreamIndex id = index ∧ quicStreamLocal id opener = true ∧ quicStreamDir id = dir := by
  constructor
  · rintro rfl
    simp
  · rintro ⟨rfl, opens, rfl⟩
    cases opener <;>
      simp only [quicStreamLocal, quicStreamDir, quicStreamUni, quicStreamMakeId, quicStreamIndex,
        beq_iff_eq, decide_eq_true_eq, decide_eq_false_iff_not] at opens ⊢ <;>
      by_cases uni : id / 2 % 2 = 1 <;> simp [uni] <;> omega

def QuicStreams.Knows (ss : QuicStreams) (id : Nat) : Prop :=
  quicStreamIndex id <
    if quicStreamLocal id ss.server then ss.nextLocal (quicStreamDir id)
    else ss.nextRemote (quicStreamDir id)

section

variable {env : StreamEnv} {guard : StreamGuard} {carrier : Option Nat}
  {before after : QuicStreams} {id : Nat} {st later : QuicStreamState}

variable (ss : QuicStreams)

theorem not_knows_remoteNextId (dir : QuicDir) : ¬ ss.Knows (remoteNextId ss dir) := by
  simp [QuicStreams.Knows, remoteNextId]

theorem not_knows_localNextId (dir : QuicDir) :
    ¬ ss.Knows (quicStreamMakeId (ss.nextLocal dir) ss.server (dir = .uni)) := by
  simp [QuicStreams.Knows]

theorem knows_streamAdmitNext (dir : QuicDir) (id : Nat) :
    (streamAdmitNext ss dir).Knows id ↔ ss.Knows id ∨ id = remoteNextId ss dir := by
  rw [remoteNextId, eq_makeId_iff]
  change quicStreamIndex id < (if quicStreamLocal id ss.server = true then
    ss.nextLocal (quicStreamDir id) else Function.update ss.nextRemote dir
      (ss.nextRemote dir + 1) (quicStreamDir id)) ↔ _
  rw [QuicStreams.Knows, quicStreamLocal_not]
  by_cases opened : quicStreamLocal id ss.server = true
  · simp [opened]
  · by_cases here : quicStreamDir id = dir
    · simp [opened, here]
      omega
    · simp [opened, here]

theorem knows_streamOpenNext (dir : QuicDir) (id : Nat) : (streamOpenNext ss dir).Knows id ↔
      ss.Knows id ∨ id = quicStreamMakeId (ss.nextLocal dir) ss.server (dir = .uni) := by
  rw [eq_makeId_iff]
  change quicStreamIndex id < (if quicStreamLocal id ss.server = true then
    Function.update ss.nextLocal dir (ss.nextLocal dir + 1) (quicStreamDir id)
      else ss.nextRemote (quicStreamDir id)) ↔ _
  rw [QuicStreams.Knows]
  by_cases opened : quicStreamLocal id ss.server = true
  · by_cases here : quicStreamDir id = dir
    · simp [opened, here]
      omega
    · simp [opened, here]
  · simp [opened]

theorem knows_congr (same : after.opened = before.opened) (id : Nat) :
    after.Knows id ↔ before.Knows id := by
  simp only [QuicStreams.opened, Prod.mk.injEq] at same
  rw [QuicStreams.Knows, QuicStreams.Knows, same.1, same.2.1, same.2.2]

theorem StreamMove.knows (move : StreamMove env guard carrier before after)
    (known : before.Knows id) : after.Knows id := by
  rcases move.opens with same | ⟨dir, rfl⟩ | ⟨dir, rfl⟩
  · exact (knows_congr same id).2 known
  · exact (knows_streamAdmitNext before dir id).2 (.inl known)
  · exact (knows_streamOpenNext before dir id).2 (.inl known)

/-- A stream that was opened before a move and exists after it existed before it. -/
theorem StreamMove.origin_of_known (move : StreamMove env guard carrier before after)
    (known : before.Knows id) (found : after.byId.find id = some later) :
    ∃ st, before.byId.find id = some st ∧
      (later = st ∨ StreamChange env guard carrier before st later) := by
  rcases move.change found with same | ⟨st, st_found, change⟩ | ⟨dir, -, ⟨fresh, -⟩ | ⟨fresh, -⟩⟩
  · exact ⟨later, same, .inl rfl⟩
  · exact ⟨st, st_found, .inr change⟩
  · exact absurd (fresh ▸ known) (not_knows_remoteNextId before dir)
  · exact absurd (fresh ▸ known) (not_knows_localNextId before dir)

def QuicStreams.AllKnown (ss : QuicStreams) : Prop :=
  ∀ id st, ss.byId.find id = some st → ss.Knows id

theorem StreamMove.allKnown (move : StreamMove env guard carrier before after)
    (all_known : before.AllKnown) : after.AllKnown := by
  intro id later found
  rcases move.change found with same | ⟨st, st_found, -⟩ | ⟨dir, -, ⟨fresh, rfl⟩ | ⟨fresh, rfl⟩⟩
  · exact move.knows (all_known id later same)
  · exact move.knows (all_known id st st_found)
  · exact (knows_streamAdmitNext before dir id).2 (.inr fresh)
  · exact (knows_streamOpenNext before dir id).2 (.inr fresh)

theorem StreamMoves.knows (moves : StreamMoves env guard carrier before after)
    (known : before.Knows id) : after.Knows id :=
  moves.invariant (QuicStreams.Knows · id) (fun _ _ known move => move.knows known) known

theorem StreamMoves.allKnown (moves : StreamMoves env guard carrier before after)
    (all_known : before.AllKnown) : after.AllKnown :=
  moves.invariant QuicStreams.AllKnown (fun _ _ known move => move.allKnown known) all_known

/-- Creating a stream that was not opened before adds what it counts for. -/
theorem total_put_fresh {id : Nat} (all_known : before.AllKnown) (fresh : ¬ before.Knows id)
    (f : QuicStreamState → Nat) :
    (before.byId.put (streamInit before id)).total f =
      before.byId.total f + f (streamInit before id) := by
  have absent : before.byId.find id = none := by
    cases found : before.byId.find id with
    | none => rfl
    | some st => exact absurd (all_known id st found) fresh
  have total : (before.byId.put (streamInit before id)).total f + before.byId.share f id =
      before.byId.total f + f (streamInit before id) :=
    Table.total_put f before.byId (streamInit before id)
  rw [Table.share_of_none f absent] at total
  exact total

/-- Every later stream that was already opened existed before, related to what it is now. -/
structure QuicStreams.Follows (related : QuicStreamState → QuicStreamState → Prop)
    (before after : QuicStreams) : Prop where
  known : ∀ id, before.Knows id → after.Knows id
  stream : ∀ id later, before.Knows id → after.byId.find id = some later →
    ∃ st, before.byId.find id = some st ∧ related st later

variable {related : QuicStreamState → QuicStreamState → Prop} {ss : QuicStreams}

theorem QuicStreams.Follows.refl (reflexive : ∀ st, related st st) (ss : QuicStreams) :
    ss.Follows related ss :=
  ⟨fun _ known => known, fun _ later _ found => ⟨later, found, reflexive later⟩⟩

theorem QuicStreams.Follows.trans
    (transitive : ∀ first second third, related first second → related second third →
      related first third) {first second third : QuicStreams}
    (earlier : first.Follows related second) (later : second.Follows related third) :
    first.Follows related third := by
  refine ⟨fun id known => later.known id (earlier.known id known), ?_⟩
  intro id last known found
  obtain ⟨middle, middle_found, middle_last⟩ := later.stream id last (earlier.known id known) found
  obtain ⟨st, st_found, st_middle⟩ := earlier.stream id middle known middle_found
  exact ⟨st, st_found, transitive _ _ _ st_middle middle_last⟩

theorem StreamMove.follows (reflexive : ∀ st, related st st)
    (changed : ∀ st later, before.byId.find st.id = some st →
      StreamChange env guard carrier before st later → related st later)
    (move : StreamMove env guard carrier before after) : before.Follows related after := by
  refine ⟨fun id known => move.knows known, fun id later known found => ?_⟩
  obtain ⟨st, st_found, rfl | change⟩ := move.origin_of_known known found
  · exact ⟨later, st_found, reflexive later⟩
  · exact ⟨st, st_found, changed st later (quicStreamFind_eq st_found) change⟩

/-- The application was told about the end of the receiving half. -/
def QuicRecvState.Terminal (state : QuicRecvState) : Prop :=
  state = .dataRead ∨ state = .resetRead

/-- The event is about the receiving half of a stream: there is something to read, it was reset, or
a read reached its end. -/
def QuicStreamEvent.Reads (event : QuicStreamEvent) (id : Nat) : Prop :=
  event = .fin id ∨ event = .readable id ∨ ∃ error, event = .reset id error

/-- An event about a receiving half names one that is not in its terminal state. -/
def QuicStreams.MayTell (ss : QuicStreams) (event : QuicStreamEvent) : Prop :=
  ∀ id, event.Reads id → ∃ st, ss.byId.find id = some st ∧ ¬ st.recvState.Terminal

theorem mayTell_of_found {event : QuicStreamEvent} (found : ss.byId.find st.id = some st)
    (unended : ¬ st.recvState.Terminal) (names : ∀ id, event.Reads id → id = st.id) :
    ss.MayTell event := by
  intro id reads
  rw [names id reads]
  exact ⟨st, found, unended⟩

theorem mayTell_of_silent {event : QuicStreamEvent} (silent : ∀ id, ¬ event.Reads id) :
    ss.MayTell event :=
  fun id reads => absurd reads (silent id)

theorem not_terminal_of_stores (stores : st.recvState.Stores) : ¬ st.recvState.Terminal :=
  fun terminal => stores (terminal.elim (fun read => .inr (.inr read)) fun read => .inr (.inl read))

/-- A receiving half in its terminal state stays there, if resets leave it alone. -/
theorem StreamChange.terminal (spares : ∀ id, ¬ guard.reset id .dataRead)
    (change : StreamChange env guard carrier before st later) (terminal : st.recvState.Terminal) :
    later.recvState = st.recvState := by
  cases change with
  | wait | limit | sized | counted | placed | stopped | abandon | write | complain | finish | stop
  | take | window => rfl
  | advanced stores => exact absurd terminal (not_terminal_of_stores stores)
  | peerReset receives known final first unread permitted =>
    rcases terminal with read | read
    · exact absurd (read ▸ permitted) (spares st.id)
    · exact absurd read unread
  | ended arrived | endedReset arrived => simp [QuicRecvState.Terminal, arrived] at terminal
  | kept visit | retired visit => exact congrArg QuicRecvHalf.recvState visit.frame.1

theorem events_wake (ss : QuicStreams) (woken : Bool) (id : Nat) :
    (ss.wake woken id).events = ss.events ++ if woken then [.writable id] else [] := by
  cases woken
  · exact (append_nil _).symm
  · rfl

theorem events_streamSettle (ss : QuicStreams) (st : QuicStreamState) :
    ∃ told, (streamSettle ss st).events = ss.events ++ told ∧
      ∀ event ∈ told, event = .closed st.id := by
  rcases streamSettle_cases ss st with ⟨-, settle_eq⟩ | ⟨-, -, settle_eq⟩
  · rw [settle_eq]
    exact ⟨[], (append_nil _).symm, nofun⟩
  · rw [settle_eq, streamForget_eq]
    exact ⟨[.closed st.id], rfl, by simp⟩

/-- Something is said about a receiving half only before its terminal state. -/
theorem StreamMove.tells (spares : ∀ id, ¬ guard.reset id .dataRead)
    (move : StreamMove env guard carrier before after) :
    ∃ told, after.events = before.events ++ told ∧ ∀ event ∈ told, before.MayTell event := by
  have silent : ∀ {ss : QuicStreams}, ss.events = before.events →
      ∃ told, ss.events = before.events ++ told ∧ ∀ event ∈ told, before.MayTell event :=
    fun same => ⟨[], by rw [same, append_nil], nofun⟩
  have closed : ∀ id, before.MayTell (.closed id) := fun id =>
    mayTell_of_silent (by simp [QuicStreamEvent.Reads])
  have ends : ∀ {st : QuicStreamState} (state : QuicRecvState),
      before.byId.find st.id = some st → ¬ st.recvState.Terminal →
      ∃ told, (streamEnd before st state).events = before.events ++ told ∧
        ∀ event ∈ told, before.MayTell event := by
    intro st state found unended
    obtain ⟨told, events_eq, only_closed⟩ :=
      events_streamSettle before { st with recvState := state }
    refine ⟨told ++ [.fin st.id], ?_, ?_⟩
    · rw [← append_assoc, ← events_eq]
      rfl
    · exact forall_mem_append.2 ⟨fun event early => only_closed event early ▸ closed _,
        forall_mem_singleton.2 (mayTell_of_found found unended
          (by simp [QuicStreamEvent.Reads, eq_comm]))⟩
  cases move with
  | params | configure | ctl | connLimit | dropped | rotated | limit | sized | counted
  | placed | advanced | take | opened => exact silent rfl
  | fail =>
    unfold streamsFail
    split_ifs <;> exact silent rfl
  | credit =>
    unfold connWindowUpdate
    dsimp only
    split_ifs <;> exact silent rfl
  | countLimit =>
    unfold handleMaxStreams
    split_ifs <;> exact silent rfl
  | abandon | write | complain | finish | stop | window =>
    rw [arm_eq]
    exact silent rfl
  | @admitted dir =>
    refine ⟨[.opened (remoteNextId before dir)], rfl, ?_⟩
    simpa using mayTell_of_silent (by simp [QuicStreamEvent.Reads])
  | @stopped st found error =>
    refine ⟨[.stopped st.id error], rfl, ?_⟩
    simpa using mayTell_of_silent (by simp [QuicStreamEvent.Reads])
  | @notified st found stores =>
    refine ⟨[.readable st.id], rfl, ?_⟩
    simpa using mayTell_of_found found (not_terminal_of_stores stores)
      (by simp [QuicStreamEvent.Reads, eq_comm])
  | @peerReset st found receives known final first unread error permitted =>
    have unended : ¬ st.recvState.Terminal := by
      rintro (read | read)
      · exact spares st.id (read ▸ permitted)
      · exact unread read
    obtain ⟨recvRead, return_eq⟩ := recvReturn_eq before (recvAbandon st) st.recvFinal
    refine ⟨[.reset st.id error, .readable st.id], ?_, ?_⟩
    · simp [QuicStreams.tell, QuicStreams.store, return_eq]
    · simp only [mem_cons, not_mem_nil, or_false, forall_eq_or_imp, forall_eq]
      exact ⟨mayTell_of_found found unended (by simp [QuicStreamEvent.Reads, eq_comm]),
        mayTell_of_found found unended (by simp [QuicStreamEvent.Reads, eq_comm])⟩
  | ended found arrived =>
    exact ends .dataRead found (by simp [QuicRecvState.Terminal, arrived])
  | endedReset found abandoned =>
    exact ends .resetRead found (by simp [QuicRecvState.Terminal, abandoned])
  | @wait st found wait woken | @kept st after found visit wait woken =>
    refine ⟨_, events_wake before woken st.id, ?_⟩
    cases woken <;> simp [QuicStreams.MayTell, QuicStreamEvent.Reads]
  | @retired st after front back found listed visit wait woken =>
    obtain ⟨told, events_eq, only_closed⟩ := events_streamSettle
      { before.wake woken st.id with active := front ++ back }
      { after with toQuicSendWait := wait, active := false }
    refine ⟨(if woken then [.writable st.id] else []) ++ told, ?_, ?_⟩
    · rw [← append_assoc, ← events_wake]
      exact events_eq
    · refine forall_mem_append.2 ⟨?_, fun event last => only_closed event last ▸ closed _⟩
      cases woken <;> simp [QuicStreams.MayTell, QuicStreamEvent.Reads]

/-- From one state to a later one, what has ended stays ended, and nothing is said about it. -/
structure QuicStreams.KeepsEnds (before after : QuicStreams) : Prop where
  follows : before.Follows
    (fun st later => st.recvState.Terminal → later.recvState = st.recvState) after
  told : ∃ told, after.events = before.events ++ told ∧ ∀ event ∈ told, ∀ id, before.Knows id →
    (∀ st, before.byId.find id = some st → st.recvState.Terminal) → ¬ event.Reads id

theorem QuicStreams.KeepsEnds.refl (ss : QuicStreams) : ss.KeepsEnds ss :=
  ⟨.refl (fun _ _ => rfl) ss, [], (append_nil _).symm, nofun⟩

theorem QuicStreams.KeepsEnds.trans {first second third : QuicStreams}
    (earlier : first.KeepsEnds second) (later : second.KeepsEnds third) :
    first.KeepsEnds third := by
  obtain ⟨early_follows, early_told, early_events, early_silent⟩ := earlier
  obtain ⟨late_follows, late_told, late_events, late_silent⟩ := later
  refine ⟨early_follows.trans ?_ late_follows, early_told ++ late_told, ?_, ?_⟩
  · intro st middle last stays stays_later terminal
    have same := stays terminal
    exact (stays_later (same.symm ▸ terminal)).trans same
  · rw [late_events, early_events, append_assoc]
  · intro event event_mem id known ended
    rcases mem_append.1 event_mem with early | late
    · exact early_silent event early id known ended
    · refine late_silent event late id (early_follows.known id known) ?_
      intro middle middle_found
      obtain ⟨st, st_found, stays⟩ := early_follows.stream id middle known middle_found
      have terminal := ended st st_found
      exact (stays terminal).symm ▸ terminal

theorem StreamMove.keepsEnds (spares : ∀ id, ¬ guard.reset id .dataRead)
    (move : StreamMove env guard carrier before after) : before.KeepsEnds after := by
  obtain ⟨told, events_eq, may_tell⟩ := move.tells spares
  refine ⟨move.follows (fun _ _ => rfl) (fun st later _ change => change.terminal spares), told,
    events_eq, ?_⟩
  intro event event_mem id known ended reads
  obtain ⟨st, st_found, unended⟩ := may_tell event event_mem id reads
  exact unended (ended st st_found)

/-- The receiving half of a stream has ended: it is in its terminal state, or the stream was
forgotten. -/
def QuicStreams.RecvEnded (ss : QuicStreams) (id : Nat) : Prop :=
  (∃ st, ss.byId.find id = some st ∧ st.recvState.Terminal) ∨
    (ss.byId.find id = none ∧ ss.Knows id)

theorem QuicStreams.AllKnown.recvEnded_iff (all_known : ss.AllKnown) : ss.RecvEnded id ↔
      ss.Knows id ∧ ∀ st, ss.byId.find id = some st → st.recvState.Terminal := by
  constructor
  · rintro (⟨st, found, terminal⟩ | ⟨gone, known⟩)
    · refine ⟨all_known id st found, fun other other_found => ?_⟩
      rw [found] at other_found
      cases other_found
      exact terminal
    · exact ⟨known, fun st found => absurd (gone.symm.trans found) nofun⟩
  · rintro ⟨known, terminal⟩
    cases found : ss.byId.find id with
    | none => exact .inr ⟨found, known⟩
    | some st => exact .inl ⟨st, found, terminal st found⟩

theorem recvState_streamTake (ss : QuicStreams) (st : QuicStreamState) (count : Nat) :
    (streamTake ss st count).2.recvState = st.recvState ∧
      (streamTake ss st count).2.id = st.id := by
  unfold streamTake recvWindowUpdate streamArm
  dsimp only
  split_ifs <;> exact ⟨rfl, rfl⟩

/-- A read reports no end of a half that has ended. -/
theorem not_fin_of_recvEnded (ended : ss.RecvEnded id) (outsz : Nat) :
    (quicStreamRecv ss id outsz).2.1 = false := by
  unfold quicStreamRecv
  rcases ended with ⟨st, found, terminal⟩ | ⟨gone, -⟩
  · have state_eq := (recvState_streamTake ss st
      (if quicReasmReadable st.inn > outsz then outsz else quicReasmReadable st.inn)).1
    rw [quicStreamFind, found]
    dsimp only [streamRecv]
    rw [state_eq]
    rcases terminal with read | read
    · simp [read]
    · simp [read]
  · rw [quicStreamFind, gone]

theorem find_streamEnd (ss : QuicStreams) (st : QuicStreamState) {state : QuicRecvState}
    (terminal : state.Terminal) : ∀ later, (streamEnd ss st state).byId.find st.id = some later →
      later.recvState.Terminal := by
  intro later found
  rcases find_streamSettle found with ⟨-, rfl, -⟩ | ⟨other, -⟩
  · exact terminal
  · exact absurd rfl other

/-- A read that reports the end leaves the half ended. -/
theorem recvEnded_of_fin (all_known : ss.AllKnown) {outsz : Nat}
    (fin : (quicStreamRecv ss id outsz).2.1 = true) :
    (quicStreamRecv ss id outsz).2.2.RecvEnded id := by
  have moves : StreamMoves ⟨fun _ => true, fun _ => true⟩ .any none ss
      (quicStreamRecv ss id outsz).2.2 := quicStreamRecv_moves ss outsz fun _ => trivial
  refine (moves.allKnown all_known).recvEnded_iff.2 ?_
  cases found : ss.byId.find id with
  | none =>
    rw [quicStreamRecv, quicStreamFind, found] at fin
    cases fin
  | some st =>
    refine ⟨moves.knows (all_known id st found), ?_⟩
    have id_eq : st.id = id := Table.key_of_find found
    rw [quicStreamRecv, quicStreamFind, found] at fin ⊢
    dsimp only [streamRecv] at fin ⊢
    split at fin
    · next abandoned =>
        rw [if_pos abandoned, ← id_eq]
        exact find_streamEnd ss st (.inr rfl)
    · next not_reset =>
        rw [if_neg not_reset]
        generalize (if quicReasmReadable st.inn > outsz then outsz
          else quicReasmReadable st.inn) = count at fin ⊢
        split at fin
        · next drained =>
            rw [if_pos drained, ← id_eq, ← (recvState_streamTake ss st count).2]
            exact find_streamEnd _ _ (.inl rfl)
        · cases fin

/-- A RESET_STREAM frame for a half whose end the application has read. -/
def lateReset (ss : QuicStreams) : StreamOp → Bool
  | .frame (.resetStream id _ finalSize) =>
    (ss.byId.find id).any fun st => st.recvState = .dataRead && st.recvFinal = finalSize
  | _ => false

def StreamGuard.sparesRead : StreamGuard :=
  { StreamGuard.any with reset := fun _ state => state ≠ .dataRead }

theorem permits_sparesRead {op : StreamOp} (sound : ss.Sound) (in_time : lateReset ss op = false) :
    StreamGuard.sparesRead.Permits ss op := by
  cases op with
  | frame f =>
    cases f with
    | resetStream id error finalSize =>
      refine ⟨trivial, fun after st admitted => ⟨fun _ _ => trivial, fun agrees read => ?_⟩⟩
      rcases admitted.origin with rfl | ⟨-, rfl⟩
      · have known := (sound id st admitted.found).2.known (by simp [read]) (by simp [read])
        have size_eq : st.recvFinal = finalSize := by
          rcases agrees with unknown | same
          · rw [known] at unknown
            cases unknown
          · exact same
        simp [lateReset, admitted.found, read, size_eq] at in_time
      · simp only [streamInit] at read
        split_ifs at read
    | stream => exact ⟨fun _ => trivial, fun _ _ _ _ _ => trivial⟩
    | _ => trivial
  | recv => exact fun _ => trivial
  | _ => trivial

end

section

variable (env : StreamEnv) (server : Bool) (tp : QuicTransportParams)

theorem QuicStreams.allKnown_init : (quicStreamsInit server tp).AllKnown := by
  rintro id st ⟨⟩

theorem QuicStreams.allKnown_run (ops : List StreamOp) :
    (run (streamStep env) (quicStreamsInit server tp) ops).AllKnown :=
  streamRun_invariant QuicStreams.AllKnown (fun _ _ _ all_known move => move.allKnown all_known)
    (QuicStreams.allKnown_init server tp) ops

theorem keepsEnds_run {start : QuicStreams} (sound : start.Sound) {ops : List StreamOp}
    (in_time : Admits (streamStep env) (fun ss op => lateReset ss op = false) start ops) :
    start.KeepsEnds (run (streamStep env) start ops) := by
  refine (streamRun_invariant_of_permits (fun ss => ss.Sound ∧ start.KeepsEnds ss)
    (fun ss op good late => permits_sparesRead good.1 late) (fun _ _ _ => trivial) ?_
    ⟨sound, .refl start⟩ in_time).2
  rintro carrier before after ⟨sound, keeps⟩ move
  have spares : ∀ id, ¬ StreamGuard.sparesRead.reset id .dataRead := fun _ spared => spared rfl
  exact ⟨move.sound sound, keeps.trans (move.keepsEnds spares)⟩

/-- Once the receiving half of a stream is in its terminal state it stays there while the stream
exists.  A read that reports the end leads to that state or to the stream being forgotten, and from
then on no read reports the end and nothing is said about reading from the stream. -/
theorem recv_half_ends_once (front back : List StreamOp)
    (in_time : Admits (streamStep env) (fun ss op => lateReset ss op = false)
      (quicStreamsInit server tp) (front ++ back)) (id : Nat) :
    let middle := run (streamStep env) (quicStreamsInit server tp) front
    let last := run (streamStep env) (quicStreamsInit server tp) (front ++ back)
    (∀ st later, middle.byId.find id = some st → st.recvState.Terminal →
      last.byId.find id = some later → later.recvState = st.recvState) ∧
    (middle.RecvEnded id → (∀ outsz, (quicStreamRecv last id outsz).2.1 = false) ∧
      ∃ told, last.events = middle.events ++ told ∧ ∀ event ∈ told, ¬ event.Reads id) ∧
    ∀ outsz, (quicStreamRecv middle id outsz).2.1 = true →
      (quicStreamRecv middle id outsz).2.2.RecvEnded id := by
  intro middle last
  have all_known : middle.AllKnown := QuicStreams.allKnown_run env server tp front
  have all_known_last : last.AllKnown := QuicStreams.allKnown_run env server tp (front ++ back)
  have keeps : middle.KeepsEnds last := by
    have later := keepsEnds_run env (QuicStreams.sound_run env server tp front)
      (admits_append.1 in_time).2
    rw [← run_append] at later
    exact later
  obtain ⟨follows, told, events_eq, silent⟩ := keeps
  refine ⟨?_, ?_, fun outsz fin => recvEnded_of_fin all_known fin⟩
  · intro st later found terminal later_found
    obtain ⟨same, same_found, stays⟩ :=
      follows.stream id later (all_known id st found) later_found
    rw [found] at same_found
    cases same_found
    exact stays terminal
  · intro ended
    obtain ⟨known, terminal⟩ := all_known.recvEnded_iff.1 ended
    have ended_last : last.RecvEnded id := by
      refine all_known_last.recvEnded_iff.2 ⟨follows.known id known, ?_⟩
      intro later later_found
      obtain ⟨st, st_found, stays⟩ := follows.stream id later known later_found
      have st_terminal := terminal st st_found
      exact (stays st_terminal).symm ▸ st_terminal
    exact ⟨fun outsz => not_fin_of_recvEnded ended_last outsz, told, events_eq,
      fun event event_mem => silent event event_mem id known terminal⟩

end

/-- The transport parameters of the runs below: a few streams and a few bytes. -/
def smallParams : QuicTransportParams := ⟨10, 10, 10, 10, 2, 2⟩

def willingEnv : StreamEnv := ⟨fun _ => true, fun _ => true⟩

/-- One byte and the end arrive and are read; a repeated STREAM frame changes nothing. -/
theorem recv_half_ends_once_repeated :
    let front : List StreamOp := [.frame (.stream true true false 0 0 [1]), .recv 0 10]
    let back : List StreamOp := [.frame (.stream true true false 0 0 [1])]
    (quicStreamRecv (run (streamStep willingEnv) (quicStreamsInit true smallParams) (front ++ back))
      0 10).2.1 = false := by
  intro front back
  have ended : (run (streamStep willingEnv) (quicStreamsInit true smallParams) front).RecvEnded
    0 := by
    refine .inl ?_
    exact ⟨_, rfl, .inl (by decide)⟩
  exact ((recv_half_ends_once willingEnv true smallParams front back (by decide) 0).2.1 ended).1 10

/-- A RESET_STREAM that agrees on the final size reopens a half that was read to its end: the layer
above hears of a reset, and the next read reports the end a second time. -/
theorem reset_reopens_read_half :
    let middle := run (streamStep willingEnv) (quicStreamsInit true smallParams)
      [.frame (.stream true true false 0 0 [1]), .recv 0 10]
    let last := streamStep willingEnv middle (.frame (.resetStream 0 7 1))
    ((middle.byId.find 0).map (·.recvState) = some .dataRead ∧
      middle.events = [.opened 0, .readable 0, .fin 0]) ∧
    ((last.byId.find 0).map (·.recvState) = some .reset ∧
      last.events = middle.events ++ [.reset 0 7, .readable 0]) ∧
    (quicStreamRecv last 0 10).2.1 = true := by
  decide

/-! ### What a run does not take back -/

section

variable {env : StreamEnv} {guard : StreamGuard} {carrier : Option Nat} {before after : QuicStreams}
  {st later : QuicStreamState}

theorem error_streamSettle (ss : QuicStreams) (st : QuicStreamState) :
    (streamSettle ss st).error = ss.error ∧ (streamSettle ss st).errorFrame = ss.errorFrame := by
  rcases streamSettle_cases ss st with ⟨-, settle_eq⟩ | ⟨-, -, settle_eq⟩ <;>
    simp [settle_eq, streamForget_eq, QuicStreams.store]

/-- Only the first violation is written down. -/
def QuicStreams.KeepsError (ss later : QuicStreams) : Prop :=
  ss.error ≠ 0 → later.error = ss.error ∧ later.errorFrame = ss.errorFrame

theorem StreamMove.keepsError (move : StreamMove env guard carrier before after) :
    before.KeepsError after := by
  intro failed
  cases move with
  | fail => simp [streamsFail, failed]
  | credit =>
    rcases connWindowUpdate_cases before with same | ⟨-, moved⟩
    · simp [same]
    · simp [moved]
  | countLimit =>
    unfold handleMaxStreams
    split_ifs <;> exact ⟨rfl, rfl⟩
  | peerReset =>
    obtain ⟨recvRead, return_eq⟩ := recvReturn_eq before (recvAbandon _) _
    rw [return_eq]
    exact ⟨rfl, rfl⟩
  | abandon | write | complain | finish | stop | window =>
    rw [arm_eq]
    exact ⟨rfl, rfl⟩
  | ended | endedReset => exact error_streamSettle before _
  | wait found wait woken | kept found visit wait woken => cases woken <;> exact ⟨rfl, rfl⟩
  | @retired _ _ _ _ _ _ _ _ woken => cases woken <;> exact error_streamSettle _ _
  | _ => exact ⟨rfl, rfl⟩

/-- A final size that is known does not change. -/
def QuicStreamState.KeepsFinal (st later : QuicStreamState) : Prop :=
  st.recvFinalKnown = true → later.recvFinalKnown = true ∧ later.recvFinal = st.recvFinal

theorem StreamChange.keepsFinal (change : StreamChange env guard carrier before st later) :
    st.KeepsFinal later := by
  intro known
  cases change with
  | sized unknown => simp [unknown] at known
  | advanced =>
    simp only [recvAdvance]
    split_ifs <;> exact ⟨known, rfl⟩
  | kept visit | retired visit =>
    have half := visit.frame.1
    exact ⟨(congrArg QuicRecvHalf.recvFinalKnown half).trans known,
      congrArg QuicRecvHalf.recvFinal half⟩
  | _ => exact ⟨known, rfl⟩

/-- What a run does not take back: a stream that was opened and is gone does not return, the final
size of a stream does not change, and the first error is the one that is kept. -/
theorem stream_history_kept (env : StreamEnv) (server : Bool) (tp : QuicTransportParams)
    (front back : List StreamOp) :
    let middle := run (streamStep env) (quicStreamsInit server tp) front
    let last := run (streamStep env) (quicStreamsInit server tp) (front ++ back)
    middle.Follows QuicStreamState.KeepsFinal last ∧ middle.KeepsError last := by
  intro middle last
  rw [show last = run (streamStep env) middle back from run_append ..]
  refine streamRun_invariant
    (fun ss => middle.Follows QuicStreamState.KeepsFinal ss ∧ middle.KeepsError ss) ?_
    ⟨.refl (fun _ known => ⟨known, rfl⟩) middle, fun _ => ⟨rfl, rfl⟩⟩ back
  rintro carrier before after ⟨follows, first⟩ move
  refine ⟨follows.trans ?_ (move.follows (fun _ known => ⟨known, rfl⟩)
    fun _ _ _ change => change.keepsFinal), fun failed => ?_⟩
  · intro old st later old_st st_later known
    obtain ⟨st_known, st_eq⟩ := old_st known
    exact ⟨(st_later st_known).1, (st_later st_known).2.trans st_eq⟩
  · obtain ⟨error_eq, frame_eq⟩ := first failed
    rw [← error_eq, ← frame_eq]
    exact move.keepsError (error_eq ▸ failed)

end

end Cx.Quic
