import Cx.Quic.StreamCredit
import Cx.Quic.StreamSent

/-!
# What a receiver keeps of what it was sent

As long as a frame is not dropped because the list of ranges is full, every byte of a frame that was
accepted is held in the reassembly buffer or was read, and stays so.  The peer is held to what a
sender does that does not give its stream up: it sends no RESET_STREAM, and nothing it sends reaches
past a final size it named.
-/

namespace Cx.Quic

open Library Relation Function

/-- A byte of a stream is recorded, or the application, which read `taken` bytes, has read it. -/
def QuicStreams.Has (ss : QuicStreams) (taken : Nat → Nat) (id position : Nat) : Prop :=
  position < taken id ∨ ∃ st, ss.byId.find id = some st ∧ Span.Covers st.inn.ranges position

/-- A frame that ends the stream at `size` was sent. -/
def FinSent (sent : Nat → QuicFrame → Prop) (id size : Nat) : Prop :=
  ∃ pn hasLen hasOff off data, sent pn (.stream true hasLen hasOff id off data) ∧
    off + data.length = size

/-- What was sent for a stream does not give it up and stays within the final size. -/
structure Regular (sent : Nat → QuicFrame → Prop) (id : Nat) : Prop where
  unreset : ∀ pn error size, ¬ sent pn (.resetStream id error size)
  within : ∀ size, FinSent sent id size → ∀ pn fin hasLen hasOff off data,
    sent pn (.stream fin hasLen hasOff id off data) → off + data.length ≤ size

/-- What the receiving half of a stream knows of what was sent. -/
structure QuicStreamState.RecvLogged (sent : Nat → QuicFrame → Prop) (taken : Nat)
    (st : QuicStreamState) : Prop where
  unreset : st.recvState ≠ .reset ∧ st.recvState ≠ .resetRead
  read : st.recvRead = taken
  final : st.recvFinalKnown = true → FinSent sent st.id st.recvFinal

structure QuicStreams.RecvLogged (sent : Nat → QuicFrame → Prop) (taken : Nat → Nat)
    (ss : QuicStreams) (id : Nat) : Prop where
  unknown : ¬ ss.Knows id → taken id = 0
  live : ∀ st, ss.byId.find id = some st → st.RecvLogged sent (taken id)
  gone : ss.Knows id → ss.byId.find id = none → FinSent sent id (taken id)

/-- A frame with new bytes that are dropped, because they touch nothing recorded and the list of
ranges is full. -/
def dropsFrame (ss : QuicStreams) : QuicFrame → Bool
  | .stream _ _ _ id off data =>
    let st := frameStream ss id
    let low := Nat.max off st.inn.base
    !(st.recvState = .reset ∨ st.recvState = .resetRead ∨ st.recvState = .dataRead) &&
      decide (low < off + data.length) && decide (QuicReasm.Drops st.inn low (off + data.length))
  | _ => false

section

variable {env : StreamEnv} {guard : StreamGuard} {carrier : Option Nat} {server : Bool}
  {before after ss : QuicStreams} {id position : Nat} {st later : QuicStreamState}
  {sent more : Nat → QuicFrame → Prop} {taken : Nat → Nat}

theorem FinSent.mono (grown : ∀ pn f, sent pn f → more pn f) {size : Nat}
    (ended : FinSent sent id size) : FinSent more id size := by
  obtain ⟨pn, hasLen, hasOff, off, data, named, size_eq⟩ := ended
  exact ⟨pn, hasLen, hasOff, off, data, grown pn _ named, size_eq⟩

theorem Regular.of_grown (regular : Regular more id) (grown : ∀ pn f, sent pn f → more pn f) :
    Regular sent id :=
  ⟨fun pn error size named => regular.unreset pn error size (grown pn _ named),
    fun size ended pn fin hasLen hasOff off data named =>
      regular.within size (ended.mono grown) pn fin hasLen hasOff off data (grown pn _ named)⟩

theorem QuicStreams.RecvLogged.grow (logged : ss.RecvLogged sent taken id)
    (grown : ∀ pn f, sent pn f → more pn f) : ss.RecvLogged more taken id := by
  refine ⟨logged.unknown, fun st found => ?_, fun known gone => (logged.gone known gone).mono grown⟩
  obtain ⟨unreset, read, final⟩ := logged.live st found
  exact ⟨unreset, read, fun known => (final known).mono grown⟩

/-- Only a stream whose receiving half is at its end, or reaches it with the move, is forgotten. -/
theorem StreamMove.forgets (move : StreamMove env guard carrier before after)
    (found : before.byId.find id = some st) (gone : after.byId.find id = none) :
    recvHalfDone st = true ∨ st.recvState = .reset ∨
      (st.recvState = .dataRecvd ∧ quicReasmReadable st.inn = 0) := by
  cases move.table with
  | same byId_eq =>
    rw [byId_eq, found] at gone
    cases gone
  | changed _ _ _ byId_eq | opened _ _ byId_eq =>
    rw [byId_eq, Table.find_put] at gone
    split_ifs at gone
    rw [found] at gone
    cases gone
  | forgot other_found ended byId_eq =>
    rw [byId_eq, Table.find_erase] at gone
    split_ifs at gone with here
    · rw [here] at found
      cases other_found.symm.trans found
      exact ended
    · rw [found] at gone
      cases gone

/-- Streams that are sent regularly are not given up and end where they should, and nothing is
read. -/
def StreamGuard.regular (sent : Nat → QuicFrame → Prop) : StreamGuard :=
  { StreamGuard.any with
    reset := fun id _ => ¬ Regular sent id
    size := fun id size => Regular sent id → FinSent sent id size
    take := fun _ _ => False }

variable {count frameType off : Nat} {fin : Bool} {data : List UInt8}

/-- A change keeps what is known of a stream that is sent regularly, and what is recorded. -/
theorem StreamChange.recvLogged (change : StreamChange env (.regular sent) carrier before st later)
    (regular : Regular sent st.id) (sound : st.RecvSound server)
    (logged : st.RecvLogged sent count) :
    later.RecvLogged sent count ∧
      ∀ position, Span.Covers st.inn.ranges position → Span.Covers later.inn.ranges position := by
  have same : ∀ {other : QuicStreamState}, other.toQuicRecvHalf = st.toQuicRecvHalf →
      other.id = st.id → other.RecvLogged sent count ∧ ∀ position,
        Span.Covers st.inn.ranges position → Span.Covers other.inn.ranges position := by
    intro other half_eq id_eq
    obtain ⟨unreset, read, final⟩ := logged
    refine ⟨?_, by rw [half_eq]; exact fun _ covered => covered⟩
    constructor <;> (try rw [half_eq]) <;> (try rw [id_eq]) <;> assumption
  cases change with
  | wait | limit | stopped | abandon | write | complain | finish | stop => exact same rfl rfl
  | kept visit | retired visit => exact same visit.frame.1 visit.id_eq
  | sized unknown above permitted =>
    exact ⟨⟨logged.unreset, logged.read, fun _ => permitted regular⟩, fun _ covered => covered⟩
  | counted | window =>
    exact ⟨{ logged with }, fun _ covered => covered⟩
  | placed stores within added =>
    obtain ⟨-, -, -, kept, -⟩ := QuicReasm.add_bounds sound.buffer added
    exact ⟨{ logged with }, kept⟩
  | advanced =>
    rcases recvAdvance_cases st with same_eq | ⟨-, -, named⟩ | ⟨-, -, whole⟩
    · rw [same_eq]
      exact ⟨logged, fun _ covered => covered⟩
    · rw [named]
      exact ⟨⟨⟨nofun, nofun⟩, logged.read, logged.final⟩, fun _ covered => covered⟩
    · rw [whole]
      exact ⟨⟨⟨nofun, nofun⟩, logged.read, logged.final⟩, fun _ covered => covered⟩
  | peerReset receives known final first unread permitted => exact absurd regular permitted
  | take not_reset some_bytes readable permitted => exact permitted.elim
  | ended => exact ⟨⟨⟨nofun, nofun⟩, logged.read, logged.final⟩, fun _ covered => covered⟩
  | endedReset abandoned => exact absurd abandoned logged.unreset.1

/-- A stream that is forgotten was read to its end, and nothing of it is left. -/
theorem StreamMove.forgets_read (move : StreamMove env guard carrier before after)
    (found : before.byId.find id = some st) (gone : after.byId.find id = none)
    (receives : canRecv before id = true) (sound : st.RecvSound before.server)
    (logged : st.RecvLogged sent count) :
    FinSent sent id count ∧
      ∀ position, Span.Covers st.inn.ranges position → position < count := by
  have id_eq : st.id = id := Table.key_of_find found
  have present : st.recvState ≠ .none := by
    intro none
    have absent := sound.absent.1 none
    rw [id_eq] at absent
    rw [canRecv, absent] at receives
    cases receives
  have read_all : st.recvFinalKnown = true ∧ st.recvRead = st.recvFinal := by
    rcases move.forgets found gone with done | abandoned | ⟨arrived, drained⟩
    · have ended : st.recvState = .dataRead := by
        simp only [recvHalfDone, Bool.or_eq_true, decide_eq_true_eq] at done
        rcases done with (read | reset) | none
        · exact read
        · exact absurd reset logged.unreset.2
        · exact absurd none present
      exact ⟨sound.known (by simp [ended]) present,
        (sound.ended (by simp [QuicRecvState.Stores, ended])).1⟩
    · exact absurd abandoned logged.unreset.1
    · have all_here := sound.arrived arrived
      have base_eq := sound.base logged.unreset.1 logged.unreset.2
      exact ⟨sound.known (by simp [arrived]) present, by omega⟩
  obtain ⟨known, read_eq⟩ := read_all
  have size_eq : st.recvFinal = count := read_eq.symm.trans logged.read
  refine ⟨?_, fun position covered => ?_⟩
  · have ended := logged.final known
    rwa [id_eq, size_eq] at ended
  · exact (sound.recorded position covered).trans_le ((sound.final known).trans_eq size_eq)

/-- A stream that a move opens exists after it. -/
theorem StreamMove.finds_opened (move : StreamMove env guard carrier before after)
    (unopened : ¬ before.Knows id) (known : after.Knows id) : after.byId.find id ≠ none := by
  have stored : ∀ st : QuicStreamState, id = st.id → (before.byId.put st).find id ≠ none := by
    intro st key
    rw [Table.find_put, if_pos key]
    exact Option.some_ne_none st
  rcases move.opens with same | ⟨dir, rfl⟩ | ⟨dir, rfl⟩
  · exact absurd ((knows_congr same id).1 known) unopened
  · exact stored (streamInit before (remoteNextId before dir))
      (((knows_streamAdmitNext before dir id).1 known).resolve_left unopened)
  · exact stored (streamInit before _)
      (((knows_streamOpenNext before dir id).1 known).resolve_left unopened)

theorem recvLogged_init (ss : QuicStreams) (id : Nat) : (streamInit ss id).RecvLogged sent 0 := by
  refine ⟨?_, rfl, nofun⟩
  simp only [streamInit]
  split_ifs <;> simp

/-- A move keeps what is known of a stream that is sent regularly, and every byte of it. -/
theorem StreamMove.recvLogged (move : StreamMove env (.regular sent) carrier before after)
    (sound : before.Sound) (all_known : before.AllKnown) (receives : canRecv before id = true)
    (regular : Regular sent id) (logged : before.RecvLogged sent taken id) :
    after.RecvLogged sent taken id ∧
      ∀ position, before.Has taken id position → after.Has taken id position := by
  refine ⟨⟨fun unopened => logged.unknown (unopened ∘ move.knows), ?_, ?_⟩, ?_⟩
  · intro later found
    rcases move.change found with same | ⟨st, st_found, change⟩ | ⟨dir, rfl, fresh⟩
    · exact logged.live later same
    · have id_eq : st.id = id := Table.key_of_find st_found
      exact (change.recvLogged (id_eq.symm ▸ regular) (sound id st st_found).2
        (logged.live st st_found)).1
    · have unopened : ¬ before.Knows id := by
        rcases fresh with ⟨rfl, -⟩ | ⟨rfl, -⟩
        · exact not_knows_remoteNextId before dir
        · exact not_knows_localNextId before dir
      rw [logged.unknown unopened]
      exact recvLogged_init before id
  · intro known gone
    cases found : before.byId.find id with
    | some st =>
      exact (move.forgets_read found gone receives (sound id st found).2 (logged.live st found)).1
    | none =>
      refine logged.gone ?_ found
      by_contra unopened
      exact move.finds_opened unopened known gone
  · rintro position (read | ⟨st, found, covered⟩)
    · exact .inl read
    · cases later_found : after.byId.find id with
      | none =>
        exact .inl ((move.forgets_read found later_found receives (sound id st found).2
          (logged.live st found)).2 position covered)
      | some later =>
        refine .inr ⟨later, later_found, ?_⟩
        obtain ⟨old, old_found, origin⟩ :=
          move.origin_of_known (all_known id st found) later_found
        cases found.symm.trans old_found
        rcases origin with rfl | change
        · exact covered
        · have id_eq : st.id = id := Table.key_of_find found
          exact (change.recvLogged (id_eq.symm ▸ regular) (sound id st found).2
            (logged.live st found)).2 position covered

theorem canRecv_congr (server_eq : after.server = before.server) (id : Nat) :
    canRecv after id = canRecv before id := by
  rw [canRecv, canRecv, server_eq]

theorem StreamMoves.recvLogged (moves : StreamMoves env (.regular sent) carrier before after)
    (sound : before.Sound) (all_known : before.AllKnown) (receives : canRecv before id = true)
    (regular : Regular sent id) (logged : before.RecvLogged sent taken id) :
    after.RecvLogged sent taken id ∧
      ∀ position, before.Has taken id position → after.Has taken id position := by
  refine (moves.invariant (fun ss => ss.Sound ∧ ss.AllKnown ∧ canRecv ss id = true ∧
      ss.RecvLogged sent taken id ∧
      ∀ position, before.Has taken id position → ss.Has taken id position) ?_
    ⟨sound, all_known, receives, logged, fun _ has => has⟩).2.2.2
  rintro first last ⟨sound, all_known, receives, logged, kept⟩ move
  obtain ⟨logged_last, kept_last⟩ := move.recvLogged sound all_known receives regular logged
  exact ⟨move.sound sound, move.allKnown all_known,
    (canRecv_congr move.server_eq id).trans receives, logged_last,
    fun position has => kept_last position (kept position has)⟩

/-- A frame that was sent is one the guard permits. -/
theorem permitsFrame_regular {f : QuicFrame} {pn : Nat} (named : sent pn f) :
    (StreamGuard.regular sent).PermitsFrame ss f := by
  cases f with
  | stream fin hasLen hasOff id off data =>
    refine ⟨fun with_fin _ => ?_, fun _ _ _ _ _ => trivial⟩
    rw [with_fin] at named
    exact ⟨pn, hasLen, hasOff, off, data, named, rfl⟩
  | resetStream id error size =>
    exact ⟨fun regular => absurd named (regular.unreset pn error size), fun _ _ _ =>
      ⟨fun _ _ => trivial, fun _ regular => regular.unreset pn error size named⟩⟩
  | _ => trivial

/-- Bytes that are accepted are put where they belong, once the final size and the limits allow
them. -/
theorem streamData_accepted (accepted : (streamData env ss st frameType fin off data).1 = true) :
    (st.recvFinalKnown = true → off + data.length ≤ st.recvFinal) ∧
      ∃ middle counted, streamData env ss st frameType fin off data =
          streamDataStore env middle counted frameType off data ∧
        counted.id = st.id ∧ counted.inn = st.inn ∧ counted.recvState = st.recvState := by
  unfold streamData at accepted ⊢
  dsimp only at accepted ⊢
  split at accepted
  · cases accepted
  · next inside =>
      rw [if_neg inside]
      split at accepted
      · cases accepted
      · next sized sized_is =>
          have sized_eq : sized.id = st.id ∧ sized.inn = st.inn ∧
              sized.recvState = st.recvState := by
            split_ifs at sized_is
            · rcases recvFinalSize_ok sized_is with ⟨-, -, rfl⟩ | ⟨-, -, rfl⟩
              · exact ⟨rfl, rfl, rfl⟩
              · exact ⟨rfl, rfl, rfl⟩
            · cases sized_is
              exact ⟨rfl, rfl, rfl⟩
          split at accepted
          · cases accepted
          · next middle counted counted_is =>
              refine ⟨fun known => ?_, middle, counted, ?_, ?_⟩
              · by_contra long
                exact inside ⟨known, .inl (by omega)⟩
              · simp only [sized_is, counted_is]
              · rcases recvAccount_ok counted_is with ⟨-, -, rfl⟩ | ⟨-, -, -, -, rfl⟩
                · exact sized_eq
                · exact sized_eq

/-- Bytes that are stored, and not dropped, are recorded or were taken before. -/
theorem streamDataStore_has (buffer : st.inn.Sound) (stores : st.recvState.Stores)
    (short : data.length < 2 ^ 64)
    (kept : Nat.max off st.inn.base < off + data.length →
      ¬ QuicReasm.Drops st.inn (Nat.max off st.inn.base) (off + data.length))
    (accepted : (streamDataStore env ss st frameType off data).1 = true) (low : off ≤ position)
    (high : position < off + data.length) :
    position < st.inn.base ∨
      ∃ later, (streamDataStore env ss st frameType off data).2.byId.find st.id = some later ∧
        Span.Covers later.inn.ranges position := by
  unfold streamDataStore at accepted ⊢
  rw [if_neg stores] at accepted ⊢
  have some_data : data.length > 0 := by omega
  simp only [some_data, if_true] at accepted ⊢
  split at accepted
  · cases accepted
  · next inn added =>
      obtain ⟨-, -, -, covers, -⟩ := QuicReasm.add_spec buffer short added
      by_cases taken : position < st.inn.base
      · exact .inl taken
      · refine .inr ⟨recvAdvance { st with inn := inn }, ?_, ?_⟩
        · have found : (ss.store (recvAdvance { st with inn := inn })).byId.find st.id =
              some (recvAdvance { st with inn := inn }) := by
            rw [find_store, if_pos (id_recvAdvance { st with inn := inn }).symm]
          split_ifs <;> exact found
        · have inn_eq : (recvAdvance { st with inn := inn }).inn = inn := by
            rcases recvAdvance_cases { st with inn := inn } with same | ⟨-, -, same⟩ | ⟨-, -, same⟩
            all_goals rw [same]
          have reach : Nat.max off st.inn.base ≤ position := Nat.max_le.2 ⟨low, by omega⟩
          rw [inn_eq, covers]
          exact .inl ⟨by omega, kept (reach.trans_lt high), reach, high⟩

/-- The bytes of a STREAM frame for a stream that exists are held once the frame is accepted. -/
theorem streamData_has (sound : st.RecvSound server) (logged : st.RecvLogged sent (taken st.id))
    (short : data.length < 2 ^ 64)
    (kept : st.recvState.Stores → Nat.max off st.inn.base < off + data.length →
      ¬ QuicReasm.Drops st.inn (Nat.max off st.inn.base) (off + data.length))
    (accepted : (streamData env ss st frameType fin off data).1 = true) (low : off ≤ position)
    (high : position < off + data.length) :
    (streamData env ss st frameType fin off data).2.Has taken st.id position := by
  obtain ⟨within, middle, counted, result, id_eq, inn_eq, state_eq⟩ := streamData_accepted accepted
  rw [result] at accepted ⊢
  by_cases stores : st.recvState.Stores
  · rw [← inn_eq] at kept
    rcases streamDataStore_has (inn_eq.symm ▸ sound.buffer) (state_eq.symm ▸ stores) short
        (kept stores) accepted low high with taken_before | ⟨later, found, covered⟩
    · have base_eq := sound.base logged.unreset.1 logged.unreset.2
      rw [inn_eq, base_eq, logged.read] at taken_before
      exact .inl taken_before
    · exact .inr ⟨later, id_eq ▸ found, covered⟩
  · have ended : st.recvState = .dataRead := by
      unfold QuicRecvState.Stores at stores
      have unreset := logged.unreset
      tauto
    have known := sound.known (by simp [ended]) (by simp [ended])
    have read_eq := (sound.ended stores).1
    rw [logged.read] at read_eq
    exact .inl ((high.trans_le (within known)).trans_eq read_eq.symm)

/-- The bytes of a STREAM frame that was sent regularly are held once the frame is accepted, unless
it is dropped. -/
theorem quicStreamsFrame_has {pn : Nat} {hasLen hasOff : Bool} (sound : ss.Sound)
    (all_known : ss.AllKnown) (regular : Regular sent id) (logged : ss.RecvLogged sent taken id)
    (named : sent pn (.stream fin hasLen hasOff id off data)) (short : data.length < 2 ^ 64)
    (kept : dropsFrame ss (.stream fin hasLen hasOff id off data) = false)
    (accepted : (quicStreamsFrame env ss (.stream fin hasLen hasOff id off data)).1 = true)
    (low : off ≤ position) (high : position < off + data.length) :
    (quicStreamsFrame env ss (.stream fin hasLen hasOff id off data)).2.Has taken id position := by
  have good : ∀ middle, StreamMoves env (.regular sent) none ss middle →
      middle.Sound := fun middle moves => moves.sound sound
  change (withStream env ss (canRecv ss id) id _ _).1 = true at accepted
  change (withStream env ss (canRecv ss id) id _ _).2.Has taken id position
  have decomposed : ∃ middle, StreamMoves env (.regular sent) none ss middle ∧ _ :=
    withStream_cases ss (canRecv ss id) id (QuicFrame.type (.stream fin hasLen hasOff id off data))
      (fun ss st => streamData env ss st
        (QuicFrame.type (.stream fin hasLen hasOff id off data)) fin off data)
  obtain ⟨middle, moves, ⟨same, ignored⟩ | ⟨receives, st, admitted, result⟩⟩ := decomposed
  · obtain ⟨receives, gone, known⟩ := ignored accepted
    obtain ⟨logged, -⟩ := moves.recvLogged sound all_known receives regular logged
    refine .inl (high.trans_le ?_)
    exact regular.within _ (logged.gone known gone) pn fin hasLen hasOff off data named
  · obtain ⟨logged, -⟩ := moves.recvLogged sound all_known receives regular logged
    rw [result] at accepted ⊢
    have id_eq := admitted.id_eq
    subst id_eq
    refine streamData_has (good middle moves st.id st admitted.found).2
      (logged.live st admitted.found) short ?_ accepted low high
    intro stores new_bytes drops
    simp only [dropsFrame, admitted.frameStream_eq] at kept
    simp [new_bytes, drops] at kept
    exact stores (by tauto)

theorem find_afterTake (ss : QuicStreams) (st : QuicStreamState) (count id : Nat) :
    (ss.afterTake st count).byId.find id = if id = st.id then
      some { st with inn := quicReasmConsume st.inn count, recvRead := st.recvRead + count }
    else ss.byId.find id := by
  unfold QuicStreams.afterTake
  split_ifs with some_bytes here here
  · exact (find_store _ _ id).trans (if_pos here)
  · exact (find_store _ _ id).trans (if_neg here)
  · have none_taken : count = 0 := by omega
    subst none_taken
    have same : quicReasmConsume st.inn 0 = st.inn := by simp [quicReasmConsume]
    rw [find_store, if_pos here, same]
    rfl
  · rw [find_store, if_neg here]

/-- The counts of what was read once `count` more bytes of a stream were. -/
def takeMore (taken : Nat → Nat) (id count : Nat) : Nat → Nat :=
  update taken id (taken id + count)

@[simp] theorem takeMore_zero (taken : Nat → Nat) (id : Nat) : takeMore taken id 0 = taken := by
  simp [takeMore]

/-- Bytes the application takes are no longer recorded, and have been read. -/
theorem QuicStreams.RecvLogged.afterTake (logged : ss.RecvLogged sent taken id) (sound : ss.Sound)
    (all_known : ss.AllKnown) (found : ss.byId.find st.id = some st)
    (readable : count ≤ quicReasmReadable st.inn) :
    (ss.afterTake st count).RecvLogged sent (takeMore taken st.id count) id ∧
      ∀ position, ss.Has taken id position →
        (ss.afterTake st count).Has (takeMore taken st.id count) id position := by
  have knows : (ss.afterTake st count).Knows id ↔ ss.Knows id := by
    unfold QuicStreams.afterTake
    split_ifs <;> exact Iff.rfl
  by_cases here : id = st.id
  · subst here
    have taken_eq : takeMore taken st.id count st.id = taken st.id + count :=
      update_self ..
    have found_later := find_afterTake ss st count st.id
    rw [if_pos rfl] at found_later
    obtain ⟨unreset, read, final⟩ := logged.live st found
    obtain ⟨-, -, -, covers, -⟩ := QuicReasm.consume_spec (sound st.id st found).2.buffer readable
    have base_eq := (sound st.id st found).2.base unreset.1 unreset.2
    refine ⟨⟨fun unopened => absurd (knows.2 (all_known st.id st found)) unopened, ?_, ?_⟩, ?_⟩
    · intro later later_found
      cases found_later.symm.trans later_found
      rw [taken_eq]
      exact ⟨unreset, congrArg (· + count) read, final⟩
    · intro _ gone
      rw [found_later] at gone
      cases gone
    · intro position has
      by_cases passed : position < taken st.id + count
      · exact .inl (passed.trans_eq taken_eq.symm)
      · rcases has with before | ⟨other, other_found, covered⟩
        · exact absurd (before.trans_le (Nat.le_add_right _ _)) passed
        · cases found.symm.trans other_found
          refine .inr ⟨_, found_later, (covers position).2 ⟨covered, ?_⟩⟩
          rw [base_eq, read]
          exact Nat.le_of_not_lt passed
  · have taken_eq : takeMore taken st.id count id = taken id := update_of_ne here ..
    have find_eq := find_afterTake ss st count id
    rw [if_neg here] at find_eq
    refine ⟨⟨?_, ?_, ?_⟩, ?_⟩
    · rw [knows, taken_eq]
      exact logged.unknown
    · rw [find_eq, taken_eq]
      exact logged.live
    · rw [knows, find_eq, taken_eq]
      exact logged.gone
    · intro position has
      rwa [QuicStreams.Has, taken_eq, find_eq]

/-- Reading from a stream keeps what is known of every stream that is sent regularly, and every byte
of it. -/
theorem quicStreamRecv_logged {named : Nat} (outsz : Nat) (sound : ss.Sound)
    (all_known : ss.AllKnown) (receives : canRecv ss id = true) (regular : Regular sent id)
    (logged : ss.RecvLogged sent taken id) :
    let result := quicStreamRecv ss named outsz
    result.2.2.RecvLogged sent (takeMore taken named result.1.length) id ∧
      ∀ position, ss.Has taken id position →
        result.2.2.Has (takeMore taken named result.1.length) id position := by
  intro result
  rcases @quicStreamRecv_split willingEnv (.regular sent) none ss named outsz with
    ⟨nothing, moves⟩ | ⟨st, count, found, not_reset, readable, data_eq, moves⟩
  · have none_taken : result.1.length = 0 := by rw [nothing, List.length_nil]
    rw [none_taken, takeMore_zero]
    exact moves.recvLogged sound all_known receives regular logged
  · have found_self := quicStreamFind_eq found
    have same : st.id = named := Table.key_of_find found
    subst same
    have length_eq : result.1.length = count := by rw [data_eq, Memory.length_slice]
    rw [length_eq]
    have taking : StreamMoves willingEnv .any none ss (ss.afterTake st count) :=
      afterTake_moves found_self not_reset readable trivial
    have receives_mid := (canRecv_congr taking.server_eq id).trans receives
    obtain ⟨logged_mid, kept_mid⟩ := logged.afterTake sound all_known found_self readable
    obtain ⟨logged_last, kept_last⟩ :=
      moves.recvLogged (taking.sound sound) (taking.allKnown all_known) receives_mid regular
        logged_mid
    exact ⟨logged_last, fun position has => kept_last position (kept_mid position has)⟩

end

end Cx.Quic
