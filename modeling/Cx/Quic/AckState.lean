import Cx.Library.Run
import Cx.Quic.Recovery

/-!
# Received packet numbers

Which packet numbers were received is kept as a list of ranges, largest first, of bounded length.
A number that joins no range takes a place of its own, and when the list is full the smallest range
makes room for it.  Nothing else lets a packet number be accepted a second time.
-/

namespace Cx.Quic

open Library List

def QUIC_MAX_ACK_RANGES : Nat := 32

/-- Which packet numbers were received in one number space, and what is owed for them. -/
structure QuicAckState where
  ranges : List QuicAckRange
  largest : Option Nat
  largestTime : Time
  elicitCount : Nat
  pending : Bool
  deadline : Time
  sentPn : Option Nat
  ecn : Nat × Nat × Nat
  ecnSeen : Bool

def quicAckStateInit : QuicAckState := ⟨[], none, 0, 0, false, 0, none, (0, 0, 0), false⟩

/-- The ranges above a number and the ranges below it; `none` when one of them holds it. -/
def ackFind (pn : Nat) : List QuicAckRange → Option (List QuicAckRange × List QuicAckRange)
  | [] => some ([], [])
  | range :: rest =>
    if range.largest ≥ pn then
      if pn ≥ range.smallest then none
      else (ackFind pn rest).map fun (above, below) => (range :: above, below)
    else some ([], range :: rest)

def ackJoinsAbove (above : List QuicAckRange) (pn : Nat) : Bool :=
  above.getLast?.any fun range => range.smallest = pn + 1

def ackJoinsBelow (below : List QuicAckRange) (pn : Nat) : Bool :=
  below.head?.any fun range => range.largest + 1 = pn

def ackLower (smallest : Nat) : List QuicAckRange → List QuicAckRange
  | [] => []
  | [last] => [{ last with smallest := smallest }]
  | range :: next :: rest => range :: ackLower smallest (next :: rest)

def ackRaise (largest : Nat) : List QuicAckRange → List QuicAckRange
  | [] => []
  | first :: rest => { first with largest := largest } :: rest

/-- The ranges once a number between them is received; `none` when the list is full and the number
is older than everything in it. -/
def ackInsert (above below : List QuicAckRange) (pn : Nat) : Option (List QuicAckRange) :=
  if ackJoinsAbove above pn ∧ ackJoinsBelow below pn then
    some (ackLower (below.head?.elim 0 (·.smallest)) above ++ below.tail)
  else if ackJoinsAbove above pn then some (ackLower pn above ++ below)
  else if ackJoinsBelow below pn then some (above ++ ackRaise pn below)
  else if above.length + below.length < QUIC_MAX_ACK_RANGES then some (above ++ ⟨pn, pn⟩ :: below)
  else if above.length < QUIC_MAX_ACK_RANGES then some (above ++ ⟨pn, pn⟩ :: below.dropLast)
  else none

/-- Record a received packet; the flag is false for a duplicate, which the caller drops. -/
def quicAckStateAdd (as : QuicAckState) (pn : Nat) (now : Time) (ackEliciting : Bool) :
    Bool × QuicAckState :=
  match ackFind pn as.ranges with
  | none => (false, as)
  | some (above, below) =>
    match ackInsert above below pn with
    | none => (true, as)
    | some ranges =>
      let as := { as with ranges := ranges }
      let as := if as.largest.all (· < pn) then { as with largest := some pn, largestTime := now }
        else as
      (true, if ackEliciting then { as with elicitCount := as.elicitCount + 1, pending := true }
        else as)

def AckCovers (ranges : List QuicAckRange) (pn : Nat) : Prop :=
  ∃ range ∈ ranges, range.smallest ≤ pn ∧ pn ≤ range.largest

/-- Ranges are not empty, descend, and leave a number out between neighbours. -/
@[mk_iff] structure AckApart (ranges : List QuicAckRange) : Prop where
  nonempty : ∀ range ∈ ranges, range.smallest ≤ range.largest
  gaps : ranges.Pairwise fun above below => below.largest + 2 ≤ above.smallest

variable {front back rest ranges above below : List QuicAckRange}

variable {pn : Nat}

theorem ackCovers_append :
    AckCovers (front ++ back) pn ↔ AckCovers front pn ∨ AckCovers back pn := by
  simp only [AckCovers, mem_append, or_and_right, exists_or]

@[simp] theorem ackCovers_cons {range : QuicAckRange} : AckCovers (range :: rest) pn ↔
      (range.smallest ≤ pn ∧ pn ≤ range.largest) ∨ AckCovers rest pn := by
  simp [AckCovers]

@[simp] theorem not_ackCovers_nil : ¬ AckCovers [] pn := by
  simp [AckCovers]

theorem ackApart_append : AckApart (front ++ back) ↔ AckApart front ∧ AckApart back ∧
      ∀ above ∈ front, ∀ below ∈ back, below.largest + 2 ≤ above.smallest := by
  simp only [ackApart_iff, forall_mem_append, pairwise_append]
  tauto

@[simp] theorem ackApart_cons {range : QuicAckRange} :
    AckApart (range :: rest) ↔ range.smallest ≤ range.largest ∧
      (∀ below ∈ rest, below.largest + 2 ≤ range.smallest) ∧ AckApart rest := by
  simp only [ackApart_iff, forall_mem_cons, pairwise_cons]
  tauto

/-- A range that leaves a gap on both sides fits between two lists. -/
theorem ackApart_between {range : QuicAckRange} (front_apart : AckApart front)
    (back_apart : AckApart back) (nonempty : range.smallest ≤ range.largest)
    (higher : ∀ upper ∈ front, range.largest + 2 ≤ upper.smallest)
    (under : ∀ below ∈ back, below.largest + 2 ≤ range.smallest) :
    AckApart (front ++ range :: back) := by
  refine ackApart_append.2 ⟨front_apart, ackApart_cons.2 ⟨nonempty, under, back_apart⟩, ?_⟩
  intro upper upper_mem
  have above := higher upper upper_mem
  refine forall_mem_cons.2 ⟨above, fun below below_mem => ?_⟩
  have := under below below_mem
  omega

theorem ackFind_eq_none (missing : ackFind pn ranges = none) : AckCovers ranges pn := by
  induction ranges with
  | nil => cases missing
  | cons range rest ih =>
    rw [ackFind] at missing
    rw [ackCovers_cons]
    split_ifs at missing with reaches held
    · exact .inl ⟨held, reaches⟩
    · exact .inr (ih (Option.map_eq_none_iff.1 missing))

/-- A number that is not held lies between two parts of the list. -/
theorem ackFind_eq_some (apart : AckApart ranges)
    (found : ackFind pn ranges = some (above, below)) :
    ranges = above ++ below ∧ (∀ range ∈ above, pn < range.smallest) ∧
      ∀ range ∈ below, range.largest < pn := by
  induction ranges generalizing above with
  | nil =>
    cases found
    exact ⟨rfl, nofun, nofun⟩
  | cons range rest ih =>
    obtain ⟨nonempty, gap, rest_apart⟩ := ackApart_cons.1 apart
    rw [ackFind] at found
    split_ifs at found with reaches held
    · obtain ⟨⟨inner_above, inner_below⟩, inner_found, pair_eq⟩ := Option.map_eq_some_iff.1 found
      cases pair_eq
      obtain ⟨rest_eq, higher, lower⟩ := ih rest_apart inner_found
      refine ⟨by rw [rest_eq]; rfl, ?_, lower⟩
      exact forall_mem_cons.2 ⟨Nat.lt_of_not_le held, higher⟩
    · cases found
      refine ⟨rfl, nofun, forall_mem_cons.2 ⟨Nat.lt_of_not_le reaches, ?_⟩⟩
      intro other other_mem
      have := gap other other_mem
      omega

/-- What recording a number does to the ranges above and below it. -/
inductive AckInsertion (pn : Nat) :
    List QuicAckRange → List QuicAckRange → Option (List QuicAckRange) → Prop
  | bridged {front rest : List QuicAckRange} {last first : QuicAckRange}
      (touches : last.smallest = pn + 1) (reaches : first.largest + 1 = pn) :
      AckInsertion pn (front ++ [last]) (first :: rest)
        (some (front ++ ⟨last.largest, first.smallest⟩ :: rest))
  | lowered {front below : List QuicAckRange} {last : QuicAckRange}
      (touches : last.smallest = pn + 1) (apart : ackJoinsBelow below pn = false) :
      AckInsertion pn (front ++ [last]) below (some (front ++ ⟨last.largest, pn⟩ :: below))
  | raised {above rest : List QuicAckRange} {first : QuicAckRange}
      (apart : ackJoinsAbove above pn = false) (reaches : first.largest + 1 = pn) :
      AckInsertion pn above (first :: rest) (some (above ++ ⟨pn, first.smallest⟩ :: rest))
  | placed {above below : List QuicAckRange} (apart : ackJoinsAbove above pn = false)
      (apart_below : ackJoinsBelow below pn = false)
      (room : above.length + below.length < QUIC_MAX_ACK_RANGES) :
      AckInsertion pn above below (some (above ++ ⟨pn, pn⟩ :: below))
  /-- It takes a place of its own, and the smallest range makes room. -/
  | evicted {above rest : List QuicAckRange} {last : QuicAckRange}
      (apart : ackJoinsAbove above pn = false)
      (apart_below : ackJoinsBelow (rest ++ [last]) pn = false)
      (full : QUIC_MAX_ACK_RANGES ≤ above.length + rest.length + 1)
      (inside : above.length < QUIC_MAX_ACK_RANGES) :
      AckInsertion pn above (rest ++ [last]) (some (above ++ ⟨pn, pn⟩ :: rest))
  /-- It is older than everything in a full list, and is not recorded. -/
  | ignored {above below : List QuicAckRange} (apart : ackJoinsAbove above pn = false)
      (apart_below : ackJoinsBelow below pn = false)
      (full : QUIC_MAX_ACK_RANGES ≤ above.length) : AckInsertion pn above below none

theorem ackLower_append (smallest : Nat) (front : List QuicAckRange) (last : QuicAckRange) :
    ackLower smallest (front ++ [last]) = front ++ [{ last with smallest := smallest }] := by
  induction front with
  | nil => rfl
  | cons range rest ih =>
    cases rest with
    | nil => rfl
    | cons => exact congrArg (range :: ·) ih

theorem exists_of_ackJoinsAbove (joins : ackJoinsAbove above pn = true) :
    ∃ front last, above = front ++ [last] ∧ last.smallest = pn + 1 := by
  obtain ⟨last, last_eq, touches⟩ := (Option.any_eq_true _ _).1 joins
  obtain ⟨front, above_eq⟩ := List.getLast?_eq_some_iff.1 last_eq
  exact ⟨front, last, above_eq, of_decide_eq_true touches⟩

theorem exists_of_ackJoinsBelow (joins : ackJoinsBelow below pn = true) :
    ∃ first rest, below = first :: rest ∧ first.largest + 1 = pn := by
  cases below with
  | nil => cases joins
  | cons first rest => exact ⟨first, rest, rfl, of_decide_eq_true joins⟩

theorem ackInsert_insertion (above below : List QuicAckRange) (pn : Nat) :
    AckInsertion pn above below (ackInsert above below pn) := by
  unfold ackInsert
  split_ifs with both joins_above joins_below room inside
  · obtain ⟨front, last, rfl, touches⟩ := exists_of_ackJoinsAbove both.1
    obtain ⟨first, rest, rfl, reaches⟩ := exists_of_ackJoinsBelow both.2
    rw [ackLower_append, append_assoc]
    exact .bridged touches reaches
  · obtain ⟨front, last, rfl, touches⟩ := exists_of_ackJoinsAbove joins_above
    rw [ackLower_append, append_assoc]
    refine .lowered touches ?_
    simpa [joins_above] using both
  · obtain ⟨first, rest, rfl, reaches⟩ := exists_of_ackJoinsBelow joins_below
    exact .raised (by simpa using joins_above) reaches
  · exact .placed (by simpa using joins_above) (by simpa using joins_below) room
  · have some_below : below ≠ [] := by
      rintro rfl
      simp only [length_nil] at room
      omega
    have split_eq := dropLast_append_getLast some_below
    have length_eq := congrArg List.length split_eq
    simp only [length_append, length_singleton] at length_eq
    have inserted : AckInsertion pn above (below.dropLast ++ [below.getLast some_below])
        (some (above ++ ⟨pn, pn⟩ :: below.dropLast)) :=
      .evicted (by simpa using joins_above) (by simpa [split_eq] using joins_below)
        (by omega) inside
    rwa [split_eq] at inserted
  · exact .ignored (by simpa using joins_above) (by simpa using joins_below) (by omega)

/-- Whether recording a number between these ranges makes the list forget another: the smallest
range makes room for it, or it is not recorded itself. -/
def ackForgetsAt (above below : List QuicAckRange) (pn other : Nat) : Bool :=
  if ackJoinsAbove above pn ∨ ackJoinsBelow below pn ∨
      above.length + below.length < QUIC_MAX_ACK_RANGES then false
  else
    match below.getLast? with
    | some last => last.smallest ≤ other && other ≤ last.largest
    | none => other = pn

/-- Whether receiving a packet makes the state forget a packet number. -/
def ackForgets (as : QuicAckState) (pn other : Nat) : Bool :=
  match ackFind pn as.ranges with
  | none => false
  | some (above, below) => ackForgetsAt above below pn other

theorem ackJoinsAbove_append {last : QuicAckRange} (touches : last.smallest = pn + 1) :
    ackJoinsAbove (front ++ [last]) pn = true := by
  simp [ackJoinsAbove, touches]

theorem ackJoinsBelow_cons {first : QuicAckRange} (reaches : first.largest + 1 = pn) :
    ackJoinsBelow (first :: rest) pn = true := by
  simp [ackJoinsBelow, reaches]

/-- Ranges above a number that does not join them leave a gap. -/
theorem gap_of_not_joinsAbove (apart : AckApart above)
    (higher : ∀ range ∈ above, pn < range.smallest) (joins : ackJoinsAbove above pn = false) :
    ∀ range ∈ above, pn + 2 ≤ range.smallest := by
  rcases eq_nil_or_concat' above with rfl | ⟨front, last, rfl⟩
  · exact nofun
  · obtain ⟨-, last_apart, between⟩ := ackApart_append.1 apart
    have last_higher := higher last (by simp)
    have last_ne : last.smallest ≠ pn + 1 := by
      intro touches
      rw [ackJoinsAbove_append touches] at joins
      cases joins
    have last_nonempty := (ackApart_cons.1 last_apart).1
    intro range range_mem
    rcases mem_append.1 range_mem with early | late
    · have := between range early last (mem_singleton_self last)
      omega
    · rw [mem_singleton.1 late]
      omega

/-- Ranges below a number that does not join them leave a gap. -/
theorem gap_of_not_joinsBelow (apart : AckApart below)
    (lower : ∀ range ∈ below, range.largest < pn) (joins : ackJoinsBelow below pn = false) :
    ∀ range ∈ below, range.largest + 2 ≤ pn := by
  cases below with
  | nil => exact nofun
  | cons first =>
    obtain ⟨nonempty, gap, -⟩ := ackApart_cons.1 apart
    have first_lower := lower first mem_cons_self
    have first_ne : first.largest + 1 ≠ pn := by
      intro reaches
      rw [ackJoinsBelow_cons reaches] at joins
      cases joins
    refine forall_mem_cons.2 ⟨by omega, fun range range_mem => ?_⟩
    have := gap range range_mem
    omega

/-- Recording a number keeps the list in order and short. -/
theorem AckInsertion.apart (insertion : AckInsertion pn above below (some ranges))
    (apart : AckApart (above ++ below)) (higher : ∀ range ∈ above, pn < range.smallest)
    (lower : ∀ range ∈ below, range.largest < pn)
    (capped : (above ++ below).length ≤ QUIC_MAX_ACK_RANGES) :
    AckApart ranges ∧ ranges.length ≤ QUIC_MAX_ACK_RANGES := by
  obtain ⟨above_apart, below_apart, -⟩ := ackApart_append.1 apart
  simp only [length_append] at capped
  cases insertion with
  | @bridged front rest last first =>
    obtain ⟨front_apart, last_apart, front_last⟩ := ackApart_append.1 above_apart
    obtain ⟨first_nonempty, first_rest, rest_apart⟩ := ackApart_cons.1 below_apart
    have last_nonempty := (ackApart_cons.1 last_apart).1
    refine ⟨ackApart_between front_apart rest_apart ?_ (by simpa using front_last) first_rest, ?_⟩
      <;> simp only [length_append, length_cons, length_nil] at capped ⊢ <;> omega
  | @lowered front below last touches clear =>
    obtain ⟨front_apart, last_apart, front_last⟩ := ackApart_append.1 above_apart
    have last_nonempty := (ackApart_cons.1 last_apart).1
    have gap := gap_of_not_joinsBelow below_apart lower clear
    refine ⟨ackApart_between front_apart below_apart ?_ (by simpa using front_last) gap, ?_⟩
      <;> simp only [length_append, length_cons, length_nil] at capped ⊢ <;> omega
  | @raised above rest first clear =>
    obtain ⟨first_nonempty, first_rest, rest_apart⟩ := ackApart_cons.1 below_apart
    have gap := gap_of_not_joinsAbove above_apart higher clear
    refine ⟨ackApart_between above_apart rest_apart ?_ gap first_rest, ?_⟩
      <;> simp only [length_append, length_cons] at capped ⊢ <;> omega
  | placed clear clear_below =>
    have gap := gap_of_not_joinsAbove above_apart higher clear
    have gap_below := gap_of_not_joinsBelow below_apart lower clear_below
    refine ⟨ackApart_between above_apart below_apart le_rfl gap gap_below, ?_⟩
    simp only [length_append, length_cons]
    omega
  | @evicted above rest last clear clear_below =>
    have gap := gap_of_not_joinsAbove above_apart higher clear
    have gap_below := gap_of_not_joinsBelow below_apart lower clear_below
    refine ⟨ackApart_between above_apart (ackApart_append.1 below_apart).1 le_rfl gap
      (fun range range_mem => gap_below range (mem_append_left _ range_mem)), ?_⟩
    simp only [length_append, length_cons, length_nil] at capped ⊢
    omega

/-- A number held by an earlier range is above every later one. -/
theorem above_of_ackCovers (apart : AckApart (front ++ back))
    (held : AckCovers front pn) : ∀ range ∈ back, range.largest < pn := by
  obtain ⟨range, range_mem, smallest_le, -⟩ := held
  intro later later_mem
  have gap := (ackApart_append.1 apart).2.2 range range_mem later later_mem
  omega

/-- What a list covers once a number was recorded. -/
theorem AckInsertion.covers_iff (insertion : AckInsertion pn above below (some ranges))
    (apart : AckApart (above ++ below)) (lower : ∀ range ∈ below, range.largest < pn)
    (other : Nat) :
    AckCovers ranges other ↔ (other = pn ∨ AckCovers (above ++ below) other) ∧
        ackForgetsAt above below pn other = false := by
  obtain ⟨above_apart, below_apart, -⟩ := ackApart_append.1 apart
  cases insertion with
  | @bridged front rest last first touches =>
    have last_nonempty := (ackApart_append.1 above_apart).2.1.nonempty last (by simp)
    have first_nonempty := (ackApart_cons.1 below_apart).1
    have joined : first.smallest ≤ other ∧ other ≤ last.largest ↔ other = pn ∨
        (last.smallest ≤ other ∧ other ≤ last.largest) ∨
        (first.smallest ≤ other ∧ other ≤ first.largest) := by
      omega
    simp only [ackForgetsAt, ackJoinsAbove_append touches, true_or, if_true, ackCovers_append,
      ackCovers_cons, not_ackCovers_nil, or_false, and_true, joined]
    tauto
  | @lowered front below last touches =>
    have last_nonempty := (ackApart_append.1 above_apart).2.1.nonempty last (by simp)
    have joined : pn ≤ other ∧ other ≤ last.largest ↔ other = pn ∨
        (last.smallest ≤ other ∧ other ≤ last.largest) := by
      omega
    simp only [ackForgetsAt, ackJoinsAbove_append touches, true_or, if_true, ackCovers_append,
      ackCovers_cons, not_ackCovers_nil, or_false, and_true, joined]
    tauto
  | @raised above rest first clear reaches =>
    have first_nonempty := (ackApart_cons.1 below_apart).1
    have joined : first.smallest ≤ other ∧ other ≤ pn ↔ other = pn ∨
        (first.smallest ≤ other ∧ other ≤ first.largest) := by
      omega
    simp only [ackForgetsAt, ackJoinsBelow_cons reaches, or_true, true_or, if_true,
      ackCovers_append, ackCovers_cons, and_true, joined]
    tauto
  | placed clear clear_below room =>
    have joined : pn ≤ other ∧ other ≤ pn ↔ other = pn := by omega
    simp only [ackForgetsAt, room, or_true, if_true, ackCovers_append, ackCovers_cons, and_true,
      joined]
    tauto
  | @evicted above rest last clear clear_below =>
    have last_mem : last ∈ rest ++ [last] := by simp
    have no_room : ¬ above.length + (rest ++ [last]).length < QUIC_MAX_ACK_RANGES := by
      rw [length_append, length_singleton]
      omega
    have kept : AckCovers above other → ¬ (last.smallest ≤ other ∧ other ≤ last.largest) := by
      intro held
      have := above_of_ackCovers apart held last last_mem
      omega
    have kept_below : AckCovers rest other →
        ¬ (last.smallest ≤ other ∧ other ≤ last.largest) := by
      intro held
      have := above_of_ackCovers below_apart held last (mem_singleton_self last)
      omega
    have newest : other = pn → ¬ (last.smallest ≤ other ∧ other ≤ last.largest) := by
      have := lower last last_mem
      omega
    have joined : pn ≤ other ∧ other ≤ pn ↔ other = pn := by omega
    have forgets : ackForgetsAt above (rest ++ [last]) pn other = false ↔
        ¬ (last.smallest ≤ other ∧ other ≤ last.largest) := by
      simp only [ackForgetsAt, clear, clear_below, no_room, Bool.false_eq_true, or_self, if_false,
        List.getLast?_concat]
      simp
    rw [forgets]
    simp only [ackCovers_append, ackCovers_cons, not_ackCovers_nil, or_false, joined]
    constructor
    · rintro (held | is_pn | held)
      · exact ⟨.inr (.inl held), kept held⟩
      · exact ⟨.inl is_pn, newest is_pn⟩
      · exact ⟨.inr (.inr (.inl held)), kept_below held⟩
    · rintro ⟨is_pn | held | held | in_last, not_last⟩
      · exact .inr (.inl is_pn)
      · exact .inl held
      · exact .inr (.inr held)
      · exact absurd in_last not_last

/-- A number that is not recorded is the one that is forgotten. -/
theorem AckInsertion.ignored_forgets (insertion : AckInsertion pn above below none)
    (capped : (above ++ below).length ≤ QUIC_MAX_ACK_RANGES) (other : Nat) :
    ackForgetsAt above below pn other = false ↔ other ≠ pn := by
  cases insertion with
  | ignored clear clear_below =>
    rw [length_append] at capped
    obtain rfl : below = [] := length_eq_zero_iff.1 (by omega)
    have no_room : ¬ above.length < QUIC_MAX_ACK_RANGES := by omega
    simp [ackForgetsAt, clear, clear_below, no_room]

structure AckSound (ranges : List QuicAckRange) : Prop where
  apart : AckApart ranges
  capped : ranges.length ≤ QUIC_MAX_ACK_RANGES

theorem not_covers_of_ackFind (apart : AckApart ranges)
    (found : ackFind pn ranges = some (above, below)) : ¬ AckCovers ranges pn := by
  obtain ⟨rfl, higher, lower⟩ := ackFind_eq_some apart found
  rw [ackCovers_append]
  rintro (⟨range, range_mem, smallest_le, -⟩ | ⟨range, range_mem, -, le_largest⟩)
  · exact absurd (higher range range_mem) (by omega)
  · exact absurd (lower range range_mem) (by omega)

inductive AckReceipt (as : QuicAckState) (pn : Nat) (now : Time) (ackEliciting : Bool) :
    Bool × QuicAckState → Prop
  | duplicate (held : AckCovers as.ranges pn) : AckReceipt as pn now ackEliciting (false, as)
  | ignored {above below : List QuicAckRange} (found : ackFind pn as.ranges = some (above, below))
      (insertion : AckInsertion pn above below none) :
      AckReceipt as pn now ackEliciting (true, as)
  | recorded {above below ranges : List QuicAckRange} {after : QuicAckState}
      (found : ackFind pn as.ranges = some (above, below))
      (insertion : AckInsertion pn above below (some ranges)) (ranges_eq : after.ranges = ranges)
      (largest_eq : after.largest = if as.largest.all (· < pn) then some pn else as.largest) :
      AckReceipt as pn now ackEliciting (true, after)

theorem quicAckStateAdd_receipt (as : QuicAckState) (pn : Nat) (now : Time) (ackEliciting : Bool) :
    AckReceipt as pn now ackEliciting (quicAckStateAdd as pn now ackEliciting) := by
  unfold quicAckStateAdd
  cases found : ackFind pn as.ranges with
  | none => exact .duplicate (ackFind_eq_none found)
  | some parts =>
    obtain ⟨above, below⟩ := parts
    have insertion := ackInsert_insertion above below pn
    cases inserted : ackInsert above below pn with
    | none =>
      rw [inserted] at insertion
      simp only [inserted]
      exact .ignored found insertion
    | some =>
      rw [inserted] at insertion
      simp only [inserted]
      refine .recorded found insertion ?_ ?_ <;> split_ifs <;> rfl

section Receipt

variable {as : QuicAckState} {pn : Nat} {now : Time} {ackEliciting : Bool}
  {outcome : Bool × QuicAckState}

theorem ackForgets_of_ackFind {above below : List QuicAckRange}
    (found : ackFind pn as.ranges = some (above, below)) (other : Nat) :
    ackForgets as pn other = ackForgetsAt above below pn other := by
  simp [ackForgets, found]

theorem ackFind_of_covers (sound : AckSound as.ranges) (held : AckCovers as.ranges pn) :
    ackFind pn as.ranges = none := by
  cases found : ackFind pn as.ranges with
  | none => rfl
  | some => exact absurd held (not_covers_of_ackFind sound.apart found)

section

variable (receipt : AckReceipt as pn now ackEliciting outcome) (good : AckSound as.ranges)
include receipt good

/-- The list stays in order and short. -/
theorem AckReceipt.sound : AckSound outcome.2.ranges := by
  cases receipt with
  | duplicate | ignored => exact good
  | recorded found insertion ranges_eq =>
    obtain ⟨parts_eq, higher, lower⟩ := ackFind_eq_some good.apart found
    obtain ⟨apart, capped⟩ := insertion.apart (parts_eq ▸ good.apart) higher lower
      (parts_eq ▸ good.capped)
    rw [ranges_eq]
    exact ⟨apart, capped⟩

/-- A packet is accepted exactly when the list does not hold its number. -/
theorem AckReceipt.accepted_iff : outcome.1 = true ↔ ¬ AckCovers as.ranges pn := by
  cases receipt with
  | duplicate held => simp [held]
  | ignored found | recorded found => simp [not_covers_of_ackFind good.apart found]

/-- The list covers what it covered and the new number, but for what is forgotten. -/
theorem AckReceipt.covers_iff (other : Nat) : AckCovers outcome.2.ranges other ↔
      (other = pn ∨ AckCovers as.ranges other) ∧ ackForgets as pn other = false := by
  cases receipt with
  | duplicate held =>
    have found := ackFind_of_covers good held
    simp only [ackForgets, found, and_true]
    constructor
    · exact .inr
    · rintro (rfl | other_held)
      · exact held
      · exact other_held
  | ignored found insertion =>
    obtain ⟨parts_eq, -, -⟩ := ackFind_eq_some good.apart found
    have missing := not_covers_of_ackFind good.apart found
    rw [ackForgets_of_ackFind found, insertion.ignored_forgets (parts_eq ▸ good.capped)]
    constructor
    · intro held
      refine ⟨.inr held, ?_⟩
      rintro rfl
      exact missing held
    · rintro ⟨is_pn | held, not_pn⟩
      · exact absurd is_pn not_pn
      · exact held
  | recorded found insertion ranges_eq =>
    obtain ⟨parts_eq, -, lower⟩ := ackFind_eq_some good.apart found
    rw [ackForgets_of_ackFind found, ranges_eq, parts_eq]
    exact insertion.covers_iff (parts_eq ▸ good.apart) lower other

end

/-- Only a number that was received is forgotten. -/
theorem known_of_ackForgets (sound : AckSound as.ranges) {other : Nat}
    (forgets : ackForgets as pn other = true) : other = pn ∨ AckCovers as.ranges other := by
  unfold ackForgets at forgets
  cases found : ackFind pn as.ranges with
  | none => simp [found] at forgets
  | some parts =>
    obtain ⟨above, below⟩ := parts
    obtain ⟨parts_eq, -, -⟩ := ackFind_eq_some sound.apart found
    simp only [found, ackForgetsAt] at forgets
    split_ifs at forgets with joins
    cases last_eq : below.getLast? with
    | none => exact .inl (by simpa [last_eq] using forgets)
    | some last =>
      refine .inr ⟨last, ?_, by simpa [last_eq] using forgets⟩
      rw [parts_eq]
      exact mem_append_right _ (mem_of_getLast? last_eq)

end Receipt

structure AckCall where
  pn : Nat
  now : Time
  ackEliciting : Bool

def ackReceive (as : QuicAckState) (call : AckCall) : QuicAckState :=
  (quicAckStateAdd as call.pn call.now call.ackEliciting).2

/-- The numbers of the packets that are not dropped as duplicates, in order. -/
def ackAccepted : QuicAckState → List AckCall → List Nat
  | _, [] => []
  | as, call :: calls =>
    if (quicAckStateAdd as call.pn call.now call.ackEliciting).1 then
      call.pn :: ackAccepted (ackReceive as call) calls
    else ackAccepted (ackReceive as call) calls

/-- No packet that arrives later has a number that an earlier packet made the tracker forget. -/
def NoneReturns : QuicAckState → List AckCall → Prop
  | _, [] => True
  | as, call :: calls =>
    (∀ later ∈ calls, ackForgets as call.pn later.pn = false) ∧
      NoneReturns (ackReceive as call) calls

variable {as : QuicAckState}

theorem ackAccepted_sublist (calls : List AckCall) :
    (ackAccepted as calls).Sublist (calls.map AckCall.pn) := by
  induction calls generalizing as with
  | nil => exact .slnil
  | cons call calls ih =>
    rw [ackAccepted]
    split_ifs
    · exact ih.cons_cons call.pn
    · exact ih.cons call.pn

theorem AckSound.receive (sound : AckSound as.ranges) (call : AckCall) :
    AckSound (ackReceive as call).ranges :=
  (quicAckStateAdd_receipt as call.pn call.now call.ackEliciting).sound sound

theorem ackSound_init : AckSound quicAckStateInit.ranges := ⟨⟨nofun, .nil⟩, Nat.zero_le _⟩

theorem covers_receive (sound : AckSound as.ranges) (call : AckCall) (pn : Nat) :
    AckCovers (ackReceive as call).ranges pn ↔
      (pn = call.pn ∨ AckCovers as.ranges pn) ∧ ackForgets as call.pn pn = false :=
  (quicAckStateAdd_receipt as call.pn call.now call.ackEliciting).covers_iff sound pn

/-- A number the list does not hold is accepted when it arrives. -/
theorem mem_ackAccepted {calls : List AckCall}
    (sound : AckSound as.ranges) (missing : ¬ AckCovers as.ranges pn)
    (arrives : ∃ call ∈ calls, call.pn = pn) : pn ∈ ackAccepted as calls := by
  induction calls generalizing as with
  | nil =>
    obtain ⟨_, call_mem, _⟩ := arrives
    cases call_mem
  | cons call calls ih =>
    have accepted := (quicAckStateAdd_receipt as call.pn call.now call.ackEliciting).accepted_iff
      sound
    by_cases is_pn : call.pn = pn
    · rw [ackAccepted, if_pos (accepted.2 (is_pn ▸ missing)), is_pn]
      exact mem_cons_self
    · have still_missing : ¬ AckCovers (ackReceive as call).ranges pn := by
        rw [covers_receive sound]
        rintro ⟨rfl | held, -⟩
        · exact is_pn rfl
        · exact missing held
      have arrives_later : ∃ later ∈ calls, later.pn = pn := by
        obtain ⟨later, later_mem, later_eq⟩ := arrives
        rcases mem_cons.1 later_mem with rfl | in_rest
        · exact absurd later_eq is_pn
        · exact ⟨later, in_rest, later_eq⟩
      have accepted_later := ih (sound.receive call) still_missing arrives_later
      rw [ackAccepted]
      split_ifs
      · exact mem_cons_of_mem _ accepted_later
      · exact accepted_later

/-- From any list, the accepted numbers are new and differ from each other exactly when nothing
forgotten returns. -/
theorem ackAccepted_fresh_iff (sound : AckSound as.ranges) (calls : List AckCall) :
    ((ackAccepted as calls).Nodup ∧ ∀ pn, AckCovers as.ranges pn → pn ∉ ackAccepted as calls) ↔
      NoneReturns as calls := by
  induction calls generalizing as with
  | nil => simp [ackAccepted, NoneReturns]
  | cons call calls ih =>
    have accepted := (quicAckStateAdd_receipt as call.pn call.now call.ackEliciting).accepted_iff
      sound
    have after_sound := sound.receive call
    -- the number of this packet is one of those that must not come again
    have known_iff : ((ackAccepted as (call :: calls)).Nodup ∧
        ∀ pn, AckCovers as.ranges pn → pn ∉ ackAccepted as (call :: calls)) ↔
        (ackAccepted (ackReceive as call) calls).Nodup ∧
          ∀ pn, pn = call.pn ∨ AckCovers as.ranges pn →
            pn ∉ ackAccepted (ackReceive as call) calls := by
      rw [ackAccepted]
      split_ifs with is_new
      · have missing := accepted.1 is_new
        rw [nodup_cons]
        constructor
        · rintro ⟨⟨not_mem, nodup⟩, fresh⟩
          refine ⟨nodup, ?_⟩
          rintro pn (rfl | held)
          · exact not_mem
          · exact fun later => fresh pn held (mem_cons_of_mem _ later)
        · rintro ⟨nodup, fresh⟩
          refine ⟨⟨fresh call.pn (.inl rfl), nodup⟩, fun pn held again => ?_⟩
          rcases mem_cons.1 again with rfl | later
          · exact missing held
          · exact fresh pn (.inr held) later
      · have held : AckCovers as.ranges call.pn := not_not.1 (mt accepted.2 is_new)
        constructor
        · rintro ⟨nodup, fresh⟩
          refine ⟨nodup, ?_⟩
          rintro pn (rfl | other_held)
          · exact fresh call.pn held
          · exact fresh pn other_held
        · rintro ⟨nodup, fresh⟩
          exact ⟨nodup, fun pn other_held => fresh pn (.inr other_held)⟩
    rw [known_iff, NoneReturns, ← ih after_sound]
    constructor
    · rintro ⟨nodup, fresh⟩
      refine ⟨fun later later_mem => ?_, nodup, fun pn held => ?_⟩
      · by_contra forgets
        rw [Bool.not_eq_false] at forgets
        have missing : ¬ AckCovers (ackReceive as call).ranges later.pn := by
          rw [covers_receive sound, forgets]
          simp
        exact fresh later.pn (known_of_ackForgets sound forgets)
          (mem_ackAccepted after_sound missing ⟨later, later_mem, rfl⟩)
      · exact fresh pn ((covers_receive sound call pn).1 held).1
    · rintro ⟨remembered, nodup, fresh⟩
      refine ⟨nodup, fun pn known again => ?_⟩
      obtain ⟨later, later_mem, rfl⟩ := mem_map.1 ((ackAccepted_sublist calls).subset again)
      exact fresh later.pn ((covers_receive sound call later.pn).2
        ⟨known, remembered later later_mem⟩) again

/-- Every packet number is accepted at most once exactly when no packet arrives whose number the
full list was made to forget. -/
theorem ack_once_iff (calls : List AckCall) :
    (ackAccepted quicAckStateInit calls).Nodup ↔ NoneReturns quicAckStateInit calls := by
  rw [← ackAccepted_fresh_iff ackSound_init calls]
  simp [quicAckStateInit]

/-- Every second number up to 64 fills the list and pushes 0 out, which is then accepted again. -/
theorem forgotten_packet_accepted_again : ¬ (ackAccepted quicAckStateInit
      (((List.range 33).map fun i => ⟨2 * i, 0, true⟩) ++ [⟨0, 0, true⟩])).Nodup := by
  decide

end Cx.Quic
