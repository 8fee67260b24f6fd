import Cx.Buffer
import Cx.Library.Span

/-!
# Stream reassembly

The buffer is a window that starts at `base`, the first offset that has not been consumed, and
`ranges` lists what has arrived above it: sorted, non-overlapping and non-touching.  The list is
capped, and a segment that would need one range too many is dropped whole while the call still
reports success.
-/

namespace Cx.Quic

open Library

/-- A byte range `[off, endOff)`. -/
abbrev QuicRange := Span

def QUIC_REASM_MAX_RANGES : Nat := 16

structure QuicReasm where
  /-- Covers `[base, base + len)`. -/
  buf : Option Buffer
  base : Nat
  limit : Nat
  ranges : List QuicRange

def quicReasmInit (limit : Nat) : QuicReasm := ⟨none, 0, limit, []⟩

/-- Store bytes at an offset at or above `base`, if the range list has room for them. -/
def quicReasmStore (alloc : Nat → Bool) (r : QuicReasm) (off endOff : Nat) (data : List UInt8) :
    Option QuicReasm :=
  let keep := r.ranges.takeWhile fun range => range.endOff < off
  let rest := r.ranges.dropWhile fun range => range.endOff < off
  let merged := Span.absorb off endOff rest
  if merged.2.length = rest.length ∧ r.ranges.length ≥ QUIC_REASM_MAX_RANGES then some r
  else
    let need := merged.1.endOff - r.base
    match bufEnsure alloc r.buf need with
    | none => none
    | some held =>
      some
        { r with
          buf := some { held with
            data := Memory.write held.data (off - r.base) data
            len := if need > held.len then need else held.len }
          ranges := keep ++ merged.1 :: merged.2 }

/-- Add received bytes at a stream offset; `none` when they run past the limit or cannot be
stored.  Offset and length are 64-bit values. -/
def quicReasmAdd (alloc : Nat → Bool) (r : QuicReasm) (off : Nat) (data : List UInt8) :
    Option QuicReasm :=
  if data.length % 2 ^ 64 = 0 then some r
  else
    let endOff := (off + data.length) % 2 ^ 64
    if endOff < off ∨ endOff > r.limit then none
    else if endOff ≤ r.base then some r
    else if off < r.base then quicReasmStore alloc r r.base endOff (data.drop (r.base - off))
    else quicReasmStore alloc r off endOff data

/-- Number of bytes readable in order from `base`. -/
def quicReasmReadable (r : QuicReasm) : Nat :=
  match r.ranges with
  | [] => 0
  | first :: _ => if first.off ≠ r.base then 0 else first.endOff - r.base

/-- The bytes from `base` on. -/
def quicReasmData (r : QuicReasm) : Nat → UInt8 := bufData r.buf

/-- Discard `len` bytes from the front. -/
def quicReasmConsume (r : QuicReasm) (len : Nat) : QuicReasm :=
  if len = 0 then r
  else
    { r with
      base := r.base + len
      ranges := Span.advance (r.base + len) r.ranges
      buf := bufDiscard r.buf len }

namespace QuicReasm

structure Sound (r : QuicReasm) : Prop where
  /-- The ranges are sorted and separated, from the first unconsumed offset on. -/
  separated : Span.Separated r.base r.ranges
  below_limit : ∀ range ∈ r.ranges, range.endOff ≤ r.limit
  in_buffer : ∀ range ∈ r.ranges, range.endOff ≤ r.base + bufLen r.buf
  fits : BufferFits r.buf
  capped : r.ranges.length ≤ QUIC_REASM_MAX_RANGES

/-- Every recorded position holds the byte that `bytes` gives for it. -/
def Records (r : QuicReasm) (bytes : Nat → Option UInt8) : Prop :=
  ∀ position, Span.Covers r.ranges position →
    bytes position = some (bufData r.buf (position - r.base))

/-- Every recorded position holds the byte that the source stream has there. -/
def Stores (r : QuicReasm) (source : List UInt8) : Prop :=
  ∀ position, Span.Covers r.ranges position →
    source[position]? = some (bufData r.buf (position - r.base))

theorem sound_init (limit : Nat) : Sound (quicReasmInit limit) := by
  refine ⟨trivial, ?_, ?_, ?_, Nat.zero_le _⟩
  · rintro range ⟨⟩
  · rintro range ⟨⟩
  · rintro held ⟨⟩

theorem stores_init (limit : Nat) (source : List UInt8) : Stores (quicReasmInit limit) source := by
  rintro position ⟨range, ⟨⟩, -⟩

variable {r after : QuicReasm} {alloc : Nat → Bool} {off : Nat} {data : List UInt8}

theorem Stores.append {source : List UInt8} (stores : Stores r source) (more : List UInt8) :
    Stores r (source ++ more) := by
  intro position covered
  have present := stores position covered
  obtain ⟨in_range, -⟩ := List.getElem?_eq_some_iff.1 present
  rw [List.getElem?_append_left in_range, present]

/-- Whether a segment is dropped because the list of ranges is full and it touches none. -/
def Drops (r : QuicReasm) (off endOff : Nat) : Prop :=
  Span.isolated off endOff r.ranges = true ∧ QUIC_REASM_MAX_RANGES ≤ r.ranges.length

instance (r : QuicReasm) (off endOff : Nat) : Decidable (Drops r off endOff) :=
  inferInstanceAs (Decidable (_ ∧ _))

/-- Storing a segment either drops it whole or inserts its range. -/
theorem store_eq_some {endOff : Nat}
    (stored : quicReasmStore alloc r off endOff data = some after) :
    (Drops r off endOff ∧ after = r) ∨
      (¬ Drops r off endOff ∧ ∃ held need, bufEnsure alloc r.buf need = some held ∧
        need = (Span.absorb off endOff
          (r.ranges.dropWhile fun range => range.endOff < off)).1.endOff - r.base ∧
        after = { r with
          buf := some { held with
            data := Memory.write held.data (off - r.base) data
            len := if need > held.len then need else held.len }
          ranges := Span.insert off endOff r.ranges }) := by
  have drops_iff : Drops r off endOff ↔
      (Span.absorb off endOff (r.ranges.dropWhile fun range => range.endOff < off)).2.length =
          (r.ranges.dropWhile fun range => range.endOff < off).length ∧
        r.ranges.length ≥ QUIC_REASM_MAX_RANGES := by
    simp [Drops, Span.isolated]
  simp only [quicReasmStore, ← drops_iff] at stored
  split_ifs at stored with dropped
  · exact .inl ⟨dropped, (Option.some.inj stored).symm⟩
  · refine .inr ⟨dropped, ?_⟩
    split at stored
    · simp at stored
    · next held ensured => exact ⟨held, _, ensured, rfl, (Option.some.inj stored).symm⟩

/-- Storing keeps the buffer sound and records exactly the segment's range, unless it drops it. -/
theorem store_spec {endOff : Nat} (sound : Sound r) (base_le : r.base ≤ off)
    (nonempty : off < endOff) (end_le : endOff ≤ r.limit) (length_ge : endOff - off ≤ data.length)
    (stored : quicReasmStore alloc r off endOff data = some after) :
    Sound after ∧ after.base = r.base ∧ after.limit = r.limit ∧
      (∀ position, Span.Covers after.ranges position ↔
        (¬ Drops r off endOff ∧ off ≤ position ∧ position < endOff) ∨
          Span.Covers r.ranges position) ∧
      ∀ bytes, Records r bytes →
        Records after (if Drops r off endOff then bytes
          else Memory.write bytes off (data.map some)) := by
  rcases store_eq_some stored with ⟨dropped, rfl⟩ | ⟨kept, held, need, ensured, need_eq, rfl⟩
  · exact ⟨sound, rfl, rfl, by simp [dropped], fun bytes records => by simpa [dropped]⟩
  · obtain ⟨held_len, held_data, room, held_fits⟩ := bufEnsure_spec sound.fits ensured
    refine ⟨⟨?_, ?_, ?_, ?_, ?_⟩, rfl, rfl, ?_, ?_⟩
    · exact Span.separated_insert nonempty base_le sound.separated
    · intro range range_mem
      rcases Span.mem_insert range_mem with old | rfl
      · exact sound.below_limit range old
      · refine Span.absorb_le end_le fun other other_mem => ?_
        exact sound.below_limit other ((List.dropWhile_sublist _).subset other_mem)
    · intro range range_mem
      simp only [bufLen_some]
      rcases Span.mem_insert range_mem with old | rfl
      · have := sound.in_buffer range old
        split_ifs <;> omega
      · split_ifs <;> omega
    · rintro again ⟨⟩
      obtain ⟨len_le, positive⟩ := held_fits held rfl
      refine ⟨?_, positive⟩
      simp only
      split_ifs <;> omega
    · obtain ⟨grows, absorbs⟩ := Span.length_insert off endOff r.ranges
      have capped := sound.capped
      simp only [Drops, not_and_or, Bool.not_eq_true] at kept
      rcases kept with touching | short
      · exact (absorbs touching).trans capped
      · simp only
        omega
    · intro position
      simp only [kept, not_false_eq_true, true_and]
      exact Span.covers_insert sound.separated
    · intro bytes records position covered
      rw [if_neg kept, bufData_some]
      refine Memory.write_map_some base_le ?_
      -- outside the segment the position was recorded before, so its cell was in the old buffer
      intro outside
      have old := (Span.covers_insert sound.separated).1 covered |>.resolve_left (by omega)
      obtain ⟨range, range_mem, off_le, lt_end⟩ := id old
      have range_low := (sound.separated.off_le range_mem).1
      have in_buffer := sound.in_buffer range range_mem
      have is_some : r.buf.isSome := by
        cases buf_eq : r.buf with
        | none =>
          rw [buf_eq, bufLen_none] at in_buffer
          omega
        | some => rfl
      exact ⟨range_low.trans off_le, held_data is_some ▸ records position old⟩

/-- What lies below `base` is cut off before a segment is stored. -/
theorem quicReasmAdd_eq (alloc : Nat → Bool) (r : QuicReasm) (off : Nat) (data : List UInt8) :
    quicReasmAdd alloc r off data =
      if data.length % 2 ^ 64 = 0 then some r
      else if (off + data.length) % 2 ^ 64 < off ∨ (off + data.length) % 2 ^ 64 > r.limit then none
      else if (off + data.length) % 2 ^ 64 ≤ r.base then some r
      else quicReasmStore alloc r (max off r.base) ((off + data.length) % 2 ^ 64)
        (data.drop (r.base - off)) := by
  rw [quicReasmAdd]
  rcases lt_or_ge off r.base with overlaps | above
  · simp [overlaps, overlaps.le]
  · simp [above, Nat.not_lt.2 above, Nat.sub_eq_zero_of_le above]

theorem add_of_drops (size_lt : data.length < 2 ^ 64)
    (dropped : Drops r (max off r.base) (off + data.length))
    (added : quicReasmAdd alloc r off data = some after) : after = r := by
  have end_cases : (off + data.length) % 2 ^ 64 < off ∨
      (off + data.length) % 2 ^ 64 = off + data.length := by omega
  rw [quicReasmAdd_eq] at added
  split_ifs at added with empty refused stale
  · exact (Option.some.inj added).symm
  · exact (Option.some.inj added).symm
  · rw [end_cases.resolve_left (by omega)] at added
    rcases store_eq_some added with ⟨-, same⟩ | ⟨kept, -⟩
    · exact same
    · exact absurd dropped kept

/-- Adding a segment keeps the buffer sound and records exactly the part of it above `base`,
unless it is dropped. -/
theorem add_spec (sound : Sound r) (size_lt : data.length < 2 ^ 64)
    (added : quicReasmAdd alloc r off data = some after) :
    Sound after ∧ after.base = r.base ∧ after.limit = r.limit ∧
      (∀ position, Span.Covers after.ranges position ↔
        (data.length ≠ 0 ∧ ¬ Drops r (max off r.base) (off + data.length) ∧
          max off r.base ≤ position ∧ position < off + data.length) ∨
          Span.Covers r.ranges position) ∧
      ∀ bytes, Records r bytes →
        Records after (if Drops r (max off r.base) (off + data.length) then bytes
          else Memory.write bytes off (data.map some)) := by
  have end_cases : (off + data.length) % 2 ^ 64 < off ∨
      (off + data.length) % 2 ^ 64 = off + data.length := by omega
  simp only [quicReasmAdd_eq, Nat.mod_eq_of_lt size_lt] at added
  generalize (off + data.length) % 2 ^ 64 = endOff at added end_cases
  have unwritten (nothing : data.length = 0 ∨ off + data.length ≤ r.base) (bytes)
      (records : Records r bytes) : Records r (if Drops r (max off r.base) (off + data.length)
        then bytes else Memory.write bytes off (data.map some)) := by
    intro position covered
    have := sound.separated.low_le covered
    rw [← records position covered]
    split_ifs
    · rfl
    · exact Memory.write_outside (by rw [List.length_map]; omega)
  split_ifs at added with empty refused stale
  · cases added
    exact ⟨sound, rfl, rfl, by simp [empty], unwritten (.inl empty)⟩
  · cases added
    refine ⟨sound, rfl, rfl, ?_, unwritten (.inr (by omega))⟩
    intro position
    refine (or_iff_right ?_).symm
    omega
  · obtain rfl : endOff = off + data.length := by omega
    obtain ⟨after_sound, base_eq, limit_eq, covers, records⟩ :=
      store_spec sound (le_max_right _ _) (by omega) (by omega)
        (by simp only [List.length_drop]; omega) added
    refine ⟨after_sound, base_eq, limit_eq, by simp [covers, empty], ?_⟩
    intro bytes old position covered
    have start_le := after_sound.separated.low_le covered
    rw [← records bytes old position covered]
    split_ifs
    · rfl
    · rw [List.map_drop, show max off r.base = off + (r.base - off) by omega]
      exact (Memory.write_drop (by omega)).symm

/-- Adding a segment of any size keeps the buffer sound, keeps what was recorded, and records
nothing past the segment's end. -/
theorem add_bounds (sound : Sound r) (added : quicReasmAdd alloc r off data = some after) :
    Sound after ∧ after.base = r.base ∧ after.limit = r.limit ∧
      (∀ position, Span.Covers r.ranges position → Span.Covers after.ranges position) ∧
      ∀ position, Span.Covers after.ranges position →
        Span.Covers r.ranges position ∨ position < off + data.length := by
  have end_le : (off + data.length) % 2 ^ 64 ≤ off + data.length := Nat.mod_le _ _
  have end_ne : data.length % 2 ^ 64 ≠ 0 → (off + data.length) % 2 ^ 64 ≠ off := by omega
  simp only [quicReasmAdd_eq] at added
  generalize (off + data.length) % 2 ^ 64 = endOff at added end_le end_ne
  split_ifs at added with empty refused stale
  · cases added
    exact ⟨sound, rfl, rfl, fun _ covered => covered, fun _ covered => .inl covered⟩
  · cases added
    exact ⟨sound, rfl, rfl, fun _ covered => covered, fun _ covered => .inl covered⟩
  · have nonempty := end_ne empty
    obtain ⟨after_sound, base_eq, limit_eq, covers, -⟩ :=
      store_spec sound (le_max_right _ _) (by omega) (by omega)
        (by simp only [List.length_drop]; omega) added
    refine ⟨after_sound, base_eq, limit_eq, fun position covered =>
      (covers position).2 (.inr covered), fun position covered => ?_⟩
    rcases (covers position).1 covered with ⟨-, -, below⟩ | old
    · exact .inr (below.trans_le end_le)
    · exact .inl old

theorem covers_of_lt_readable {position : Nat} (base_le : r.base ≤ position)
    (readable : position < r.base + quicReasmReadable r) : Span.Covers r.ranges position := by
  unfold quicReasmReadable at readable
  split at readable
  · omega
  · next first rest ranges_eq =>
      split_ifs at readable with gap
      · omega
      · rw [ranges_eq, Span.covers_cons]
        omega

theorem not_covers_readable (sound : Sound r) :
    ¬ Span.Covers r.ranges (r.base + quicReasmReadable r) := by
  have separated := sound.separated
  unfold quicReasmReadable
  split
  · next ranges_eq => simp [ranges_eq]
  · next first rest ranges_eq =>
      rw [ranges_eq] at separated ⊢
      obtain ⟨low_le, nonempty, tail⟩ := separated
      intro covered
      rw [Span.covers_cons] at covered
      split_ifs at covered with gap
      · rcases covered with here | later
        · omega
        · have := tail.low_le later
          omega
      · rcases covered with here | later
        · omega
        · have := tail.low_le later
          omega

theorem le_readable {high : Nat} (sound : Sound r)
    (recorded : ∀ position, r.base ≤ position → position < high → Span.Covers r.ranges position) :
    high ≤ r.base + quicReasmReadable r := by
  by_contra short
  exact not_covers_readable sound (recorded _ (Nat.le_add_right _ _) (Nat.lt_of_not_le short))

/-- Consuming readable bytes moves the window and forgets exactly what lies below it. -/
theorem consume_spec {len : Nat} (sound : Sound r) (len_le : len ≤ quicReasmReadable r) :
    Sound (quicReasmConsume r len) ∧ (quicReasmConsume r len).base = r.base + len ∧
      (quicReasmConsume r len).limit = r.limit ∧
      (∀ position, Span.Covers (quicReasmConsume r len).ranges position ↔
        Span.Covers r.ranges position ∧ r.base + len ≤ position) ∧
      ∀ bytes, Records r bytes → Records (quicReasmConsume r len) bytes := by
  unfold quicReasmConsume
  split_ifs with nothing
  · subst nothing
    refine ⟨sound, rfl, rfl, ?_, fun bytes records => records⟩
    intro position
    exact (and_iff_left_of_imp sound.separated.low_le).symm
  · have len_pos : 0 < len := Nat.pos_of_ne_zero nothing
    cases ranges_eq : r.ranges with
    | nil =>
      simp only [quicReasmReadable, ranges_eq] at len_le
      omega
    | cons first rest =>
      simp only [quicReasmReadable, ranges_eq, ne_eq, ite_not] at len_le
      split_ifs at len_le with starts
      · have separated := sound.separated
        rw [ranges_eq] at separated
        have start_le : r.base + len ≤ first.endOff := by omega
        have covers : ∀ position, Span.Covers (Span.advance (r.base + len) (first :: rest))
            position ↔ Span.Covers (first :: rest) position ∧ r.base + len ≤ position :=
          fun position => Span.covers_advance separated (by omega) start_le
        have ends : ∀ range ∈ Span.advance (r.base + len) (first :: rest),
            ∃ old ∈ first :: rest, old.endOff = range.endOff :=
          fun range range_mem => Span.endOff_mem_advance range_mem
        refine ⟨⟨?_, ?_, ?_, bufferFits_discard sound.fits len, ?_⟩, rfl, rfl, covers, ?_⟩
        · exact Span.separated_advance separated start_le
        · intro range range_mem
          obtain ⟨old, old_mem, end_eq⟩ := ends range range_mem
          exact end_eq ▸ sound.below_limit old (ranges_eq ▸ old_mem)
        · intro range range_mem
          obtain ⟨old, old_mem, end_eq⟩ := ends range range_mem
          have := sound.in_buffer old (ranges_eq ▸ old_mem)
          simp only [bufLen_discard]
          omega
        · have capped := sound.capped
          rw [ranges_eq] at capped
          exact (Span.length_advance_le _ _).trans capped
        · intro bytes records position covered
          obtain ⟨old, above⟩ := (covers position).1 covered
          rw [← ranges_eq] at old
          obtain ⟨range, range_mem, off_le, lt_end⟩ := id old
          have in_buffer := sound.in_buffer range range_mem
          have cell_eq : position - (r.base + len) + len = position - r.base := by omega
          rw [records position old, bufData_discard (by simp only; omega), cell_eq]
      · omega

end QuicReasm

end Cx.Quic
