import Cx.Library.Run
import Cx.Quic.Reasm

/-!
# Reassembly along whole runs

Beside the buffer a trace keeps the sparse map it stands for: for each offset of the stream, the
byte most recently accepted there.  The reader consumes no more than is readable and the limit is
never lowered; segments come at any offset, in any order and with any overlap.
-/

namespace Cx.Quic

open Library

structure ReasmTrace where
  reasm : QuicReasm
  /-- The byte most recently accepted for each offset. -/
  latest : Nat → Option UInt8

inductive ReasmOp
  | add (alloc : Nat → Bool) (off : Nat) (data : List UInt8)
  | consume (len : Nat)
  | raise (limit : Nat)

def reasmStart (limit : Nat) : ReasmTrace := ⟨quicReasmInit limit, fun _ => none⟩

def reasmStep (t : ReasmTrace) : ReasmOp → ReasmTrace
  | .add alloc off data =>
    match quicReasmAdd alloc t.reasm off data with
    | none => t
    | some after =>
      ⟨after, if t.reasm.Drops (max off t.reasm.base) (off + data.length) then t.latest
        else Memory.write t.latest off (data.map some)⟩
  | .consume len => { t with reasm := quicReasmConsume t.reasm len }
  | .raise limit => { t with reasm := { t.reasm with limit := limit } }

/-- What the callers of the three operations guarantee; lengths are 64-bit values. -/
def ReasmAllowed (t : ReasmTrace) : ReasmOp → Prop
  | .add _ _ data => data.length < 2 ^ 64
  | .consume len => len ≤ quicReasmReadable t.reasm
  | .raise limit => t.reasm.limit ≤ limit

instance (t : ReasmTrace) (op : ReasmOp) : Decidable (ReasmAllowed t op) :=
  match op with
  | .add _ _ _ => inferInstanceAs (Decidable (_ < _))
  | .consume _ => inferInstanceAs (Decidable (_ ≤ _))
  | .raise _ => inferInstanceAs (Decidable (_ ≤ _))

/-- The buffer is sound and holds the latest byte at each recorded offset. -/
structure ReasmTrace.Faithful (t : ReasmTrace) : Prop where
  sound : t.reasm.Sound
  records : t.reasm.Records t.latest

theorem ReasmTrace.Faithful.step {t : ReasmTrace} {op : ReasmOp} (faithful : t.Faithful)
    (allowed : ReasmAllowed t op) : (reasmStep t op).Faithful := by
  cases op with
  | add alloc off data =>
    simp only [reasmStep]
    split
    · exact faithful
    · next after added =>
        obtain ⟨sound, -, -, -, records⟩ := QuicReasm.add_spec faithful.sound allowed added
        exact ⟨sound, records _ faithful.records⟩
  | consume len =>
    obtain ⟨sound, -, -, -, records⟩ := QuicReasm.consume_spec faithful.sound allowed
    exact ⟨sound, records _ faithful.records⟩
  | raise limit =>
    have sound := faithful.sound
    exact ⟨{ sound with
      below_limit := fun range range_mem => (sound.below_limit range range_mem).trans allowed },
      faithful.records⟩

variable {limit : Nat} {ops : List ReasmOp}

theorem faithful_reasmRun (admitted : Admits reasmStep ReasmAllowed (reasmStart limit) ops) :
    (run reasmStep (reasmStart limit) ops).Faithful :=
  admits_invariant ReasmTrace.Faithful
    ⟨QuicReasm.sound_init limit, fun _ ⟨_, mem, _⟩ => nomatch mem⟩
    (fun _ _ faithful allowed => faithful.step allowed) admitted

/-- The buffer is a sparse map from offsets to the bytes most recently accepted there, held as
sorted ranges with a gap between any two; a segment is either recorded whole, from `base` on, or
changes nothing. -/
theorem reasm_refines_latest_bytes
    (admitted : Admits reasmStep ReasmAllowed (reasmStart limit) ops) :
    let t := run reasmStep (reasmStart limit) ops
    (∀ range ∈ t.reasm.ranges, range.off < range.endOff ∧ t.reasm.base ≤ range.off ∧
        range.endOff ≤ t.reasm.limit ∧ range.endOff ≤ t.reasm.base + bufLen t.reasm.buf) ∧
      t.reasm.ranges.Pairwise (fun first second => first.endOff < second.off) ∧
      t.reasm.ranges.length ≤ QUIC_REASM_MAX_RANGES ∧
      (∀ position, Span.Covers t.reasm.ranges position →
        t.latest position = some (quicReasmData t.reasm (position - t.reasm.base))) ∧
      ∀ alloc off data, data.length < 2 ^ 64 →
        reasmStep t (.add alloc off data) = t ∨
          quicReasmAdd alloc t.reasm off data ≠ none ∧
            ∀ position, max off t.reasm.base ≤ position → position < off + data.length →
              Span.Covers (reasmStep t (.add alloc off data)).reasm.ranges position := by
  intro t
  obtain ⟨sound, records⟩ := faithful_reasmRun admitted
  refine ⟨?_, sound.separated.pairwise, sound.capped, records, ?_⟩
  · intro range range_mem
    obtain ⟨base_le, nonempty⟩ := sound.separated.off_le range_mem
    exact ⟨nonempty, base_le, sound.below_limit range range_mem, sound.in_buffer range range_mem⟩
  · intro alloc off data size_lt
    cases added : quicReasmAdd alloc t.reasm off data with
    | none => exact .inl (by simp only [reasmStep, added])
    | some after =>
      by_cases dropped : t.reasm.Drops (max off t.reasm.base) (off + data.length)
      · have same := QuicReasm.add_of_drops size_lt dropped added
        exact .inl (by simp only [reasmStep, added, if_pos dropped, same])
      · refine .inr ⟨nofun, fun position start_le lt_end => ?_⟩
        obtain ⟨-, -, -, covers, -⟩ := QuicReasm.add_spec sound size_lt added
        simp only [reasmStep, added]
        exact (covers position).2 (.inl ⟨by omega, dropped, start_le, lt_end⟩)

theorem reasm_refines_latest_bytes_overlap :
    let t := run reasmStep (reasmStart 8)
      [.add (fun _ => true) 2 [3, 4], .add (fun _ => true) 0 [1, 2, 5], .consume 1]
    t.reasm.ranges = [⟨1, 4⟩] ∧ t.latest 2 = some (quicReasmData t.reasm 1) ∧
      t.latest 2 = some 5 :=
  have refines := @reasm_refines_latest_bytes 8
    [.add (fun _ => true) 2 [3, 4], .add (fun _ => true) 0 [1, 2, 5], .consume 1] (by decide)
  ⟨by decide, refines.2.2.2.1 2 ⟨⟨1, 4⟩, by decide, by simp⟩, by decide⟩

/-- A segment that reaches past `base` from at or below it makes its bytes readable exactly when
a range is free or the first held range touches it. -/
theorem reasm_in_order_readable_iff {alloc : Nat → Bool} {off : Nat} {data : List UInt8}
    {after : QuicReasm} (admitted : Admits reasmStep ReasmAllowed (reasmStart limit) ops)
    (size_lt : data.length < 2 ^ 64)
    (off_le : off ≤ (run reasmStep (reasmStart limit) ops).reasm.base)
    (base_lt : (run reasmStep (reasmStart limit) ops).reasm.base < off + data.length)
    (added : quicReasmAdd alloc (run reasmStep (reasmStart limit) ops).reasm off data =
      some after) :
    off + data.length - (run reasmStep (reasmStart limit) ops).reasm.base ≤
        quicReasmReadable after ↔
      (run reasmStep (reasmStart limit) ops).reasm.ranges.length < QUIC_REASM_MAX_RANGES ∨
        ∃ first ∈ (run reasmStep (reasmStart limit) ops).reasm.ranges.head?,
          first.off ≤ off + data.length := by
  have sound := (faithful_reasmRun admitted).sound
  generalize (run reasmStep (reasmStart limit) ops).reasm = r at *
  have drops_iff : r.Drops (max off r.base) (off + data.length) ↔
      ¬ (r.ranges.length < QUIC_REASM_MAX_RANGES ∨
        ∃ first ∈ r.ranges.head?, first.off ≤ off + data.length) := by
    rw [QuicReasm.Drops, Nat.max_eq_right off_le]
    cases ranges_eq : r.ranges with
    | nil => simp [QUIC_REASM_MAX_RANGES]
    | cons first rest =>
      have separated := sound.separated
      rw [ranges_eq, Span.separated_cons] at separated
      rw [Span.isolated_cons_iff (by omega)]
      simp [and_comm]
  obtain ⟨after_sound, base_eq, -, covers, -⟩ := QuicReasm.add_spec sound size_lt added
  constructor
  · intro readable
    by_contra full
    have dropped := drops_iff.2 full
    rw [QuicReasm.add_of_drops size_lt dropped added] at readable
    -- the first range starts past the segment, so nothing is readable
    unfold quicReasmReadable at readable
    split at readable
    · omega
    · next first rest ranges_eq =>
        split_ifs at readable with gap
        · omega
        · exact full (.inr ⟨first, by simp [ranges_eq], by omega⟩)
  · intro room
    have recorded := QuicReasm.le_readable after_sound fun position base_le lt_end =>
      (covers position).2 (.inl ⟨by omega, drops_iff.not_left.2 room, by omega, lt_end⟩)
    omega

theorem reasm_in_order_readable_below_gap : ∃ after, quicReasmAdd (fun _ => true)
        (run reasmStep (reasmStart 8) [.add (fun _ => true) 2 [0]]).reasm 0 [7] = some after ∧
      1 ≤ quicReasmReadable after :=
  ⟨_, rfl, (@reasm_in_order_readable_iff 8 [.add (fun _ => true) 2 [0]] (fun _ => true) 0 [7] _
    (by decide) (by decide) (by decide) (by decide) rfl).2 (.inl (by decide))⟩

/-- Sixteen ranges with gaps between them, the first byte still missing. -/
def reasmSparse : List ReasmOp :=
  (List.range 16).map fun index => .add (fun _ => true) (2 * index + 2) [0]

/-- The missing first byte is reported as accepted, but dropped. -/
theorem reasm_in_order_dropped : Admits reasmStep ReasmAllowed (reasmStart 64) reasmSparse ∧
      (run reasmStep (reasmStart 64) reasmSparse).reasm.base = 0 ∧
      ((quicReasmAdd (fun _ => true) (run reasmStep (reasmStart 64) reasmSparse).reasm 0 [7]).map
        quicReasmReadable) = some 0 := by
  decide +kernel

end Cx.Quic
