import Cx.Library.Run

/-!
# Identifiers that sort by time

An identifier packs a type, the milliseconds on the wall clock, the host and a counter.  Each thread
remembers the millisecond and the counter it used last, and moves them ahead of a clock that stands
still or steps back; but the millisecond in the identifier is the one on the clock.
-/

namespace Cx

open Library

structure SUID where
  high : Nat
  low : Nat

structure SuidTLSData where
  lastts : Nat := 0
  lastrng : Nat := 0

def suidCmp (a b : SUID) : Int :=
  if a.high > b.high then 1
  else if a.high < b.high then -1
  else if a.low > b.low then 1
  -- the source asks the same question twice
  else if a.low > b.low then -1
  else 0

/-- The wall clock's microseconds as 48 bits of milliseconds since 1970. -/
def suidTime (clock : UInt64) : Nat :=
  (clock.toNat / 1000 + 2 ^ 64 - 210866760000000) % 2 ^ 64 % 2 ^ 48

def suidPack (idtype : UInt8) (hid : UInt64) (systime rng : Nat) : SUID :=
  let hid := hid.toNat % 2 ^ 40
  ⟨idtype.toNat <<< 56 ||| systime <<< 8 ||| hid >>> 32, hid <<< 32 % 2 ^ 64 ||| rng⟩

/-- Make an identifier on a host whose number is `hid`. -/
def suidGen (idtype : UInt8) (hid clock : UInt64) (random : UInt32) (tls : SuidTLSData) :
    SUID × SuidTLSData :=
  let systime := suidTime clock
  let tls : SuidTLSData :=
    if systime ≤ tls.lastts then
      let rng := (tls.lastrng + 1) % 2 ^ 32
      ⟨if rng = 0 then (tls.lastts + 1) % 2 ^ 64 else tls.lastts, rng⟩
    else ⟨systime, random.toNat⟩
  (suidPack idtype hid systime tls.lastrng, tls)

variable {idtype : UInt8} {hid : UInt64}

theorem suidPack_eq {systime rng : Nat} (time_lt : systime < 2 ^ 48) (rng_lt : rng < 2 ^ 32) :
    suidPack idtype hid systime rng =
      ⟨(idtype.toNat * 2 ^ 48 + systime) * 2 ^ 8 + hid.toNat % 2 ^ 40 / 2 ^ 32,
        hid.toNat % 2 ^ 32 * 2 ^ 32 + rng⟩ := by
  have high_time : idtype.toNat <<< 56 ||| systime <<< 8 =
      (idtype.toNat * 2 ^ 48 + systime) <<< 8 := by
    rw [← Nat.shiftLeft_add_eq_or_of_lt (by rw [Nat.shiftLeft_eq]; omega)]
    simp only [Nat.shiftLeft_eq]
    omega
  have low_host : (hid.toNat % 2 ^ 40) <<< 32 % 2 ^ 64 = (hid.toNat % 2 ^ 32) <<< 32 := by
    simp only [Nat.shiftLeft_eq]
    omega
  rw [suidPack, high_time, low_host,
    ← Nat.shiftLeft_add_eq_or_of_lt (by rw [Nat.shiftRight_eq_div_pow]; omega),
    ← Nat.shiftLeft_add_eq_or_of_lt rng_lt]
  simp only [Nat.shiftLeft_eq, Nat.shiftRight_eq_div_pow]

/-- A later millisecond, or a higher counter in the same one, compares greater. -/
theorem suidCmp_pack {early late rng next : Nat} (early_lt : early < 2 ^ 48)
    (late_lt : late < 2 ^ 48) (rng_lt : rng < 2 ^ 32) (next_lt : next < 2 ^ 32)
    (order : early < late ∨ early = late ∧ rng < next) :
    suidCmp (suidPack idtype hid late next) (suidPack idtype hid early rng) = 1 := by
  rw [suidPack_eq late_lt next_lt, suidPack_eq early_lt rng_lt, suidCmp]
  rcases order with later | ⟨rfl, higher⟩
  · rw [if_pos (by dsimp only; omega)]
  · simp [higher]

/-- A thread with the identifier it made last. -/
abbrev SuidThread := SuidTLSData × Option SUID

def suidStep (idtype : UInt8) (hid : UInt64) (thread : SuidThread) (input : UInt64 × UInt32) :
    SuidThread :=
  let made := suidGen idtype hid input.1 input.2 thread.1
  (made.2, some made.1)

/-- The clock has not stepped back, and the counter has not run out within a millisecond. -/
def SuidSteady (thread : SuidThread) (input : UInt64 × UInt32) : Prop :=
  thread.1.lastts ≤ suidTime input.1 ∧
    (suidTime input.1 = thread.1.lastts → thread.1.lastrng + 1 < 2 ^ 32)

instance (thread : SuidThread) (input : UInt64 × UInt32) : Decidable (SuidSteady thread input) :=
  inferInstanceAs (Decidable (_ ∧ _))

def SuidKept (idtype : UInt8) (hid : UInt64) (thread : SuidThread) : Prop :=
  thread.1.lastts < 2 ^ 48 ∧ thread.1.lastrng < 2 ^ 32 ∧
    ∀ id ∈ thread.2, id = suidPack idtype hid thread.1.lastts thread.1.lastrng

theorem suidGen_steady {thread : SuidThread} {input : UInt64 × UInt32}
    (kept : SuidKept idtype hid thread) (steady : SuidSteady thread input) :
    SuidKept idtype hid (suidStep idtype hid thread input) ∧
      ∀ id ∈ thread.2, suidCmp (suidGen idtype hid input.1 input.2 thread.1).1 id = 1 := by
  obtain ⟨time_lt, rng_lt, packed⟩ := kept
  obtain ⟨forward, room⟩ := steady
  have now_lt : suidTime input.1 < 2 ^ 48 := Nat.mod_lt _ (by decide)
  rcases Nat.eq_or_lt_of_le forward with same | later
  · have next_eq : (thread.1.lastrng + 1) % 2 ^ 32 = thread.1.lastrng + 1 :=
      Nat.mod_eq_of_lt (room same.symm)
    simp only [suidStep, suidGen, ← same, le_refl, if_true, next_eq, Nat.add_eq_zero_iff,
      one_ne_zero, and_false, if_false]
    refine ⟨⟨time_lt, room same.symm, by simp⟩, fun id made => ?_⟩
    rw [packed id made]
    exact suidCmp_pack time_lt time_lt rng_lt (room same.symm) (.inr ⟨rfl, Nat.lt_succ_self _⟩)
  · simp only [suidStep, suidGen, Nat.not_le.2 later, if_false]
    refine ⟨⟨now_lt, input.2.toNat_lt, by simp⟩, fun id made => ?_⟩
    rw [packed id made]
    exact suidCmp_pack time_lt now_lt rng_lt input.2.toNat_lt (.inl later)

/-- While the clock does not step back and the counter does not run out, each identifier compares
greater than the one before it. -/
theorem suidGen_sorted (front : List (UInt64 × UInt32)) (input : UInt64 × UInt32)
    (steady : Admits (suidStep idtype hid) SuidSteady ({}, none) (front ++ [input])) :
    let thread := run (suidStep idtype hid) ({}, none) front
    ∀ id ∈ thread.2, suidCmp (suidGen idtype hid input.1 input.2 thread.1).1 id = 1 := by
  obtain ⟨before, last, -⟩ := admits_append.1 steady
  have kept := admits_invariant (SuidKept idtype hid) ⟨by decide, by decide, by simp⟩
    (fun _ _ kept steady => (suidGen_steady kept steady).1) before
  exact (suidGen_steady kept last).2

/-- Two identifiers within a millisecond. -/
theorem suidGen_sorted_same_time :
    let thread := run (suidStep 1 5) ({}, none) [(210866760000002000, 7)]
    ∃ id ∈ thread.2, suidCmp (suidGen 1 5 210866760000002999 9 thread.1).1 id = 1 :=
  ⟨_, rfl, suidGen_sorted [(210866760000002000, 7)] (210866760000002999, 9) (by decide +kernel) _
    rfl⟩

/-- The clock steps back by a millisecond, and the next identifier compares less. -/
theorem suidGen_falls_back :
    let first := suidGen 1 5 210866760000002000 7 {}
    suidCmp (suidGen 1 5 210866760000001000 9 first.2).1 first.1 = -1 := by
  decide +kernel

end Cx
