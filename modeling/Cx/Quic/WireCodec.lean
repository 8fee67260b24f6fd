import Cx.Quic.Wire

/-!
# What is written can be read back

Every writing step appends a known byte string when there is room for it, and every reading step
that stands at such a string returns what it was made from and stops right behind it.  Writers and
readers of larger things are put together from these steps.
-/

namespace Cx.Quic

open List

/-- A writing step that appends a fixed byte string whenever it fits. -/
def Appends (write : QuicWr → QuicWr) (bytes : List UInt8) : Prop :=
  ∀ wr : QuicWr, wr.bad = false → wr.out.length + bytes.length ≤ wr.bufsz →
    write wr = { wr with out := wr.out ++ bytes }

/-- A reading step that takes a fixed byte string off the front and returns a fixed value. -/
def Takes {α : Type*} (read : QuicRd → α × QuicRd) (bytes : List UInt8) (value : α) : Prop :=
  ∀ rest, read ⟨bytes ++ rest, false⟩ = (value, ⟨rest, false⟩)

theorem appends_id : Appends id [] := by
  intro wr _ _
  simp

variable {first second : QuicWr → QuicWr} {front back : List UInt8}

theorem Appends.comp (then_second : Appends second back) (write_first : Appends first front) :
    Appends (fun wr => second (first wr)) (front ++ back) := by
  intro wr good room
  simp only [length_append] at room
  have after_room : (wr.out ++ front).length + back.length ≤ wr.bufsz := by
    rw [length_append]
    omega
  change second (first wr) = _
  rw [write_first wr good (by omega), then_second { wr with out := wr.out ++ front } good
    after_room,
    append_assoc]

variable (data : List UInt8)

theorem appends_bytes : Appends (fun wr => quicWrBytes wr data) data := by
  intro wr good room
  have fits : ¬ (wr.bad = true ∨ wr.bufsz - wr.out.length < data.length) := by
    rw [good]
    simp only [Bool.false_eq_true, false_or, not_lt]
    omega
  exact if_neg fits

theorem takes_bytes : Takes (fun rd => quicRdBytes rd data.length) data (some data) := by
  intro rest
  simp [quicRdBytes]

/-- Reading the low bytes of a value back continues the number read so far with them. -/
theorem quicBigEndian_bytesOf (start value count : Nat) :
    quicBigEndian start (quicBytesOf value count) = start * 256 ^ count + value % 256 ^ count := by
  induction count generalizing start with
  | zero => simp [quicBytesOf, quicBigEndian, Nat.mod_one]
  | succ count ih =>
    have byte : (UInt8.ofNat (value / 256 ^ count)).toNat = value / 256 ^ count % 256 := by
      simp
    change quicBigEndian (start * 256 + (UInt8.ofNat (value / 256 ^ count)).toNat)
      (quicBytesOf value count) = _
    rw [ih, byte, Nat.pow_succ, Nat.mod_mul]
    ring

theorem appends_int (value count : Nat) :
    Appends (fun wr => quicWrInt wr value count) (quicBytesOf value count) :=
  appends_bytes _

variable {value size : Nat} {data : List UInt8}

theorem takes_int {count : Nat} (fits : value < 256 ^ count) :
    Takes (fun rd => quicRdInt rd count) (quicBytesOf value count) value := by
  intro rest
  have read := takes_bytes (quicBytesOf value count) rest
  rw [length_quicBytesOf] at read
  simp only [quicRdInt, read, quicBigEndian_bytesOf, Nat.mod_eq_of_lt fits]
  simp

theorem appends_8 (value : Nat) : Appends (fun wr => quicWr8 wr value) (quicBytesOf value 1) :=
  appends_int value 1

theorem takes_8 (fits : value < 256) : Takes quicRd8 (quicBytesOf value 1) value :=
  takes_int (by simpa using fits)

/-- The widths a variable-length integer can have, and the mark that names each. -/
theorem varint_width (width : size = 1 ∨ size = 2 ∨ size = 4 ∨ size = 8) :
    ∃ exponent, exponent < 4 ∧ size = 2 ^ exponent ∧
      (if size = 1 then 0 else if size = 2 then 1 else if size = 4 then 2 else 3) = exponent := by
  rcases width with rfl | rfl | rfl | rfl
  · exact ⟨0, by decide⟩
  · exact ⟨1, by decide⟩
  · exact ⟨2, by decide⟩
  · exact ⟨3, by decide⟩

/-- The first byte of a variable-length integer: the width above, the value below. -/
theorem toNat_or_width {high exponent : Nat} (high_lt : high < 64) (exponent_lt : exponent < 4) :
    (UInt8.ofNat high ||| UInt8.ofNat (exponent * 64)).toNat = exponent * 64 + high := by
  have shifted : exponent * 64 = 2 ^ 6 * exponent := by omega
  rw [UInt8.toNat_or, UInt8.toNat_ofNat', UInt8.toNat_ofNat', Nat.mod_eq_of_lt (by omega),
    Nat.mod_eq_of_lt (by omega), shifted, Nat.or_comm, ← Nat.two_pow_add_eq_or_of_lt high_lt]

@[simp] theorem length_quicVarintBytes (value size : Nat) :
    (quicVarintBytes value size).length = size := by
  have length_eq := length_quicBytesOf value size
  unfold quicVarintBytes
  cases bytes_eq : quicBytesOf value size with
  | nil | cons => rw [bytes_eq] at length_eq; exact length_eq

/-- A value that leaves the top two bits of its first byte free is read back. -/
theorem takes_varintBytes (width : size = 1 ∨ size = 2 ∨ size = 4 ∨ size = 8)
    (fits : value < 64 * 256 ^ (size - 1)) :
    Takes quicRdVarint (quicVarintBytes value size) value := by
  intro rest
  obtain ⟨exponent, exponent_lt, size_eq, mark_eq⟩ := varint_width width
  obtain ⟨tail, rfl⟩ : ∃ tail, size = tail + 1 := ⟨size - 1, by omega⟩
  have high_lt : value / 256 ^ tail < 64 :=
    Nat.div_lt_of_lt_mul (by rw [Nat.mul_comm]; exact fits)
  have first_eq := toNat_or_width high_lt exponent_lt
  have split_eq : ∀ high < 64, (exponent * 64 + high) / 64 = exponent ∧
      (exponent * 64 + high) % 64 = high := by
    intro high _
    constructor <;> omega
  obtain ⟨width_eq, low_eq⟩ := split_eq _ high_lt
  have length_eq : (quicBytesOf value tail).length = tail := length_quicBytesOf value tail
  have value_eq : value / 256 ^ tail * 256 ^ tail + value % 256 ^ tail = value := by
    rw [Nat.mul_comm]
    exact Nat.div_add_mod value (256 ^ tail)
  simp only [quicVarintBytes, quicBytesOf, mark_eq, cons_append, quicRdVarint, first_eq,
    width_eq, low_eq, ← size_eq, Nat.add_sub_cancel, length_append, length_eq]
  rw [if_neg (by omega), take_left' length_eq, drop_left' length_eq,
    quicBigEndian_bytesOf, value_eq]

theorem quicVarintSize_le_eight (value : Nat) : quicVarintSize value ≤ 8 := by
  unfold quicVarintSize
  split_ifs <;> decide

def varintBytes (value : Nat) : List UInt8 := quicVarintBytes value (quicVarintSize value)

@[simp] theorem length_varintBytes (value : Nat) :
    (varintBytes value).length = quicVarintSize value :=
  length_quicVarintBytes _ _

section

variable (fits : value < QUIC_MAX_PACKET_NUMBER)

include fits

/-- The shortest encoding of a value has room for it. -/
theorem quicVarintSize_spec :
    (quicVarintSize value = 1 ∨ quicVarintSize value = 2 ∨ quicVarintSize value = 4 ∨
      quicVarintSize value = 8) ∧ value < 64 * 256 ^ (quicVarintSize value - 1) := by
  unfold quicVarintSize
  unfold QUIC_MAX_PACKET_NUMBER at fits ⊢
  split_ifs with one two four
  · simpa using one
  · exact ⟨by decide, by simpa using two⟩
  · exact ⟨by decide, by simpa using four⟩
  · exact ⟨by decide, by simpa using fits⟩

/-- A wider encoding than the shortest has room as well. -/
theorem quicVarintSize_le (wide : quicVarintSize value ≤ size) : value < 64 * 256 ^ (size - 1) :=
  (quicVarintSize_spec fits).2.trans_le
    (Nat.mul_le_mul_left 64 (Nat.pow_le_pow_right (by decide) (Nat.sub_le_sub_right wide 1)))

theorem appends_varintSized (width : size = 1 ∨ size = 2 ∨ size = 4 ∨ size = 8)
    (wide : quicVarintSize value ≤ size) :
    Appends (fun wr => quicWrVarintSized wr value size) (quicVarintBytes value size) := by
  intro wr good room
  have present := (quicVarintSize_spec fits).1
  have allowed : ¬ (quicVarintSize value = 0 ∨ size < quicVarintSize value ∨
      (size ≠ 1 ∧ size ≠ 2 ∧ size ≠ 4 ∧ size ≠ 8)) := by
    omega
  exact (if_neg allowed).trans (appends_bytes _ wr good room)

theorem appends_varint : Appends (fun wr => quicWrVarint wr value) (varintBytes value) :=
  appends_varintSized fits (quicVarintSize_spec fits).1 le_rfl

theorem takes_varint : Takes quicRdVarint (varintBytes value) value :=
  takes_varintBytes (quicVarintSize_spec fits).1 (quicVarintSize_spec fits).2

end

theorem takes_varintBytesSized (width : size = 1 ∨ size = 2 ∨ size = 4 ∨ size = 8)
    (fits : data.length < 64 * 256 ^ (size - 1)) :
    Takes quicRdVarintBytes (quicVarintBytes data.length size ++ data) (some data) := by
  intro rest
  have length_read := takes_varintBytes width fits (data ++ rest)
  rw [quicRdVarintBytes, append_assoc, length_read]
  simp only [quicRdLeft, Bool.false_eq_true, false_or, if_false, length_append]
  rw [if_neg (by omega)]
  exact takes_bytes data rest

theorem takes_varintBytesOf (fits : data.length < QUIC_MAX_PACKET_NUMBER) :
    Takes quicRdVarintBytes (varintBytes data.length ++ data) (some data) :=
  takes_varintBytesSized (quicVarintSize_spec fits).1 (quicVarintSize_spec fits).2

/-- A writing step that, unless it fails, appends a fixed byte string. -/
def Writes (write : QuicWr → QuicWr) (bytes : List UInt8) : Prop :=
  ∀ wr, (write wr).bad = false → wr.bad = false ∧ write wr = { wr with out := wr.out ++ bytes }

theorem writes_id : Writes id [] := by
  intro wr good
  exact ⟨good, by simp⟩

theorem Writes.comp (then_second : Writes second back) (write_first : Writes first front) :
    Writes (fun wr => second (first wr)) (front ++ back) := by
  intro wr good
  obtain ⟨first_good, second_eq⟩ := then_second (first wr) good
  obtain ⟨wr_good, first_eq⟩ := write_first wr first_good
  refine ⟨wr_good, ?_⟩
  change second (first wr) = _
  rw [second_eq, first_eq, append_assoc]

theorem writes_bytes (data : List UInt8) : Writes (fun wr => quicWrBytes wr data) data := by
  intro wr good
  simp only [quicWrBytes] at good ⊢
  split_ifs at good ⊢ with full
  · exact ⟨by simpa using good, rfl⟩

theorem writes_varint (value : Nat) : Writes (fun wr => quicWrVarint wr value)
    (varintBytes value) := by
  intro wr good
  simp only [quicWrVarint, quicWrVarintSized] at good ⊢
  split_ifs at good ⊢ with unfit
  · exact writes_bytes _ wr good

/-- A writer that went on writing: what is there stays, and a failure is not forgotten. -/
structure QuicWr.Grows (before after : QuicWr) : Prop where
  bufsz_eq : after.bufsz = before.bufsz
  length_le : before.out.length ≤ after.out.length
  within : before.out.length ≤ before.bufsz → after.out.length ≤ after.bufsz
  bad : before.bad = true → after.bad = true

theorem QuicWr.Grows.refl (wr : QuicWr) : wr.Grows wr := ⟨rfl, le_rfl, id, id⟩

theorem QuicWr.Grows.trans {before middle after : QuicWr} (first : before.Grows middle)
    (second : middle.Grows after) : before.Grows after :=
  ⟨second.bufsz_eq.trans first.bufsz_eq, first.length_le.trans second.length_le,
    fun fits => second.within (first.within fits), fun failed => second.bad (first.bad failed)⟩

/-- A writing step for a fixed byte string: it appends that and nothing else unless it fails, and
it does not fail when what it writes can be encoded and there is room. -/
structure Emits (write : QuicWr → QuicWr) (bytes : List UInt8) (fits : Prop) : Prop where
  grows : ∀ wr, QuicWr.Grows wr (write wr)
  writes : Writes write bytes
  appends : fits → Appends write bytes

section Emits

variable {fits : Prop}

theorem emits_id : Emits id [] fits := ⟨.refl, writes_id, fun _ => appends_id⟩

theorem Emits.next (one : Emits first front fits) (two : Emits second back fits) :
    Emits (fun wr => second (first wr)) (front ++ back) fits :=
  ⟨fun wr => (one.grows wr).trans (two.grows _), two.writes.comp one.writes,
    fun holds => (two.appends holds).comp (one.appends holds)⟩

theorem grows_bytes (wr : QuicWr) (data : List UInt8) : wr.Grows (quicWrBytes wr data) := by
  fun_cases quicWrBytes wr data with
  | case1 => exact ⟨rfl, le_rfl, id, fun _ => rfl⟩
  | case2 room =>
    refine ⟨rfl, by simp, fun inside => ?_, id⟩
    simp only [length_append]
    omega

theorem emits_bytes (data : List UInt8) : Emits (fun wr => quicWrBytes wr data) data fits :=
  ⟨fun wr => grows_bytes wr data, writes_bytes data, fun _ => appends_bytes data⟩

theorem emits_varint (encodes : fits → value < QUIC_MAX_PACKET_NUMBER) :
    Emits (fun wr => quicWrVarint wr value) (varintBytes value) fits := by
  refine ⟨fun wr => ?_, writes_varint value, fun holds => appends_varint (encodes holds)⟩
  rw [quicWrVarint]
  fun_cases quicWrVarintSized wr value (quicVarintSize value) with
  | case1 => exact ⟨rfl, le_rfl, id, fun _ => rfl⟩
  | case2 => exact grows_bytes wr _

theorem emits_varintBytes (encodes : fits → data.length < QUIC_MAX_PACKET_NUMBER) :
    Emits (fun wr => quicWrVarintBytes wr data) (varintBytes data.length ++ data) fits :=
  (emits_varint encodes).next (emits_bytes data)

end Emits

theorem QuicRd.eq_of_good {rd : QuicRd} (good : rd.bad = false) : rd = ⟨rd.data, false⟩ := by
  obtain ⟨data, bad⟩ := rd
  exact congrArg (QuicRd.mk data) good

theorem quicRdVarint_bad {rd : QuicRd} (bad : rd.bad = true) : (quicRdVarint rd).2.bad = true := by
  obtain ⟨data, flag⟩ := rd
  simp only at bad
  subst bad
  rfl

/-- A variable-length integer that could be read is read the same way when more bytes follow. -/
theorem quicRdVarint_append (good : (quicRdVarint ⟨data, false⟩).2.bad = false)
    (rest : List UInt8) :
    quicRdVarint ⟨data ++ rest, false⟩ = ((quicRdVarint ⟨data, false⟩).1,
      ⟨(quicRdVarint ⟨data, false⟩).2.data ++ rest, false⟩) := by
  cases data with
  | nil => cases good
  | cons first tail =>
    by_cases short : tail.length + 1 < 2 ^ (first.toNat / 64)
    · simp [quicRdVarint, short] at good
    · have long : ¬ (tail ++ rest).length + 1 < 2 ^ (first.toNat / 64) := by
        rw [length_append]
        omega
      have enough : 2 ^ (first.toNat / 64) - 1 ≤ tail.length := by omega
      simp only [cons_append, quicRdVarint, if_neg short, if_neg long,
        take_append_of_le_length enough, drop_append_of_le_length enough]

end Cx.Quic
