import Mathlib.Data.List.Basic
import Mathlib.Tactic

/-!
# Readers, writers and variable-length integers

A reader is the unread rest of a byte string and a sticky error flag; a writer is what was written
so far into a buffer of a fixed size, with the same kind of flag.  The pointers of the source
become the lists they delimit.
-/

namespace Cx.Quic

/-- One past the largest value a variable-length integer or packet number can have. -/
def QUIC_MAX_PACKET_NUMBER : Nat := 2 ^ 62

/-- The largest 64-bit value. -/
def UINT64_MAX : Nat := 2 ^ 64 - 1

/-- Subtraction of 64-bit values, which wraps below zero. -/
def uint64Sub (left right : Nat) : Nat :=
  if right ≤ left then left - right else left + 2 ^ 64 - right

/-- Addition of two `uint64` values. -/
def uint64Add (left right : Nat) : Nat := (left + right) % 2 ^ 64

theorem uint64Add_eq {left right : Nat} (small : left + right < 2 ^ 64) :
    uint64Add left right = left + right :=
  Nat.mod_eq_of_lt small

structure QuicRd where
  data : List UInt8
  bad : Bool
deriving DecidableEq, Repr

def quicRdInit (data : List UInt8) : QuicRd := ⟨data, false⟩

section

variable (rd : QuicRd)

def quicRdLeft : Nat := if rd.bad then 0 else rd.data.length

def quicRdBytes (count : Nat) : Option (List UInt8) × QuicRd :=
  if rd.bad ∨ rd.data.length < count then (none, { rd with bad := true })
  else (some (rd.data.take count), { rd with data := rd.data.drop count })

/-- The big-endian number that continues `start` with the given bytes. -/
def quicBigEndian (start : Nat) (bytes : List UInt8) : Nat :=
  bytes.foldl (fun value byte => value * 256 + byte.toNat) start

/-- Read a big-endian integer of `count` bytes. -/
def quicRdInt (count : Nat) : Nat × QuicRd :=
  match quicRdBytes rd count with
  | (none, after) => (0, after)
  | (some bytes, after) => (quicBigEndian 0 bytes, after)

def quicRd8 : Nat × QuicRd := quicRdInt rd 1

def quicRdVarint : Nat × QuicRd :=
  match rd.bad, rd.data with
  | true, _ => (0, { rd with bad := true })
  | false, [] => (0, { rd with bad := true })
  | false, first :: rest =>
    let width := 2 ^ (first.toNat / 64)
    if rest.length + 1 < width then (0, { rd with bad := true })
    else
      (quicBigEndian (first.toNat % 64) (rest.take (width - 1)),
        { rd with data := rest.drop (width - 1) })

def quicRdVarintBytes : Option (List UInt8) × QuicRd :=
  let (length, after) := quicRdVarint rd
  if after.bad ∨ length > quicRdLeft after then (none, { after with bad := true })
  else quicRdBytes after length

/-- Reading a variable-length integer either fails or uses at least one byte. -/
theorem quicRdVarint_progress : (quicRdVarint rd).2.bad = true ∨
      (quicRdVarint rd).2.data.length < rd.data.length := by
  obtain ⟨data, bad⟩ := rd
  unfold quicRdVarint
  split
  · exact .inl rfl
  · exact .inl rfl
  · next first rest bad_eq data_eq =>
      simp only at bad_eq data_eq
      subst data_eq
      simp only
      split_ifs with short
      · exact .inl rfl
      · refine .inr ?_
        simp only [List.length_drop, List.length_cons]
        omega

theorem quicRdVarint_length_le : (quicRdVarint rd).2.data.length ≤ rd.data.length := by
  obtain ⟨data, bad⟩ := rd
  unfold quicRdVarint
  split
  · exact le_rfl
  · exact le_rfl
  · next first rest bad_eq data_eq =>
      simp only at bad_eq data_eq
      subst data_eq
      simp only
      split_ifs with short
      · exact le_rfl
      · simp only [List.length_drop, List.length_cons]
        omega

end

/-- Number of bytes the shortest encoding of a value takes, or zero if it has none. -/
def quicVarintSize (value : Nat) : Nat :=
  if value < 0x40 then 1
  else if value < 0x4000 then 2
  else if value < 0x40000000 then 4
  else if value < QUIC_MAX_PACKET_NUMBER then 8
  else 0

/-- The low `count` bytes of a value, most significant first. -/
def quicBytesOf (value : Nat) : Nat → List UInt8
  | 0 => []
  | count + 1 => UInt8.ofNat (value / 256 ^ count) :: quicBytesOf value count

@[simp] theorem length_quicBytesOf (value count : Nat) :
    (quicBytesOf value count).length = count := by
  induction count with
  | zero => rfl
  | succ count ih => simp [quicBytesOf, ih]

structure QuicWr where
  bufsz : Nat
  out : List UInt8
  bad : Bool
deriving DecidableEq, Repr

def quicWrInit (bufsz : Nat) : QuicWr := ⟨bufsz, [], false⟩

section

variable (wr : QuicWr)

def quicWrLen : Nat := wr.out.length

def quicWrLeft : Nat := if wr.bad then 0 else wr.bufsz - wr.out.length

def quicWrBytes (data : List UInt8) : QuicWr :=
  if wr.bad ∨ wr.bufsz - wr.out.length < data.length then { wr with bad := true }
  else { wr with out := wr.out ++ data }

/-- Write the low `count` bytes of a value, most significant first. -/
def quicWrInt (value count : Nat) : QuicWr :=
  quicWrBytes wr (quicBytesOf value count)

def quicWr8 (value : Nat) : QuicWr := quicWrInt wr value 1

/-- The encoding of a value in `size` bytes, with the width in the top two bits. -/
def quicVarintBytes (value size : Nat) : List UInt8 :=
  match quicBytesOf value size with
  | [] => []
  | first :: rest =>
    (first ||| UInt8.ofNat ((if size = 1 then 0 else if size = 2 then 1
      else if size = 4 then 2 else 3) * 64)) :: rest

/-- Write a variable-length integer in exactly `size` bytes. -/
def quicWrVarintSized (value size : Nat) : QuicWr :=
  if quicVarintSize value = 0 ∨ size < quicVarintSize value ∨
      (size ≠ 1 ∧ size ≠ 2 ∧ size ≠ 4 ∧ size ≠ 8) then
    { wr with bad := true }
  else quicWrBytes wr (quicVarintBytes value size)

def quicWrVarint (value : Nat) : QuicWr :=
  quicWrVarintSized wr value (quicVarintSize value)

def quicWrVarintBytes (data : List UInt8) : QuicWr :=
  quicWrBytes (quicWrVarint wr data.length) data

end

end Cx.Quic
