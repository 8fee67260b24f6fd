import Cx.Str.Iter

/-!
# UTF-8

The decoder takes one sequence at a time from an iterator.  It accepts exactly the encodings of
Unicode scalar values, so a string is decoded to its end exactly when its bytes are such encodings
in a row.
-/

namespace Cx.Str

open Cx.Library List

/-- Well-formed UTF-8: the encodings of some characters in a row. -/
def WellFormed (bytes : List UInt8) : Prop :=
  ∃ chars : List Char, bytes = chars.flatMap String.utf8EncodeChar

def strUTF8SeqLen (u : UInt8) : Nat :=
  if u < 0x80 then 1
  else if u ≤ 0xbf then 0
  else if u = 0xc0 ∨ u = 0xc1 then 0
  else if u ≤ 0xdf then 2
  else if u ≤ 0xef then 3
  else if u ≤ 0xf4 then 4
  else 0

def strUTF8Cont : Nat → Nat → Striter → Option (Nat × Striter)
  | 0, ret, it => some (ret, it)
  | more + 1, ret, it =>
    (striChar it).bind fun read =>
      if read.1 < 0x80 ∨ 0xbf < read.1 then none
      else strUTF8Cont more (ret <<< 6 ||| (read.1.toNat &&& 0x3f)) read.2

def strUTF8DecodeSeq (it : Striter) (len : Nat) (ch : UInt8) : Option (Nat × Striter) :=
  (if len = 2 then some (ch.toNat &&& 0x1f)
    else if len = 3 then some (ch.toNat &&& 0x0f)
    else if len = 4 then some (ch.toNat &&& 0x07)
    else none).bind fun first =>
      (strUTF8Cont (len - 1) first it).bind fun seq =>
        if 0x10ffff < seq.1 ∨ (0xd800 ≤ seq.1 ∧ seq.1 ≤ 0xdfff) ∨ (len = 2 ∧ seq.1 < 0x80) ∨
            (len = 3 ∧ seq.1 < 0x800) ∨ (len = 4 ∧ seq.1 < 0x10000) then none
        else some seq

/-- What `_strUTF8Decode` finds: how long the sequence is, its code point and the iterator after it.
Nothing stands for the return value 0. -/
structure Decoded where
  len : Nat
  codepoint : Nat
  after : Striter

def strUTF8Decode (it : Striter) : Option Decoded :=
  (striChar it).bind fun read =>
    if strUTF8SeqLen read.1 = 1 then some ⟨1, read.1.toNat, read.2⟩
    else
      (strUTF8DecodeSeq read.2 (strUTF8SeqLen read.1) read.1).map fun seq =>
        ⟨strUTF8SeqLen read.1, seq.1, seq.2⟩

/-- A continuation byte. -/
def IsTail (u : UInt8) : Prop := 0x80 ≤ u.toNat ∧ u.toNat ≤ 0xbf

instance (u : UInt8) : Decidable (IsTail u) := inferInstanceAs (Decidable (_ ∧ _))

section Arithmetic

theorem shift_or (ret : Nat) (u : UInt8) :
    ret <<< 6 ||| (u.toNat &&& 0x3f) = ret * 64 + u.toNat % 64 := by
  have low : u.toNat &&& 0x3f = u.toNat % 64 := Nat.and_two_pow_sub_one_eq_mod u.toNat 6
  rw [low, ← Nat.shiftLeft_add_eq_or_of_lt (Nat.mod_lt _ (by norm_num)), Nat.shiftLeft_eq]

theorem isTail_iff (u : UInt8) : ¬(u < 0x80 ∨ 0xbf < u) ↔ IsTail u := by
  simp only [IsTail, UInt8.lt_iff_toNat_lt, not_or, Nat.not_lt]
  rfl

end Arithmetic

def tailValue (first : Nat) (tails : List UInt8) : Nat :=
  tails.foldl (fun value u => value * 64 + u.toNat % 64) first

inductive Coded : List UInt8 → Nat → Prop
  | one {a : UInt8} (ascii : a.toNat < 0x80) : Coded [a] a.toNat
  | two {a b : UInt8} (low : 0xc2 ≤ a.toNat) (high : a.toNat ≤ 0xdf) (tail : IsTail b) :
      Coded [a, b] (tailValue (a.toNat % 32) [b])
  | three {a b c : UInt8} (low : 0xe0 ≤ a.toNat) (high : a.toNat ≤ 0xef) (second : IsTail b)
      (third : IsTail c) (shortest : 0x800 ≤ tailValue (a.toNat % 16) [b, c])
      (scalar : tailValue (a.toNat % 16) [b, c] < 0xd800 ∨ 0xdfff <
        tailValue (a.toNat % 16) [b, c]) :
      Coded [a, b, c] (tailValue (a.toNat % 16) [b, c])
  | four {a b c d : UInt8} (low : 0xf0 ≤ a.toNat) (high : a.toNat ≤ 0xf4) (second : IsTail b)
      (third : IsTail c) (fourth : IsTail d)
      (shortest : 0x10000 ≤ tailValue (a.toNat % 8) [b, c, d])
      (scalar : tailValue (a.toNat % 8) [b, c, d] ≤ 0x10ffff) :
      Coded [a, b, c, d] (tailValue (a.toNat % 8) [b, c, d])

theorem eq_ofNat {u : UInt8} {n : Nat} (same : n = u.toNat) : u = UInt8.ofNat n := by
  rw [same, UInt8.ofNat_toNat]

/-- A character of this code point. -/
theorem exists_char {n : Nat} (valid : n.isValidChar) : ∃ c : Char, c.val.toNat = n := by
  have small : n < 2 ^ 32 := by
    rcases valid with low | ⟨-, high⟩ <;> omega
  have value : (UInt32.ofNat n).toNat = n := UInt32.toNat_ofNat_of_lt small
  exact ⟨⟨UInt32.ofNat n, by rw [UInt32.isValidChar, value]; exact valid⟩, value⟩

theorem Coded.encodes {bytes : List UInt8} {n : Nat} (coded : Coded bytes n) :
    ∃ c : Char, c.val.toNat = n ∧ bytes = String.utf8EncodeChar c := by
  cases coded with
  | @one a =>
    obtain ⟨c, value⟩ := exists_char (n := a.toNat) (.inl (by omega))
    refine ⟨c, value, ?_⟩
    simp only [String.utf8EncodeChar, value]
    rw [if_pos (by omega), ← eq_ofNat rfl]
  | @two a b low high tail =>
    obtain ⟨tail_low, tail_high⟩ := tail
    simp only [tailValue, foldl_cons, foldl_nil]
    obtain ⟨c, value⟩ := exists_char (n := a.toNat % 32 * 64 + b.toNat % 64) (.inl (by omega))
    refine ⟨c, value, ?_⟩
    simp only [String.utf8EncodeChar, value]
    rw [if_neg (by omega), if_pos (by omega), ← eq_ofNat (by omega : _ = a.toNat),
      ← eq_ofNat (by omega : _ = b.toNat)]
  | @three a b c low high second third shortest scalar =>
    obtain ⟨second_low, second_high⟩ := second
    obtain ⟨third_low, third_high⟩ := third
    simp only [tailValue, foldl_cons, foldl_nil] at shortest scalar ⊢
    obtain ⟨char, value⟩ := exists_char
      (n := (a.toNat % 16 * 64 + b.toNat % 64) * 64 + c.toNat % 64) (by
        rcases scalar with below | above
        · exact .inl below
        · exact .inr ⟨above, by omega⟩)
    refine ⟨char, value, ?_⟩
    simp only [String.utf8EncodeChar, value]
    rw [if_neg (by omega), if_neg (by omega), if_pos (by omega),
      ← eq_ofNat (by omega : _ = a.toNat), ← eq_ofNat (by omega : _ = b.toNat),
      ← eq_ofNat (by omega : _ = c.toNat)]
  | @four a b c d low high second third fourth shortest scalar =>
    obtain ⟨second_low, second_high⟩ := second
    obtain ⟨third_low, third_high⟩ := third
    obtain ⟨fourth_low, fourth_high⟩ := fourth
    simp only [tailValue, foldl_cons, foldl_nil] at shortest scalar ⊢
    obtain ⟨char, value⟩ := exists_char
      (n := ((a.toNat % 8 * 64 + b.toNat % 64) * 64 + c.toNat % 64) * 64 + d.toNat % 64)
      (.inr ⟨by omega, by omega⟩)
    refine ⟨char, value, ?_⟩
    simp only [String.utf8EncodeChar, value]
    rw [if_neg (by omega), if_neg (by omega), if_neg (by omega),
      ← eq_ofNat (by omega : _ = a.toNat), ← eq_ofNat (by omega : _ = b.toNat),
      ← eq_ofNat (by omega : _ = c.toNat), ← eq_ofNat (by omega : _ = d.toNat)]

theorem Coded.of_eq {bytes : List UInt8} {n m : Nat} (coded : Coded bytes n) (same : n = m) :
    Coded bytes m :=
  same ▸ coded

theorem coded_utf8EncodeChar (c : Char) : Coded (String.utf8EncodeChar c) c.val.toNat := by
  have valid : c.val.toNat < 0xd800 ∨ 0xdfff < c.val.toNat ∧ c.val.toNat < 0x110000 := c.valid
  simp only [String.utf8EncodeChar]
  generalize c.val.toNat = v at valid
  split
  case isTrue one =>
    have a := UInt8.toNat_ofNat_of_lt' (show v < 256 by omega)
    exact (Coded.one (by omega)).of_eq a
  case isFalse =>
    split
    case isTrue two =>
      have a := UInt8.toNat_ofNat_of_lt' (show v / 64 % 32 + 192 < 256 by omega)
      have b := UInt8.toNat_ofNat_of_lt' (show v % 64 + 128 < 256 by omega)
      have value : tailValue ((UInt8.ofNat (v / 64 % 32 + 192)).toNat % 32)
          [UInt8.ofNat (v % 64 + 128)] = v := by
        simp only [tailValue, foldl_cons, foldl_nil, a, b]
        omega
      exact (Coded.two (by omega) (by omega) ⟨by omega, by omega⟩).of_eq value
    case isFalse =>
      split
      case isTrue three =>
        have a := UInt8.toNat_ofNat_of_lt' (show v / 4096 % 16 + 224 < 256 by omega)
        have b := UInt8.toNat_ofNat_of_lt' (show v / 64 % 64 + 128 < 256 by omega)
        have c := UInt8.toNat_ofNat_of_lt' (show v % 64 + 128 < 256 by omega)
        have value : tailValue ((UInt8.ofNat (v / 4096 % 16 + 224)).toNat % 16)
            [UInt8.ofNat (v / 64 % 64 + 128), UInt8.ofNat (v % 64 + 128)] = v := by
          simp only [tailValue, foldl_cons, foldl_nil, a, b, c]
          omega
        exact (Coded.three (by omega) (by omega) ⟨by omega, by omega⟩ ⟨by omega, by omega⟩
          (by rw [value]; omega) (by rw [value]; omega)).of_eq value
      case isFalse =>
        have a := UInt8.toNat_ofNat_of_lt' (show v / 262144 % 8 + 240 < 256 by omega)
        have b := UInt8.toNat_ofNat_of_lt' (show v / 4096 % 64 + 128 < 256 by omega)
        have c := UInt8.toNat_ofNat_of_lt' (show v / 64 % 64 + 128 < 256 by omega)
        have d := UInt8.toNat_ofNat_of_lt' (show v % 64 + 128 < 256 by omega)
        have value : tailValue ((UInt8.ofNat (v / 262144 % 8 + 240)).toNat % 8)
            [UInt8.ofNat (v / 4096 % 64 + 128), UInt8.ofNat (v / 64 % 64 + 128),
              UInt8.ofNat (v % 64 + 128)] = v := by
          simp only [tailValue, foldl_cons, foldl_nil, a, b, c, d]
          omega
        exact (Coded.four (by omega) (by omega) ⟨by omega, by omega⟩ ⟨by omega, by omega⟩
          ⟨by omega, by omega⟩ (by rw [value]; omega) (by rw [value]; omega)).of_eq value

/-! ### The decoder -/

section Decoder

variable {it : Striter}

variable {rest bytes : List UInt8} {a : UInt8}

theorem strUTF8Cont_tails {tails : List UInt8} (first : Nat) (tail : ∀ u ∈ tails, IsTail u)
    (reads : Reads it (tails ++ rest)) :
    ∃ after, strUTF8Cont tails.length first it = some (tailValue first tails, after) ∧
      Reads after rest := by
  induction tails generalizing first it with
  | nil => exact ⟨it, rfl, reads⟩
  | cons u tails ih =>
    obtain ⟨next, read, later⟩ := reads
    obtain ⟨after, found, after_reads⟩ := ih (first * 64 + u.toNat % 64)
      (fun v mem => tail v (mem_cons_of_mem u mem)) later
    refine ⟨after, ?_, after_reads⟩
    rw [length_cons, strUTF8Cont, read, Option.bind_some,
      if_neg ((isTail_iff u).2 (tail u mem_cons_self)), shift_or, found]
    rfl

theorem strUTF8Cont_reads (reads : Reads it bytes) {more first value : Nat} {after : Striter}
    (found : strUTF8Cont more first it = some (value, after)) :
    ∃ tails rest, bytes = tails ++ rest ∧ tails.length = more ∧ (∀ u ∈ tails, IsTail u) ∧
      value = tailValue first tails ∧ Reads after rest := by
  induction more generalizing first it bytes with
  | zero =>
    cases found
    exact ⟨[], bytes, rfl, rfl, by simp, rfl, reads⟩
  | succ more ih =>
    cases bytes with
    | nil =>
      have done : striChar it = none := reads
      rw [strUTF8Cont, done] at found
      cases found
    | cons u =>
      obtain ⟨next, read, later⟩ := reads
      rw [strUTF8Cont, read, Option.bind_some] at found
      split at found
      · cases found
      case isFalse is_tail =>
        rw [shift_or] at found
        obtain ⟨tails, rest, rfl, rfl, all_tail, value_eq, after_reads⟩ := ih later found
        refine ⟨u :: tails, rest, rfl, rfl, ?_, value_eq, after_reads⟩
        intro v mem
        rcases mem_cons.1 mem with rfl | mem
        exacts [(isTail_iff v).1 is_tail, all_tail v mem]

/-- How the first byte says how long a sequence is. -/
theorem strUTF8SeqLen_cases (a : UInt8) :
    strUTF8SeqLen a = 0 ∧ (0x80 ≤ a.toNat ∧ a.toNat < 0xc2 ∨ 0xf4 < a.toNat) ∨
      strUTF8SeqLen a = 1 ∧ a.toNat < 0x80 ∨
      strUTF8SeqLen a = 2 ∧ 0xc2 ≤ a.toNat ∧ a.toNat ≤ 0xdf ∨
      strUTF8SeqLen a = 3 ∧ 0xe0 ≤ a.toNat ∧ a.toNat ≤ 0xef ∨
      strUTF8SeqLen a = 4 ∧ 0xf0 ≤ a.toNat ∧ a.toNat ≤ 0xf4 := by
  simp only [strUTF8SeqLen, UInt8.lt_iff_toNat_lt, UInt8.le_iff_toNat_le, ← UInt8.toNat_inj,
    UInt8.reduceToNat]
  split_ifs <;> omega

theorem strUTF8SeqLen_one (ascii : a.toNat < 0x80) : strUTF8SeqLen a = 1 := by
  have := strUTF8SeqLen_cases a
  omega

theorem strUTF8SeqLen_two (low : 0xc2 ≤ a.toNat) (high : a.toNat ≤ 0xdf) : strUTF8SeqLen a = 2 := by
  have := strUTF8SeqLen_cases a
  omega

theorem strUTF8SeqLen_three (low : 0xe0 ≤ a.toNat) (high : a.toNat ≤ 0xef) :
    strUTF8SeqLen a = 3 := by
  have := strUTF8SeqLen_cases a
  omega

theorem strUTF8SeqLen_four (low : 0xf0 ≤ a.toNat) (high : a.toNat ≤ 0xf4) :
    strUTF8SeqLen a = 4 := by
  have := strUTF8SeqLen_cases a
  omega

/-- What a sequence of several bytes may not decode to. -/
def Illegal (len n : Nat) : Prop :=
  0x10ffff < n ∨ (0xd800 ≤ n ∧ n ≤ 0xdfff) ∨ (len = 2 ∧ n < 0x80) ∨ (len = 3 ∧ n < 0x800) ∨
    (len = 4 ∧ n < 0x10000)

instance (len n : Nat) : Decidable (Illegal len n) := inferInstanceAs (Decidable (_ ∨ _))

theorem legal_bounds {len n : Nat} (legal : ¬Illegal len n) :
    n ≤ 0x10ffff ∧ (n < 0xd800 ∨ 0xdfff < n) ∧ (len = 3 → 0x800 ≤ n) ∧ (len = 4 → 0x10000 ≤ n) := by
  unfold Illegal at legal
  omega

theorem strUTF8DecodeSeq_eq {len : Nat} (several : len = 2 ∨ len = 3 ∨ len = 4) (a : UInt8) :
    strUTF8DecodeSeq it len a =
      (strUTF8Cont (len - 1) (a.toNat % 2 ^ (7 - len)) it).bind fun seq =>
        if Illegal len seq.1 then none else some seq := by
  have five : a.toNat &&& 0x1f = a.toNat % 32 := Nat.and_two_pow_sub_one_eq_mod a.toNat 5
  have four : a.toNat &&& 0x0f = a.toNat % 16 := Nat.and_two_pow_sub_one_eq_mod a.toNat 4
  have three : a.toNat &&& 0x07 = a.toNat % 8 := Nat.and_two_pow_sub_one_eq_mod a.toNat 3
  rw [strUTF8DecodeSeq, five, four, three]
  rcases several with rfl | rfl | rfl <;> rfl

/-- A first byte, the continuation bytes it asks for and a legal code point are decoded. -/
theorem strUTF8Decode_several (tails : List UInt8) {next : Striter} {len : Nat}
    (read : striChar it = some (a, next)) (later : Reads next (tails ++ rest))
    (len_eq : strUTF8SeqLen a = len) (several : len = 2 ∨ len = 3 ∨ len = 4)
    (length : tails.length + 1 = len) (tail : ∀ u ∈ tails, IsTail u)
    (legal : ¬Illegal len (tailValue (a.toNat % 2 ^ (7 - len)) tails)) :
    ∃ after, strUTF8Decode it = some ⟨len, tailValue (a.toNat % 2 ^ (7 - len)) tails, after⟩ ∧
      Reads after rest := by
  obtain ⟨after, found, after_reads⟩ := strUTF8Cont_tails _ tail later
  refine ⟨after, ?_, after_reads⟩
  rw [strUTF8Decode, read, Option.bind_some, len_eq, if_neg (by omega),
    strUTF8DecodeSeq_eq several, show len - 1 = tails.length by omega, found, Option.bind_some,
    if_neg legal]
  rfl

/-- The decoder finds a coded sequence that comes next. -/
theorem strUTF8Decode_coded {n : Nat} (coded : Coded bytes n) (reads : Reads it (bytes ++ rest)) :
    ∃ after, strUTF8Decode it = some ⟨bytes.length, n, after⟩ ∧ Reads after rest := by
  cases coded with
  | one ascii =>
    obtain ⟨next, read, later⟩ := reads
    refine ⟨next, ?_, later⟩
    rw [strUTF8Decode, read, Option.bind_some, if_pos (strUTF8SeqLen_one ascii)]
    rfl
  | @two a b low high tail =>
    obtain ⟨next, read, later⟩ := reads
    refine strUTF8Decode_several [b] read later (strUTF8SeqLen_two low high) (.inl rfl) rfl
      (by simpa using tail) ?_
    simp [Illegal, tailValue]
    omega
  | @three a b c low high second third shortest scalar =>
    obtain ⟨next, read, later⟩ := reads
    refine strUTF8Decode_several [b, c] read later (strUTF8SeqLen_three low high)
      (.inr (.inl rfl)) rfl (by simp [second, third]) ?_
    simp [Illegal, tailValue] at shortest scalar ⊢
    omega
  | @four a b c d low high second third fourth shortest scalar =>
    obtain ⟨next, read, later⟩ := reads
    refine strUTF8Decode_several [b, c, d] read later (strUTF8SeqLen_four low high)
      (.inr (.inr rfl)) rfl (by simp [second, third, fourth]) ?_
    simp [Illegal, tailValue] at shortest scalar ⊢
    omega

/-- What the decoder finds is a coded sequence. -/
theorem coded_of_strUTF8Decode {decoded : Decoded} (reads : Reads it bytes)
    (found : strUTF8Decode it = some decoded) :
    ∃ seq rest, bytes = seq ++ rest ∧ Coded seq decoded.codepoint ∧ decoded.len = seq.length ∧
      Reads decoded.after rest := by
  cases bytes with
  | nil =>
    have done : striChar it = none := reads
    rw [strUTF8Decode, done] at found
    cases found
  | cons a bytes =>
    obtain ⟨next, read, later⟩ := reads
    rw [strUTF8Decode, read, Option.bind_some] at found
    -- several bytes: the first one says how many, and the rest are read as continuation bytes
    have split_tails : ∀ len, len = 2 ∨ len = 3 ∨ len = 4 → strUTF8SeqLen a = len →
        ∃ tails rest, bytes = tails ++ rest ∧ tails.length + 1 = len ∧ (∀ u ∈ tails, IsTail u) ∧
          ¬Illegal len (tailValue (a.toNat % 2 ^ (7 - len)) tails) ∧
          decoded.codepoint = tailValue (a.toNat % 2 ^ (7 - len)) tails ∧
          decoded.len = len ∧ Reads decoded.after rest := by
      intro len several len_eq
      have not_one : ¬strUTF8SeqLen a = 1 := by omega
      rw [if_neg not_one, len_eq, strUTF8DecodeSeq_eq several] at found
      obtain ⟨seq, seq_found, rfl⟩ := Option.map_eq_some_iff.1 found
      obtain ⟨⟨value, after⟩, cont, checked⟩ := Option.bind_eq_some_iff.1 seq_found
      split at checked
      · cases checked
      case isFalse legal =>
        cases checked
        obtain ⟨tails, rest, rfl, length, tail, rfl, after_reads⟩ := strUTF8Cont_reads later cont
        exact ⟨tails, rest, rfl, by omega, tail, legal, rfl, rfl, after_reads⟩
    rcases strUTF8SeqLen_cases a with ⟨none, -⟩ | ⟨one, ascii⟩ | ⟨two, low, high⟩ |
      ⟨three, low, high⟩ | ⟨four, low, high⟩
    · rw [none] at found
      simp [strUTF8DecodeSeq] at found
    · rw [if_pos one] at found
      cases found
      exact ⟨[a], bytes, rfl, .one ascii, rfl, later⟩
    · obtain ⟨tails, rest, rfl, length, tail, legal, value, len, after⟩ :=
        split_tails 2 (.inl rfl) two
      obtain ⟨b, rfl⟩ := length_eq_one_iff.1 (show tails.length = 1 by omega)
      refine ⟨[a, b], rest, rfl, ?_, len, after⟩
      rw [value]
      exact .two low high (tail b (by simp))
    · obtain ⟨tails, rest, rfl, length, tail, legal, value, len, after⟩ :=
        split_tails 3 (.inr (.inl rfl)) three
      obtain ⟨b, c, rfl⟩ := length_eq_two.1 (show tails.length = 2 by omega)
      refine ⟨[a, b, c], rest, rfl, ?_, len, after⟩
      obtain ⟨-, scalar, shortest, -⟩ := legal_bounds legal
      rw [value]
      exact .three low high (tail b (by simp)) (tail c (by simp)) (shortest rfl) scalar
    · obtain ⟨tails, rest, rfl, length, tail, legal, value, len, after⟩ :=
        split_tails 4 (.inr (.inr rfl)) four
      obtain ⟨b, c, d, rfl⟩ := length_eq_three.1 (show tails.length = 3 by omega)
      refine ⟨[a, b, c, d], rest, rfl, ?_, len, after⟩
      obtain ⟨top, -, -, shortest⟩ := legal_bounds legal
      rw [value]
      exact .four low high (tail b (by simp)) (tail c (by simp)) (tail d (by simp)) (shortest rfl)
        top

end Decoder

/-! ### Well-formed bytes -/

theorem WellFormed.nil : WellFormed [] := ⟨[], rfl⟩

theorem WellFormed.append {x y : List UInt8} (first : WellFormed x) (second : WellFormed y) :
    WellFormed (x ++ y) := by
  obtain ⟨chars, rfl⟩ := first
  obtain ⟨more, rfl⟩ := second
  exact ⟨chars ++ more, List.flatMap_append.symm⟩

variable {bytes : List UInt8} {n : Nat}

theorem Coded.wellFormed (coded : Coded bytes n) : WellFormed bytes := by
  obtain ⟨c, -, rfl⟩ := coded.encodes
  exact ⟨[c], by simp⟩

theorem Coded.length_pos (coded : Coded bytes n) : 0 < bytes.length := by
  cases coded <;> exact Nat.succ_pos _

/-- The first byte of a sequence says how long it is, and only the others are tails. -/
theorem Coded.head (coded : Coded bytes n) :
    ∃ a tails, bytes = a :: tails ∧ strUTF8SeqLen a = bytes.length ∧ ∀ u ∈ tails, IsTail u := by
  cases coded with
  | one ascii => exact ⟨_, _, rfl, strUTF8SeqLen_one ascii, by simp⟩
  | two low high tail => exact ⟨_, _, rfl, strUTF8SeqLen_two low high, by simpa using tail⟩
  | three low high second third =>
    exact ⟨_, _, rfl, strUTF8SeqLen_three low high, by simpa using ⟨second, third⟩⟩
  | four low high second third fourth =>
    exact ⟨_, _, rfl, strUTF8SeqLen_four low high, by simpa using ⟨second, third, fourth⟩⟩

/-- No two sequences start at the same place. -/
theorem Coded.unique {m : Nat} {seq rest rest' : List UInt8} (coded : Coded bytes n)
    (coded' : Coded seq m) (split : bytes ++ rest = seq ++ rest') : bytes = seq ∧ rest = rest' := by
  obtain ⟨a, tails, bytes_eq, length, -⟩ := coded.head
  obtain ⟨b, tails', seq_eq, length', -⟩ := coded'.head
  have same : a = b := by
    rw [bytes_eq, seq_eq] at split
    exact (List.cons.inj split).1
  exact append_inj split (by rw [← length, ← length', same])

theorem wellFormed_cases (formed : WellFormed bytes) :
    bytes = [] ∨ ∃ seq rest n, bytes = seq ++ rest ∧ Coded seq n ∧ WellFormed rest := by
  obtain ⟨chars, rfl⟩ := formed
  cases chars with
  | nil => exact .inl rfl
  | cons c chars =>
    exact .inr ⟨_, _, _, flatMap_cons, coded_utf8EncodeChar c, chars, rfl⟩

/-- The loop of `strValidUTF8`.  A sequence longer than what is left makes the length wrap, and the
loop then runs into the end of the string. -/
def strValidUTF8Loop : Nat → Nat → Striter → Bool
  | 0, len, _ => len == 0
  | fuel + 1, len, it =>
    if len = 0 then true
    else
      match strUTF8Decode it with
      | none => false
      | some decoded =>
        if len < decoded.len then false
        else strValidUTF8Loop fuel (len - decoded.len) decoded.after

theorem strValidUTF8Loop_iff {it : Striter} (reads : Reads it bytes) {fuel : Nat}
    (enough : bytes.length ≤ fuel) :
    strValidUTF8Loop fuel bytes.length it = true ↔ WellFormed bytes := by
  induction fuel generalizing it bytes with
  | zero =>
    obtain rfl : bytes = [] := eq_nil_of_length_eq_zero (by omega)
    exact ⟨fun _ => .nil, fun _ => rfl⟩
  | succ fuel ih =>
    rcases Nat.eq_zero_or_pos bytes.length with nothing | some_left
    · obtain rfl : bytes = [] := eq_nil_of_length_eq_zero nothing
      exact ⟨fun _ => .nil, fun _ => rfl⟩
    rw [strValidUTF8Loop, if_neg (by omega)]
    cases found : strUTF8Decode it with
    | none =>
      simp only [Bool.false_eq_true, false_iff]
      intro formed
      rcases wellFormed_cases formed with rfl | ⟨seq, rest, n, rfl, coded, -⟩
      · simp at some_left
      · obtain ⟨after, decodes, -⟩ := strUTF8Decode_coded coded reads
        rw [decodes] at found
        cases found
    | some =>
      obtain ⟨seq, rest, rfl, coded, len, after_reads⟩ := coded_of_strUTF8Decode reads found
      have seq_pos := coded.length_pos
      rw [length_append] at *
      have fits : ¬seq.length + rest.length < seq.length := by omega
      simp only [len, if_neg fits, Nat.add_sub_cancel_left]
      rw [ih after_reads (by omega)]
      constructor
      · exact fun formed => coded.wellFormed.append formed
      · intro formed
        rcases wellFormed_cases formed with nothing | ⟨seq', rest', n, split, coded', formed'⟩
        · exact absurd (append_eq_nil_iff.1 nothing).1 (ne_nil_of_length_pos seq_pos)
        · obtain ⟨-, rfl⟩ := coded.unique coded' split
          exact formed'

/-- Whether bytes are well formed is found by decoding them as a flat string. -/
theorem wellFormed_iff (short : bytes.length < 2 ^ 31) : WellFormed bytes ↔
      strValidUTF8Loop bytes.length bytes.length (striBorrow (.flat .clear bytes)) = true := by
  have reads : Reads (striBorrow (.flat .clear bytes)) bytes :=
    (striWalk_eq (s := .flat .clear bytes) ⟨trivial, rfl⟩ short trivial).2
  exact (strValidUTF8Loop_iff reads le_rfl).symm

def Ascii (bytes : List UInt8) : Prop := ∀ u ∈ bytes, u.toNat < 0x80

theorem Ascii.append {x y : List UInt8} (first : Ascii x) (second : Ascii y) : Ascii (x ++ y) :=
  forall_mem_append.2 ⟨first, second⟩

theorem Ascii.wellFormed (ascii : Ascii bytes) : WellFormed bytes := by
  induction bytes with
  | nil => exact .nil
  | cons u bytes ih =>
    have first := (Coded.one (ascii u mem_cons_self)).wellFormed
    exact first.append (ih fun v mem => ascii v (mem_cons_of_mem u mem))

/-- Only a sequence of one byte has a byte below 0x80. -/
theorem Coded.eq_singleton {seq : List UInt8} (coded : Coded seq n) {u : UInt8} (mem : u ∈ seq)
    (ascii : u.toNat < 0x80) : seq = [u] := by
  obtain ⟨a, tails, rfl, length, tail⟩ := coded.head
  rcases mem_cons.1 mem with rfl | later
  · rw [strUTF8SeqLen_one ascii] at length
    obtain ⟨_, only⟩ := length_eq_one_iff.1 length.symm
    rw [only, (cons.inj only).1]
  · have := (tail u later).1
    omega

/-- Induction over the sequences of well-formed bytes. -/
theorem WellFormed.rec_on {motive : List UInt8 → Prop} (formed : WellFormed bytes) (nil : motive [])
    (step : ∀ seq rest n, Coded seq n → WellFormed rest → motive rest → motive (seq ++ rest)) :
    motive bytes := by
  obtain ⟨chars, rfl⟩ := formed
  induction chars with
  | nil => exact nil
  | cons c chars ih => exact step _ _ _ (coded_utf8EncodeChar c) ⟨chars, rfl⟩ ih

/-- Bytes below 0x80 may be changed into others, each by itself. -/
theorem WellFormed.map {f : UInt8 → UInt8} (formed : WellFormed bytes)
    (low : ∀ u : UInt8, u.toNat < 0x80 → (f u).toNat < 0x80)
    (high : ∀ u : UInt8, 0x80 ≤ u.toNat → f u = u) : WellFormed (bytes.map f) := by
  refine formed.rec_on (motive := fun bytes => WellFormed (bytes.map f)) .nil
    fun seq rest n coded _ ih => ?_
  rw [map_append]
  refine WellFormed.append ?_ ih
  by_cases some_low : ∃ u ∈ seq, u.toNat < 0x80
  · obtain ⟨u, mem, ascii⟩ := some_low
    rw [coded.eq_singleton mem ascii]
    exact (Coded.one (low u ascii)).wellFormed
  · have same : seq.map f = seq := by
      rw [map_congr_left fun u mem => high u (Nat.le_of_not_lt fun ascii =>
        some_low ⟨u, mem, ascii⟩), map_id']
    rw [same]
    exact coded.wellFormed

/-- One byte below 0x80 may be changed into another. -/
theorem WellFormed.set (formed : WellFormed bytes) {i : Nat} {old new : UInt8}
    (old_at : bytes[i]? = some old) (old_ascii : old.toNat < 0x80) (new_ascii : new.toNat < 0x80) :
    WellFormed (bytes.set i new) := by
  revert i
  refine formed.rec_on
    (motive := fun bytes => ∀ {i}, bytes[i]? = some old → WellFormed (bytes.set i new)) ?_ ?_
  · intro i old_at
    cases old_at
  intro seq rest n coded rest_formed ih i old_at
  rcases Nat.lt_or_ge i seq.length with inside | past
  · rw [List.getElem?_append_left inside] at old_at
    obtain rfl := coded.eq_singleton (mem_of_getElem? old_at) old_ascii
    obtain rfl : i = 0 := by simpa using inside
    exact (Coded.one new_ascii).wellFormed.append rest_formed
  · rw [List.getElem?_append_right past] at old_at
    rw [set_append_right _ _ past]
    exact coded.wellFormed.append (ih old_at)

end Cx.Str
