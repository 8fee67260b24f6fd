import Cx.Str.Utf8

/-!
# Encoding checks and the functions that set the encoding bits

`strValidUTF8` and `strValidASCII` trust the bits of a header and look at the bytes only if they are
clear.  The other functions here write bytes and decide which bits the result carries.
-/

namespace Cx.Str

open Cx.Library CxStr

def strValidUTF8 (s : CxStr) : Bool :=
  strCheckValid s &&
    ((strEnc s).utf8 || strValidUTF8Loop (strFastLen s) (strFastLen s) (striBorrow s))

def strValidASCII (s : CxStr) : Bool :=
  strCheckValid s &&
    ((strEnc s).ascii ||
      ((striWalk s).map fun runs => runs.all fun run => run.all (· < 0x80)).getD false)

/-- The code point is not negative in any call. -/
def strUTF8Encode (codepoint : Nat) : List UInt8 :=
  if 0x10ffff < codepoint ∨ (0xd800 ≤ codepoint ∧ codepoint ≤ 0xdfff) then []
  else if codepoint < 0x80 then [.ofNat codepoint]
  else if codepoint < 0x800 then
    [.ofNat (0xc0 ||| (codepoint &&& 0x7c0) >>> 6), .ofNat (0x80 ||| (codepoint &&& 0x03f))]
  else if codepoint < 0x10000 then
    [.ofNat (0xe0 ||| (codepoint &&& 0xf000) >>> 12),
      .ofNat (0x80 ||| (codepoint &&& 0x0fc0) >>> 6),
      .ofNat (0x80 ||| (codepoint &&& 0x003f))]
  else
    [.ofNat (0xf0 ||| (codepoint &&& 0x1c0000) >>> 18),
      .ofNat (0x80 ||| (codepoint &&& 0x03f000) >>> 12),
      .ofNat (0x80 ||| (codepoint &&& 0x000fc0) >>> 6), .ofNat (0x80 ||| (codepoint &&& 0x00003f))]

structure Utf16Scan where
  surrogate : Bool
  codepoint : Nat
  ascii : Bool
  out : List UInt8

/-- One unit, and whether it completes a code point.  Nothing stands for `goto fail`. -/
def strFromUTF16Unit (scan : Utf16Scan) (u : UInt16) : Option (Utf16Scan × Bool) :=
  if u < 0xd800 ∨ 0xe000 ≤ u then some ({ scan with codepoint := u.toNat }, true)
  else if scan.surrogate = false ∧ u &&& 0xfc00 = 0xd800 then
    some ({ scan with surrogate := true, codepoint := (u.toNat &&& 0x3ff) <<< 10 }, false)
  else if scan.surrogate = true ∧ u &&& 0xfc00 = 0xdc00 then
    let codepoint := (scan.codepoint ||| (u.toNat &&& 0x3ff)) + 0x10000
    if 0x10ffff < codepoint ∨ (0xd800 ≤ codepoint ∧ codepoint ≤ 0xdfff) then none
    else some ({ scan with surrogate := false, codepoint := codepoint }, true)
  else none

def Utf16Scan.put (scan : Utf16Scan) : Utf16Scan :=
  { scan with
    ascii := scan.ascii && decide (scan.codepoint < 0x80)
    out := scan.out ++ strUTF8Encode scan.codepoint }

def strFromUTF16Loop : List UInt16 → Utf16Scan → Option Utf16Scan
  | [], scan => some scan
  | u :: units, scan =>
    (strFromUTF16Unit scan u).bind fun next =>
      if next.2 = false then strFromUTF16Loop units next.1
      else if next.1.codepoint = 0 then some next.1
      else strFromUTF16Loop units next.1.put

/-- The string left in the handle; a call that fails clears it. -/
def strFromUTF16 (units : List UInt16) : CxStr :=
  match strFromUTF16Loop units ⟨false, 0, true, []⟩ with
  | some scan => .flat ⟨true, scan.ascii⟩ scan.out
  | none => .flat .mask []

def strFromBytes (bytes : List UInt8) : CxStr := .flat .clear bytes

def strAppendRaw (io : CxStr) (bytes : List UInt8) (dataenc : StrEnc) : Option CxStr :=
  let own := if strCheckValid io then io else .flat .mask []
  (strFastCopy own 0 (strFastLen own)).map fun first =>
    .flat ((strEnc own).both dataenc) (first ++ bytes)

def strAppendBytes (io : CxStr) (bytes : List UInt8) : Option CxStr :=
  if bytes = [] then some io else strAppendRaw io bytes .clear

def strAppendChar (io : CxStr) (ch : UInt8) : Option CxStr :=
  strAppendRaw io [ch] (if ch < 0x80 then .mask else .clear)

/-- A result that is too long leaves the handle as it was. -/
def strRepeat (full : Bool) (o : StrDest) (s : CxStr) (n : Nat) : Option CxStr :=
  if n = 0 ∨ strLen s = 0 then some (.flat .mask [])
  else if n = 1 then (strDupInto o full s).map (·.out)
  else if 2 ^ 32 ≤ strLen s * n then some o.held
  else
    (strFastCopy s 0 (strLen s)).map fun bytes =>
      .flat (strEnc s) (List.replicate n bytes).flatten

def strFillChar (ch : UInt8) (n : Nat) : CxStr :=
  .flat (if 0x80 ≤ ch then .clear else .mask) (List.replicate n ch)

/-- `tolower` of the C locale. -/
def toLower (u : UInt8) : UInt8 := if 0x41 ≤ u ∧ u ≤ 0x5a then u + 0x20 else u

def strChrFold (u : UInt8) (ci : Bool) : UInt8 := if ci then toLower u else u

def replaceByte (old new : UInt8) (ci : Bool) (u : UInt8) : UInt8 :=
  if strChrFold u ci = strChrFold old ci then new else u

def strReplaceChar (full : Bool) (o : StrDest) (s : CxStr) (old new : UInt8) (ci : Bool) :
    Option CxStr :=
  (strDupInto o full s).bind fun done =>
    if !strCheckValid s then some done.out
    else
      (strFastCopy done.out 0 (strFastLen done.out)).map fun bytes =>
        .flat (if old < 0x80 ∧ new < 0x80 then strEnc done.out else .clear)
          (bytes.map (replaceByte old new ci))

/-- The segments after the first, each behind a separator. -/
def strJoinRest (sep : CxStr) : List CxStr → Option (List UInt8)
  | [] => some []
  | s :: rest =>
    (strBytes sep).bind fun between =>
      (strBytes s).bind fun segment =>
        (strJoinRest sep rest).map fun later => between ++ segment ++ later

/-- The bits all segments have.  The separator's are not asked for. -/
def strJoinEnc (arr : List CxStr) : StrEnc :=
  (arr.filter fun s => strCheckValid s).foldr (fun s => (strEnc s).both) .mask

def strJoin (arr : List CxStr) (sep : CxStr) : Option CxStr :=
  match arr with
  | [] => some (.flat .mask [])
  | first :: rest =>
    (strBytes first).bind fun segment =>
      (strJoinRest sep rest).map fun later => .flat (strJoinEnc arr) (segment ++ later)

/-- Some bytes read with `striChar`, which has them after a sequence was decoded. -/
def striTake : Nat → Striter → Option (List UInt8 × Striter)
  | 0, it => some ([], it)
  | n + 1, it =>
    (striChar it).bind fun read =>
      (striTake n read.2).map fun more => (read.1 :: more.1, more.2)

def u8Replacement : Nat := 0xfffd

/-- The pass of `strSanitizeUTF8` that builds the result; the one before it only measures. -/
def strSanitizeLoop : Nat → Nat → Striter → Option (List UInt8)
  | 0, _, _ => some []
  | fuel + 1, remain, it =>
    if remain = 0 then some []
    else
      match (strUTF8Decode it).filter fun decoded => decoded.len ≤ remain with
      | some decoded =>
        (striTake decoded.len it).bind fun read =>
          (strSanitizeLoop fuel (remain - decoded.len) read.2).map (read.1 ++ ·)
      | none =>
        -- back up and drop exactly one byte
        (strSanitizeLoop fuel (remain - 1) (((striChar it).map (·.2)).getD it)).map
          (strUTF8Encode u8Replacement ++ ·)

/-- `strValidUTF8` marks a string the library allocated. -/
def strMarkUTF8 : CxStr → CxStr
  | .flat enc bytes => .flat ⟨true, enc.ascii⟩ bytes
  | .rope enc left loff llen right roff rlen depth =>
    .rope ⟨true, enc.ascii⟩ left loff llen right roff rlen depth
  | s => s

def strSanitizeUTF8 (full : Bool) (o : StrDest) (alloc : Bool) (s : CxStr) : Option CxStr :=
  if !strCheckValid s then (strDupInto o full s).map (·.out)
  else if strValidUTF8 s then
    (strDupInto o full (if alloc then strMarkUTF8 s else s)).map (·.out)
  else
    (strSanitizeLoop (strFastLen s) (strFastLen s) (striBorrow s)).map fun bytes =>
      .flat ⟨true, false⟩ bytes

/-! ### What is written -/

section Encode

/-- Some bits in the middle of a number, put below the bits of `high`. -/
theorem masked_or {value high mask : Nat} (n k : Nat) (mask_eq : mask = (2 ^ n - 1) <<< k)
    (clear : high % 2 ^ n = 0) :
    high ||| (value &&& mask) >>> k = value / 2 ^ k % 2 ^ n + high := by
  have bits : (value &&& mask) >>> k = value / 2 ^ k % 2 ^ n := by
    rw [mask_eq, Nat.shiftRight_and_distrib, Nat.shiftLeft_shiftRight,
      Nat.and_two_pow_sub_one_eq_mod, Nat.shiftRight_eq_div_pow]
  have shifted : high = (high / 2 ^ n) <<< n := by
    rw [Nat.shiftLeft_eq, Nat.div_mul_cancel (Nat.dvd_of_mod_eq_zero clear)]
  rw [bits, shifted, ← Nat.shiftLeft_add_eq_or_of_lt (Nat.mod_lt _ (Nat.two_pow_pos n)),
    Nat.add_comm]

/-- The encoder writes a character as UTF-8 has it. -/
theorem strUTF8Encode_char (c : Char) : strUTF8Encode c.val.toNat = String.utf8EncodeChar c := by
  have legal : ¬(0x10ffff < c.val.toNat ∨ (0xd800 ≤ c.val.toNat ∧ c.val.toNat ≤ 0xdfff)) := by
    have valid : c.val.toNat.isValidChar := c.valid
    rcases valid with low | ⟨high, top⟩ <;> omega
  have tail : 0x80 ||| (c.val.toNat &&& 0x3f) = c.val.toNat % 64 + 0x80 := by
    simpa using @masked_or c.val.toNat 0x80 0x3f 6 0 rfl rfl
  simp only [strUTF8Encode, if_neg legal, String.utf8EncodeChar, tail,
    masked_or 5 6 (rfl : 0x7c0 = _) (rfl : 0xc0 % _ = _),
    masked_or 4 12 (rfl : 0xf000 = _) (rfl : 0xe0 % _ = _),
    masked_or 6 6 (rfl : 0xfc0 = _) (rfl : 0x80 % _ = _),
    masked_or 3 18 (rfl : 0x1c0000 = _) (rfl : 0xf0 % _ = _),
    masked_or 6 12 (rfl : 0x3f000 = _) (rfl : 0x80 % _ = _)]
  split_ifs <;> first | rfl | omega

theorem strUTF8Encode_wellFormed (codepoint : Nat) : WellFormed (strUTF8Encode codepoint) := by
  by_cases illegal : 0x10ffff < codepoint ∨ (0xd800 ≤ codepoint ∧ codepoint ≤ 0xdfff)
  · rw [strUTF8Encode, if_pos illegal]
    exact .nil
  · obtain ⟨c, rfl⟩ := exists_char (n := codepoint) (by
      rcases Nat.lt_or_ge codepoint 0xd800 with low | high
      · exact .inl low
      · exact .inr ⟨by omega, by omega⟩)
    rw [strUTF8Encode_char]
    exact (coded_utf8EncodeChar c).wellFormed

theorem strUTF8Encode_ascii {codepoint : Nat} (low : codepoint < 0x80) :
    Ascii (strUTF8Encode codepoint) := by
  rw [strUTF8Encode, if_neg (by omega), if_pos low]
  intro u mem
  rw [List.mem_singleton.1 mem, UInt8.toNat_ofNat_of_lt' (low.trans (by decide))]
  exact low

end Encode

structure Utf16Scan.Sound (scan : Utf16Scan) : Prop where
  formed : WellFormed scan.out
  low : scan.ascii = true → Ascii scan.out

theorem Utf16Scan.Sound.unit {scan next : Utf16Scan} {u : UInt16} {complete : Bool}
    (sound : scan.Sound)
    (found : strFromUTF16Unit scan u = some (next, complete)) : next.Sound := by
  have kept : next.out = scan.out ∧ next.ascii = scan.ascii := by
    simp only [strFromUTF16Unit] at found
    split_ifs at found <;> cases found <;> exact ⟨rfl, rfl⟩
  exact ⟨by rw [kept.1]; exact sound.formed, by rw [kept.1, kept.2]; exact sound.low⟩

theorem Utf16Scan.Sound.put {scan : Utf16Scan} (sound : scan.Sound) : scan.put.Sound where
  formed := sound.formed.append (strUTF8Encode_wellFormed _)
  low := by
    intro ascii
    obtain ⟨before, now⟩ := Bool.and_eq_true_iff.1 ascii
    exact (sound.low before).append (strUTF8Encode_ascii (of_decide_eq_true now))

theorem strFromUTF16Loop_sound {units : List UInt16} {scan last : Utf16Scan} (sound : scan.Sound)
    (found : strFromUTF16Loop units scan = some last) : last.Sound := by
  induction units generalizing scan with
  | nil =>
    cases found
    exact sound
  | cons u units ih =>
    obtain ⟨⟨next, complete⟩, unit, rest⟩ := Option.bind_eq_some_iff.1 found
    have next_sound := sound.unit unit
    simp only at rest
    split_ifs at rest
    · exact ih next_sound rest
    · cases rest
      exact next_sound
    · exact ih next_sound.put rest

theorem striTake_reads {it : Striter} {seq rest : List UInt8} (reads : Reads it (seq ++ rest)) :
    ∃ after, striTake seq.length it = some (seq, after) ∧ Reads after rest := by
  induction seq generalizing it with
  | nil => exact ⟨it, rfl, reads⟩
  | cons u seq ih =>
    obtain ⟨next, read, later⟩ := reads
    obtain ⟨after, taken, after_reads⟩ := ih later
    refine ⟨after, ?_, after_reads⟩
    rw [List.length_cons, striTake, read, Option.bind_some, taken]
    rfl

/-- Bytes read from the front: a sequence is kept, and a byte no sequence starts at is replaced. -/
inductive Sanitized : List UInt8 → List UInt8 → Prop
  | nil : Sanitized [] []
  | kept {seq rest out : List UInt8} {n : Nat} (coded : Coded seq n) (later : Sanitized rest out) :
      Sanitized (seq ++ rest) (seq ++ out)
  | replaced {u : UInt8} {bytes out : List UInt8}
      (broken : ∀ seq rest n, u :: bytes = seq ++ rest → ¬Coded seq n)
      (later : Sanitized bytes out) : Sanitized (u :: bytes) (strUTF8Encode u8Replacement ++ out)

theorem Sanitized.wellFormed {bytes out : List UInt8} (sanitized : Sanitized bytes out) :
    WellFormed out := by
  induction sanitized with
  | nil => exact .nil
  | kept coded later ih => exact coded.wellFormed.append ih
  | replaced broken later ih => exact (strUTF8Encode_wellFormed _).append ih

theorem strSanitizeLoop_sanitized {fuel : Nat} {it : Striter} {bytes : List UInt8}
    (reads : Reads it bytes) (enough : bytes.length ≤ fuel) :
    ∃ out, strSanitizeLoop fuel bytes.length it = some out ∧ Sanitized bytes out := by
  induction fuel generalizing it bytes with
  | zero =>
    rw [List.length_eq_zero_iff.1 (Nat.le_zero.1 enough)]
    exact ⟨[], rfl, .nil⟩
  | succ fuel ih =>
    rw [strSanitizeLoop]
    split
    case isTrue nothing =>
      rw [List.length_eq_zero_iff.1 nothing]
      exact ⟨[], rfl, .nil⟩
    case isFalse some_left =>
      cases found : (strUTF8Decode it).filter fun decoded => decoded.len ≤ bytes.length with
      | some =>
        obtain ⟨decodes, -⟩ := Option.filter_eq_some_iff.1 found
        obtain ⟨seq, rest, rfl, coded, len, -⟩ := coded_of_strUTF8Decode reads decodes
        obtain ⟨after, taken, after_reads⟩ := striTake_reads reads
        have seq_pos := coded.length_pos
        rw [List.length_append] at enough
        obtain ⟨out, made, later⟩ := ih after_reads (by omega)
        refine ⟨seq ++ out, ?_, .kept coded later⟩
        simp only [len, taken, Option.bind_some, List.length_append, Nat.add_sub_cancel_left,
          made, Option.map_some]
      | none =>
        obtain ⟨u, rest, rfl⟩ := List.exists_cons_of_length_pos (Nat.pos_of_ne_zero some_left)
        have broken : ∀ seq rest' n, u :: rest = seq ++ rest' → ¬Coded seq n := by
          intro seq rest' n split coded
          rw [split] at reads found
          obtain ⟨after, decodes, -⟩ := strUTF8Decode_coded coded reads
          simp [decodes] at found
        obtain ⟨next, read, later⟩ := reads
        obtain ⟨out, made, clean⟩ := ih later (by simpa using enough)
        refine ⟨strUTF8Encode u8Replacement ++ out, ?_, .replaced broken clean⟩
        simp only [read, Option.map_some, Option.getD_some, List.length_cons,
          Nat.add_sub_cancel, made]

end Cx.Str
