import Mathlib.Data.List.TakeWhile
import Cx.Str.Encoding

/-!
# Strings in JSON

`jsonStrEscape` writes the characters of a string, some of them as escapes, and `parseString` reads
them back one byte at a time.  The two halves of a surrogate pair are put together with a bitwise or
where an addition was meant, a first half of 0 is taken for none, and the result passes through a
buffer that ends at its first NUL.  So what is read back is right for some characters only.
-/

namespace Cx.Json

open Cx.Str CxStr List

/-! ### The writer -/

def ldigits (digit : Nat) : UInt8 := .ofNat (if digit < 10 then 0x30 + digit else 0x57 + digit)

/-- The digits `_strnum_u64toa` writes. -/
def u64toa (base : Nat) : Nat → Nat → List UInt8
  | 0, _ => []
  | fuel + 1, val =>
    if val / base = 0 then [ldigits (val % base)]
    else u64toa base fuel (val / base) ++ [ldigits (val % base)]

def strFromUInt32 (i base : Nat) : List UInt8 := u64toa base 32 i

/-- A backslash, `u` and the digits of a number, with zeros in front. -/
def uEscape (n : Nat) : List UInt8 :=
  let temp := strFromUInt32 n 16
  [0x5c, 0x75] ++ List.replicate (4 - temp.length) 0x30 ++ temp

def utfEscapedEncode (codepoint : Nat) : List UInt8 :=
  if codepoint < 0x10000 then uEscape codepoint
  else
    -- have to use surrogate pairs
    uEscape (0xd800 ||| ((codepoint - 0x10000) >>> 10 &&& 0x3ff)) ++
      uEscape (0xdc00 ||| ((codepoint - 0x10000) &&& 0x3ff))

/-- One turn of the loop of `jsonStrEscape`; the flag is `JSON_ASCII_Only`. -/
def charEscape (asciiOnly : Bool) (code : Nat) : List UInt8 :=
  if code < 0x20 then
    if code = 0x08 then [0x5c, 0x62]
    else if code = 0x0c then [0x5c, 0x66]
    else if code = 0x0a then [0x5c, 0x6e]
    else if code = 0x0d then [0x5c, 0x72]
    else if code = 0x09 then [0x5c, 0x74]
    else utfEscapedEncode code
  else if code = 0x22 then [0x5c, 0x22]
  else if code = 0x5c then [0x5c, 0x5c]
  else if code ≤ 0x7f then [.ofNat code]
  else if asciiOnly = false then strUTF8Encode code
  else utfEscapedEncode code

def jsonStrEscapeLoop (asciiOnly : Bool) : Nat → Striter → List UInt8
  | 0, _ => []
  | fuel + 1, it =>
    match strUTF8Decode it with
    | none => []
    | some read =>
      charEscape asciiOnly read.codepoint ++ jsonStrEscapeLoop asciiOnly fuel read.after

def jsonStrEscape (full : Bool) (o : StrDest) (alloc : Bool) (val : CxStr) (asciiOnly : Bool) :
    Option (List UInt8) :=
  (if strValidUTF8 val then some val else strSanitizeUTF8 full o alloc val).map fun clean =>
    jsonStrEscapeLoop asciiOnly (strFastLen clean) (striBorrow clean)

/-! ### The reader -/

inductive JPErr
  | invalidChar (ch : UInt8)
  | invalidHex (ch : UInt8)
  | surrogateFirst
  | surrogateSecond
  | surrogateMissing
  | invalidEscape (ch : UInt8)
  | unterminatedStr
  deriving DecidableEq

/-- The variables of `parseString`. -/
structure StrScan where
  out : List UInt8 := []
  scratch : List UInt8 := []
  escape : Bool := false
  useq : Nat := 0
  ucp : Nat := 0
  lastucp : Nat := 0
  errmsg : Option JPErr := none

inductive StrTurn
  | next (scan : StrScan)
  | stop (ret : Bool) (scan : StrScan)

/-- Bytes up to the first NUL. -/
def cString (bytes : List UInt8) : List UInt8 := bytes.takeWhile (· ≠ 0)

def outAppend (scan : StrScan) (ch : UInt8) : StrScan :=
  if scan.scratch.length + 1 = 32 then
    { scan with out := scan.out ++ cString (scan.scratch ++ [ch]), scratch := [] }
  else { scan with scratch := scan.scratch ++ [ch] }

def hexval (ch : UInt8) : Option Nat :=
  if 0x30 ≤ ch ∧ ch ≤ 0x39 then some (ch.toNat - 0x30)
  else if 0x61 ≤ ch ∧ ch ≤ 0x66 then some (10 + ch.toNat - 0x61)
  else if 0x41 ≤ ch ∧ ch ≤ 0x46 then some (10 + ch.toNat - 0x41)
  else none

def escapeEnd (scan : StrScan) : StrTurn :=
  if scan.lastucp = 0 then
    if scan.ucp ≤ 0xd7ff ∨ 0xe000 ≤ scan.ucp then
      .next ((strUTF8Encode scan.ucp).foldl outAppend scan)
    else if scan.ucp ≤ 0xdbff then
      .next { scan with lastucp := (scan.ucp &&& 0x3ff) <<< 10, ucp := 0 }
    else .stop false { scan with errmsg := some .surrogateFirst }
  else if 0xdc00 ≤ scan.ucp ∧ scan.ucp ≤ 0xdfff then
    let ucp := scan.lastucp ||| (scan.ucp &&& 0x3ff) ||| 0x10000
    .next ((strUTF8Encode ucp).foldl outAppend { scan with ucp := ucp, lastucp := 0 })
  else .stop false { scan with errmsg := some .surrogateSecond }

def escapeDigit (scan : StrScan) (ch : UInt8) : StrTurn :=
  match hexval ch with
  | none => .stop false { scan with useq := scan.useq - 1, errmsg := some (.invalidHex ch) }
  | some digit =>
    let read := { scan with
      useq := scan.useq - 1
      ucp := scan.ucp ||| digit <<< ((scan.useq - 1) * 4) }
    if read.useq = 0 then escapeEnd read else .next read

/-- The character that a letter after a backslash stands for. -/
def unescape (ch : UInt8) : Option UInt8 :=
  if ch = 0x22 ∨ ch = 0x5c ∨ ch = 0x2f then some ch
  else if ch = 0x62 then some 0x08
  else if ch = 0x66 then some 0x0c
  else if ch = 0x6e then some 0x0a
  else if ch = 0x72 then some 0x0d
  else if ch = 0x74 then some 0x09
  else none

def parseStringTurn (scan : StrScan) (ch : UInt8) : StrTurn :=
  if ch < 0x20 then .stop false { scan with errmsg := some (.invalidChar ch) }
  else if 0 < scan.useq then escapeDigit scan ch
  else if scan.escape then
    let past := { scan with escape := false }
    if scan.lastucp ≠ 0 ∧ ch ≠ 0x75 then .stop false { past with errmsg := some .surrogateMissing }
    else if ch = 0x75 then .next { past with ucp := 0, useq := 4 }
    else
      match unescape ch with
      | some char => .next (outAppend past char)
      -- the `break` leaves the switch, not the loop
      | none => .next { past with errmsg := some (.invalidEscape ch) }
  else if ch = 0x22 then .stop true scan
  else if ch = 0x5c then .next { scan with escape := true }
  else if scan.lastucp ≠ 0 then .stop false { scan with errmsg := some .surrogateMissing }
  else .next (outAppend scan ch)

/-- Whether the loop found the end of the string, its variables and what it has not read. -/
def parseStringLoop : List UInt8 → StrScan → Bool × StrScan × List UInt8
  | [], scan => (false, scan, [])
  | ch :: sb, scan =>
    match parseStringTurn scan ch with
    | .next later => parseStringLoop sb later
    | .stop ret last => (ret, last, sb)

structure ParsedString where
  ret : Bool
  out : List UInt8
  errmsg : Option JPErr
  sb : List UInt8
  deriving DecidableEq

def parseString (sb : List UInt8) : ParsedString :=
  let (ret, scan, rest) := parseStringLoop sb {}
  { ret := ret
    out := scan.out ++ cString scan.scratch
    errmsg := if ret = false ∧ rest = [] then some .unterminatedStr else scan.errmsg
    sb := rest }

/-! ### What is read back -/

/-- The characters that survive.  With `JSON_ASCII_Only` one above U+FFFF is of an odd plane and has
a first half that is not 0. -/
def Survives (asciiOnly : Bool) (code : Nat) : Prop :=
  code ≠ 0 ∧ (asciiOnly = true → 0x10000 ≤ code → 0x10400 ≤ code ∧ code / 0x10000 % 2 = 1)

structure StrScan.Between (scan : StrScan) (text : List UInt8) : Prop where
  text_eq : scan.out ++ scan.scratch = text
  no_nul : ∀ ch ∈ scan.scratch, ch ≠ 0
  escape_eq : scan.escape = false
  useq_eq : scan.useq = 0
  lastucp_eq : scan.lastucp = 0
  errmsg_eq : scan.errmsg = none

theorem cString_eq {bytes : List UInt8} (no_nul : ∀ ch ∈ bytes, ch ≠ 0) : cString bytes = bytes :=
  takeWhile_eq_self_iff.2 fun ch mem => by simpa using no_nul ch mem

section Scan

variable {scan : StrScan} {text : List UInt8}

theorem StrScan.Between.append (between : scan.Between text) {ch : UInt8} (some_char : ch ≠ 0) :
    (outAppend scan ch).Between (text ++ [ch]) := by
  have no_nul : ∀ u ∈ scan.scratch ++ [ch], u ≠ 0 :=
    forall_mem_append.2 ⟨between.no_nul, forall_mem_singleton.2 some_char⟩
  have text_eq : scan.out ++ (scan.scratch ++ [ch]) = text ++ [ch] := by
    rw [← append_assoc, between.text_eq]
  unfold outAppend
  split
  · exact { between with text_eq := by rwa [cString_eq no_nul, append_nil], no_nul := by simp }
  · exact { between with text_eq := text_eq, no_nul := no_nul }

theorem StrScan.Between.appendAll (between : scan.Between text) {bytes : List UInt8}
    (some_chars : ∀ ch ∈ bytes, ch ≠ 0) : (bytes.foldl outAppend scan).Between (text ++ bytes) := by
  induction bytes generalizing scan text with
  | nil => rwa [append_nil]
  | cons ch bytes ih =>
    obtain ⟨first, later⟩ := forall_mem_cons.1 some_chars
    rw [append_cons]
    exact ih (between.append first) later

theorem ne_zero_of_mem_utf8 {code : Nat} (some_char : code ≠ 0) :
    ∀ ch ∈ strUTF8Encode code, ch ≠ 0 := by
  intro ch mem zero
  by_cases illegal : 0x10ffff < code ∨ (0xd800 ≤ code ∧ code ≤ 0xdfff)
  · rw [strUTF8Encode, if_pos illegal] at mem
    cases mem
  · obtain ⟨c, rfl⟩ := exists_char (n := code) (by
      rcases Nat.lt_or_ge code 0xd800 with low | high
      · exact .inl low
      · exact .inr ⟨by omega, by omega⟩)
    rw [strUTF8Encode_char] at mem
    have coded := coded_utf8EncodeChar c
    have single := coded.eq_singleton mem (by rw [zero]; decide)
    rw [single] at coded
    generalize c.val.toNat = code at coded some_char
    cases coded
    exact some_char (congrArg UInt8.toNat zero)

end Scan

/-! ### Escapes with digits -/

/-- So many digits of a number. -/
def hexField : Nat → Nat → List UInt8
  | 0, _ => []
  | k + 1, n => hexField k (n / 16) ++ [ldigits (n % 16)]

theorem hexField_zero (k : Nat) : hexField k 0 = List.replicate k 0x30 := by
  induction k with
  | zero => rfl
  | succ k ih => rw [hexField, ih, replicate_succ']; rfl

/-- Zeros in front make the digits fill their field. -/
theorem pad_u64toa {k fuel n : Nat} (fits : n < 16 ^ (k + 1)) (enough : k < fuel) :
    List.replicate (k + 1 - (u64toa 16 fuel n).length) 0x30 ++ u64toa 16 fuel n =
      hexField (k + 1) n := by
  obtain ⟨fuel, rfl⟩ : ∃ m, fuel = m + 1 := ⟨fuel - 1, by omega⟩
  rw [u64toa, hexField]
  split
  case isTrue short => rw [short, hexField_zero]; rfl
  case isFalse long =>
    cases k with
    | zero => omega
    | succ k =>
      have fits' : n / 16 < 16 ^ (k + 1) :=
        Nat.div_lt_of_lt_mul (by rwa [← Nat.pow_succ'])
      rw [← @pad_u64toa k fuel (n / 16) fits' (by omega), length_append,
        length_singleton, Nat.add_sub_add_right, append_assoc]

theorem uEscape_eq {n : Nat} (fits : n < 0x10000) : uEscape n = 0x5c :: 0x75 :: hexField 4 n := by
  rw [← @pad_u64toa 3 32 n fits (by omega)]
  rfl

theorem hexval_ldigits {digit : Nat} (low : digit < 16) :
    hexval (ldigits digit) = some digit ∧ ¬ldigits digit < 0x20 := by
  revert digit
  decide

theorem digits_or (acc n j : Nat) :
    acc ||| (n / 16) <<< ((j + 1) * 4) ||| (n % 16) <<< (j * 4) = acc ||| n <<< (j * 4) := by
  have digits : (n / 16) <<< 4 ||| n % 16 = n := by
    rw [← Nat.shiftLeft_add_eq_or_of_lt (Nat.mod_lt n (by norm_num)), Nat.shiftLeft_eq]
    omega
  rw [Nat.add_mul, Nat.add_comm (j * 4), Nat.shiftLeft_add, Nat.or_assoc,
    ← Nat.shiftLeft_or_distrib, digits]

variable (scan : StrScan)

/-- A digit is taken while others are to follow. -/
theorem parse_digit {digit j acc : Nat} (low : digit < 16) (sb : List UInt8) :
    parseStringLoop (ldigits digit :: sb) { scan with useq := j + 2, ucp := acc } =
      parseStringLoop sb { scan with useq := j + 1, ucp := acc ||| digit <<< ((j + 1) * 4) } := by
  obtain ⟨value, printable⟩ := hexval_ldigits low
  simp only [parseStringLoop, parseStringTurn, printable, if_false, escapeDigit, value,
    Nat.zero_lt_succ, if_true, Nat.add_one_sub_one, Nat.succ_ne_zero]

theorem parse_hexField {k n j acc : Nat} (fits : n < 16 ^ k) (sb : List UInt8) :
    parseStringLoop (hexField k n ++ sb) { scan with useq := k + (j + 1), ucp := acc } =
      parseStringLoop sb { scan with useq := j + 1, ucp := acc ||| n <<< ((j + 1) * 4) } := by
  induction k generalizing n j sb with
  | zero =>
    obtain rfl : n = 0 := by omega
    simp [hexField]
  | succ k ih =>
    have fits' : n / 16 < 16 ^ k := Nat.div_lt_of_lt_mul (by rwa [← Nat.pow_succ'])
    rw [hexField, append_assoc, show k + 1 + (j + 1) = k + (j + 1 + 1) by omega, ih fits',
      singleton_append, parse_digit scan (Nat.mod_lt n (by norm_num)), digits_or]

/-- An escape of four digits leaves its number. -/
theorem parse_uEscape {scan later : StrScan} {n : Nat} (plain : scan.escape = false)
    (no_digits : scan.useq = 0) (fits : n < 0x10000)
    (ended : escapeEnd { scan with ucp := n } = .next later) (sb : List UInt8) :
    parseStringLoop (uEscape n ++ sb) scan = parseStringLoop sb later := by
  have opened : parseStringLoop (0x5c :: 0x75 :: (hexField 4 n ++ sb)) scan =
      parseStringLoop (hexField 4 n ++ sb) { scan with useq := 3 + (0 + 1), ucp := 0 } := by
    simp [parseStringLoop, parseStringTurn, plain, no_digits]
  obtain ⟨value, printable⟩ := hexval_ldigits (Nat.mod_lt n (by norm_num : 0 < 16))
  have number := digits_or 0 n 0
  simp only [Nat.zero_or, Nat.zero_add, Nat.one_mul, Nat.zero_mul, Nat.shiftLeft_zero] at number
  rw [uEscape_eq fits, cons_append, cons_append, opened, hexField, append_assoc,
    parse_hexField scan (by omega), singleton_append, parseStringLoop]
  simp only [parseStringTurn, printable, if_false, escapeDigit, value, Nat.zero_lt_succ, if_true,
    Nat.add_one_sub_one, Nat.zero_or, Nat.zero_add, Nat.one_mul, Nat.zero_mul, Nat.shiftLeft_zero,
    number]
  rw [← no_digits, ended]

/-! ### One character -/

section Char

variable {scan : StrScan} {text : List UInt8}

section

variable (between : scan.Between text)
include between

theorem parse_raw {bytes : List UInt8} (plain : ∀ ch ∈ bytes, 0x20 ≤ ch ∧ ch ≠ 0x22 ∧ ch ≠ 0x5c)
    (sb : List UInt8) :
    ∃ later, later.Between (text ++ bytes) ∧
      parseStringLoop (bytes ++ sb) scan = parseStringLoop sb later := by
  induction bytes generalizing scan text with
  | nil => exact ⟨scan, by rwa [append_nil], rfl⟩
  | cons ch bytes ih =>
    obtain ⟨⟨printable, not_quote, not_escape⟩, rest⟩ := forall_mem_cons.1 plain
    have some_char : ch ≠ 0 := by
      rintro rfl
      exact absurd printable (by decide)
    obtain ⟨later, after, same⟩ := ih (between.append some_char) rest
    refine ⟨later, by rwa [append_cons], ?_⟩
    rw [cons_append, parseStringLoop, ← same]
    simp [parseStringTurn, not_quote, not_escape, between.escape_eq, between.useq_eq,
      between.lastucp_eq, UInt8.not_lt.2 printable]

theorem parse_short {letter ch : UInt8} (stands : unescape letter = some ch)
    (printable : 0x20 ≤ letter) (not_u : letter ≠ 0x75) (some_char : ch ≠ 0) (sb : List UInt8) :
    ∃ later, later.Between (text ++ [ch]) ∧
      parseStringLoop ([0x5c, letter] ++ sb) scan = parseStringLoop sb later := by
  have same : StrScan.Between { scan with escape := false } text :=
    { between with escape_eq := rfl }
  refine ⟨_, same.append some_char, ?_⟩
  simp [parseStringLoop, parseStringTurn, between.escape_eq, between.useq_eq, between.lastucp_eq,
    stands, not_u, UInt8.not_lt.2 printable]

theorem StrScan.Between.number (n : Nat) : StrScan.Between { scan with ucp := n } text :=
  { between with }

/-- One escape, of a character up to U+FFFF. -/
theorem parse_single {code : Nat} (some_char : code ≠ 0) (fits : code < 0x10000)
    (scalar : code ≤ 0xd7ff ∨ 0xe000 ≤ code) (sb : List UInt8) :
    ∃ later, later.Between (text ++ strUTF8Encode code) ∧
      parseStringLoop (uEscape code ++ sb) scan = parseStringLoop sb later := by
  refine ⟨_, (between.number code).appendAll (ne_zero_of_mem_utf8 some_char), ?_⟩
  refine parse_uEscape between.escape_eq between.useq_eq fits ?_ sb
  simp only [escapeEnd, between.lastucp_eq, if_true, if_pos scalar]

end

/-- What the bits of the two halves come to, in an odd plane. -/
theorem or_plane (above : Nat) (odd : above / 0x10000 % 2 = 0) :
    (above / 1024) <<< 10 ||| above % 1024 ||| 0x10000 = above + 0x10000 := by
  have halves :
      (above / 1024) <<< 10 ||| above % 1024 = (above / 0x20000) <<< 17 ||| above % 0x20000 := by
    rw [← Nat.shiftLeft_add_eq_or_of_lt (Nat.mod_lt _ (by norm_num)), Nat.shiftLeft_eq,
      ← Nat.shiftLeft_add_eq_or_of_lt (Nat.mod_lt _ (by norm_num)), Nat.shiftLeft_eq]
    omega
  have low : above % 0x20000 < 2 ^ 16 := by omega
  have plane : above % 0x20000 ||| 0x10000 = 0x10000 + above % 0x20000 := by
    rw [Nat.or_comm, show 0x10000 = 1 <<< 16 from rfl, ← Nat.shiftLeft_add_eq_or_of_lt low]
  rw [halves, Nat.or_assoc, plane, ← Nat.shiftLeft_add_eq_or_of_lt (by omega), Nat.shiftLeft_eq]
  omega

/-- Two escapes, of a character above U+FFFF. -/
theorem parse_pair (between : scan.Between text) {code : Nat} (some_half : 0x10400 ≤ code)
    (top : code ≤ 0x10ffff) (odd : code / 0x10000 % 2 = 1) (sb : List UInt8) :
    ∃ later, later.Between (text ++ strUTF8Encode code) ∧
      parseStringLoop (utfEscapedEncode code ++ sb) scan = parseStringLoop sb later := by
  obtain ⟨out, scratch, escape, useq, ucp, lastucp, errmsg⟩ := scan
  obtain rfl : escape = false := between.escape_eq
  obtain rfl : useq = 0 := between.useq_eq
  obtain rfl : lastucp = 0 := between.lastucp_eq
  obtain ⟨above, rfl⟩ : ∃ n, code = n + 0x10000 := ⟨code - 0x10000, by omega⟩
  have high : 0xd800 ||| (above >>> 10 &&& 0x3ff) = above / 1024 + 0xd800 := by
    have bits := @masked_or (above >>> 10) 0xd800 0x3ff 10 0 rfl rfl
    rw [Nat.shiftRight_zero] at bits
    rw [bits, Nat.shiftRight_eq_div_pow]
    omega
  have low : 0xdc00 ||| (above &&& 0x3ff) = above % 1024 + 0xdc00 := by
    simpa using @masked_or above 0xdc00 0x3ff 10 0 rfl rfl
  have mask (n : Nat) : n &&& 0x3ff = n % 1024 := Nat.and_two_pow_sub_one_eq_mod n 10
  have first_half : (above / 1024 + 0xd800) % 1024 = above / 1024 := by omega
  have second_half : (above % 1024 + 0xdc00) % 1024 = above % 1024 := by omega
  have pending : (above / 1024) <<< 10 ≠ 0 := by
    rw [Nat.shiftLeft_eq]
    omega
  have whole := or_plane above (by omega)
  rw [utfEscapedEncode, if_neg (by omega), Nat.add_sub_cancel, high, low, append_assoc]
  refine ⟨_, (between.number (above + 0x10000)).appendAll (ne_zero_of_mem_utf8 (by omega)), ?_⟩
  rw [@parse_uEscape _ ⟨out, scratch, false, 0, 0, (above / 1024) <<< 10, errmsg⟩ _ rfl rfl
    (by omega)]
  · refine parse_uEscape rfl rfl (show above % 1024 + 0xdc00 < 0x10000 by omega) ?_ sb
    simp only [escapeEnd, pending, if_false, mask, second_half, whole]
    rw [if_pos (by omega)]
  · simp only [escapeEnd, if_true, mask, first_half]
    rw [if_neg (by omega), if_pos (by omega)]

theorem parse_charEscape (between : scan.Between text) (asciiOnly : Bool) (c : Char)
    (survives : Survives asciiOnly c.val.toNat) (sb : List UInt8) :
    ∃ later, later.Between (text ++ String.utf8EncodeChar c) ∧
      parseStringLoop (charEscape asciiOnly c.val.toNat ++ sb) scan = parseStringLoop sb later := by
  have valid : c.val.toNat < 0xd800 ∨ 0xdfff < c.val.toNat ∧ c.val.toNat < 0x110000 := c.valid
  obtain ⟨some_char, planes⟩ := survives
  have coded := coded_utf8EncodeChar c
  rw [← strUTF8Encode_char] at coded ⊢
  generalize c.val.toNat = code at *
  have ascii (low : code < 0x80) : strUTF8Encode code = [.ofNat code] := by
    rw [strUTF8Encode, if_neg (by omega), if_pos low]
  have short (letter ch : UInt8) (stands : unescape letter = some ch) (printable : 0x20 ≤ letter)
      (not_u : letter ≠ 0x75) (is_code : code = ch.toNat) (low : code < 0x80) :
      ∃ later, later.Between (text ++ strUTF8Encode code) ∧
        parseStringLoop ([0x5c, letter] ++ sb) scan = parseStringLoop sb later := by
    rw [ascii low, is_code, UInt8.ofNat_toNat]
    exact parse_short between stands printable not_u (by rintro rfl; exact some_char is_code) sb
  unfold charEscape
  split_ifs with control bs ff nl cr tab quote escape printable raw
  · exact short 0x62 0x08 rfl (by decide) (by decide) bs (by omega)
  · exact short 0x66 0x0c rfl (by decide) (by decide) ff (by omega)
  · exact short 0x6e 0x0a rfl (by decide) (by decide) nl (by omega)
  · exact short 0x72 0x0d rfl (by decide) (by decide) cr (by omega)
  · exact short 0x74 0x09 rfl (by decide) (by decide) tab (by omega)
  · rw [utfEscapedEncode, if_pos (by omega)]
    exact parse_single between some_char (by omega) (by omega) sb
  · exact short 0x22 0x22 rfl (by decide) (by decide) quote (by omega)
  · exact short 0x5c 0x5c rfl (by decide) (by decide) escape (by omega)
  · rw [ascii (by omega)]
    refine parse_raw between (fun ch mem => ?_) sb
    have value := UInt8.toNat_ofNat_of_lt' (show code < 256 by omega)
    rw [mem_singleton.1 mem]
    simp only [UInt8.le_iff_toNat_le, ne_eq, ← UInt8.toNat_inj, value, UInt8.reduceToNat]
    omega
  · refine parse_raw between (fun ch mem => ?_) sb
    have high : 0x80 ≤ ch.toNat := by
      by_contra low
      rw [coded.eq_singleton mem (by omega)] at coded
      cases coded
      omega
    simp only [UInt8.le_iff_toNat_le, ne_eq, ← UInt8.toNat_inj, UInt8.reduceToNat]
    omega
  · by_cases fits : code < 0x10000
    · rw [utfEscapedEncode, if_pos fits]
      exact parse_single between some_char fits (by omega) sb
    · obtain ⟨some_half, odd⟩ := planes (by simpa using raw) (by omega)
      exact parse_pair between some_half (by omega) odd sb

end Char

/-! ### Whole strings -/

theorem parse_chars {scan : StrScan} {text : List UInt8} (between : scan.Between text)
    (asciiOnly : Bool) {chars : List Char} (survive : ∀ c ∈ chars, Survives asciiOnly c.val.toNat)
    (sb : List UInt8) :
    ∃ later, later.Between (text ++ chars.flatMap String.utf8EncodeChar) ∧
      parseStringLoop ((chars.flatMap fun c => charEscape asciiOnly c.val.toNat) ++ sb) scan =
        parseStringLoop sb later := by
  induction chars generalizing scan text with
  | nil => exact ⟨scan, by simpa using between, rfl⟩
  | cons c chars ih =>
    obtain ⟨first, others⟩ := forall_mem_cons.1 survive
    obtain ⟨mid, mid_between, mid_eq⟩ := parse_charEscape between asciiOnly c first
      ((chars.flatMap fun c => charEscape asciiOnly c.val.toNat) ++ sb)
    obtain ⟨later, later_between, later_eq⟩ := ih mid_between others
    refine ⟨later, ?_, ?_⟩
    · rwa [flatMap_cons, ← append_assoc]
    · rw [flatMap_cons, append_assoc, mid_eq, later_eq]

theorem jsonStrEscapeLoop_eq (asciiOnly : Bool) {chars : List Char} {it : Striter} {fuel : Nat}
    (reads : Reads it (chars.flatMap String.utf8EncodeChar))
    (enough : (chars.flatMap String.utf8EncodeChar).length ≤ fuel) :
    jsonStrEscapeLoop asciiOnly fuel it =
      chars.flatMap fun c => charEscape asciiOnly c.val.toNat := by
  induction chars generalizing it fuel with
  | nil =>
    have done : striChar it = none := reads
    cases fuel with
    | zero => rfl
    | succ => simp [jsonStrEscapeLoop, strUTF8Decode, done]
  | cons c chars ih =>
    have coded := coded_utf8EncodeChar c
    have some_byte := coded.length_pos
    rw [flatMap_cons] at reads enough
    rw [length_append] at enough
    obtain ⟨fuel, rfl⟩ : ∃ m, fuel = m + 1 := ⟨fuel - 1, by omega⟩
    obtain ⟨after, decodes, after_reads⟩ := strUTF8Decode_coded coded reads
    rw [jsonStrEscapeLoop, decodes]
    simp only [@ih after fuel after_reads (by omega), flatMap_cons]

/-- A string as it is read back from what was written for it. -/
def readBack (bytes : List UInt8) (asciiOnly : Bool) : Option ParsedString :=
  (jsonStrEscape true ⟨.null, false, false, 0, 0⟩ false (.flat .clear bytes) asciiOnly).map
    fun escaped => parseString (escaped ++ [0x22])

end Cx.Json
