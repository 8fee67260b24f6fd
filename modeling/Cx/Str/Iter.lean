import Cx.Str.Build

/-!
# Views of a string

A string is read by copying it out, by indexing it, or run by run with an iterator.  The iterator
finds the flat string that holds an offset by going down through the windows, and takes the run from
the last window alone: a window of a rope does not cut the runs found below it.  The views agree
where no node refers to only part of a rope.
-/

namespace Cx.Str

open Cx.Library CxStr List

variable {off : Nat} {str : CxStr} {reverse : Bool} {fuel : Nat}

/-- Subtraction of `uint32`. -/
def sub32 (a b : Nat) : Nat := (a + 2 ^ 32 - b) % 2 ^ 32

theorem sub32_of_le {a b : Nat} (bounded : a < 2 ^ 32) (le : b ≤ a) : sub32 a b = a - b := by
  rw [sub32, show a + 2 ^ 32 - b = (a - b) + 2 ^ 32 by omega, Nat.add_mod_right,
    Nat.mod_eq_of_lt (by omega)]

/-- What `_strRopeRealStr` finds: a flat string, the place in it, how far the run goes on from there
and where it starts. -/
structure RealStr where
  buf : List UInt8
  off : Nat
  len : Nat
  start : Nat
  deriving DecidableEq, Repr

def strRopeRealStrPart (str : CxStr) (refoff reflen off : Nat) (inner : Option RealStr) :
    Option RealStr :=
  if reflen ≤ off then none
  else
    match str with
    | .null => none
    | .plain bytes => some ⟨bytes, refoff + off, reflen - off, refoff⟩
    | .flat _ bytes => some ⟨bytes, refoff + off, reflen - off, refoff⟩
    | .rope .. => inner

def strRopeRealStr : CxStr → Nat → Option RealStr
  | .rope _ left loff llen right roff rlen _, off =>
    match strRopeRealStrPart left loff llen off (strRopeRealStr left (loff + off)) with
    | some real => some real
    | none =>
      strRopeRealStrPart right roff rlen (sub32 off llen)
        (strRopeRealStr right (roff + sub32 off llen))
  | _, _ => none

def strBuffer : CxStr → List UInt8
  | .plain bytes => bytes
  | .flat _ bytes => bytes
  | _ => []

def strFastChar (s : CxStr) (i : Nat) : UInt8 :=
  match s with
  | .rope .. => ((strRopeRealStr s i).bind fun real => real.buf[real.off]?).getD 0
  | _ => ((strBuffer s)[i]?).getD 0

def strGetChar (s : CxStr) (i : Int) : UInt8 :=
  if strCheckValid s then
    let off := strResolvePos (strFastLen s) i
    if strFastLen s ≤ off then 0 else strFastChar s off
  else 0

def strCopyRaw (s : CxStr) (off maxlen : Nat) : Option (List UInt8) :=
  if strCheckValid s ∧ maxlen ≠ 0 then
    let start := min off (strFastLen s)
    strFastCopy s start (min (strFastLen s - start) maxlen)
  else some []

structure Striter where
  bytes : List UInt8
  off : Nat
  len : Nat
  cursor : Nat
  str : CxStr
  deriving DecidableEq, Repr

def striSetup (s : CxStr) (off newcursor : Nat) (reverse : Bool) : Striter :=
  match s with
  | .rope .. =>
    match strRopeRealStr s off with
    | some real =>
      let back := real.off - real.start
      if reverse then
        ⟨window real.buf real.start (real.len + back), sub32 off back, real.len + back,
          newcursor, s⟩
      else ⟨window real.buf real.off real.len, off, real.len, newcursor, s⟩
    | none => ⟨[], strFastLen s, 0, newcursor, s⟩
  | _ =>
    let start := if reverse then 0 else off
    ⟨(strBuffer s).drop start, start, sub32 (strFastLen s) start, newcursor, s⟩

def striClear (it : Striter) : Striter := ⟨[], strFastLen it.str, 0, 0, it.str⟩

/-- What an iterator walks: `_strEmpty` stands for NULL and the like. -/
def striSource (s : CxStr) : CxStr := if strCheckValid s then s else .flat .mask []

def striBorrow (s : CxStr) : Striter := striSetup (striSource s) 0 0 false

def striBorrowRev (s : CxStr) : Striter :=
  striSetup (striSource s) (sub32 (strLen (striSource s)) 1) 0 true

def striNext (it : Striter) : Striter :=
  let nextoff := (it.off + it.len) % 2 ^ 32
  let nextcursor := if it.cursor < it.len then sub32 it.cursor it.len else 0
  if strFastLen it.str ≤ nextoff then striClear it
  else striSetup it.str nextoff nextcursor false

def striPrev (it : Striter) : Striter :=
  if it.off = 0 then striClear it else striSetup it.str (it.off - 1) 0 true

/-- The runs of a walk, `while (it.len > 0)`. -/
def striRuns (move : Striter → Striter) : Nat → Striter → Option (List (List UInt8))
  | 0, _ => none
  | fuel + 1, it =>
    if it.len = 0 then some [] else (striRuns move fuel (move it)).map (it.bytes :: ·)

/-- The next byte.  The loop that looks for a run turns once: the run it finds has its cursor at the
start, and an iterator without a run is at the end. -/
def striChar (it : Striter) : Option (UInt8 × Striter) :=
  let run := if it.len ≤ it.cursor then striNext it else it
  if run.len = 0 then none
  else (run.bytes[run.cursor]?).map (·, { run with cursor := run.cursor + 1 })

/-- The bytes `striChar` reads until it returns false. -/
def striChars : Nat → Striter → Option (List UInt8)
  | 0, _ => none
  | fuel + 1, it =>
    match striChar it with
    | none => some []
    | some (byte, next) => (striChars fuel next).map (byte :: ·)

def Reads : Striter → List UInt8 → Prop
  | it, [] => striChar it = none
  | it, byte :: bytes => ∃ next, striChar it = some (byte, next) ∧ Reads next bytes

/-! ### Indexing and copying -/

/-- Every string inside fits its signed length. -/
def CxStr.Short : CxStr → Prop
  | .rope _ left _ llen right _ rlen _ => llen + rlen < 2 ^ 31 ∧ left.Short ∧ right.Short
  | s => strFastLen s < 2 ^ 31

theorem CxStr.Short.length {s : CxStr} (short : s.Short) : strFastLen s < 2 ^ 31 := by
  cases s with
  | rope => exact short.1
  | _ => exact short

section Index

theorem strRopeRealStrPart_past {refoff reflen : Nat} (past : reflen ≤ off)
    (inner : Option RealStr) : strRopeRealStrPart str refoff reflen off inner = none := by
  unfold strRopeRealStrPart
  exact if_pos past

/-- The byte at a place in a part, if it is found in the string below. -/
theorem strRopeRealStrPart_byte {refoff reflen : Nat} {inner : Option RealStr}
    (straddled : str.Straddled refoff reflen) (within : off < reflen)
    (found : StrDest.isRope str = true →
      ∃ real, inner = some real ∧ real.buf[real.off]? = str.text[refoff + off]?) :
    ∃ real, strRopeRealStrPart str refoff reflen off inner = some real ∧
      real.buf[real.off]? = (window str.text refoff reflen)[off]? := by
  rw [getElem?_window, if_pos within]
  unfold strRopeRealStrPart
  rw [if_neg (Nat.not_le.2 within)]
  cases str with
  | null | plain => exact straddled.elim
  | flat => exact ⟨_, rfl, rfl⟩
  | rope => exact found rfl

/-- The flat string that holds an offset has the byte at that offset. -/
theorem strRopeRealStr_byte {s : CxStr} (sound : s.Sound) (short : s.Short)
    (rope : StrDest.isRope s = true) (within : off < strFastLen s) :
    ∃ real, strRopeRealStr s off = some real ∧ real.buf[real.off]? = s.text[off]? := by
  induction s generalizing off with
  | null | plain | flat => cases rope
  | rope enc left loff llen right roff rlen depth left_ih right_ih =>
    obtain ⟨-, ⟨left_sound, left_straddled⟩, right_case⟩ := sound
    obtain ⟨fits, left_short, right_short⟩ := short
    have left_le := left_straddled.le
    have left_length := left_straddled.length_text left_sound
    rw [strFastLen_rope] at within
    rw [strRopeRealStr, CxStr.text]
    rcases Nat.lt_or_ge off llen with in_left | past_left
    · obtain ⟨real, part_found, byte⟩ := strRopeRealStrPart_byte left_straddled in_left
        fun left_rope => left_ih left_sound left_short left_rope (by omega)
      refine ⟨real, by rw [part_found], ?_⟩
      rw [byte, List.getElem?_append_left (by omega)]
    · obtain ⟨rfl, rfl, rfl⟩ | ⟨right_sound, right_straddled⟩ := right_case
      · omega
      have right_le := right_straddled.le
      obtain ⟨real, part_found, byte⟩ :=
        strRopeRealStrPart_byte right_straddled (show off - llen < rlen by omega)
          fun right_rope => right_ih right_sound right_short right_rope (by omega)
      rw [sub32_of_le (by omega) past_left, part_found]
      refine ⟨real, by rw [strRopeRealStrPart_past past_left], ?_⟩
      rw [byte, List.getElem?_append_right (by omega), left_length]

variable {s : CxStr}

theorem strBuffer_eq (flat : StrDest.isRope s = false) : strBuffer s = s.text := by
  cases s with
  | rope => cases flat
  | _ => rfl

theorem strFastChar_eq (sound : s.Sound) (short : s.Short) (within : off < strFastLen s) :
    some (strFastChar s off) = s.text[off]? := by
  have in_text : off < s.text.length := by
    rw [length_text sound]
    exact within
  cases rope : StrDest.isRope s
  · have char : strFastChar s off = ((strBuffer s)[off]?).getD 0 := by
      cases s with
      | rope => cases rope
      | _ => rfl
    rw [char, strBuffer_eq rope, List.getElem?_eq_getElem in_text, Option.getD_some]
  · obtain ⟨real, found, byte⟩ := strRopeRealStr_byte sound short rope within
    have char : strFastChar s off =
        ((strRopeRealStr s off).bind fun real => real.buf[real.off]?).getD 0 := by
      cases s with
      | rope => rfl
      | _ => cases rope
    rw [char, found, Option.bind_some, byte, List.getElem?_eq_getElem in_text, Option.getD_some]

/-- Indexing inside a string. -/
theorem strGetChar_eq (given : s.Given anyEnc) (short : s.Short) {i : Nat} (within : i < strLen s) :
    some (strGetChar s i) = s.text[i]? := by
  cases check : strCheckValid s
  · rw [strLen, check] at within
    exact absurd within (Nat.not_lt_zero i)
  · have valid := given.valid check
    have length := short.length
    rw [strLen, check, if_pos rfl] at within
    have resolved : strResolvePos (strFastLen s) i = i := by
      unfold strResolvePos strEnd
      rw [if_neg (by omega), if_neg (by omega), Int.toNat_natCast]
    rw [strGetChar, check, if_pos rfl, resolved]
    simp only [if_neg (Nat.not_le.2 within)]
    exact strFastChar_eq valid.sound short within

/-- Copying from any offset, as far as the string or the buffer goes. -/
theorem strCopyRaw_eq (given : s.Given anyEnc) (off maxlen : Nat) :
    strCopyRaw s off maxlen = some (window s.text off maxlen) := by
  unfold strCopyRaw
  split
  case isTrue both =>
    have sound := (given.valid both.1).sound
    have length := length_text sound
    simp only
    rw [strFastCopy_eq sound (by omega), ← length, window_clip]
  case isFalse neither =>
    cases check : strCheckValid s
    · rw [text_nil_of_check check]
      simp [window]
    · have nothing : maxlen = 0 := by
        by_contra some_room
        exact neither ⟨check, some_room⟩
      rw [nothing, window_zero]

end Index

/-! ### Walking -/

def runOf (bytes : List UInt8) : List (List UInt8) := if bytes = [] then [] else [bytes]

theorem flatten_runOf (bytes : List UInt8) : (runOf bytes).flatten = bytes := by
  unfold runOf
  split <;> simp_all

variable {pre post : List (List UInt8)}

theorem eq_of_runOf {bytes p : List UInt8}
    (split : runOf bytes = pre ++ p :: post) : pre = [] ∧ p = bytes ∧ post = [] := by
  unfold runOf at split
  split at split
  · simp at split
  · cases pre with
    | nil => simp_all
    | cons => simp at split

namespace CxStr

/-- No node refers to only part of a rope. -/
def Whole : CxStr → Prop
  | .rope _ left loff llen right roff rlen _ =>
    (left.Whole ∧ (StrDest.isRope left = true → loff = 0 ∧ llen = strFastLen left)) ∧
      (right.Whole ∧ (StrDest.isRope right = true → roff = 0 ∧ rlen = strFastLen right))
  | _ => True

/-- The flat parts of a string in order, without empty ones. -/
def runs : CxStr → List (List UInt8)
  | .null => []
  | .plain bytes => runOf bytes
  | .flat _ bytes => runOf bytes
  | .rope _ left loff llen right roff rlen _ =>
    (if StrDest.isRope left then left.runs else runOf (window left.text loff llen)) ++
      (if StrDest.isRope right then right.runs else runOf (window right.text roff rlen))

/-- The flat parts of a window that a node refers to. -/
def runsIn (str : CxStr) (off len : Nat) : List (List UInt8) :=
  if StrDest.isRope str then str.runs else runOf (window str.text off len)

theorem flatten_runsIn {len : Nat} (sound : str.Sound)
    (whole : StrDest.isRope str = true → off = 0 ∧ len = strFastLen str)
    (flatten : StrDest.isRope str = true → str.runs.flatten = str.text) :
    (str.runsIn off len).flatten = window str.text off len := by
  unfold runsIn
  split
  case isTrue rope =>
    obtain ⟨rfl, rfl⟩ := whole rope
    rw [flatten rope, ← length_text sound, window_length]
  case isFalse => exact flatten_runOf _

theorem flatten_runs {s : CxStr} (sound : s.Sound) (whole : s.Whole) : s.runs.flatten = s.text := by
  induction s with
  | null => exact sound.elim
  | plain bytes | flat enc bytes => exact flatten_runOf bytes
  | rope enc left loff llen right roff rlen depth left_ih right_ih =>
    obtain ⟨-, ⟨left_sound, -⟩, right_case⟩ := sound
    obtain ⟨⟨left_whole, left_all⟩, right_whole, right_all⟩ := whole
    have from_left := flatten_runsIn left_sound left_all fun _ => left_ih left_sound left_whole
    have from_right : (right.runsIn roff rlen).flatten = window right.text roff rlen := by
      obtain ⟨rfl, rfl, rfl⟩ | ⟨right_sound, -⟩ := right_case
      · rfl
      · exact flatten_runsIn right_sound right_all fun _ => right_ih right_sound right_whole
    rw [text, ← from_left, ← from_right, ← flatten_append]
    rfl

end CxStr

structure RealStr.In (real : RealStr) (p : List UInt8) (k : Nat) : Prop where
  off : real.off = real.start + k
  len : real.len = p.length - k
  bytes : window real.buf real.start p.length = p

theorem strRopeRealStrPart_run {refoff reflen : Nat} (straddled : str.Straddled refoff reflen)
    (sound : str.Sound) (whole : str.Whole)
    (all : StrDest.isRope str = true → refoff = 0 ∧ reflen = strFastLen str) {p : List UInt8}
    {k : Nat} (split : str.runsIn refoff reflen = pre ++ p :: post) (within : k < p.length)
    (found : StrDest.isRope str = true → str.runs = pre ++ p :: post →
      ∃ real, strRopeRealStr str (pre.flatten.length + k) = some real ∧ real.In p k) :
    ∃ real, strRopeRealStrPart str refoff reflen (pre.flatten.length + k)
        (strRopeRealStr str (refoff + (pre.flatten.length + k))) = some real ∧ real.In p k := by
  have length : (str.runsIn refoff reflen).flatten.length = reflen := by
    have le := straddled.le
    rw [flatten_runsIn sound all fun _ => flatten_runs sound whole, length_window,
      length_text sound]
    omega
  have inside : pre.flatten.length + k < reflen := by
    rw [← length, split]
    simp only [flatten_append, flatten_cons, length_append]
    omega
  unfold strRopeRealStrPart
  rw [if_neg (Nat.not_le.2 inside)]
  cases str with
  | null | plain => exact straddled.elim
  | flat enc bytes =>
    obtain ⟨rfl, rfl, rfl⟩ := eq_of_runOf split
    have window_length : (window bytes refoff reflen).length = reflen := by
      have le : refoff + reflen ≤ bytes.length := straddled.1
      rw [length_window]
      omega
    refine ⟨_, rfl, ?_, ?_, ?_⟩
    · simp
    · simp only [CxStr.text, window_length, flatten_nil, length_nil, Nat.zero_add]
    · simp only [CxStr.text, window_length]
  | rope =>
    obtain ⟨rfl, rfl⟩ := all rfl
    rw [Nat.zero_add]
    exact found rfl split

/-- Inside a string whose ropes are referred to whole, an offset lies in one of the flat parts. -/
theorem strRopeRealStr_run {s : CxStr} (sound : s.Sound) (short : s.Short) (whole : s.Whole)
    (rope : StrDest.isRope s = true) {p : List UInt8} {k : Nat}
    (split : s.runs = pre ++ p :: post) (within : k < p.length) :
    ∃ real, strRopeRealStr s (pre.flatten.length + k) = some real ∧ real.In p k := by
  induction s generalizing pre post p k with
  | null | plain | flat => cases rope
  | rope enc left loff llen right roff rlen depth left_ih right_ih =>
    have flatten := flatten_runs sound whole
    rw [split] at flatten
    have total := length_text sound
    obtain ⟨-, ⟨left_sound, left_straddled⟩, right_case⟩ := sound
    obtain ⟨fits, left_short, right_short⟩ := short
    obtain ⟨⟨left_whole, left_all⟩, right_whole, right_all⟩ := whole
    have left_le := left_straddled.le
    have left_length : (left.runsIn loff llen).flatten.length = llen := by
      rw [flatten_runsIn left_sound left_all fun _ => flatten_runs left_sound left_whole,
        length_window, length_text left_sound]
      omega
    have parts : left.runsIn loff llen ++ right.runsIn roff rlen = pre ++ p :: post := split
    rw [strRopeRealStr]
    -- the run is one of the left part's or one of the right part's
    have placed : (∃ mid, left.runsIn loff llen = pre ++ p :: mid) ∨
        ∃ before, pre = left.runsIn loff llen ++ before ∧
          right.runsIn roff rlen = before ++ p :: post := by
      rcases append_eq_append_iff.1 parts with ⟨before, pre_eq, right_eq⟩ |
        ⟨mid, left_eq, rest⟩
      · exact .inr ⟨before, pre_eq, right_eq⟩
      · cases mid with
        | nil => exact .inr ⟨[], by simpa using left_eq.symm, by simpa using rest.symm⟩
        | cons first mid =>
          obtain ⟨rfl, -⟩ := List.cons.inj rest
          exact .inl ⟨mid, left_eq⟩
    rcases placed with ⟨mid, in_left⟩ | ⟨before, rfl, in_right⟩
    · obtain ⟨real, part_found, run⟩ := strRopeRealStrPart_run left_straddled left_sound left_whole
        left_all in_left within fun left_rope left_split =>
          left_ih left_sound left_short left_whole left_rope left_split within
      exact ⟨real, by rw [part_found], run⟩
    · have past : llen ≤ (left.runsIn loff llen ++ before).flatten.length + k := by
        rw [flatten_append, length_append, left_length]
        omega
      have inside : (left.runsIn loff llen ++ before).flatten.length + k < 2 ^ 32 := by
        rw [← flatten, strFastLen_rope, flatten_append, flatten_cons,
          length_append, length_append] at total
        omega
      have rest : sub32 ((left.runsIn loff llen ++ before).flatten.length + k) llen =
          before.flatten.length + k := by
        rw [sub32_of_le inside past, flatten_append, length_append, left_length]
        omega
      obtain ⟨rfl, rfl, rfl⟩ | ⟨right_sound, right_straddled⟩ := right_case
      · exact absurd in_right (by simp [runsIn, runOf, StrDest.isRope, CxStr.text, window])
      obtain ⟨real, part_found, run⟩ := strRopeRealStrPart_run right_straddled right_sound
        right_whole right_all in_right within fun right_rope right_split =>
          right_ih right_sound right_short right_whole right_rope right_split within
      rw [strRopeRealStrPart_past past, rest]
      exact ⟨real, part_found, run⟩

theorem CxStr.ne_nil_of_mem_runs {s : CxStr} {p : List UInt8} (mem : p ∈ s.runs) : p ≠ [] := by
  have run_ne : ∀ bytes : List UInt8, p ∈ runOf bytes → p ≠ [] := by
    intro bytes run
    unfold runOf at run
    split at run
    · simp at run
    · simp_all
  induction s with
  | null => simp [runs] at mem
  | plain bytes | flat enc bytes => exact run_ne bytes mem
  | rope enc left loff llen right roff rlen depth left_ih right_ih =>
    rcases mem_append.1 mem with in_left | in_right
    · split at in_left
      exacts [left_ih in_left, run_ne _ in_left]
    · split at in_right
      exacts [right_ih in_right, run_ne _ in_right]

section Walk

variable {s : CxStr} (sound : s.Sound) (short : s.Short) (whole : s.Whole)
  {pre post : List (List UInt8)} {p q : List UInt8} {k : Nat}
  (split : s.runs = pre ++ p :: post)

include split in
theorem run_pos : 0 < p.length :=
  length_pos_of_ne_nil (ne_nil_of_mem_runs (by rw [split]; simp : p ∈ s.runs))

include sound split in
theorem run_of_flat (flat : StrDest.isRope s = false) : pre = [] ∧ p = s.text ∧ post = [] := by
  have one : runOf s.text = pre ++ p :: post := by
    cases s with
    | null => exact sound.elim
    | rope => cases flat
    | _ => exact split
  exact eq_of_runOf one

include sound short whole split

theorem runs_length_lt :
    pre.flatten.length + p.length + post.flatten.length = strFastLen s ∧ strFastLen s < 2 ^ 31 := by
  have flatten := flatten_runs sound whole
  rw [split] at flatten
  have total := length_text sound
  rw [← flatten, flatten_append, flatten_cons, length_append,
    length_append] at total
  exact ⟨by omega, short.length⟩

/-- Forward from the start of a run, and backward from any place in it, the iterator takes it
whole. -/
theorem striSetup_at (within : k < p.length) (cursor : Nat) (start : reverse = true ∨ k = 0) :
    striSetup s (pre.flatten.length + k) cursor reverse =
      ⟨p, pre.flatten.length, p.length, cursor, s⟩ := by
  obtain ⟨total, fits⟩ := runs_length_lt sound short whole split
  cases rope : StrDest.isRope s
  · obtain ⟨rfl, rfl, rfl⟩ := run_of_flat sound split rope
    have setup : striSetup s k cursor reverse =
        ⟨(strBuffer s).drop 0, 0, sub32 (strFastLen s) 0, cursor, s⟩ := by
      have first : (if reverse = true then 0 else k) = 0 := by
        rcases start with rfl | rfl <;> simp
      cases s with
      | rope => cases rope
      | _ => simp only [striSetup, first]
    rw [flatten_nil, length_nil, Nat.zero_add, setup, strBuffer_eq rope, drop_zero,
      sub32_of_le (by omega) (Nat.zero_le _), Nat.sub_zero, length_text sound]
  · obtain ⟨real, found, off_eq, len_eq, bytes⟩ :=
      strRopeRealStr_run sound short whole rope split within
    have back : real.off - real.start = k := by omega
    have whole_len : real.len + k = p.length := by omega
    have setup : striSetup s (pre.flatten.length + k) cursor reverse = if reverse then
        ⟨window real.buf real.start p.length, sub32 (pre.flatten.length + k) k, p.length, cursor, s⟩
        else ⟨window real.buf real.off real.len, pre.flatten.length + k, real.len, cursor, s⟩ := by
      cases s with
      | rope => simp only [striSetup, found, back, whole_len]
      | _ => cases rope
    rw [setup]
    rcases start with rfl | rfl
    · rw [if_pos rfl, bytes, sub32_of_le (by omega) (by omega), Nat.add_sub_cancel]
    · rw [off_eq, len_eq, Nat.add_zero, Nat.add_zero, Nat.sub_zero, bytes, sub32_of_le (by omega)
        (Nat.zero_le _), Nat.sub_zero, ite_self]

end Walk

/-- The iterator stands on run `p` of the string, after the runs `pre`. -/
structure Striter.At (it : Striter) (s : CxStr) (pre : List (List UInt8))
    (p : List UInt8) : Prop where
  bytes : it.bytes = p
  off : it.off = pre.flatten.length
  len : it.len = p.length
  str : it.str = s

section Moves

variable {s : CxStr} (sound : s.Sound) (short : s.Short) (whole : s.Whole) {it : Striter}
  {pre post : List (List UInt8)} {p q : List UInt8}

include sound short whole

theorem striNext_at (at_run : it.At s pre p) (split : s.runs = pre ++ p :: q :: post) :
    (striNext it).At s (pre ++ [p]) q ∧ (it.len ≤ it.cursor → (striNext it).cursor = 0) := by
  obtain ⟨total, fits⟩ := runs_length_lt sound short whole split
  have next_split : s.runs = (pre ++ [p]) ++ q :: post := by simpa using split
  have q_some := run_pos next_split
  have prior : (pre ++ [p]).flatten.length = pre.flatten.length + p.length := by simp
  rw [flatten_cons, length_append] at total
  have setup (cursor : Nat) := striSetup_at sound short whole next_split q_some cursor
    (.inr rfl : false = true ∨ 0 = 0)
  rw [Nat.add_zero, prior] at setup
  have next : striNext it =
      ⟨q, pre.flatten.length + p.length, q.length,
        if it.cursor < it.len then sub32 it.cursor it.len else 0, s⟩ := by
    rw [striNext, at_run.str, at_run.off, at_run.len, Nat.mod_eq_of_lt (by omega)]
    simp only [if_neg (show ¬strFastLen s ≤ pre.flatten.length + p.length by omega)]
    exact setup _
  rw [next]
  refine ⟨⟨rfl, prior.symm, rfl, rfl⟩, fun read => ?_⟩
  exact if_neg (Nat.not_lt.2 read)

theorem striNext_last (at_run : it.At s pre p) (split : s.runs = pre ++ [p]) :
    (striNext it).len = 0 := by
  obtain ⟨total, fits⟩ := runs_length_lt sound short whole split
  rw [flatten_nil, length_nil, Nat.add_zero] at total
  rw [striNext, at_run.str, at_run.off, at_run.len, Nat.mod_eq_of_lt (by omega)]
  simp only [if_pos total.ge]
  rfl

theorem striPrev_at (at_run : it.At s (pre ++ [q]) p) (split : s.runs = pre ++ q :: p :: post) :
    (striPrev it).At s pre q := by
  have q_some := run_pos split
  have setup := striSetup_at sound short whole split (Nat.sub_lt q_some one_pos) 0 (.inl rfl)
  have off : it.off = pre.flatten.length + q.length := by
    rw [at_run.off]
    simp
  have prev : striPrev it = ⟨q, pre.flatten.length, q.length, 0, s⟩ := by
    rw [striPrev, off, at_run.str, if_neg (by omega),
      show pre.flatten.length + q.length - 1 = pre.flatten.length + (q.length - 1) by omega]
    exact setup
  rw [prev]
  exact ⟨rfl, rfl, rfl, rfl⟩

omit sound short whole in
theorem striRuns_succ (at_run : it.At s pre p) (split : s.runs = pre ++ p :: post)
    (move : Striter → Striter) (fuel : Nat) :
    striRuns move (fuel + 1) it = (striRuns move fuel (move it)).map (p :: ·) := by
  have p_some := run_pos split
  rw [striRuns, if_neg (by rw [at_run.len]; omega), at_run.bytes]

/-- A walk from run `p` on sees the runs that are left. -/
theorem striRuns_next (at_run : it.At s pre p) (split : s.runs = pre ++ p :: post)
    (enough : post.length + 1 < fuel) : striRuns striNext fuel it = some (p :: post) := by
  induction post generalizing pre p it fuel with
  | nil =>
    obtain ⟨fuel, rfl⟩ : ∃ n, fuel = n + 2 := ⟨fuel - 2, by simp at enough; omega⟩
    rw [striRuns_succ at_run split, striRuns,
      if_pos (striNext_last sound short whole at_run split)]
    rfl
  | cons q post ih =>
    obtain ⟨fuel, rfl⟩ : ∃ n, fuel = n + 1 := ⟨fuel - 1, by omega⟩
    have next_split : s.runs = (pre ++ [p]) ++ q :: post := by simpa using split
    rw [striRuns_succ at_run split, ih (striNext_at sound short whole at_run split).1 next_split
      (by simp only [length_cons] at enough; omega)]
    rfl

/-- A walk back from run `p` sees the runs before it. -/
theorem striRuns_prev (at_run : it.At s pre p) (split : s.runs = pre ++ p :: post)
    (enough : pre.length + 1 < fuel) : striRuns striPrev fuel it = some (p :: pre.reverse) := by
  induction pre using List.reverseRecOn generalizing p post it fuel with
  | nil =>
    obtain ⟨fuel, rfl⟩ : ∃ n, fuel = n + 2 := ⟨fuel - 2, by simp at enough; omega⟩
    have first : striPrev it = striClear it := by
      rw [striPrev, at_run.off]
      rfl
    rw [striRuns_succ at_run split, striRuns, first,
      if_pos (show (striClear it).len = 0 from rfl)]
    rfl
  | append_singleton pre q ih =>
    obtain ⟨fuel, rfl⟩ : ∃ n, fuel = n + 1 := ⟨fuel - 1, by omega⟩
    have prev_split : s.runs = pre ++ q :: p :: post := by simpa using split
    rw [striRuns_succ at_run split, ih (striPrev_at sound short whole at_run prev_split) prev_split
      (by simp only [length_append, length_singleton] at enough; omega)]
    simp

omit sound short whole in
theorem striChar_inside (at_run : it.At s pre p) (inside : it.cursor < p.length) :
    striChar it = some (p[it.cursor], { it with cursor := it.cursor + 1 }) := by
  have len := at_run.len
  have unread : ¬it.len ≤ it.cursor := by omega
  have filled : ¬it.len = 0 := by omega
  simp only [striChar, if_neg unread, if_neg filled, at_run.bytes, List.getElem?_eq_getElem inside,
    Option.map_some]

/-- Reading byte by byte from a place in run `p` on. -/
theorem reads_from (at_run : it.At s pre p) (split : s.runs = pre ++ p :: post) :
    Reads it (p.drop it.cursor ++ post.flatten) := by
  -- each byte read makes what is left shorter, also where it is the first of the next run
  induction left : p.length - it.cursor + post.flatten.length generalizing it pre p post with
  | zero =>
    have read : p.length ≤ it.cursor := by omega
    have none_left : post.flatten = [] := eq_nil_of_length_eq_zero (by omega)
    have last : post = [] := by
      rcases post with - | ⟨q, post⟩
      · rfl
      · have q_some : q ≠ [] := ne_nil_of_mem_runs (by rw [split]; simp : q ∈ s.runs)
        simp [q_some] at none_left
    subst last
    rw [drop_of_length_le read, flatten_nil, append_nil]
    have past : it.len ≤ it.cursor := by rw [at_run.len]; exact read
    change striChar it = none
    simp only [striChar, if_pos past, if_pos (striNext_last sound short whole at_run split)]
  | succ left ih =>
    rcases Nat.lt_or_ge it.cursor p.length with inside | read
    · rw [drop_eq_getElem_cons inside, cons_append]
      refine ⟨_, striChar_inside at_run inside, ?_⟩
      exact ih { at_run with } split (by simp only; omega)
    · rw [drop_of_length_le read, nil_append]
      rcases post with - | ⟨q, post⟩
      · simp at left
        omega
      have next_split : s.runs = (pre ++ [p]) ++ q :: post := by simpa using split
      obtain ⟨next_at, restart⟩ := striNext_at sound short whole at_run split
      have past : it.len ≤ it.cursor := by rw [at_run.len]; exact read
      have cursor := restart past
      have q_some := run_pos next_split
      have first := striChar_inside next_at (by omega : (striNext it).cursor < q.length)
      have fresh : ¬(striNext it).len ≤ (striNext it).cursor := by rw [next_at.len, cursor]; omega
      have same : striChar it = striChar (striNext it) := by
        simp only [striChar, if_pos past, if_neg fresh]
      rw [flatten_cons, ← take_append_drop (striNext it).cursor q, cursor,
        take_zero, nil_append, drop_zero]
      rw [flatten_cons, length_append] at left
      have moved : Striter.At { striNext it with cursor := (striNext it).cursor + 1 } s
          (pre ++ [p]) q := { next_at with }
      have rest := ih moved next_split (by simp only [cursor]; omega)
      simp only [cursor] at first rest
      cases q with
      | nil => simp at q_some
      | cons => exact ⟨_, same.trans first, rest⟩

end Moves

/-- The runs of a whole walk, forward and backward, and the bytes of a reading to the end. -/
def striWalk (s : CxStr) : Option (List (List UInt8)) :=
  striRuns striNext (strLen s + 2) (striBorrow s)

def striWalkRev (s : CxStr) : Option (List (List UInt8)) :=
  striRuns striPrev (strLen s + 2) (striBorrowRev s)

def striRead (s : CxStr) : Option (List UInt8) := striChars (2 * strLen s + 1) (striBorrow s)

theorem length_le_flatten {runs : List (List UInt8)} (filled : ∀ run ∈ runs, run ≠ []) :
    runs.length ≤ runs.flatten.length := by
  induction runs with
  | nil => exact le_rfl
  | cons run runs ih =>
    have first := length_pos_of_ne_nil (filled run mem_cons_self)
    have rest := ih fun later mem => filled later (mem_cons_of_mem run mem)
    simp only [length_cons, flatten_cons, length_append]
    omega

theorem Reads.striChars {it : Striter} {bytes : List UInt8} (reads : Reads it bytes)
    (enough : bytes.length < fuel) : striChars fuel it = some bytes := by
  induction bytes generalizing it fuel with
  | nil =>
    obtain ⟨fuel, rfl⟩ : ∃ n, fuel = n + 1 := ⟨fuel - 1, by omega⟩
    have done : striChar it = none := reads
    rw [Cx.Str.striChars, done]
  | cons byte bytes ih =>
    obtain ⟨fuel, rfl⟩ : ∃ n, fuel = n + 1 := ⟨fuel - 1, by omega⟩
    obtain ⟨next, read, rest⟩ := reads
    rw [Cx.Str.striChars, read]
    simp only [ih rest (by simpa using enough), Option.map_some]

section Views

variable {s : CxStr}

/-- An empty string is flat, and an iterator over it has no run. -/
theorem striSetup_nil (valid : s.Live) (nothing : strFastLen s = 0)
    (first : reverse = true ∨ off = 0) :
    (striSetup s off 0 reverse).len = 0 ∧ (striSetup s off 0 reverse).str = s := by
  have flat_len : sub32 (strFastLen s) 0 = 0 := by
    rw [nothing, sub32_of_le (by omega) le_rfl]
  have start : (if reverse = true then 0 else off) = 0 := by
    rcases first with rfl | rfl <;> simp
  cases s with
  | null => exact absurd rfl valid.ne_null
  | rope =>
    exact absurd nothing (Nat.ne_of_gt valid.sound.1)
  | plain | flat =>
    simp only [striSetup, start]
    exact ⟨flat_len, trivial⟩

/-- Where an iterator over a string starts. -/
theorem striBorrow_at (valid : s.Live) (short : s.Short) (whole : s.Whole)
    {p : List UInt8} {post : List (List UInt8)} (split : s.runs = [] ++ p :: post) :
    striBorrow s = ⟨p, 0, p.length, 0, s⟩ := by
  have source : striSource s = s := by rw [striSource, valid.check]; rfl
  rw [striBorrow, source]
  exact striSetup_at valid.sound short whole split (run_pos split) 0 (.inr rfl)

theorem striWalk_eq (valid : s.Live) (short : s.Short) (whole : s.Whole) :
    striWalk s = some s.runs ∧ Reads (striBorrow s) s.text := by
  have source : striSource s = s := by rw [striSource, valid.check]; rfl
  have flatten := flatten_runs valid.sound whole
  have length := length_text valid.sound
  have len : strLen s = strFastLen s := by rw [strLen, valid.check]; rfl
  rw [← flatten]
  cases runs_eq : s.runs with
  | nil =>
    rw [runs_eq, flatten_nil] at flatten
    rw [← flatten, length_nil] at length
    obtain ⟨no_run, str_eq⟩ := striSetup_nil valid length.symm (.inr rfl : false = true ∨ 0 = 0)
    rw [striWalk, striBorrow, source]
    have no_next : (striNext (striSetup s 0 0 false)).len = 0 := by
      rw [striNext, str_eq, ← length]
      simp only [Nat.zero_le, if_true]
      rfl
    refine ⟨by rw [striRuns, if_pos no_run], ?_⟩
    change striChar _ = none
    unfold striChar
    rw [no_run, if_pos (Nat.zero_le _), if_pos no_next]
  | cons p post =>
    have split : s.runs = [] ++ p :: post := runs_eq
    have filled : ∀ run ∈ p :: post, run ≠ [] :=
      fun run mem => ne_nil_of_mem_runs (by rw [runs_eq]; exact mem)
    have rest_le := length_le_flatten fun run mem => filled run (mem_cons_of_mem p mem)
    obtain ⟨total, -⟩ := runs_length_lt valid.sound short whole split
    have at_start : Striter.At ⟨p, 0, p.length, 0, s⟩ s [] p := ⟨rfl, rfl, rfl, rfl⟩
    rw [striWalk, striBorrow_at valid short whole split]
    exact ⟨striRuns_next valid.sound short whole at_start split (by omega),
      reads_from valid.sound short whole at_start split⟩

theorem striWalkRev_eq (valid : s.Live) (short : s.Short) (whole : s.Whole) :
    striWalkRev s = some s.runs.reverse := by
  have source : striSource s = s := by rw [striSource, valid.check]; rfl
  have flatten := flatten_runs valid.sound whole
  have length := length_text valid.sound
  have len : strLen s = strFastLen s := by rw [strLen, valid.check]; rfl
  unfold striWalkRev striBorrowRev
  rw [source]
  rcases eq_nil_or_concat s.runs with runs_eq | ⟨pre, p, runs_eq⟩
  · rw [runs_eq, flatten_nil] at flatten
    rw [← flatten, length_nil] at length
    obtain ⟨no_run, -⟩ := striSetup_nil valid length.symm (.inl rfl : true = true ∨ _ = 0)
    rw [runs_eq, striRuns, if_pos no_run]
    rfl
  · have split : s.runs = pre ++ p :: [] := by simpa using runs_eq
    have filled : ∀ run ∈ s.runs, run ≠ [] := fun run mem => ne_nil_of_mem_runs mem
    have p_some := run_pos split
    have pre_le := length_le_flatten fun run mem => filled run (by
      rw [split]
      exact mem_append_left _ mem : run ∈ s.runs)
    obtain ⟨total, fits⟩ := runs_length_lt valid.sound short whole split
    rw [flatten_nil, length_nil, Nat.add_zero] at total
    have start : striSetup s (sub32 (strLen s) 1) 0 true =
        ⟨p, pre.flatten.length, p.length, 0, s⟩ := by
      rw [len, sub32_of_le (by omega) (by omega),
        show strFastLen s - 1 = pre.flatten.length + (p.length - 1) by omega]
      exact striSetup_at valid.sound short whole split (Nat.sub_lt p_some one_pos) 0 (.inl rfl)
    rw [start, striRuns_prev valid.sound short whole ⟨rfl, rfl, rfl, rfl⟩ split (by omega), split]
    simp

/-- The views of a string agree: copying it and indexing it always, and walking it in both
directions and reading it byte by byte when its ropes are referred to whole. -/
theorem string_views_agree (built : Built s) (short : s.Short) : ∃ bytes, bytes.length = strLen s ∧
      (∀ off maxlen, strCopyRaw s off maxlen = some (window bytes off maxlen)) ∧
      (∀ i : Nat, i < strLen s → some (strGetChar s i) = bytes[i]?) ∧
      (s.Whole → ∃ runs, striWalk s = some runs ∧ striWalkRev s = some runs.reverse ∧
        runs.flatten = bytes ∧ striRead s = some bytes) := by
  have given := built.given
  refine ⟨s.text, given.length_text, strCopyRaw_eq given, fun i => strGetChar_eq given short, ?_⟩
  intro whole
  cases check : strCheckValid s
  · -- what is no string is walked as the empty one
    have source : striSource s = .flat .mask [] := by rw [striSource, check]; rfl
    have nothing : strLen s = 0 := by rw [strLen, check]; rfl
    have empty_valid : (CxStr.flat .mask []).Live := ⟨trivial, rfl⟩
    have empty_short : (CxStr.flat .mask []).Short := Nat.two_pow_pos 31
    have walk := striWalk_eq empty_valid empty_short trivial
    have back := striWalkRev_eq empty_valid empty_short trivial
    rw [text_nil_of_check check]
    refine ⟨[], ?_, ?_, rfl, ?_⟩
    · rw [striWalk, striBorrow, source, nothing]
      exact walk.1
    · rw [striWalkRev, striBorrowRev, source, nothing]
      exact back
    · rw [striRead, striBorrow, source, nothing]
      exact Reads.striChars walk.2 (Nat.lt_succ_self 0)
  · have valid := (given.valid check).toLive
    obtain ⟨walk, reads⟩ := striWalk_eq valid short whole
    have flatten := flatten_runs valid.sound whole
    refine ⟨s.runs, walk, striWalkRev_eq valid short whole, flatten, ?_⟩
    exact reads.striChars (by rw [given.length_text]; omega)

end Views

theorem threeHundred_short : threeHundred.Short := by
  have hundred_short : ∀ ch, (hundred ch).Short := by
    intro ch
    change (List.replicate 100 ch).length < 2 ^ 31
    rw [length_replicate]
    norm_num
  exact ⟨by norm_num, ⟨by norm_num, hundred_short 97, hundred_short 98⟩, hundred_short 99⟩

theorem string_views_agree_three : threeHundred.Whole ∧
      ∃ bytes runs, bytes.length = 300 ∧ strCopyRaw threeHundred 0 300 = some bytes ∧
        striWalk threeHundred = some runs ∧ runs.flatten = bytes := by
  have whole : threeHundred.Whole :=
    ⟨⟨⟨⟨trivial, fun rope => nomatch rope⟩, trivial, fun rope => nomatch rope⟩,
      fun _ => ⟨rfl, rfl⟩⟩, trivial, fun rope => nomatch rope⟩
  have length : strLen threeHundred = 300 := by decide +kernel
  obtain ⟨bytes, bytes_length, copy, -, walks⟩ :=
    string_views_agree threeHundred_built threeHundred_short
  obtain ⟨runs, walk, -, flatten, -⟩ := walks whole
  have all := copy 0 300
  rw [length] at bytes_length
  rw [window_of_length_le bytes_length.le] at all
  exact ⟨whole, bytes, runs, bytes_length, all, walk, flatten⟩

/-- A substring of the first two hundred bytes, from inside the first part to inside the second. -/
def substring : CxStr := .rope .mask twoHundred 10 140 .null 0 0 2

/-- A substring of a rope of ropes, walked.  Its last run is not cut where the window ends, so the
walk sees fifty bytes the string does not have. -/
theorem striWalk_leaves_the_string : Built substring ∧ strLen substring = 140 ∧
      strCopyRaw substring 0 140 = some (List.replicate 90 97 ++ List.replicate 50 98) ∧
      striWalk substring = some [List.replicate 90 97, List.replicate 100 98] ∧
      striRead substring = some (List.replicate 90 97 ++ List.replicate 100 98) := by
  have made : strSubStr .never .empty threeHundred 10 150 = some ⟨substring, .null⟩ := by
    decide +kernel
  refine ⟨.subStr threeHundred_built made, ?_, ?_, ?_, ?_⟩
  · decide +kernel
  · decide +kernel
  · decide +kernel
  · decide +kernel

end Cx.Str
