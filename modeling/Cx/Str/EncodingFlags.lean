import Cx.Str.Encoding

/-!
# When the encoding bits are right

A set bit has to be right for the bytes of its string, and the bits of a string inside a rope for
the window of it that the rope shows.  The functions that join strings keep this.  Those that cut or
overwrite one copy the bits along, so they keep it only where no character is torn.
-/

namespace Cx.Str

open Cx.Library CxStr List

/-- The bits are right for a string, and a part of it is not cut within a character. -/
structure EncRight (enc : StrEnc) (whole part : List UInt8) : Prop where
  utf8 : enc.utf8 = true → WellFormed whole
  ascii : enc.ascii = true → Ascii whole
  formed : WellFormed whole → WellFormed part
  low : Ascii whole → Ascii part

namespace EncRight

variable {enc : StrEnc} {whole part bytes : List UInt8}

theorem own (utf8 : enc.utf8 = true → WellFormed bytes) (ascii : enc.ascii = true → Ascii bytes) :
    EncRight enc bytes bytes :=
  ⟨utf8, ascii, id, id⟩

theorem clear (bytes : List UInt8) : EncRight .clear bytes bytes :=
  own (fun marked => nomatch marked) (fun marked => nomatch marked)

theorem of_ascii (ascii : Ascii bytes) : EncRight enc bytes bytes :=
  own (fun _ => ascii.wellFormed) (fun _ => ascii)

theorem nil : EncRight enc [] [] := of_ascii fun _ mem => nomatch mem

theorem append {x y : List UInt8} (first : EncRight enc x x) (second : EncRight enc y y) :
    EncRight enc (x ++ y) (x ++ y) :=
  own (fun marked => (first.utf8 marked).append (second.utf8 marked))
    fun marked => (first.ascii marked).append (second.ascii marked)

theorem unmarked (right : EncRight enc whole part) : EncRight .clear whole part :=
  ⟨fun marked => (nomatch marked), fun marked => (nomatch marked), right.formed, right.low⟩

end EncRight

theorem encRight_joinable : Joinable EncRight where
  nil := .nil
  part right := .own (right.formed ∘ right.utf8) (right.low ∘ right.ascii)
  both first second := by
    refine .own ?_ ?_
    · intro marked
      obtain ⟨a, b⟩ := Bool.and_eq_true_iff.1 marked
      exact (first.formed (first.utf8 a)).append (second.formed (second.utf8 b))
    · intro marked
      obtain ⟨a, b⟩ := Bool.and_eq_true_iff.1 marked
      exact (first.low (first.ascii a)).append (second.low (second.ascii b))

/-! ### Overwriting one byte by another below 0x80 -/

theorem window_set_outside {α : Type*} {l : List α} {off len i : Nat}
    (outside : i < off ∨ off + len ≤ i) (value : α) :
    window (l.set i value) off len = window l off len := by
  apply ext_getElem?
  intro j
  simp only [getElem?_window, List.getElem?_set]
  split_ifs <;> first | rfl | omega

variable {bytes : List UInt8}

theorem Ascii.set (ascii : Ascii bytes) {ch : UInt8} (low : ch.toNat < 0x80)
    (i : Nat) : Ascii (bytes.set i ch) := by
  intro u mem
  rcases mem_or_eq_of_mem_set mem with old | rfl
  exacts [ascii u old, low]

variable {enc : StrEnc}

section Overwrite

variable {ch old : UInt8} (ch_low : ch.toNat < 0x80) (old_low : old.toNat < 0x80)

include ch_low old_low

/-- A byte below 0x80 over another changes nothing that the bits say. -/
theorem EncRight.set {whole : List UInt8} {off start len : Nat}
    (right : EncRight enc whole (window whole start len)) (old_at : whole[off]? = some old) :
    EncRight enc (whole.set off ch) (window (whole.set off ch) start len) := by
  have inside := (List.getElem?_eq_some_iff.1 old_at).1
  have back : (whole.set off ch).set off old = whole := by
    rw [set_set, ← (List.getElem?_eq_some_iff.1 old_at).2, set_getElem_self]
  have new_at : (whole.set off ch)[off]? = some ch := by
    rw [List.getElem?_set_self inside]
  have formed_back : WellFormed (whole.set off ch) → WellFormed whole := fun formed => by
    rw [← back]
    exact formed.set new_at ch_low old_low
  have low_back : Ascii (whole.set off ch) → Ascii whole := fun low => by
    rw [← back]
    exact low.set old_low off
  refine ⟨fun marked => (right.utf8 marked).set old_at old_low ch_low,
    fun marked => (right.ascii marked).set ch_low off, ?_, ?_⟩
  all_goals by_cases shown : start ≤ off ∧ off < start + len
  · obtain ⟨i, rfl⟩ := Nat.exists_eq_add_of_le shown.1
    rw [window_set (by omega)]
    refine fun formed => (right.formed (formed_back formed)).set ?_ old_low ch_low
    rw [getElem?_window, if_pos (by omega)]
    exact old_at
  · rw [window_set_outside (by omega)]
    exact right.formed ∘ formed_back
  · obtain ⟨i, rfl⟩ := Nat.exists_eq_add_of_le shown.1
    rw [window_set (by omega)]
    exact fun low => (right.low (low_back low)).set ch_low i
  · rw [window_set_outside (by omega)]
    exact right.low ∘ low_back

/-- Every string on the way down to the byte keeps bits that are right. -/
theorem strRopeSet_snug (shared : Nat → Bool) {level : Nat} {s t : CxStr} {off start len : Nat}
    (sound : s.Sound) (old_at : s.text[off]? = some old)
    (made : strRopeSet shared ch level s off = some t) (snug : s.Snug EncRight start len) :
    t.Snug EncRight start len := by
  have within : off < strFastLen s := by
    rw [← length_text sound]
    exact (List.getElem?_eq_some_iff.1 old_at).1
  induction s generalizing level t off start len with
  | null => exact sound.elim
  | plain | flat =>
    cases made
    exact EncRight.set ch_low old_low snug old_at
  | rope enc left loff llen right roff rlen depth left_ih right_ih =>
    obtain ⟨own, left_snug, right_snug⟩ := snug
    have new_own := EncRight.set ch_low old_low own old_at
    obtain ⟨new, new_made, -, new_text, -⟩ := strRopeSet_spec shared ch level sound within
    obtain rfl := Option.some.inj (new_made.symm.trans made)
    -- the node's own bits: kept, or cleared in the copy of a shared node
    have node_own : EncRight (if shared level then .clear else enc) new.text
        (window new.text start len) := by
      rw [new_text]
      split
      · exact new_own.unmarked
      · exact new_own
    obtain ⟨-, ⟨left_sound, left_straddled⟩, right_case⟩ := sound
    have left_le := left_straddled.le
    have left_length := left_straddled.length_text left_sound
    rw [strFastLen_rope] at within
    simp only [strRopeSet] at made
    split at made
    case isTrue in_left =>
      obtain ⟨newleft, left_made, rfl⟩ := Option.map_eq_some_iff.1 made
      rw [CxStr.text, List.getElem?_append_left (by omega), getElem?_window, if_pos in_left]
        at old_at
      exact ⟨node_own, left_ih left_sound old_at left_made left_snug (by omega), right_snug⟩
    case isFalse past_left =>
      obtain ⟨rfl, rfl, rfl⟩ | ⟨right_sound, right_straddled⟩ := right_case
      · omega
      have right_le := right_straddled.le
      have in_right : off - llen < rlen := by omega
      rw [if_pos in_right] at made
      obtain ⟨newright, right_made, rfl⟩ := Option.map_eq_some_iff.1 made
      rw [CxStr.text, List.getElem?_append_right (by omega), left_length, getElem?_window,
        if_pos in_right] at old_at
      exact ⟨node_own, left_snug, right_ih right_sound old_at right_made right_snug (by omega)⟩

end Overwrite

/-! ### Bits found later -/

structure Found (enc enc' : StrEnc) (bytes : List UInt8) : Prop where
  utf8 : enc'.utf8 = true → enc.utf8 = true ∨ WellFormed bytes
  ascii : enc'.ascii = true → enc.ascii = true ∨ Ascii bytes

/-- A string after `strValidUTF8` and `strValidASCII` were asked of it or of strings inside it. -/
inductive Caches : CxStr → CxStr → Prop
  | null : Caches .null .null
  | plain (bytes : List UInt8) : Caches (.plain bytes) (.plain bytes)
  | flat {enc enc' : StrEnc} {bytes : List UInt8} (found : Found enc enc' bytes) :
      Caches (.flat enc bytes) (.flat enc' bytes)
  | rope {enc enc' : StrEnc} {left left' right right' : CxStr} {loff llen roff rlen depth : Nat}
      (in_left : Caches left left') (in_right : Caches right right')
      (found : Found enc enc' (window left.text loff llen ++ window right.text roff rlen)) :
      Caches (.rope enc left loff llen right roff rlen depth)
        (.rope enc' left' loff llen right' roff rlen depth)

theorem Found.right {enc enc' : StrEnc} {whole part : List UInt8} (found : Found enc enc' whole)
    (right : EncRight enc whole part) : EncRight enc' whole part where
  utf8 marked := (found.utf8 marked).elim right.utf8 id
  ascii marked := (found.ascii marked).elim right.ascii id
  formed := right.formed
  low := right.low

namespace Caches

variable {s t : CxStr} (caches : Caches s t)

include caches

theorem text : t.text = s.text := by
  induction caches with
  | rope in_left in_right found left_ih right_ih => rw [CxStr.text, CxStr.text, left_ih, right_ih]
  | _ => rfl

theorem length : strFastLen t = strFastLen s := by
  cases caches <;> rfl

theorem straddled {off len : Nat} (straddled : s.Straddled off len) : t.Straddled off len := by
  cases caches <;> exact straddled

theorem sound (sound : s.Sound) : t.Sound := by
  induction caches with
  | null | plain | flat => exact sound
  | rope in_left in_right found left_ih right_ih =>
    obtain ⟨filled, ⟨left_sound, left_straddled⟩, right_case⟩ := sound
    refine ⟨filled, ⟨left_ih left_sound, in_left.straddled left_straddled⟩, ?_⟩
    obtain ⟨rfl, rfl, rfl⟩ | ⟨right_sound, right_straddled⟩ := right_case
    · cases in_right
      exact .inl ⟨rfl, rfl, rfl⟩
    · exact .inr ⟨right_ih right_sound, in_right.straddled right_straddled⟩

theorem snug {off len : Nat} (snug : s.Snug EncRight off len) : t.Snug EncRight off len := by
  induction caches generalizing off len with
  | null | plain => exact snug
  | flat found => exact found.right snug
  | rope in_left in_right found left_ih right_ih =>
    obtain ⟨own, left_snug, right_snug⟩ := snug
    refine ⟨?_, left_ih left_snug, right_ih right_snug⟩
    rw [in_left.text, in_right.text]
    exact found.right own

theorem given (given : s.Given EncRight) : t.Given EncRight := by
  rcases given with rfl | ⟨sound, snug⟩
  · cases caches
    exact .inl rfl
  · rw [CxStr.Given, caches.length]
    exact .inr ⟨caches.sound sound, caches.snug snug⟩

end Caches

theorem Found.refl (enc : StrEnc) (bytes : List UInt8) : Found enc enc bytes := ⟨.inl, .inl⟩

theorem Caches.refl (s : CxStr) : Caches s s := by
  induction s with
  | null => exact .null
  | plain bytes => exact .plain bytes
  | flat enc bytes => exact .flat (.refl enc bytes)
  | rope enc left loff llen right roff rlen depth left_ih right_ih =>
    exact .rope left_ih right_ih (.refl enc _)

theorem caches_strMarkUTF8 {s : CxStr} (formed : WellFormed s.text) : Caches s (strMarkUTF8 s) := by
  cases s with
  | null => exact .null
  | plain bytes => exact .plain bytes
  | flat => exact .flat ⟨fun _ => .inr formed, .inl⟩
  | rope enc left loff llen right =>
    exact .rope (.refl left) (.refl right) ⟨fun _ => .inr formed, .inl⟩

/-! ### The checks -/

section Checks

variable {s : CxStr} (valid : s.Valid EncRight) (short : s.Short) (whole : s.Whole)

include valid short whole

theorem strValidUTF8_iff : strValidUTF8 s = true ↔ WellFormed s.text := by
  have reads := (striWalk_eq valid.toLive short whole).2
  have checked := strValidUTF8Loop_iff reads le_rfl
  rw [length_text valid.sound] at checked
  rw [strValidUTF8, valid.check, Bool.true_and, Bool.or_eq_true, checked]
  exact or_iff_right_of_imp valid.own.utf8

theorem strValidASCII_iff : strValidASCII s = true ↔ Ascii s.text := by
  have walk := (striWalk_eq valid.toLive short whole).1
  have looked : (s.runs.all fun run => run.all (· < 0x80)) = true ↔ Ascii s.text := by
    rw [← flatten_runs valid.sound whole]
    simp only [all_eq_true, decide_eq_true_eq, Ascii, mem_flatten, UInt8.lt_iff_toNat_lt]
    constructor
    · rintro all u ⟨run, mem, mem_run⟩
      exact all run mem u mem_run
    · exact fun all run mem u mem_run => all u ⟨run, mem, mem_run⟩
  rw [strValidASCII, valid.check, Bool.true_and, Bool.or_eq_true, walk, Option.map_some,
    Option.getD_some, looked]
  exact or_iff_right_of_imp valid.own.ascii

end Checks

/-! ### Strings whose bits are right -/

/-- A string made by the library where no call tears a character: a cut falls between characters, a
byte below 0x80 is written over another, a stack string that is duplicated into has bits that suit
the bytes, and a separator suits the strings it separates. -/
inductive Reached : CxStr → Prop
  | null : Reached .null
  | plain (bytes : List UInt8) : Reached (.plain bytes)
  | literal {enc : StrEnc} {bytes : List UInt8} (right : EncRight enc bytes bytes) :
      Reached (.flat enc bytes)
  | fromBytes (bytes : List UInt8) : Reached (strFromBytes bytes)
  | fromUTF16 (units : List UInt16) : Reached (strFromUTF16 units)
  | fillChar (ch : UInt8) (n : Nat) : Reached (strFillChar ch n)
  | dup {o : StrDest} {full : Bool} {s : CxStr} {done : StrWrite} (source : Reached s)
      (takes : o.Takes EncRight s.text) (made : strDupInto o full s = some done) : Reached done.out
  | append {full : Saturated} {io : StrDest} {s : CxStr} {done : StrWrite} (own : Reached io.held)
      (source : Reached s) (some_byte : io.held ≠ .plain [])
      (made : strAppend full io s = some done) : Reached done.out
  | concat {full : Saturated} {o : StrDest} {s1 s2 : CxStr} {done : StrWrite} (first : Reached s1)
      (second : Reached s2) (first_some : s1 ≠ .plain []) (second_some : s2 ≠ .plain [])
      (takes : s1 = .null ∨ s2 = .null → o.Takes EncRight (s1.text ++ s2.text))
      (made : strConcat full o s1 s2 = some done) : Reached done.out
  | prepend {full : Saturated} {s : CxStr} {io : StrDest} {done : StrWrite} (first : Reached s)
      (own : Reached io.held) (first_some : s ≠ .plain []) (own_some : io.held ≠ .plain [])
      (made : strPrepend full s io = some done) : Reached done.out
  | nconcat {full : Saturated} {o : StrDest} {args : List CxStr} {done : StrWrite}
      (sources : ∀ arg ∈ args, Reached arg) (made : strNConcat full o args = some done) :
      Reached done.out
  | subStr {full : Saturated} {o : StrDest} {s : CxStr} {b e : Int} {done : StrWrite}
      (source : Reached s) (cut : s.Snug EncRight (subStrOff s b) (subStrLen s b e))
      (made : strSubStr full o s b e = some done) : Reached done.out
  | insert {full : Saturated} {o : StrDest} {s ins : CxStr} {off : Int} {done : StrWrite}
      (source : Reached s) (inserted : Reached ins) (bounded : strLen s < 2 ^ 31)
      (cut : s.Snug EncRight 0 (strResolveOff (strLen s) off) ∧
        s.Snug EncRight (strResolveOff (strLen s) off) (strLen s - strResolveOff (strLen s) off))
      (takes : strCheckValid ins = false → o.Takes EncRight s.text)
      (made : strInsert full o s off ins = some done) : Reached done.out
  | erase {full : Saturated} {o : StrDest} {s : CxStr} {b e : Int} {done : StrWrite}
      (source : Reached s) (bounded : strLen s < 2 ^ 31)
      (cut : s.Snug EncRight 0 (strResolveOff (strLen s) b) ∧
        s.Snug EncRight (max (strResolveOff (strLen s) b) (strResolveOff (strLen s) e))
          (strLen s - max (strResolveOff (strLen s) b) (strResolveOff (strLen s) e)))
      (takes : o.Takes EncRight (s.text.take (strResolveOff (strLen s) b) ++
        s.text.drop (max (strResolveOff (strLen s) b) (strResolveOff (strLen s) e))))
      (made : strErase full o s b e = some done) : Reached done.out
  | setChar {shared : Nat → Bool} {s t : CxStr} {i : Int} {ch : UInt8} (own : Reached s)
      (low : ch.toNat < 0x80)
      (beneath : ∀ u, s.text[strResolvePos (strLen s) i]? = some u → u.toNat < 0x80)
      (made : strSetChar shared s i ch = some t) : Reached t
  | setByte {shared : Nat → Bool} {bytes : List UInt8} {t : CxStr} {i : Int} {ch : UInt8}
      (made : strSetChar shared (.flat .clear bytes) i ch = some t) : Reached t
  | setLen {s t : CxStr} {len : Nat} (own : Reached s)
      (cut : WellFormed s.text → WellFormed (s.text.take len)) (made : strSetLen s len = some t) :
      Reached t
  | appendBytes {io t : CxStr} {bytes : List UInt8} (own : Reached io)
      (made : strAppendBytes io bytes = some t) : Reached t
  | appendChar {io t : CxStr} {ch : UInt8} (own : Reached io)
      (made : strAppendChar io ch = some t) : Reached t
  | repeated {full : Bool} {o : StrDest} {s t : CxStr} {n : Nat} (own : Reached o.held)
      (source : Reached s) (takes : o.Takes EncRight s.text)
      (made : strRepeat full o s n = some t) : Reached t
  | replaceChar {full ci : Bool} {o : StrDest} {s t : CxStr} {old new : UInt8} (source : Reached s)
      (takes : o.Takes EncRight s.text) (made : strReplaceChar full o s old new ci = some t) :
      Reached t
  | join {arr : List CxStr} {sep t : CxStr} (sources : ∀ s ∈ arr, Reached s) (between : Reached sep)
      (suits : EncRight (strJoinEnc arr) sep.text sep.text) (made : strJoin arr sep = some t) :
      Reached t
  | sanitize {full alloc : Bool} {o : StrDest} {s t : CxStr} (source : Reached s) (short : s.Short)
      (whole : s.Whole) (takes : o.Takes EncRight s.text)
      (made : strSanitizeUTF8 full o alloc s = some t) : Reached t
  | cached {s t : CxStr} (own : Reached s) (caches : Caches s t) : Reached t

theorem valid_flat (right : EncRight enc bytes bytes) : (CxStr.flat enc bytes).Valid EncRight := by
  obtain ⟨s, same, valid, -⟩ := flat_gives right
  rwa [Option.some.inj same]

theorem given_flat (right : EncRight enc bytes bytes) : (CxStr.flat enc bytes).Given EncRight :=
  .inr ⟨trivial, (valid_flat right).snug⟩

/-- The string that the in-place functions work on: the handle's, or an empty one. -/
theorem own_or_empty {s : CxStr} (given : s.Given EncRight) :
    ∃ old, (if strCheckValid s then s else .flat .mask []) = old ∧ old.Valid EncRight ∧
      old.text = s.text := by
  cases check : strCheckValid s
  · exact ⟨_, rfl, valid_flat encRight_joinable.nil, (text_nil_of_check check).symm⟩
  · exact ⟨s, rfl, given.valid check, rfl⟩

theorem ascii_replicate {ch : UInt8} (low : ch.toNat < 0x80) (n : Nat) :
    Ascii (List.replicate n ch) := by
  intro u mem
  rw [eq_of_mem_replicate mem]
  exact low

theorem EncRight.zeros (right : EncRight enc bytes bytes)
    (n : Nat) : EncRight enc (bytes ++ List.replicate n 0) (bytes ++ List.replicate n 0) :=
  right.append (.of_ascii (ascii_replicate (by decide) n))

theorem strSetChar_given {shared : Nat → Bool} {s t : CxStr} {i : Int} {ch : UInt8}
    (given : s.Given EncRight) (low : ch.toNat < 0x80)
    (beneath : ∀ u, s.text[strResolvePos (strLen s) i]? = some u → u.toNat < 0x80)
    (made : strSetChar shared s i ch = some t) : t.Given EncRight := by
  obtain ⟨old, old_eq, valid, text_eq⟩ := own_or_empty given
  have length : strFastLen old = strLen s := by
    rw [← length_text valid.sound, text_eq, given.length_text]
  rw [← text_eq, ← length] at beneath
  rw [strSetChar, old_eq] at made
  obtain ⟨long, long_eq, write⟩ := Option.bind_eq_some_iff.1 made
  -- the string that is written to has a byte below 0x80 there, its own or a zero
  obtain ⟨long_valid, u, u_at, u_low⟩ : long.Valid EncRight ∧
      ∃ u, long.text[strResolvePos (strFastLen old) i]? = some u ∧ u.toNat < 0x80 := by
    split at long_eq
    case isTrue grows =>
      rw [strSetLen, valid.check, if_pos rfl, strFastCopy_all valid.sound, Option.map_some,
        take_of_length_le (by rw [length_text valid.sound]; omega)] at long_eq
      cases long_eq
      refine ⟨valid_flat (valid.own.zeros _), 0, ?_, by decide⟩
      have old_length := length_text valid.sound
      rw [CxStr.text, List.getElem?_append_right (by omega), List.getElem?_replicate,
        if_pos (by omega)]
    case isFalse inside =>
      cases long_eq
      have within : strResolvePos (strFastLen old) i < old.text.length := by
        rw [length_text valid.sound]
        omega
      exact ⟨valid, _, List.getElem?_eq_getElem within, beneath _ (List.getElem?_eq_getElem within)⟩
  have within : strResolvePos (strFastLen old) i < strFastLen long := by
    rw [← length_text long_valid.sound]
    exact (List.getElem?_eq_some_iff.1 u_at).1
  obtain ⟨new, new_made, live, new_text, -⟩ :=
    strRopeSet_spec shared ch 0 long_valid.sound within
  obtain rfl := Option.some.inj (new_made.symm.trans write)
  have same_length : strFastLen new = strFastLen long := by
    rw [← length_text live.sound, new_text, length_set, length_text long_valid.sound]
  refine .inr ⟨live.sound, ?_⟩
  rw [same_length]
  exact strRopeSet_snug low u_low shared long_valid.sound u_at write long_valid.snug

theorem strAppendRaw_given {io t : CxStr} {dataenc : StrEnc}
    (given : io.Given EncRight) (right : EncRight dataenc bytes bytes)
    (made : strAppendRaw io bytes dataenc = some t) : t.Given EncRight := by
  obtain ⟨old, old_eq, valid, -⟩ := own_or_empty given
  rw [strAppendRaw, old_eq, strFastCopy_all valid.sound] at made
  cases made
  exact given_flat (encRight_joinable.both valid.own right)

theorem EncRight.repeated (right : EncRight enc bytes bytes)
    (n : Nat) : EncRight enc (List.replicate n bytes).flatten (List.replicate n bytes).flatten := by
  induction n with
  | zero => exact .nil
  | succ n ih =>
    rw [replicate_succ, flatten_cons]
    exact right.append ih

section Replace

variable {old new : UInt8} {ci : Bool}

theorem strChrFold_low {u : UInt8} (low : u.toNat < 0x80) : (strChrFold u ci).toNat < 0x80 := by
  unfold strChrFold toLower
  split_ifs with _ upper
  · obtain ⟨-, upper⟩ := upper
    have bound : u.toNat ≤ 0x5a := upper
    rw [UInt8.toNat_add]
    change (u.toNat + 0x20) % 256 < 0x80
    omega
  · exact low
  · exact low

theorem strChrFold_high {u : UInt8} (high : 0x80 ≤ u.toNat) : strChrFold u ci = u := by
  unfold strChrFold toLower
  split_ifs with _ upper
  · have bound : u.toNat ≤ 0x5a := upper.2
    omega
  · rfl
  · rfl

/-- Bytes below 0x80 are swapped among themselves. -/
theorem EncRight.replaced (right : EncRight enc bytes bytes)
    (old_low : old.toNat < 0x80) (new_low : new.toNat < 0x80) :
    EncRight enc (bytes.map (replaceByte old new ci)) (bytes.map (replaceByte old new ci)) := by
  have low : ∀ u : UInt8, u.toNat < 0x80 → (replaceByte old new ci u).toNat < 0x80 := by
    intro u u_low
    unfold replaceByte
    split
    exacts [new_low, u_low]
  have high : ∀ u : UInt8, 0x80 ≤ u.toNat → replaceByte old new ci u = u := by
    intro u u_high
    refine if_neg fun same => ?_
    have folded : (strChrFold old ci).toNat < 0x80 := strChrFold_low old_low
    rw [← same, strChrFold_high u_high] at folded
    omega
  refine .own (fun marked => (right.utf8 marked).map low high) fun marked u mem => ?_
  obtain ⟨v, v_mem, rfl⟩ := mem_map.1 mem
  exact low v (right.ascii marked v v_mem)

end Replace

theorem strReplaceChar_given {full ci : Bool} {o : StrDest} {s t : CxStr} {old new : UInt8}
    (given : s.Given EncRight) (takes : o.Takes EncRight s.text)
    (made : strReplaceChar full o s old new ci = some t) : t.Given EncRight := by
  obtain ⟨done, dup, rest⟩ := Option.bind_eq_some_iff.1 made
  have done_given := (strDupInto_writes o full given takes).given dup
  split at rest
  · cases rest
    exact done_given
  · rcases done_given with null | ⟨sound, snug⟩
    · rw [null] at rest
      cases rest
    · rw [strFastCopy_all sound] at rest
      cases rest
      have own := snug.top sound
      rw [← length_text sound, window_length] at own
      split_ifs with both
      · exact given_flat (own.replaced both.1 both.2)
      · exact given_flat (.clear _)

/-- The bits of a joined string are bits of every segment. -/
theorem strJoinEnc_le {arr : List CxStr} {s : CxStr} (mem : s ∈ arr)
    (check : strCheckValid s = true) :
    ((strJoinEnc arr).utf8 = true → (strEnc s).utf8 = true) ∧
      ((strJoinEnc arr).ascii = true → (strEnc s).ascii = true) := by
  induction arr with
  | nil => cases mem
  | cons first rest ih =>
    unfold strJoinEnc at ih ⊢
    cases first_check : strCheckValid first
    · rw [filter_cons_of_neg (by simp [first_check])]
      refine ih ((mem_cons.1 mem).resolve_left ?_)
      rintro rfl
      rw [check] at first_check
      cases first_check
    · rw [filter_cons_of_pos first_check, foldr_cons]
      simp only [StrEnc.both, Bool.and_eq_true]
      rcases mem_cons.1 mem with rfl | later
      · exact ⟨And.left, And.left⟩
      · exact ⟨fun marked => (ih later).1 marked.2, fun marked => (ih later).2 marked.2⟩

theorem strJoinRest_right {sep : CxStr} {rest : List CxStr}
    (given : ∀ s ∈ rest, s.Given EncRight) (right : ∀ s ∈ rest, EncRight enc s.text s.text)
    (sep_given : sep.Given EncRight) (suits : EncRight enc sep.text sep.text)
    (made : strJoinRest sep rest = some bytes) : EncRight enc bytes bytes := by
  induction rest generalizing bytes with
  | nil =>
    cases made
    exact .nil
  | cons s rest ih =>
    rw [strJoinRest, strBytes_eq sep_given, Option.bind_some,
      strBytes_eq (given s mem_cons_self), Option.bind_some] at made
    obtain ⟨later, later_made, rfl⟩ := Option.map_eq_some_iff.1 made
    have later_right := ih (fun s mem => given s (mem_cons_of_mem _ mem))
      (fun s mem => right s (mem_cons_of_mem _ mem)) later_made
    exact (suits.append (right s mem_cons_self)).append later_right

theorem strJoin_given {arr : List CxStr} {sep t : CxStr} (given : ∀ s ∈ arr, s.Given EncRight)
    (sep_given : sep.Given EncRight) (suits : EncRight (strJoinEnc arr) sep.text sep.text)
    (made : strJoin arr sep = some t) : t.Given EncRight := by
  have right : ∀ s ∈ arr, EncRight (strJoinEnc arr) s.text s.text := by
    intro s mem
    cases check : strCheckValid s
    · rw [text_nil_of_check check]
      exact .nil
    · have own := ((given s mem).valid check).own
      obtain ⟨utf8, ascii⟩ := strJoinEnc_le mem check
      exact .own (own.utf8 ∘ utf8) (own.ascii ∘ ascii)
  cases arr with
  | nil =>
    cases made
    exact given_flat encRight_joinable.nil
  | cons first =>
    rw [strJoin, strBytes_eq (given first mem_cons_self), Option.bind_some] at made
    obtain ⟨later, later_made, rfl⟩ := Option.map_eq_some_iff.1 made
    exact given_flat ((right first mem_cons_self).append
      (strJoinRest_right (fun s mem => given s (mem_cons_of_mem _ mem))
        (fun s mem => right s (mem_cons_of_mem _ mem)) sep_given suits later_made))

theorem strFromUTF16_given (units : List UInt16) : (strFromUTF16 units).Given EncRight := by
  unfold strFromUTF16
  split
  case h_1 scan found =>
    have start : Utf16Scan.Sound ⟨false, 0, true, []⟩ := ⟨.nil, fun _ _ mem => nomatch mem⟩
    have sound := strFromUTF16Loop_sound start found
    exact given_flat (.own (fun _ => sound.formed) sound.low)
  case h_2 => exact given_flat encRight_joinable.nil

theorem strSanitizeUTF8_given {full alloc : Bool} {o : StrDest} {s t : CxStr}
    (given : s.Given EncRight) (short : s.Short) (whole : s.Whole) (takes : o.Takes EncRight s.text)
    (made : strSanitizeUTF8 full o alloc s = some t) : t.Given EncRight := by
  unfold strSanitizeUTF8 at made
  split_ifs at made with check found marks
  · obtain ⟨done, dup, rfl⟩ := Option.map_eq_some_iff.1 made
    exact (strDupInto_writes o full given takes).given dup
  · have valid := given.valid (by simpa using check)
    have caches := caches_strMarkUTF8 ((strValidUTF8_iff valid short whole).1 found)
    obtain ⟨done, dup, rfl⟩ := Option.map_eq_some_iff.1 made
    exact (strDupInto_writes o full (caches.given given) (by rwa [caches.text])).given dup
  · obtain ⟨done, dup, rfl⟩ := Option.map_eq_some_iff.1 made
    exact (strDupInto_writes o full given takes).given dup
  · have valid := given.valid (by simpa using check)
    have reads := (striWalk_eq valid.toLive short whole).2
    obtain ⟨out, loop, sanitized⟩ := strSanitizeLoop_sanitized reads le_rfl
    rw [← length_text valid.sound, loop] at made
    cases made
    exact given_flat (.own (fun _ => sanitized.wellFormed) fun marked => nomatch marked)

theorem Reached.given {s : CxStr} (reached : Reached s) : s.Given EncRight := by
  induction reached with
  | null => exact .inl rfl
  | plain bytes =>
    refine .inr ⟨trivial, ?_⟩
    change EncRight .clear bytes (window bytes 0 bytes.length)
    rw [window_length]
    exact .clear bytes
  | literal right => exact given_flat right
  | fromBytes bytes => exact given_flat (.clear bytes)
  | fromUTF16 units => exact strFromUTF16_given units
  | fillChar ch n =>
    unfold strFillChar
    split_ifs with high
    · exact given_flat (.clear _)
    · exact given_flat (.of_ascii (ascii_replicate (UInt8.not_le.1 high) n))
  | dup source takes made ih => exact (strDupInto_writes _ _ ih takes).given made
  | append own source some_byte made own_ih ih =>
    exact (strAppend_writes encRight_joinable _ (own_ih.fine some_byte) ih).given made
  | concat first second first_some second_some takes made first_ih second_ih =>
    exact (strConcat_writes encRight_joinable _ _ (first_ih.fine first_some)
      (second_ih.fine second_some) takes).given made
  | prepend first own first_some own_some made first_ih own_ih =>
    obtain ⟨inner, inner_made, rfl⟩ := Option.map_eq_some_iff.1 made
    have heap : ∀ bytes, StrDest.empty.Takes EncRight bytes := fun _ stack => nomatch stack
    have inner_given : inner.out.Given EncRight :=
      (strConcat_writes encRight_joinable _ _ (first_ih.fine first_some) (own_ih.fine own_some)
        fun _ => heap _).given inner_made
    exact inner_given
  | nconcat sources made ih => exact (strNConcat_writes encRight_joinable _ _ ih).given made
  | subStr source cut made ih =>
    exact (strSubStr_writes encRight_joinable _ _ ih _ _ cut).given made
  | insert source inserted bounded cut takes made ih ins_ih =>
    exact (strInsert_writes encRight_joinable _ _ ih bounded ins_ih _ cut takes).given made
  | erase source bounded cut takes made ih =>
    exact (strErase_writes encRight_joinable _ _ ih bounded _ _ cut takes).given made
  | setChar own low beneath made ih => exact strSetChar_given ih low beneath made
  | @setByte shared bytes t i ch made =>
    -- the string stays flat and unmarked
    simp only [strSetChar, strSetLen, strCheckValid, if_true, strFastCopy, Option.map_some,
      strEnc] at made
    split at made <;> cases made <;> exact given_flat (.clear _)
  | setLen own cut made ih =>
    obtain ⟨old, old_eq, valid, text_eq⟩ := own_or_empty ih
    rw [strSetLen, old_eq, strFastCopy_all valid.sound, text_eq] at made
    cases made
    have right := valid.own
    rw [text_eq] at right
    have kept : EncRight (strEnc old) (List.take _ _) (List.take _ _) :=
      .own (fun marked => cut (right.utf8 marked))
        fun marked u mem => right.ascii marked u (mem_of_mem_take mem)
    exact given_flat (kept.zeros _)
  | appendBytes own made ih =>
    unfold strAppendBytes at made
    split at made
    · cases made
      exact ih
    · exact strAppendRaw_given ih (.clear _) made
  | @appendChar io t ch own made ih =>
    refine strAppendRaw_given ih ?_ made
    split_ifs with low
    · refine .of_ascii fun u mem => ?_
      rw [mem_singleton.1 mem]
      exact low
    · exact .clear _
  | repeated own source takes made own_ih ih =>
    unfold strRepeat at made
    split_ifs at made with nothing once long
    · cases made
      exact given_flat encRight_joinable.nil
    · obtain ⟨done, dup, rfl⟩ := Option.map_eq_some_iff.1 made
      exact (strDupInto_writes _ _ ih takes).given dup
    · cases made
      exact own_ih
    · rename_i s t n
      cases check : strCheckValid s
      · simp [strLen, check] at nothing
      · have valid := ih.valid check
        rw [ih.strLen_eq, strFastCopy_all valid.sound] at made
        cases made
        exact given_flat (valid.own.repeated _)
  | replaceChar source takes made ih => exact strReplaceChar_given ih takes made
  | join sources between suits made ih between_ih => exact strJoin_given ih between_ih suits made
  | sanitize source short whole takes made ih =>
    exact strSanitizeUTF8_given ih short whole takes made
  | cached own caches ih => exact caches.given ih

/-- Where no call tears a character, the checks say of every string exactly what its bytes are. -/
theorem encoding_flags_right {s : CxStr} (reached : Reached s) (check : strCheckValid s = true)
    (short : s.Short) (whole : s.Whole) :
    ∃ bytes, strBytes s = some bytes ∧ (strValidUTF8 s = true ↔ WellFormed bytes) ∧
      (strValidASCII s = true ↔ ∀ u ∈ bytes, u.toNat < 0x80) := by
  have given := reached.given
  have valid := given.valid check
  exact ⟨s.text, strBytes_eq given, strValidUTF8_iff valid short whole,
    strValidASCII_iff valid short whole⟩

theorem encoding_flags_right_e_acute : ∃ bytes, strBytes (strFromUTF16 [0xe9]) = some bytes ∧
      (strValidUTF8 (strFromUTF16 [0xe9]) = true ↔ WellFormed bytes) ∧
      (strValidASCII (strFromUTF16 [0xe9]) = true ↔ ∀ u ∈ bytes, u.toNat < 0x80) :=
  encoding_flags_right (.fromUTF16 _) (by decide)
    (show (strFromUTF16 [0xe9]).text.length < 2 ^ 31 by decide) trivial

theorem not_wellFormed (short : bytes.length < 2 ^ 31)
    (refused : strValidUTF8Loop bytes.length bytes.length (striBorrow (.flat .clear bytes)) =
      false) : ¬WellFormed bytes := by
  rw [wellFormed_iff short, refused]
  exact Bool.false_ne_true

/-- A stack string as `_strInitStack` leaves it: empty, with both bits set. -/
def freshStack : StrDest := ⟨.flat .mask [], true, true, 0, 64⟩

/-- Half a character cut out of a literal, a byte written into an ASCII string, bytes duplicated
into a stack string and a separator between ASCII strings: the bits stay set over bytes that are no
UTF-8. -/
theorem encoding_flags_lie : (strSubStr .never .empty (.flat ⟨true, false⟩ [0xc3, 0xa9]) 0 1 =
        some ⟨.flat ⟨true, false⟩ [0xc3], .null⟩ ∧
      strValidUTF8 (.flat ⟨true, false⟩ [0xc3]) = true ∧ ¬WellFormed [0xc3]) ∧
    (strSetChar (fun _ => false) (.flat .mask [0x61]) 0 0xff = some (.flat .mask [0xff]) ∧
      strValidUTF8 (.flat .mask [0xff]) = true ∧ strValidASCII (.flat .mask [0xff]) = true ∧
      ¬WellFormed [0xff]) ∧
    ((strDupInto freshStack false (strFromBytes [0xff])).map StrWrite.out =
        some (.flat .mask [0xff])) ∧
    (strJoin [.flat .mask [0x61], .flat .mask [0x61]] (strFromBytes [0xff]) =
        some (.flat .mask [0x61, 0xff, 0x61]) ∧
      strValidUTF8 (.flat .mask [0x61, 0xff, 0x61]) = true ∧ ¬WellFormed [0x61, 0xff, 0x61]) :=
  ⟨⟨by decide, by decide, not_wellFormed (by decide) (by decide)⟩,
    ⟨by decide, by decide, by decide, not_wellFormed (by decide) (by decide)⟩, by decide,
    by decide, by decide, not_wellFormed (by decide) (by decide)⟩

end Cx.Str
