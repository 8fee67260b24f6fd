import Cx.Str.ConcatText

/-!
# Strings built by calls

`strSetChar` writes one byte, in the flat string that holds it.  A string built by any sequence of
calls is sound, as long as no empty C string is joined.
-/

namespace Cx.Str

open Cx.Library CxStr List

variable {result : Option StrWrite} {bytes : List UInt8} {ok : EncRule}

/-- `_strRopeRealStr` asked for a writable string, and the write to it.  Each string on the way down
is made unique; the copy of a shared node (`shared`, by depth) has no encoding bits. -/
def strRopeSet (shared : Nat → Bool) (ch : UInt8) : Nat → CxStr → Nat → Option CxStr
  | _, .null, _ => none
  | _, .plain bytes, off => some (.flat .clear (bytes.set off ch))
  | _, .flat enc bytes, off => some (.flat enc (bytes.set off ch))
  | level, .rope enc left loff llen right roff rlen depth, off =>
    let newenc := if shared level then .clear else enc
    if off < llen then
      (strRopeSet shared ch (level + 1) left (loff + off)).map
        fun newleft => .rope newenc newleft loff llen right roff rlen depth
    else if off - llen < rlen then
      (strRopeSet shared ch (level + 1) right (roff + (off - llen))).map
        fun newright => .rope newenc left loff llen newright roff rlen depth
    else some (.rope newenc left loff llen right roff rlen depth)

/-- A longer string is made flat and filled with zeros. -/
def strSetLen (s : CxStr) (len : Nat) : Option CxStr :=
  let old := if strCheckValid s then s else .flat .mask []
  (strFastCopy old 0 (strFastLen old)).map fun bytes =>
    .flat (strEnc old) (bytes.take len ++ List.replicate (len - bytes.length) 0)

def strSetChar (shared : Nat → Bool) (s : CxStr) (i : Int) (ch : UInt8) : Option CxStr :=
  let old := if strCheckValid s then s else .flat .mask []
  let off := strResolvePos (strFastLen old) i
  (if strFastLen old ≤ off then strSetLen old (off + 1) else some old).bind
    fun long => strRopeSet shared ch 0 long off

theorem window_set {α : Type*} {l : List α} {off len i : Nat} (within : i < len) (value : α) :
    window (l.set (off + i) value) off len = (window l off len).set i value := by
  apply ext_getElem?
  intro j
  simp only [getElem?_window, List.getElem?_set, length_window]
  split_ifs <;> simp_all <;> omega

variable (shared : Nat → Bool)

/-- A byte is written at its place in the text.  Whatever could refer to the string before can
afterwards, so the nodes above stay sound. -/
theorem strRopeSet_spec (ch : UInt8) (level : Nat) {s : CxStr} (sound : s.Sound) {off : Nat}
    (within : off < strFastLen s) :
    ∃ t, strRopeSet shared ch level s off = some t ∧ t.Live ∧ t.text = s.text.set off ch ∧
      ∀ start len, s.Straddled start len → t.Straddled start len := by
  induction s generalizing level off with
  | null => exact sound.elim
  | plain => exact ⟨_, rfl, ⟨trivial, rfl⟩, rfl, fun _ _ never => never.elim⟩
  | flat =>
    refine ⟨_, rfl, ⟨trivial, rfl⟩, rfl, fun start len straddled => ?_⟩
    simpa [CxStr.Straddled] using straddled
  | rope enc left loff llen right roff rlen depth left_ih right_ih =>
    obtain ⟨filled, ⟨left_sound, left_straddled⟩, right_case⟩ := sound
    have left_le := left_straddled.le
    have left_length := left_straddled.length_text left_sound
    rw [strFastLen_rope] at within
    simp only [strRopeSet]
    split
    case isTrue in_left =>
      obtain ⟨newleft, made, valid, text_eq, keeps⟩ :=
        left_ih (level + 1) left_sound (show loff + off < strFastLen left by omega)
      rw [made, Option.map_some]
      refine ⟨_, rfl, ⟨⟨filled, ⟨valid.sound, keeps _ _ left_straddled⟩, right_case⟩, rfl⟩, ?_,
        fun start len straddled => straddled⟩
      rw [CxStr.text, CxStr.text, text_eq, window_set in_left, set_append_left _ _ (by omega)]
    case isFalse past_left =>
      obtain ⟨rfl, rfl, rfl⟩ | ⟨right_sound, right_straddled⟩ := right_case
      · omega
      have right_le := right_straddled.le
      have in_right : off - llen < rlen := by omega
      rw [if_pos in_right]
      obtain ⟨newright, made, valid, text_eq, keeps⟩ :=
        right_ih (level + 1) right_sound (show roff + (off - llen) < strFastLen right by omega)
      rw [made, Option.map_some]
      refine ⟨_, rfl, ⟨⟨filled, ⟨left_sound, left_straddled⟩,
        .inr ⟨valid.sound, keeps _ _ right_straddled⟩⟩, rfl⟩, ?_,
        fun start len straddled => straddled⟩
      rw [CxStr.text, CxStr.text, text_eq, window_set in_right,
        set_append_right _ _ (by omega), left_length]

/-- The bytes a string has once it is long enough to hold place `off`. -/
def zeroFilled (bytes : List UInt8) (off : Nat) : List UInt8 :=
  bytes ++ List.replicate (off + 1 - bytes.length) 0

theorem strSetChar_eq {s : CxStr} (given : s.Given anyEnc) (i : Int) (ch : UInt8) :
    ∃ t, strSetChar shared s i ch = some t ∧ t.Live ∧
      t.text = (zeroFilled s.text (strResolvePos (strLen s) i)).set (strResolvePos (strLen s) i)
        ch := by
  obtain ⟨old, old_eq, live, text_eq⟩ : ∃ old : CxStr,
      (if strCheckValid s then s else .flat .mask []) = old ∧ old.Live ∧ old.text = s.text := by
    cases check : strCheckValid s
    · exact ⟨.flat .mask [], rfl, ⟨trivial, rfl⟩, (text_nil_of_check check).symm⟩
    · exact ⟨s, rfl, (given.valid check).toLive, rfl⟩
  have length : strFastLen old = strLen s := by
    rw [← length_text live.sound, text_eq, given.length_text]
  rw [strSetChar, old_eq, ← length, ← text_eq]
  generalize strResolvePos (strFastLen old) i = off
  have old_length := length_text live.sound
  split
  case isTrue grows =>
    have long : strSetLen old (off + 1) = some (.flat (strEnc old) (zeroFilled old.text off)) := by
      rw [strSetLen, live.check, if_pos rfl, strFastCopy_all live.sound, Option.map_some,
        take_of_length_le (by omega), zeroFilled]
    rw [long]
    exact ⟨_, rfl, ⟨trivial, rfl⟩, rfl⟩
  case isFalse inside =>
    obtain ⟨new, made, new_live, new_text, -⟩ :=
      strRopeSet_spec shared ch 0 live.sound (Nat.lt_of_not_le inside)
    refine ⟨new, made, new_live, ?_⟩
    rw [new_text, zeroFilled, show off + 1 - old.text.length = 0 by omega, replicate_zero,
      append_nil]

/-- A string built by calls from NULL, C strings and flat strings.  An empty C string may be given
wherever a source is, but is not joined. -/
inductive Built : CxStr → Prop
  | null : Built .null
  | plain (bytes : List UInt8) : Built (.plain bytes)
  | flat (enc : StrEnc) (bytes : List UInt8) : Built (.flat enc bytes)
  | dup {o : StrDest} {full : Bool} {s : CxStr} {done : StrWrite} (source : Built s)
      (made : strDupInto o full s = some done) : Built done.out
  | append {full : Saturated} {io : StrDest} {s : CxStr} {done : StrWrite} (own : Built io.held)
      (source : Built s) (some_byte : io.held ≠ .plain [])
      (made : strAppend full io s = some done) : Built done.out
  | concat {full : Saturated} {o : StrDest} {s1 s2 : CxStr} {done : StrWrite} (first : Built s1)
      (second : Built s2) (first_some : s1 ≠ .plain []) (second_some : s2 ≠ .plain [])
      (made : strConcat full o s1 s2 = some done) : Built done.out
  | prepend {full : Saturated} {s : CxStr} {io : StrDest} {done : StrWrite} (first : Built s)
      (own : Built io.held) (first_some : s ≠ .plain []) (own_some : io.held ≠ .plain [])
      (made : strPrepend full s io = some done) : Built done.out
  | nconcat {full : Saturated} {o : StrDest} {args : List CxStr} {done : StrWrite}
      (sources : ∀ arg ∈ args, Built arg) (made : strNConcat full o args = some done) :
      Built done.out
  | subStr {full : Saturated} {o : StrDest} {s : CxStr} {b e : Int} {done : StrWrite}
      (source : Built s) (made : strSubStr full o s b e = some done) : Built done.out
  | insert {full : Saturated} {o : StrDest} {s ins : CxStr} {off : Int} {done : StrWrite}
      (source : Built s) (inserted : Built ins) (bounded : strLen s < 2 ^ 31)
      (made : strInsert full o s off ins = some done) : Built done.out
  | erase {full : Saturated} {o : StrDest} {s : CxStr} {b e : Int} {done : StrWrite}
      (source : Built s) (bounded : strLen s < 2 ^ 31)
      (made : strErase full o s b e = some done) : Built done.out
  | setChar {shared : Nat → Bool} {s : CxStr} {i : Int} {ch : UInt8} {t : CxStr} (own : Built s)
      (made : strSetChar shared s i ch = some t) : Built t

theorem CxStr.Given.fine {s : CxStr} (given : s.Given ok) (some_byte : s ≠ .plain []) :
    s.Fine ok := by
  cases check : strCheckValid s
  · cases s with
    | null => exact .inl rfl
    | plain bytes =>
      have nothing : bytes = [] := text_nil_of_check check
      exact absurd (by rw [nothing]) some_byte
    | flat | rope => cases check
  · exact .inr (given.valid check)

theorem Writes.given {o : StrDest} {done : StrWrite} (writes : Writes ok o result bytes)
    (made : result = some done) : done.out.Given ok := by
  obtain ⟨found, found_eq, fine, -⟩ := writes
  obtain rfl := Option.some.inj (found_eq.symm.trans made)
  exact fine.given

section Texts

variable (full : Saturated) (o : StrDest) {s s1 s2 ins : CxStr} {args : List CxStr}

theorem strConcat_text (first : s1.Given anyEnc) (second : s2.Given anyEnc)
    (first_some : s1 ≠ .plain []) (second_some : s2 ≠ .plain []) :
    Writes anyEnc o (strConcat full o s1 s2) (s1.text ++ s2.text) :=
  strConcat_writes anyEnc_joinable full o (first.fine first_some) (second.fine second_some)
    fun _ => takes_anyEnc o _

theorem strSubStr_text (given : s.Given anyEnc) (b e : Int) :
    Writes anyEnc o (strSubStr full o s b e) (window s.text (subStrOff s b) (subStrLen s b e)) :=
  strSubStr_writes anyEnc_joinable full o given b e (snug_anyEnc s _ _)

theorem strInsert_text (given : s.Given anyEnc) (ins_given : ins.Given anyEnc)
    (bounded : strLen s < 2 ^ 31) (off : Int) :
    Writes anyEnc o (strInsert full o s off ins)
      (s.text.take (strResolveOff (strLen s) off) ++ ins.text ++
        s.text.drop (strResolveOff (strLen s) off)) :=
  strInsert_writes anyEnc_joinable full o given bounded ins_given off
    ⟨snug_anyEnc s _ _, snug_anyEnc s _ _⟩ fun _ => takes_anyEnc o _

theorem strErase_text (given : s.Given anyEnc) (bounded : strLen s < 2 ^ 31) (b e : Int) :
    Writes anyEnc o (strErase full o s b e) (s.text.take (strResolveOff (strLen s) b) ++
        s.text.drop (max (strResolveOff (strLen s) b) (strResolveOff (strLen s) e))) :=
  strErase_writes anyEnc_joinable full o given bounded b e
    ⟨snug_anyEnc s _ _, snug_anyEnc s _ _⟩ (takes_anyEnc o _)

end Texts

/-- Every string the calls build is sound. -/
theorem Built.given {s : CxStr} (built : Built s) : s.Given anyEnc := by
  induction built with
  | null => exact .inl rfl
  | plain | flat => exact .inr ⟨trivial, trivial⟩
  | dup source made ih =>
    exact (strDupInto_writes _ _ ih (takes_anyEnc _ _)).given made
  | append own source some_byte made own_ih ih =>
    exact (strAppend_writes anyEnc_joinable _ (own_ih.fine some_byte) ih).given made
  | concat first second first_some second_some made first_ih second_ih =>
    exact (strConcat_text _ _ first_ih second_ih first_some second_some).given made
  | prepend first own first_some own_some made first_ih own_ih =>
    obtain ⟨inner, inner_made, rfl⟩ := Option.map_eq_some_iff.1 made
    have inner_given : inner.out.Given anyEnc :=
      (strConcat_text _ _ first_ih own_ih first_some own_some).given inner_made
    exact inner_given
  | nconcat sources made ih => exact (strNConcat_writes anyEnc_joinable _ _ ih).given made
  | subStr source made ih => exact (strSubStr_text _ _ ih _ _).given made
  | insert source inserted bounded made ih ins_ih =>
    exact (strInsert_text _ _ ih ins_ih bounded _).given made
  | erase source bounded made ih => exact (strErase_text _ _ ih bounded _ _).given made
  | setChar own made ih =>
    obtain ⟨t, t_eq, live, -⟩ := strSetChar_eq _ ih _ _
    obtain rfl := Option.some.inj (t_eq.symm.trans made)
    exact .inr ⟨live.sound, snug_anyEnc _ _ _⟩

/-- A call returned, the string in the handle has these bytes, and a string that others hold as well
kept its own. -/
def Stores (o : StrDest) (result : Option StrWrite) (bytes : List UInt8) : Prop :=
  ∃ done, result = some done ∧ strBytes done.out = some bytes ∧
    (o.Shared → strBytes done.old = strBytes o.held)

theorem Writes.stores {o : StrDest} (writes : Writes ok o result bytes) :
    Stores o result bytes := by
  obtain ⟨done, made, fine, text_eq, kept⟩ := writes
  refine ⟨done, made, ?_, fun shared => by rw [kept shared]⟩
  rw [strBytes_eq fine.given, text_eq]

/-- Rope operations mean list operations: whatever is merged, stolen, cut or rotated on the way, the
result has the bytes of the operands joined, sliced or spliced. -/
theorem rope_operations_mean_lists (full : Saturated) (o io : StrDest) {a b s ins : CxStr}
    {args : List CxStr} (a_built : Built a) (b_built : Built b) (a_some : a ≠ .plain [])
    (b_some : b ≠ .plain []) (own : io.held = a) (args_built : ∀ arg ∈ args, Built arg)
    (s_built : Built s) (ins_built : Built ins) (bounded : strLen s < 2 ^ 31) :
    ∃ x y z w parts, strBytes a = some x ∧ strBytes b = some y ∧ strBytes s = some z ∧
      strBytes ins = some w ∧ List.Forall₂ (fun arg part => strBytes arg = some part) args parts ∧
      Stores o (strConcat full o a b) (x ++ y) ∧
      Stores io (strAppend full io b) (x ++ y) ∧
      Stores o (strNConcat full o args) parts.flatten ∧
      (∀ i j, Stores o (strSubStr full o s i j) (window z (strResolveOff (strLen s) i)
          (strResolveOff (strLen s) j - strResolveOff (strLen s) i))) ∧
      (∀ i, Stores o (strInsert full o s i ins)
        (z.take (strResolveOff (strLen s) i) ++ w ++ z.drop (strResolveOff (strLen s) i))) ∧
      (∀ i j, Stores o (strErase full o s i j) (z.take (strResolveOff (strLen s) i) ++
          z.drop (max (strResolveOff (strLen s) i) (strResolveOff (strLen s) j)))) := by
  have args_given : ∀ arg ∈ args, arg.Given anyEnc := fun arg mem => (args_built arg mem).given
  have held_fine : io.held.Fine anyEnc := own ▸ a_built.given.fine a_some
  have appended := strAppend_writes anyEnc_joinable full held_fine b_built.given
  rw [own] at appended
  have joined := strNConcat_writes anyEnc_joinable full o args_given
  refine ⟨a.text, b.text, s.text, ins.text, args.map CxStr.text, strBytes_eq a_built.given,
    strBytes_eq b_built.given, strBytes_eq s_built.given, strBytes_eq ins_built.given, ?_,
    (strConcat_text full o a_built.given b_built.given a_some b_some).stores,
    appended.stores, joined.stores, ?_, ?_, ?_⟩
  · rw [forall₂_map_right_iff, forall₂_same]
    exact fun arg mem => strBytes_eq (args_given arg mem)
  · exact fun i j => (strSubStr_text full o s_built.given i j).stores
  · exact fun i => (strInsert_text full o s_built.given ins_built.given bounded i).stores
  · exact fun i j => (strErase_text full o s_built.given bounded i j).stores

def hundred (ch : UInt8) : CxStr := .flat .mask (List.replicate 100 ch)

theorem rope_operations_mean_lists_two : strBytes (hundred 97) = some (List.replicate 100 97) ∧
      Stores .empty (strConcat .never .empty (hundred 97) (hundred 98))
        (List.replicate 100 97 ++ List.replicate 100 98) := by
  have means := rope_operations_mean_lists .never .empty ⟨hundred 97, true, false, 2, 128⟩
    (Built.flat _ _ : Built (hundred 97)) (Built.flat _ _ : Built (hundred 98)) (by decide)
    (by decide) rfl (fun arg (mem : arg ∈ [hundred 97]) => by
      rw [mem_singleton.1 mem]
      exact Built.flat _ _)
    (Built.flat _ _ : Built (hundred 97)) (Built.flat _ _ : Built (hundred 98)) (by decide +kernel)
  obtain ⟨x, y, z, w, parts, x_eq, y_eq, -, -, -, concat, -⟩ := means
  have first : strBytes (hundred 97) = some (List.replicate 100 97) := by decide +kernel
  have second : strBytes (hundred 98) = some (List.replicate 100 98) := by decide +kernel
  obtain rfl := Option.some.inj (x_eq.symm.trans first)
  obtain rfl := Option.some.inj (y_eq.symm.trans second)
  exact ⟨first, concat⟩

def twoHundred : CxStr := .rope .mask (hundred 97) 0 100 (hundred 98) 0 100 1

def threeHundred : CxStr := .rope .mask twoHundred 0 200 (hundred 99) 0 100 2

theorem strConcat_twoHundred :
    strConcat .never .empty (hundred 97) (hundred 98) = some ⟨twoHundred, .null⟩ := by
  decide +kernel

theorem threeHundred_built : Built threeHundred := by
  have two : Built twoHundred :=
    .concat (.flat _ _) (.flat _ _) (by decide) (by decide) strConcat_twoHundred
  have made : strConcat .never .empty twoHundred (hundred 99) = some ⟨threeHundred, .null⟩ := by
    decide +kernel
  exact .concat two (.flat _ _) (by decide) (by decide) made

/-- An empty C string in front of a rope of depth two.  `strConcat` only tests for NULL, the
duplicate of the empty C string is NULL, and the rotation that follows reads through it. -/
theorem strConcat_reads_null :
    Built (.plain []) ∧ Built threeHundred ∧ strBytes (.plain []) = some [] ∧
      strBytes threeHundred =
        some (List.replicate 100 97 ++ List.replicate 100 98 ++ List.replicate 100 99) ∧
      strConcat .never .empty (.plain []) threeHundred = none := by
  refine ⟨.plain [], threeHundred_built, ?_, ?_, ?_⟩
  · decide +kernel
  · decide +kernel
  · decide +kernel

end Cx.Str
