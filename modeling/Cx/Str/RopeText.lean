import Cx.Str.Rope

/-!
# What ropes mean

Every reference of a rope node to another rope straddles that rope's two parts: a window that one
part holds alone is taken from the part itself.  Rotations rest on this, as they cut a child between
its parts.  Whatever is merged, stolen or rotated, a rope made of two windows has their texts in a
row.
-/

namespace Cx.Str

open Cx.Library List

/-- What encoding bits say of the bytes of a string and of some of these in a row. -/
abbrev EncRule : Type := StrEnc → List UInt8 → List UInt8 → Prop

variable {enc : StrEnc}

namespace CxStr

/-- The bytes of a string in order. -/
def text : CxStr → List UInt8
  | .null => []
  | .plain bytes => bytes
  | .flat _ bytes => bytes
  | .rope _ left loff llen right roff rlen _ =>
    window left.text loff llen ++ window right.text roff rlen

/-- How a node refers to a string: to a window of a flat one, empty only if the string is, or to a
window of a rope that takes some of each part. -/
def Straddled : CxStr → Nat → Nat → Prop
  | .null, _, _ => False
  | .plain _, _, _ => False
  | .flat _ bytes, off, len => off + len ≤ bytes.length ∧ (len = 0 → bytes.length = 0)
  | .rope _ _ _ llen _ _ rlen _, off, len =>
    off < llen ∧ llen < off + len ∧ off + len ≤ llen + rlen

/-- A string whose nodes all hold something and refer to their parts as `Straddled` says. -/
def Sound : CxStr → Prop
  | .null => False
  | .plain _ => True
  | .flat _ _ => True
  | .rope _ left loff llen right roff rlen _ =>
    0 < llen + rlen ∧ (left.Sound ∧ left.Straddled loff llen) ∧
      (right = .null ∧ roff = 0 ∧ rlen = 0 ∨ right.Sound ∧ right.Straddled roff rlen)

structure Live (s : CxStr) : Prop where
  sound : s.Sound
  check : strCheckValid s = true

section Snug

variable (ok : EncRule)

/-- In a window of a string the bits of every string inside are right for all of its bytes and for
those that the window shows. -/
def Snug : CxStr → Nat → Nat → Prop
  | .null, _, _ => True
  | .plain bytes, off, len => ok .clear bytes (window bytes off len)
  | .flat enc bytes, off, len => ok enc bytes (window bytes off len)
  | .rope enc left loff llen right roff rlen _, off, len =>
    ok enc (window left.text loff llen ++ window right.text roff rlen)
        (window (window left.text loff llen ++ window right.text roff rlen) off len) ∧
      left.Snug (loff + off) (min len (llen - off)) ∧
      right.Snug (roff + (off - llen)) (len - (llen - off))

structure Valid (s : CxStr) : Prop extends Live s where
  snug : s.Snug ok 0 (strFastLen s)

end Snug

/-- What the bits say of some bytes holds where these are a string of their own, and what the bits
of two strings say holds of the strings joined. -/
structure Joinable (ok : EncRule) : Prop where
  nil : ok .mask [] []
  part : ∀ {enc : StrEnc} {whole part : List UInt8}, ok enc whole part → ok enc part part
  both : ∀ {a b : StrEnc} {u v x y : List UInt8}, ok a u x → ok b v y →
    ok (a.both b) (x ++ y) (x ++ y)

variable {ok : EncRule} {s : CxStr} {off len : Nat}

/-- The bits of a string are right for a window the string is snug in. -/
theorem Snug.top (sound : s.Sound) (snug : s.Snug ok off len) :
    ok (strEnc s) s.text (window s.text off len) := by
  cases s with
  | null => exact sound.elim
  | plain | flat => exact snug
  | rope => exact snug.1

section Parts

variable {enc : StrEnc} {left right : CxStr} {loff llen roff rlen depth : Nat}
  (snug : (CxStr.rope enc left loff llen right roff rlen depth).Snug ok off len)

include snug

theorem Snug.in_left (within : off + len ≤ llen) : left.Snug ok (loff + off) len := by
  have part := snug.2.1
  rwa [show min len (llen - off) = len by omega] at part

theorem Snug.in_right (past : llen ≤ off) : right.Snug ok (roff + off - llen) len := by
  have part := snug.2.2
  rwa [show roff + (off - llen) = roff + off - llen by omega,
    show len - (llen - off) = len by omega] at part

theorem Snug.across (before : off ≤ llen) (after : llen ≤ off + len) :
    left.Snug ok (loff + off) (llen - off) ∧ right.Snug ok roff (off + len - llen) := by
  obtain ⟨-, left_part, right_part⟩ := snug
  rw [show min len (llen - off) = llen - off by omega] at left_part
  rw [show off - llen = 0 by omega, Nat.add_zero,
    show len - (llen - off) = off + len - llen by omega] at right_part
  exact ⟨left_part, right_part⟩

end Parts

/-- A node is snug if its parts are and its own bits are right. -/
theorem snug_rope {left right : CxStr} {loff llen roff rlen depth : Nat}
    (own : ok enc (window left.text loff llen ++ window right.text roff rlen)
      (window left.text loff llen ++ window right.text roff rlen))
    (left_snug : left.Snug ok loff llen) (right_snug : right.Snug ok roff rlen)
    (length : (window left.text loff llen ++ window right.text roff rlen).length = llen + rlen) :
    (CxStr.rope enc left loff llen right roff rlen depth).Snug ok 0 (llen + rlen) := by
  refine ⟨?_, ?_, ?_⟩
  · rw [← length, window_length]
    exact own
  · rw [Nat.add_zero, show min (llen + rlen) (llen - 0) = llen by omega]
    exact left_snug
  · rw [show roff + (0 - llen) = roff by omega, show llen + rlen - (llen - 0) = rlen by omega]
    exact right_snug

section

variable (straddled : s.Straddled off len)
include straddled

theorem Straddled.le : off + len ≤ strFastLen s := by
  cases s with
  | null | plain => exact straddled.elim
  | flat => exact straddled.1
  | rope => exact straddled.2.2

theorem Straddled.ne_null : s ≠ .null := by
  rintro rfl
  exact straddled

theorem Straddled.check : strCheckValid s = true := by
  cases s with
  | null | plain => exact straddled.elim
  | flat | rope => rfl

theorem Straddled.empty (none_left : len = 0) : strFastLen s = 0 := by
  cases s with
  | null | plain => exact straddled.elim
  | flat => exact straddled.2 none_left
  | rope =>
    obtain ⟨before, after, -⟩ := straddled
    omega

end

theorem Sound.ne_null (sound : s.Sound) : s ≠ .null := by
  rintro rfl
  exact sound

theorem Live.ne_null (live : s.Live) : s ≠ .null := live.sound.ne_null

theorem length_text (sound : s.Sound) : s.text.length = strFastLen s := by
  induction s with
  | null => exact sound.elim
  | plain | flat => rfl
  | rope enc left loff llen right roff rlen depth left_ih right_ih =>
    obtain ⟨-, ⟨left_sound, left_straddled⟩, right_case⟩ := sound
    have left_le := left_straddled.le
    simp only [text, length_append, length_window, left_ih left_sound, strFastLen_rope]
    obtain ⟨rfl, rfl, rfl⟩ | ⟨right_sound, right_straddled⟩ := right_case
    · simp only [Nat.zero_min]
      omega
    · have right_le := right_straddled.le
      rw [right_ih right_sound]
      omega

theorem Straddled.length_text (straddled : s.Straddled off len) (sound : s.Sound) :
    (window s.text off len).length = len := by
  have := straddled.le
  rw [length_window, CxStr.length_text sound]
  omega

end CxStr

open CxStr

variable {s : CxStr}

/-- Copying out of a sound string gives a window of its text. -/
theorem strFastCopy_eq (sound : s.Sound) {off n : Nat}
    (within : off + n ≤ strFastLen s) : strFastCopy s off n = some (window s.text off n) := by
  induction s generalizing off n with
  | null => exact sound.elim
  | plain | flat => rfl
  | rope enc left loff llen right roff rlen depth left_ih right_ih =>
    obtain ⟨-, ⟨left_sound, left_straddled⟩, right_case⟩ := sound
    have left_le := left_straddled.le
    have left_length := left_straddled.length_text left_sound
    rw [strFastLen_rope] at within
    -- the bytes that come from the left part, none if the copy starts past it
    have left_copy :
        (if off < llen then strFastCopy left (off + loff) (min n (llen - off)) else some []) =
          some (window (window left.text loff llen) off (min n (llen - off))) := by
      split
      · rw [left_ih left_sound (by omega), window_window (by omega), Nat.add_comm]
      · rw [show min n (llen - off) = 0 by omega, window_zero]
    have copied : (window (window left.text loff llen) off (min n (llen - off))).length =
        min n (llen - off) := by
      rw [length_window, left_length]
      omega
    simp only [strFastCopy, left_copy, Option.bind_some, copied, text]
    split
    case isTrue all_left =>
      by_cases nothing : n = 0
      · simp [nothing]
      · rw [window_append_left (by omega), ← all_left]
    case isFalse more =>
      obtain ⟨rfl, rfl, rfl⟩ | ⟨right_sound, right_straddled⟩ := right_case
      · omega
      · have right_le := right_straddled.le
        rw [right_ih right_sound (by omega), Option.map_some]
        by_cases across : off < llen
        · rw [show min n (llen - off) = llen - off by omega,
            show off + roff + (llen - off) - llen = roff + 0 by omega,
            show n - (llen - off) = off + n - llen by omega,
            window_append_across (by omega) (by omega), left_length,
            window_window (l := right.text) (by omega)]
        · rw [show min n (llen - off) = 0 by omega, window_zero, nil_append,
            show off + roff + 0 - llen = roff + (off - llen) by omega, Nat.sub_zero,
            window_append_right (by omega), left_length, window_window (by omega)]

theorem strCopy_eq (sound : s.Sound) : strCopy s = some (.flat (strEnc s) s.text) := by
  rw [strCopy, strFastCopy_eq sound (by omega), ← length_text sound, window_length, Option.map_some]

/-- A duplicate is the string itself or a flat string of the same text. -/
theorem strDup_eq (full : Bool) (live : s.Live) : strDup full s = some (.flat (strEnc s) s.text) ∨
      strDup full s = some s ∧ ∀ bytes, s ≠ .plain bytes := by
  have copy := strCopy_eq live.sound
  cases s with
  | null => exact absurd rfl live.ne_null
  | plain =>
    left
    simp only [strDup, live.check, if_true, copy]
  | flat => cases full <;> simp [strDup, strCheckValid, copy]
  | rope enc left loff llen right =>
    cases full
    · right
      simp [strDup, strCheckValid]
    · left
      simp only [strDup, strCheckValid, if_true, copy]

section Refs

variable (ok : EncRule)

namespace StrRef

def text (ref : StrRef) : List UInt8 := window ref.str.text ref.off ref.len

structure Held (ref : StrRef) : Prop where
  sound : ref.str.Sound
  straddled : ref.str.Straddled ref.off ref.len
  snug : ref.str.Snug ok ref.off ref.len

/-- A window as `_strCreateRope` takes it: it starts inside its string, unless that is empty. -/
structure Usable (ref : StrRef) : Prop where
  live : ref.str.Live
  within : ref.off + ref.len ≤ strFastLen ref.str
  starts : ref.off < strFastLen ref.str ∨ strFastLen ref.str = 0
  snug : ref.str.Snug ok ref.off (strArgLen ref)

/-- The window an argument of `_strCreateRope` stands for. -/
def reach (ref : StrRef) : List UInt8 := window ref.str.text ref.off (strArgLen ref)

end StrRef

namespace CxStr

/-- A sound rope node with two parts. -/
def Joined : CxStr → Prop
  | .rope enc left loff llen right roff rlen depth =>
    right ≠ .null ∧ (CxStr.rope enc left loff llen right roff rlen depth).Sound ∧
      (CxStr.rope enc left loff llen right roff rlen depth).Snug ok 0 (llen + rlen)
  | _ => False

end CxStr

/-- A function gave a string of this text. -/
def Gives (result : Option CxStr) (bytes : List UInt8) : Prop :=
  ∃ s, result = some s ∧ s.Valid ok ∧ s.text = bytes

/-- A function gave a rope node of two parts with this text. -/
def GivesRope (result : Option CxStr) (bytes : List UInt8) : Prop :=
  ∃ s, result = some s ∧ s.Joined ok ∧ s.text = bytes

end Refs

variable {ok : EncRule}

namespace StrRef

variable {ref : StrRef}

theorem Usable.argLen_le (usable : ref.Usable ok) :
    ref.off + strArgLen ref ≤ strFastLen ref.str := by
  have within := usable.within
  unfold strArgLen
  split <;> omega

theorem Usable.argLen_zero (usable : ref.Usable ok) (nothing : strArgLen ref = 0) :
    strFastLen ref.str = 0 := by
  have starts := usable.starts
  unfold strArgLen at nothing
  split at nothing <;> omega

theorem Usable.length_reach (usable : ref.Usable ok) : ref.reach.length = strArgLen ref := by
  have le := usable.argLen_le
  rw [reach, length_window, length_text usable.live.sound]
  omega

theorem Held.argLen (held : ref.Held ok) : strArgLen ref = ref.len := by
  have le := held.straddled.le
  have empty := held.straddled.empty
  unfold strArgLen
  split <;> omega

/-- What a node holds may be given to `_strCreateRope` again, and stands for itself. -/
theorem Held.usable (held : ref.Held ok) : ref.Usable ok where
  live := ⟨held.sound, held.straddled.check⟩
  within := held.straddled.le
  starts := by
    have le := held.straddled.le
    rcases Nat.eq_zero_or_pos ref.len with nothing | some_left
    · exact .inr (held.straddled.empty nothing)
    · left
      omega
  snug := by
    rw [held.argLen]
    exact held.snug

theorem Held.reach (held : ref.Held ok) : ref.reach = ref.text := by
  rw [StrRef.reach, held.argLen, text]

theorem Held.length_text (held : ref.Held ok) : ref.text.length = ref.len :=
  held.straddled.length_text held.sound

end StrRef

open StrRef

/-- A reference to a duplicate of a string, where a node may refer to the string so. -/
theorem strDup_held (full : Bool) {off len : Nat} (live : s.Live)
    (within : off + len ≤ strFastLen s) (whole : len = 0 → strFastLen s = 0)
    (snug : s.Snug ok off len) (straddled : s.Straddled off len ∨ ∃ bytes, s = .plain bytes) :
    ∃ ref, (strDup full s).map (StrRef.mk · off len) = some ref ∧ ref.Held ok ∧ ref.len = len ∧
      ref.text = window s.text off len := by
  have length := length_text live.sound
  rcases strDup_eq full live with copied | ⟨shared, not_plain⟩
  · refine ⟨⟨.flat (strEnc s) s.text, off, len⟩, by rw [copied, Option.map_some],
      ⟨trivial, ⟨?_, ?_⟩, snug.top live.sound⟩, rfl, rfl⟩
    · rw [length]
      exact within
    · rw [length]
      exact whole
  · rcases straddled with straddled | ⟨bytes, rfl⟩
    · exact ⟨⟨s, off, len⟩, by rw [shared, Option.map_some], ⟨live.sound, straddled, snug⟩, rfl,
        rfl⟩
    · exact absurd rfl (not_plain bytes)

/-- A window of a string is found as far down as it goes, and the reference to it is one a node may
hold. -/
theorem strMkOptimalRoperef_spec (full : Bool) (live : s.Live) {off len : Nat}
    (within : off + len ≤ strFastLen s) (whole : len = 0 → strFastLen s = 0)
    (snug : s.Snug ok off len) :
    ∃ ref, strMkOptimalRoperef full s off len = some ref ∧ ref.Held ok ∧ ref.len = len ∧
      ref.text = window s.text off len := by
  induction s generalizing off len with
  | null => exact absurd rfl live.ne_null
  | plain bytes => exact strDup_held full live within whole snug (.inr ⟨bytes, rfl⟩)
  | flat => exact strDup_held full live within whole snug (.inl ⟨within, whole⟩)
  | rope enc left loff llen right roff rlen depth left_ih right_ih =>
    obtain ⟨filled, ⟨left_sound, left_straddled⟩, right_case⟩ := live.sound
    have left_le := left_straddled.le
    have left_length := left_straddled.length_text left_sound
    rw [strFastLen_rope] at within whole
    simp only [strMkOptimalRoperef]
    split
    case isTrue from_left =>
      obtain ⟨ref, found, held, len_eq, text_eq⟩ :=
        left_ih ⟨left_sound, left_straddled.check⟩
          (show loff + off + len ≤ strFastLen left by omega) (by omega) (snug.in_left from_left)
      refine ⟨ref, found, held, len_eq, ?_⟩
      rw [text_eq, CxStr.text, window_append_left (by omega), window_window (by omega)]
    case isFalse past_left =>
      obtain ⟨rfl, rfl, rfl⟩ | ⟨right_sound, right_straddled⟩ := right_case
      · omega
      have right_le := right_straddled.le
      split
      case isTrue from_right =>
        obtain ⟨-, after, right_within⟩ := from_right
        obtain ⟨ref, found, held, len_eq, text_eq⟩ :=
          right_ih ⟨right_sound, right_straddled.check⟩
            (show roff + off - llen + len ≤ strFastLen right by omega) (by omega)
            (snug.in_right after)
        refine ⟨ref, found, held, len_eq, ?_⟩
        rw [text_eq, CxStr.text, window_append_right (by omega), left_length,
          window_window (by omega), Nat.add_sub_assoc after]
      case isFalse past_right =>
        have before : off < llen := by
          by_contra after
          exact past_right ⟨right_straddled.ne_null, by omega, by omega⟩
        exact strDup_held full live within whole snug (.inl ⟨before, by omega, within⟩)

namespace CxStr

theorem Joined.sound (joined : s.Joined ok) : s.Sound := by
  cases s with
  | rope => exact joined.2.1
  | _ => exact joined.elim

theorem Joined.valid (joined : s.Joined ok) : s.Valid ok := by
  cases s with
  | rope => exact ⟨⟨joined.2.1, rfl⟩, joined.2.2⟩
  | _ => exact joined.elim

end CxStr

theorem GivesRope.gives {result : Option CxStr} {bytes : List UInt8}
    (rope : GivesRope ok result bytes) : Gives ok result bytes := by
  obtain ⟨s, result_eq, joined, text_eq⟩ := rope
  exact ⟨s, result_eq, joined.valid, text_eq⟩

/-- A node over two windows, where its own bits are right. -/
theorem StrRef.Held.rope {l r : StrRef} (l_held : l.Held ok) (r_held : r.Held ok)
    (filled : 0 < l.len + r.len) (own : ok enc (l.text ++ r.text) (l.text ++ r.text))
    (depth : Nat) : (CxStr.rope enc l.str l.off l.len r.str r.off r.len depth).Joined ok := by
  have length : (window l.str.text l.off l.len ++ window r.str.text r.off r.len).length =
      l.len + r.len := by
    rw [length_append]
    exact congrArg₂ (· + ·) l_held.length_text r_held.length_text
  exact ⟨r_held.straddled.ne_null, ⟨filled, ⟨l_held.sound, l_held.straddled⟩,
    .inr ⟨r_held.sound, r_held.straddled⟩⟩, snug_rope own l_held.snug r_held.snug length⟩

section Node

variable (joinable : Joinable ok) (full : Saturated) {left right : StrRef}

theorem strCreateNode_merge (left_usable : left.Usable ok) (right_usable : right.Usable ok)
    (small : strArgLen left + strArgLen right < ropeMinSize * 2) :
    strCreateNode full left right =
      some (.flat ((strEnc left.str).both (strEnc right.str)) (left.reach ++ right.reach)) := by
  rw [strCreateNode, if_neg left_usable.live.ne_null, if_neg right_usable.live.ne_null,
    if_pos small, strFastCopy_eq left_usable.live.sound left_usable.argLen_le,
    strFastCopy_eq right_usable.live.sound right_usable.argLen_le]
  rfl

include joinable

theorem both_reach (left_usable : left.Usable ok) (right_usable : right.Usable ok) :
    ok ((strEnc left.str).both (strEnc right.str)) (left.reach ++ right.reach)
      (left.reach ++ right.reach) :=
  joinable.both (left_usable.snug.top left_usable.live.sound)
    (right_usable.snug.top right_usable.live.sound)

theorem strCreateNode_join (left_usable : left.Usable ok) (right_usable : right.Usable ok)
    (large : ropeMinSize * 2 ≤ strArgLen left + strArgLen right) :
    GivesRope ok (strCreateNode full left right) (left.reach ++ right.reach) := by
  obtain ⟨l, l_found, l_held, l_len, l_text⟩ :=
    strMkOptimalRoperef_spec (full.call 0).here left_usable.live left_usable.argLen_le
      left_usable.argLen_zero left_usable.snug
  obtain ⟨r, r_found, r_held, r_len, r_text⟩ :=
    strMkOptimalRoperef_spec (full.call 1).here right_usable.live right_usable.argLen_le
      right_usable.argLen_zero right_usable.snug
  have filled : 0 < l.len + r.len := by
    rw [l_len, r_len]
    exact Nat.lt_of_lt_of_le (by decide) large
  have texts : l.text ++ r.text = left.reach ++ right.reach := by
    rw [l_text, r_text]
    rfl
  have own := both_reach joinable left_usable right_usable
  rw [← texts] at own
  rw [strCreateNode, if_neg left_usable.live.ne_null, if_neg right_usable.live.ne_null,
    if_neg (by omega), l_found, r_found]
  exact ⟨_, rfl, l_held.rope r_held filled own _, texts⟩

end Node

/-- The whole of a string, as `_strCreateRope` is given it. -/
def StrRef.whole (s : CxStr) : StrRef := ⟨s, 0, 0⟩

section Whole

variable {s : CxStr}

@[simp] theorem strArgLen_whole (s : CxStr) : strArgLen (.whole s) = strFastLen s := rfl

theorem StrRef.whole_usable (valid : s.Valid ok) : (StrRef.whole s).Usable ok where
  live := valid.toLive
  within := Nat.zero_le _
  starts := by
    simp only [StrRef.whole]
    omega
  snug := valid.snug

theorem StrRef.reach_whole (sound : s.Sound) : (StrRef.whole s).reach = s.text := by
  rw [reach, strArgLen_whole, ← length_text sound]
  exact window_length s.text

end Whole

section Rotate

variable {enc : StrEnc} {cleft cright : CxStr} {cloff cllen croff crlen cdepth off len : Nat}

structure Cut (ok : EncRule) (ref lower rest : StrRef) : Prop where
  lower_usable : lower.Usable ok
  rest_usable : rest.Usable ok
  lower_pos : 0 < strArgLen lower
  rest_pos : 0 < strArgLen rest
  length : strArgLen lower + strArgLen rest = ref.len
  reach : lower.reach ++ rest.reach = ref.text

theorem StrRef.Held.cut
    (held : (StrRef.mk (.rope enc cleft cloff cllen cright croff crlen cdepth) off len).Held ok) :
    cright ≠ .null ∧ Cut ok ⟨.rope enc cleft cloff cllen cright croff crlen cdepth, off, len⟩
        ⟨cleft, cloff + off, min (cllen - off) len⟩
        ⟨cright, croff, min (len + off - cllen) crlen⟩ := by
  obtain ⟨before, after, within⟩ :
      off < cllen ∧ cllen < off + len ∧ off + len ≤ cllen + crlen := held.straddled
  obtain ⟨-, ⟨left_sound, left_straddled⟩, right_case⟩ := held.sound
  obtain ⟨left_snug, right_snug⟩ := held.snug.across before.le after.le
  obtain ⟨rfl, rfl, rfl⟩ | ⟨right_sound, right_straddled⟩ := right_case
  · omega
  have left_le := left_straddled.le
  have right_le := right_straddled.le
  rw [show min (cllen - off) len = cllen - off by omega,
    show min (len + off - cllen) crlen = len + off - cllen by omega]
  rw [Nat.add_comm off len] at right_snug
  have lower_len : strArgLen ⟨cleft, cloff + off, cllen - off⟩ = cllen - off := by
    simp only [strArgLen]
    split <;> omega
  have rest_len : strArgLen ⟨cright, croff, len + off - cllen⟩ = len + off - cllen := by
    simp only [strArgLen]
    split <;> omega
  have left_length := left_straddled.length_text left_sound
  refine ⟨right_straddled.ne_null, ⟨⟨⟨left_sound, left_straddled.check⟩, ?_, ?_, ?_⟩,
    ⟨⟨right_sound, right_straddled.check⟩, ?_, ?_, ?_⟩, ?_, ?_, ?_, ?_⟩⟩
  · simp only
    omega
  · simp only
    omega
  · rw [lower_len]
    exact left_snug
  · simp only
    omega
  · simp only
    omega
  · rw [rest_len]
    exact right_snug
  · omega
  · omega
  · rw [lower_len, rest_len]
    simp only
    omega
  · rw [StrRef.reach, StrRef.reach, lower_len, rest_len]
    change window cleft.text (cloff + off) (cllen - off) ++
        window cright.text croff (len + off - cllen) =
      window (window cleft.text cloff cllen ++ window cright.text croff crlen) off len
    rw [window_append_across (by omega) (by omega), left_length, window_window (by omega),
      window_window (by omega), Nat.add_zero, Nat.add_comm len off]

/-- A function that joins any two windows of fewer bytes than `n` in all. -/
def Creates (ok : EncRule) (create : Saturated → StrRef → StrRef → Option CxStr) (n : Nat) : Prop :=
  ∀ full (left right : StrRef), left.Usable ok → right.Usable ok →
    strArgLen left + strArgLen right < n →
      Gives ok (create full left right) (left.reach ++ right.reach)

variable (joinable : Joinable ok) {create : Saturated → StrRef → StrRef → Option CxStr}
  {top : CxStr}

include joinable

/-- The two steps of a rotation to the left: the lower part of the right child joins the left part,
and what is left of the child stays on the right. -/
theorem Creates.regroup_left {n : Nat} (creates : Creates ok create n) (full : Saturated)
    {upper ref lower rest : StrRef} (usable : upper.Usable ok) (cut : Cut ok ref lower rest)
    (large : ropeMinSize * 2 ≤ strArgLen upper + ref.len) (less : strArgLen upper + ref.len ≤ n) :
    GivesRope ok ((create (full.call 0) upper lower).bind
        fun newleft => strCreateNode (full.call 1) ⟨newleft, 0, 0⟩ rest)
      (upper.reach ++ ref.text) := by
  have lengths := cut.length
  have rest_pos := cut.rest_pos
  obtain ⟨newleft, made, valid, text_eq⟩ :=
    creates (full.call 0) upper lower usable cut.lower_usable (by omega)
  have newleft_len : strFastLen newleft = strArgLen upper + strArgLen lower := by
    rw [← length_text valid.sound, text_eq, length_append, usable.length_reach,
      cut.lower_usable.length_reach]
  obtain ⟨newtop, joined_made, joined, newtop_text⟩ :=
    strCreateNode_join joinable (full.call 1) (StrRef.whole_usable valid) cut.rest_usable (by
      rw [strArgLen_whole, newleft_len]
      omega)
  refine ⟨newtop, ?_, joined, ?_⟩
  · rw [made]
    exact joined_made
  · rw [newtop_text, StrRef.reach_whole valid.sound, text_eq, append_assoc, cut.reach]

theorem Creates.regroup_right {n : Nat} (creates : Creates ok create n) (full : Saturated)
    {upper ref lower rest : StrRef} (usable : upper.Usable ok) (cut : Cut ok ref lower rest)
    (large : ropeMinSize * 2 ≤ ref.len + strArgLen upper) (less : ref.len + strArgLen upper ≤ n) :
    GivesRope ok ((create (full.call 0) rest upper).bind
        fun newright => strCreateNode (full.call 1) lower ⟨newright, 0, 0⟩)
      (ref.text ++ upper.reach) := by
  have lengths := cut.length
  have lower_pos := cut.lower_pos
  obtain ⟨newright, made, valid, text_eq⟩ :=
    creates (full.call 0) rest upper cut.rest_usable usable (by omega)
  have newright_len : strFastLen newright = strArgLen rest + strArgLen upper := by
    rw [← length_text valid.sound, text_eq, length_append, usable.length_reach,
      cut.rest_usable.length_reach]
  obtain ⟨newtop, joined_made, joined, newtop_text⟩ :=
    strCreateNode_join joinable (full.call 1) cut.lower_usable (StrRef.whole_usable valid) (by
      rw [strArgLen_whole, newright_len]
      omega)
  refine ⟨newtop, ?_, joined, ?_⟩
  · rw [made]
    exact joined_made
  · rw [newtop_text, StrRef.reach_whole valid.sound, text_eq, ← append_assoc, cut.reach]

omit joinable in
theorem CxStr.Joined.parts {left right : CxStr} {loff llen roff rlen depth : Nat}
    (joined : (CxStr.rope enc left loff llen right roff rlen depth).Joined ok) :
    (StrRef.mk left loff llen).Held ok ∧ (StrRef.mk right roff rlen).Held ok := by
  obtain ⟨right_ne, ⟨-, ⟨left_sound, left_straddled⟩, right_case⟩, snug⟩ := joined
  obtain ⟨left_snug, right_snug⟩ := snug.across (Nat.zero_le _) (by omega)
  rw [Nat.zero_add, Nat.add_sub_cancel_left] at right_snug
  obtain ⟨rfl, -⟩ | ⟨right_sound, right_straddled⟩ := right_case
  · exact absurd rfl right_ne
  · exact ⟨⟨left_sound, left_straddled, left_snug⟩, ⟨right_sound, right_straddled, right_snug⟩⟩

variable (iter : Nat) (full : Saturated)

theorem strRotateLeft_spec (joined : top.Joined ok) (large : ropeMinSize * 2 ≤ strFastLen top)
    (creates : Creates ok create (strFastLen top)) :
    GivesRope ok (strRotateLeft create full top) top.text := by
  cases top with
  | rope enc left loff llen right =>
    obtain ⟨left_held, right_held⟩ := joined.parts
    cases right with
    | null => exact absurd rfl right_held.straddled.ne_null
    | plain | flat => exact ⟨_, rfl, joined, rfl⟩
    | rope =>
      obtain ⟨cright_ne, cut⟩ := right_held.cut
      have upper_len := left_held.argLen
      simp only [strFastLen_rope] at large creates upper_len
      simp only [strRotateLeft, if_neg cright_ne]
      have regrouped := creates.regroup_left joinable full left_held.usable cut
        (by simp only; omega) (by simp only; omega)
      rw [left_held.reach] at regrouped
      exact regrouped
  | _ => exact joined.elim

theorem strRotateRight_spec (joined : top.Joined ok) (large : ropeMinSize * 2 ≤ strFastLen top)
    (creates : Creates ok create (strFastLen top)) :
    GivesRope ok (strRotateRight create full top) top.text := by
  cases top with
  | rope enc left =>
    obtain ⟨left_held, right_held⟩ := joined.parts
    cases left with
    | null => exact absurd rfl left_held.straddled.ne_null
    | plain | flat => exact ⟨_, rfl, joined, rfl⟩
    | rope =>
      obtain ⟨cright_ne, cut⟩ := left_held.cut
      have upper_len := right_held.argLen
      simp only [strFastLen_rope] at large creates upper_len
      simp only [strRotateRight, if_neg cright_ne]
      have regrouped := creates.regroup_right joinable full right_held.usable cut
        (by simp only; omega) (by simp only; omega)
      rw [right_held.reach] at regrouped
      exact regrouped
  | _ => exact joined.elim

theorem strRebalanceRope_spec (lastbal : Int) (joined : top.Joined ok)
    (large : ropeMinSize * 2 ≤ strFastLen top) (creates : Creates ok create (strFastLen top)) :
    GivesRope ok (strRebalanceRope create iter full lastbal top) top.text := by
  induction iter generalizing full lastbal top with
  | zero => exact ⟨top, rfl, joined, rfl⟩
  | succ iter ih =>
    -- a rotated node has the same text, so as many bytes as before
    have again : ∀ rotated, GivesRope ok rotated top.text → ∀ bal,
        GivesRope ok (rotated.bind (strRebalanceRope create iter (full.call 1) bal)) top.text := by
      rintro rotated ⟨newtop, rfl, newtop_joined, text_eq⟩ bal
      have same : strFastLen newtop = strFastLen top := by
        rw [← length_text newtop_joined.sound, ← length_text joined.sound, text_eq]
      rw [← text_eq]
      exact ih (full.call 1) bal newtop_joined (same ▸ large) (same ▸ creates)
    cases top with
    | rope =>
      simp only [strRebalanceRope]
      split
      · exact ⟨_, rfl, joined, rfl⟩
      split
      · exact again _ (strRotateRight_spec joinable (full.call 0) joined large creates) _
      split
      · exact again _ (strRotateLeft_spec joinable (full.call 0) joined large creates) _
      · exact ⟨_, rfl, joined, rfl⟩
    | _ => exact joined.elim

end Rotate

theorem flat_gives {bytes : List UInt8} (own : ok enc bytes bytes) :
    Gives ok (some (.flat enc bytes)) bytes := by
  refine ⟨_, rfl, ⟨⟨trivial, rfl⟩, ?_⟩, rfl⟩
  change ok enc bytes (window bytes 0 bytes.length)
  rw [window_length]
  exact own

section Create

variable (joinable : Joinable ok)

include joinable

/-- Two windows joined, merged or rotated into place: a string with their texts in a row. -/
theorem strCreateRope_creates (fuel : Nat) : Creates ok (strCreateRope fuel) fuel := by
  induction fuel with
  | zero => exact fun _ _ _ _ _ less => absurd less (Nat.not_lt_zero _)
  | succ fuel ih =>
    intro full left right left_usable right_usable less
    rw [strCreateRope]
    rcases Nat.lt_or_ge (strArgLen left + strArgLen right) (ropeMinSize * 2) with small | large
    · rw [strCreateNode_merge (full.call 0) left_usable right_usable small]
      exact flat_gives (both_reach joinable left_usable right_usable)
    · obtain ⟨node, made, joined, text_eq⟩ :=
        strCreateNode_join joinable (full.call 0) left_usable right_usable large
      have length : strFastLen node = strArgLen left + strArgLen right := by
        rw [← length_text joined.sound, text_eq, length_append, left_usable.length_reach,
          right_usable.length_reach]
      have smaller : Creates ok (strCreateRope fuel) (strFastLen node) :=
        fun full left right left_usable right_usable less =>
          ih full left right left_usable right_usable (by omega)
      have balanced := strRebalanceRope_spec joinable maxRebalanceIter (full.call 1) 0 joined
        (length ▸ large) smaller
      rw [text_eq] at balanced
      rw [made]
      cases node with
      | rope => exact balanced.gives
      | _ => exact joined.elim

omit joinable in
theorem StrRef.Held.half {ref : StrRef} (held : ref.Held ok) (filled : 0 < ref.len)
    (own : ok enc ref.text ref.text) (depth : Nat) :
    Gives ok (some (.rope enc ref.str ref.off ref.len .null 0 0 depth)) ref.text := by
  refine ⟨_, rfl, ⟨⟨⟨filled, ⟨held.sound, held.straddled⟩, .inl ⟨rfl, rfl, rfl⟩⟩, rfl⟩, ?_⟩, ?_⟩
  · refine snug_rope ?_ held.snug trivial ?_
    · rw [window_zero, append_nil]
      exact own
    · rw [window_zero, append_nil, Nat.add_zero]
      exact held.length_text
  · rw [CxStr.text, window_zero, append_nil]
    rfl

/-- A substring node holds the window it was asked for. -/
theorem strCreateRope1_spec (full : Saturated) (live : s.Live) {off len : Nat}
    (within : off + len ≤ strFastLen s) (filled : 0 < len) (snug : s.Snug ok off len) :
    Gives ok (strCreateRope1 full s off len) (window s.text off len) := by
  have whole : len = 0 → strFastLen s = 0 := by omega
  have own := joinable.part (snug.top live.sound)
  obtain ⟨ref, found, held, len_eq, text_eq⟩ :=
    strMkOptimalRoperef_spec (full.call 0).here live within whole snug
  have one_window : ∀ depth,
      Gives ok (some (.rope (strEnc s) ref.str ref.off ref.len .null 0 0 depth))
        (window s.text off len) := by
    intro depth
    rw [← text_eq] at own ⊢
    exact held.half (by omega) own depth
  have flat_case :
      Gives ok (strCreateNode full ⟨s, off, len⟩ ⟨.null, 0, 0⟩) (window s.text off len) := by
    have reaches : strArgLen ⟨s, off, len⟩ = len := by
      simp only [strArgLen]
      split <;> omega
    rw [strCreateNode, if_neg live.ne_null, if_pos rfl, reaches, found]
    exact one_window _
  cases s with
  | rope enc left loff llen right roff rlen depth =>
    obtain ⟨-, ⟨left_sound, left_straddled⟩, right_case⟩ := live.sound
    rw [strCreateRope1]
    split
    case isTrue one =>
      rw [found]
      exact one_window _
    case isFalse two =>
      obtain ⟨past_left, before_left, right_ne⟩ := not_or.1 two |>.imp_right not_or.1
      obtain ⟨rfl, -⟩ | ⟨right_sound, right_straddled⟩ := right_case
      · exact absurd rfl right_ne
      have left_le := left_straddled.le
      have right_le := right_straddled.le
      rw [strFastLen_rope] at within
      obtain ⟨left_snug, right_snug⟩ := snug.across (by omega) (by omega)
      obtain ⟨l, l_found, l_held, l_len, l_text⟩ :=
        strMkOptimalRoperef_spec (full.call 0).here ⟨left_sound, left_straddled.check⟩
          (show loff + off + (llen - off) ≤ strFastLen left by omega) (by omega) left_snug
      obtain ⟨r, r_found, r_held, r_len, r_text⟩ :=
        strMkOptimalRoperef_spec (full.call 1).here ⟨right_sound, right_straddled.check⟩
          (show roff + (off + len - llen) ≤ strFastLen right by omega) (by omega) right_snug
      have left_length := left_straddled.length_text left_sound
      have texts : l.text ++ r.text =
          window (CxStr.rope enc left loff llen right roff rlen depth).text off len := by
        rw [l_text, r_text, CxStr.text, window_append_across (by omega) (by omega), left_length,
          window_window (by omega), window_window (by omega), Nat.add_zero]
      rw [← texts] at own
      have joined := l_held.rope r_held (by omega) own
        (max (strRopeDepth l.str + 1) (strRopeDepth r.str + 1))
      rw [l_found, r_found]
      exact ⟨_, rfl, joined.valid, texts⟩
  | null => exact absurd rfl live.ne_null
  | plain | flat => exact flat_case

end Create

end Cx.Str
