import Cx.Str.Concat

/-!
# Joining and cutting mean appending and slicing

Every operation gives a sound string whose text is the one the operation is named for, and leaves
the bytes of a destination that others still refer to.  An empty C string is the exception: it
passes the test for NULL in `strConcat`, and no reference to it can be made.

A cut keeps what the encoding bits say only where the parts of each string in the window have it,
and a duplicate put into a stack string only where the stack string's own bits are right.
-/

namespace Cx.Str

open Cx.Library CxStr StrRef List

namespace CxStr

variable (ok : EncRule)

def Fine (s : CxStr) : Prop := s = .null ∨ s.Valid ok

/-- What may be passed as a source: also an empty C string. -/
def Given (s : CxStr) : Prop := s = .null ∨ s.Sound ∧ s.Snug ok 0 (strFastLen s)

variable {ok} {s : CxStr}

theorem Fine.given (fine : s.Fine ok) : s.Given ok :=
  fine.imp_right fun valid => ⟨valid.sound, valid.snug⟩

theorem Given.valid (given : s.Given ok) (check : strCheckValid s = true) : s.Valid ok := by
  rcases given with rfl | ⟨sound, snug⟩
  · cases check
  · exact ⟨⟨sound, check⟩, snug⟩

theorem text_nil_of_check (check : strCheckValid s = false) : s.text = [] := by
  cases s with
  | null => rfl
  | plain => simpa [strCheckValid, CxStr.text] using check
  | flat | rope => cases check

theorem Given.length_text (given : s.Given ok) : s.text.length = strLen s := by
  cases check : strCheckValid s
  · rw [text_nil_of_check check, strLen, check]
    rfl
  · rw [CxStr.length_text (given.valid check).sound, strLen, check]
    rfl

theorem Given.strLen_eq (given : s.Given ok) : strLen s = strFastLen s := by
  cases check : strCheckValid s
  · rcases given with rfl | ⟨sound, -⟩
    · rfl
    · rw [← CxStr.length_text sound, text_nil_of_check check, strLen, check]
      rfl
  · rw [strLen, check]
    rfl

end CxStr

variable {ok : EncRule}

variable {s : CxStr}

theorem strFastCopy_all (sound : s.Sound) : strFastCopy s 0 (strFastLen s) = some s.text := by
  rw [strFastCopy_eq sound (by omega), ← length_text sound, window_length]

theorem strBytes_eq (given : s.Given ok) : strBytes s = some s.text := by
  cases check : strCheckValid s
  · rw [strBytes, check, text_nil_of_check check]
    rfl
  · rw [strBytes, check, if_pos rfl, given.strLen_eq, strFastCopy_all (given.valid check).sound]

/-- Others than the handle refer to its object, which lies on the heap. -/
def StrDest.Shared (o : StrDest) : Prop := o.stack = false ∧ o.refs ≠ 1

/-- A stack string that is duplicated into keeps its bits, which are right for these bytes. -/
def StrDest.Takes (ok : EncRule) (o : StrDest) (bytes : List UInt8) : Prop :=
  o.onStack = true → ok (strEnc o.held) bytes bytes

/-- A call left a string of this text in the handle, and no byte of a shared object changed. -/
def Writes (ok : EncRule) (o : StrDest) (result : Option StrWrite) (bytes : List UInt8) : Prop :=
  ∃ done, result = some done ∧ done.out.Fine ok ∧ done.out.text = bytes ∧
    (o.Shared → done.old = o.held)

section Write

variable {o : StrDest} {result : Option CxStr} {bytes : List UInt8}

theorem Gives.writes (gives : Gives ok result bytes) (inplace : Bool)
    (apart : o.Shared → inplace = false) : Writes ok o (result.map (o.write inplace)) bytes := by
  obtain ⟨s, rfl, valid, text_eq⟩ := gives
  refine ⟨o.write inplace s, rfl, .inr valid, text_eq, fun shared => ?_⟩
  rw [StrDest.write, apart shared]
  rfl

theorem StrDest.Shared.reuses (shared : o.Shared) (minsz : Nat) : o.reuses minsz = false := by
  obtain ⟨heap, others⟩ := shared
  simp [StrDest.reuses, heap, others]

theorem StrDest.Shared.unique (shared : o.Shared) : o.unique = false := by
  obtain ⟨heap, others⟩ := shared
  simp [StrDest.unique, heap, others]

theorem StrDest.Shared.onStack (shared : o.Shared) : o.onStack = false := by
  simp [StrDest.onStack, shared.1]

end Write

/-- The bits of a valid string are right for its text. -/
theorem CxStr.Valid.own (valid : s.Valid ok) : ok (strEnc s) s.text s.text := by
  have own := valid.snug.top valid.sound
  rwa [← length_text valid.sound, window_length] at own

section Operations

variable (joinable : Joinable ok)

include joinable

omit joinable in
theorem strDup_gives (full : Bool) (valid : s.Valid ok) : Gives ok (strDup full s) s.text := by
  rcases strDup_eq full valid.toLive with copied | ⟨shared, -⟩
  · rw [copied]
    exact flat_gives valid.own
  · exact ⟨s, shared, valid, rfl⟩

omit joinable in
theorem strDupInto_writes (o : StrDest) (full : Bool) (given : s.Given ok)
    (takes : o.Takes ok s.text) : Writes ok o (strDupInto o full s) s.text := by
  unfold strDupInto
  cases check : strCheckValid s
  · exact ⟨_, rfl, .inl rfl, (text_nil_of_check check).symm, fun _ => rfl⟩
  · have valid := given.valid check
    rw [if_neg (by simp)]
    split
    case isTrue on_stack =>
      split
      · rw [strCopy_eq valid.sound]
        exact (flat_gives valid.own).writes _ fun _ => rfl
      · rw [strFastCopy_all valid.sound]
        refine (flat_gives (takes on_stack)).writes true fun shared => ?_
        rw [shared.onStack] at on_stack
        cases on_stack
    · exact (strDup_gives full valid).writes _ fun _ => rfl

omit joinable in
theorem strMerge_eq {s1 s2 : CxStr} (first : s1.Sound) (second : s2.Sound) :
    strMerge s1 s2 = some (.flat ((strEnc s1).both (strEnc s2)) (s1.text ++ s2.text)) := by
  rw [strMerge, strFastCopy_all first, strFastCopy_all second]
  rfl

theorem strMerge_gives {s1 s2 : CxStr} (first : s1.Valid ok) (second : s2.Valid ok) :
    Gives ok (strMerge s1 s2) (s1.text ++ s2.text) := by
  rw [strMerge_eq first.sound second.sound]
  exact flat_gives (joinable.both first.own second.own)

theorem strAppendNoRope_gives {io s : CxStr} (full : Bool) (io_valid : io.Valid ok)
    (valid : s.Valid ok) : Gives ok (strAppendNoRope full io s) (io.text ++ s.text) := by
  unfold strAppendNoRope
  split
  case isTrue nothing =>
    have io_empty : io.text = [] := by
      rw [← length_eq_zero_iff, length_text io_valid.sound, ← nothing, strLen, io_valid.check]
      rfl
    rw [io_empty]
    exact strDup_gives full valid
  case isFalse => exact strMerge_gives joinable io_valid valid

theorem strJoinRope_gives {s1 s2 : CxStr} (full : Saturated) (first : s1.Valid ok)
    (second : s2.Valid ok) : Gives ok (strJoinRope full s1 s2) (s1.text ++ s2.text) := by
  have made := strCreateRope_creates joinable (strFastLen s1 + strFastLen s2 + 1) full (.whole s1)
    (.whole s2) (whole_usable first) (whole_usable second) (Nat.lt_succ_self _)
  rw [reach_whole first.sound, reach_whole second.sound] at made
  exact made

/-- Appending to a handle.  The handle's own string may not be an empty C string. -/
theorem strAppend_writes (full : Saturated) {io : StrDest} (held : io.held.Fine ok)
    (given : s.Given ok) : Writes ok io (strAppend full io s) (io.held.text ++ s.text) := by
  unfold strAppend
  cases check : strCheckValid s
  · refine ⟨_, rfl, held, ?_, fun _ => rfl⟩
    rw [text_nil_of_check check, append_nil]
  · have valid := given.valid check
    rw [if_neg (by simp)]
    split
    case isTrue null =>
      rw [null]
      exact (strDup_gives full.here valid).writes _ fun _ => rfl
    case isFalse not_null =>
      have held_valid := held.resolve_left not_null
      split
      · exact (strMerge_gives joinable held_valid valid).writes _ fun shared => shared.unique
      · exact (strJoinRope_gives joinable full held_valid valid).writes _ fun _ => rfl

/-- Neither operand may be an empty C string. -/
theorem strConcat_writes (full : Saturated) (o : StrDest) {s1 s2 : CxStr} (first : s1.Fine ok)
    (second : s2.Fine ok) (takes : s1 = .null ∨ s2 = .null → o.Takes ok (s1.text ++ s2.text)) :
    Writes ok o (strConcat full o s1 s2) (s1.text ++ s2.text) := by
  unfold strConcat
  split
  case isTrue null =>
    have takes_second := takes (.inl null)
    rw [null] at takes_second ⊢
    exact strDupInto_writes o full.here second.given takes_second
  case isFalse first_not_null =>
    split
    case isTrue null =>
      have takes_first := takes (.inr null)
      rw [null, CxStr.text, append_nil] at takes_first ⊢
      exact strDupInto_writes o full.here first.given takes_first
    case isFalse second_not_null =>
      have first_valid := first.resolve_left first_not_null
      have second_valid := second.resolve_left second_not_null
      split
      · exact (strMerge_gives joinable first_valid second_valid).writes _
          fun shared => shared.reuses _
      · exact (strJoinRope_gives joinable full first_valid second_valid).writes _ fun _ => rfl

theorem strNConcatTake_spec (full : Saturated) {curtop arg : CxStr} (top_valid : curtop.Valid ok)
    (valid : arg.Valid ok) :
    ∃ next, strNConcatTake full curtop arg = some next ∧ next.1.Valid ok ∧ next.2.Fine ok ∧
      next.1.text ++ next.2.text = curtop.text ++ arg.text := by
  unfold strNConcatTake
  split
  · obtain ⟨newtop, made, newtop_valid, text_eq⟩ :=
      strAppendNoRope_gives joinable full.here top_valid valid
    refine ⟨(newtop, .null), by rw [made]; rfl, newtop_valid, .inl rfl, ?_⟩
    rw [text_eq, CxStr.text, append_nil]
  · obtain ⟨newright, made, newright_valid, text_eq⟩ := strDup_gives full.here valid
    exact ⟨(curtop, newright), by rw [made]; rfl, top_valid, .inr newright_valid, by rw [text_eq]⟩

/-- The loop keeps what it has read in the top and in what waits on its right. -/
theorem strNConcatRope_gives (full : Saturated) (args : List CxStr) {curtop curright : CxStr}
    (top_valid : curtop.Valid ok) (right_fine : curright.Fine ok)
    (args_valid : ∀ arg ∈ args, arg.Valid ok) :
    Gives ok (strNConcatRope full args curtop curright)
      (curtop.text ++ curright.text ++ args.flatMap CxStr.text) := by
  induction args generalizing full curtop curright with
  | nil =>
    rw [strNConcatRope, flatMap_nil, append_nil]
    split
    case isTrue null =>
      rw [null, CxStr.text, append_nil]
      exact ⟨curtop, rfl, top_valid, rfl⟩
    case isFalse waiting =>
      exact strJoinRope_gives joinable full top_valid (right_fine.resolve_left waiting)
  | cons arg args ih =>
    have arg_valid := args_valid arg mem_cons_self
    have rest_valid : ∀ later ∈ args, later.Valid ok :=
      fun later mem => args_valid later (mem_cons_of_mem arg mem)
    rw [strNConcatRope, flatMap_cons]
    split
    case isTrue null =>
      obtain ⟨next, taken, next_valid, next_fine, text_eq⟩ :=
        strNConcatTake_spec joinable (full.call 0) top_valid arg_valid
      rw [taken, null, CxStr.text, append_nil, ← append_assoc, ← text_eq]
      exact ih (full.call 1) next_valid next_fine rest_valid
    case isFalse waiting =>
      have right_valid := right_fine.resolve_left waiting
      split
      · obtain ⟨newright, made, newright_valid, text_eq⟩ :=
          strAppendNoRope_gives joinable (full.call 0).here right_valid arg_valid
        have later := ih (full.call 1) top_valid (.inr newright_valid) rest_valid
        rw [text_eq] at later
        rw [made, Option.bind_some]
        simpa only [append_assoc] using later
      · obtain ⟨newtop, made, newtop_valid, newtop_text⟩ :=
          strJoinRope_gives joinable (full.call 0) top_valid right_valid
        obtain ⟨next, taken, next_valid, next_fine, text_eq⟩ :=
          strNConcatTake_spec joinable (full.call 2) newtop_valid arg_valid
        rw [made, Option.bind_some, taken, ← append_assoc, ← newtop_text, ← text_eq]
        exact ih (full.call 1) next_valid next_fine rest_valid

omit joinable in
theorem strCopyAll_eq {args : List CxStr} (args_sound : ∀ arg ∈ args, arg.Sound) :
    strCopyAll args = some (args.flatMap CxStr.text) := by
  induction args with
  | nil => rfl
  | cons arg args ih =>
    rw [strCopyAll, ih fun later mem => args_sound later (mem_cons_of_mem arg mem),
      strFastCopy_all (args_sound arg mem_cons_self)]
    rfl

/-- The bits all strings of a list have are right for their texts in a row. -/
theorem own_foldr {args : List CxStr} (args_valid : ∀ arg ∈ args, arg.Valid ok) :
    ok (args.foldr (fun s => (strEnc s).both) .mask) (args.flatMap CxStr.text)
      (args.flatMap CxStr.text) := by
  induction args with
  | nil => exact joinable.nil
  | cons arg args ih =>
    exact joinable.both (args_valid arg mem_cons_self).own
      (ih fun later mem => args_valid later (mem_cons_of_mem arg mem))

omit joinable in
theorem flatMap_text_filter (args : List CxStr) :
    (args.filter fun arg => strCheckValid arg).flatMap CxStr.text = args.flatMap CxStr.text := by
  induction args with
  | nil => rfl
  | cons arg args ih =>
    cases check : strCheckValid arg
    · rw [filter_cons_of_neg (by simp [check]), ih, flatMap_cons,
        text_nil_of_check check, nil_append]
    · rw [filter_cons_of_pos check, flatMap_cons, flatMap_cons, ih]

theorem strNConcat_writes (full : Saturated) (o : StrDest) {args : List CxStr}
    (given : ∀ arg ∈ args, arg.Given ok) :
    Writes ok o (strNConcat full o args) (args.flatMap CxStr.text) := by
  have filtered : ∀ arg ∈ args.filter (fun arg => strCheckValid arg), arg.Valid ok := by
    intro arg mem
    obtain ⟨member, check⟩ := mem_filter.1 mem
    exact (given arg member).valid check
  rw [← flatMap_text_filter]
  unfold strNConcat
  generalize args.filter (fun arg => strCheckValid arg) = valid at filtered ⊢
  cases valid with
  | nil => exact (flat_gives joinable.nil).writes _ fun shared => shared.reuses _
  | cons first rest =>
    simp only
    split
    · rw [strCopyAll_eq fun arg mem => (filtered arg mem).sound]
      exact (flat_gives (own_foldr joinable filtered)).writes _ fun shared => shared.reuses _
    · obtain ⟨curtop, dup, top_valid, text_eq⟩ :=
        strDup_gives (full.call 0).here (filtered first mem_cons_self)
      have made := strNConcatRope_gives joinable (full.call 1) rest top_valid (.inl rfl)
        fun arg mem => filtered arg (mem_cons_of_mem first mem)
      rw [text_eq, CxStr.text, append_nil] at made
      rw [dup, Option.bind_some, flatMap_cons]
      exact made.writes _ fun _ => rfl

end Operations

theorem strResolveOff_le (slen : Nat) (i : Int) : strResolveOff slen i ≤ slen :=
  Nat.min_le_right _ _

theorem strResolveOff_end (slen : Nat) : strResolveOff slen strEnd = slen := by
  simp [strResolveOff, strResolvePos]

/-- An index that was resolved before stands for itself. -/
theorem strResolveOff_natCast {slen i : Nat} (within : i ≤ slen) (bounded : slen < 2 ^ 31) :
    strResolveOff slen i = i := by
  unfold strResolveOff strResolvePos strEnd
  split
  · omega
  · rw [if_neg (by omega)]
    omega

/-- What `strSubStr` cuts out: where it starts and how long it is. -/
def subStrOff (s : CxStr) (b : Int) : Nat := strResolveOff (strLen s) b

def subStrLen (s : CxStr) (b e : Int) : Nat := strResolveOff (strLen s) e - subStrOff s b

section Cuts

variable (joinable : Joinable ok) (full : Saturated) (o : StrDest) {s : CxStr} (given : s.Given ok)

include joinable given

/-- A substring is the slice between the two resolved indices. -/
theorem strSubStr_writes (b e : Int) (cut : s.Snug ok (subStrOff s b) (subStrLen s b e)) :
    Writes ok o (strSubStr full o s b e) (window s.text (subStrOff s b) (subStrLen s b e)) := by
  unfold strSubStr
  split
  case isTrue null =>
    rw [null]
    exact ⟨_, rfl, .inl rfl, by simp [CxStr.text, window], fun _ => rfl⟩
  case isFalse not_null =>
    have sound := (given.resolve_left not_null).1
    unfold subStrLen subStrOff at *
    rw [given.strLen_eq] at *
    have from_le := strResolveOff_le (strFastLen s) b
    have to_le := strResolveOff_le (strFastLen s) e
    simp only
    generalize strResolveOff (strFastLen s) b = off at *
    generalize strResolveOff (strFastLen s) e = stop at *
    split
    case isTrue large =>
      have filled : 0 < stop - off := Nat.lt_of_lt_of_le (by decide) large
      have check : strCheckValid s = true := by
        by_contra invalid
        have nothing := text_nil_of_check (by simpa using invalid)
        rw [← length_eq_zero_iff, length_text sound] at nothing
        omega
      exact (strCreateRope1_spec joinable full ⟨sound, check⟩ (by omega) filled cut).writes _
        fun _ => rfl
    case isFalse =>
      rw [strFastCopy_eq sound (by omega)]
      exact (flat_gives (joinable.part (cut.top sound))).writes _ fun shared => shared.reuses _

variable {place : Nat} (within : place ≤ strLen s) (bounded : strLen s < 2 ^ 31)

include within bounded

theorem strSubStr_before (cut : s.Snug ok 0 place) :
    Writes ok o (strSubStr full o s 0 place) (s.text.take place) := by
  have off_eq : subStrOff s 0 = 0 := strResolveOff_natCast (Nat.zero_le _) bounded
  have len_eq : subStrLen s 0 place = place := by
    rw [subStrLen, off_eq, strResolveOff_natCast within bounded, Nat.sub_zero]
  have cut_out := strSubStr_writes joinable full o given 0 place (by rwa [off_eq, len_eq])
  rwa [off_eq, len_eq] at cut_out

theorem strSubStr_after (cut : s.Snug ok place (strLen s - place)) :
    Writes ok o (strSubStr full o s place strEnd) (s.text.drop place) := by
  have off_eq : subStrOff s place = place := strResolveOff_natCast within bounded
  have len_eq : subStrLen s place strEnd = strLen s - place := by
    rw [subStrLen, off_eq, strResolveOff_end]
  have cut_out := strSubStr_writes joinable full o given place strEnd (by rwa [off_eq, len_eq])
  rw [off_eq, len_eq, ← given.length_text, window, take_of_length_le (by simp)] at cut_out
  exact cut_out

end Cuts

section Splice

variable (joinable : Joinable ok) (full : Saturated) (o : StrDest) {s ins : CxStr}
  (given : s.Given ok) (bounded : strLen s < 2 ^ 31)

include joinable given bounded

theorem strInsert_writes (ins_given : ins.Given ok) (off : Int)
    (cut : s.Snug ok 0 (strResolveOff (strLen s) off) ∧
      s.Snug ok (strResolveOff (strLen s) off) (strLen s - strResolveOff (strLen s) off))
    (takes : strCheckValid ins = false → o.Takes ok s.text) :
    Writes ok o (strInsert full o s off ins)
      (s.text.take (strResolveOff (strLen s) off) ++ ins.text ++
        s.text.drop (strResolveOff (strLen s) off)) := by
  have within := strResolveOff_le (strLen s) off
  unfold strInsert
  simp only
  generalize strResolveOff (strLen s) off = place at *
  cases check : strCheckValid ins
  · rw [text_nil_of_check check, append_nil, take_append_drop]
    exact strDupInto_writes o full.here given (takes check)
  · obtain ⟨left, left_made, left_fine, left_text, -⟩ :=
      strSubStr_before joinable (full.call 0) .empty given within bounded cut.1
    obtain ⟨right, right_made, right_fine, right_text, -⟩ :=
      strSubStr_after joinable (full.call 1) .empty given within bounded cut.2
    have args_given : ∀ arg ∈ [left.out, ins, right.out], arg.Given ok := by
      simp only [mem_cons, not_mem_nil, or_false]
      rintro arg (rfl | rfl | rfl)
      exacts [left_fine.given, ins_given, right_fine.given]
    have joined := strNConcat_writes joinable (full.call 2) o args_given
    rw [if_neg (by simp), left_made, Option.bind_some, right_made, Option.bind_some]
    simpa [left_text, right_text] using joined

theorem strErase_writes (b e : Int) (cut : s.Snug ok 0 (strResolveOff (strLen s) b) ∧
      s.Snug ok (max (strResolveOff (strLen s) b) (strResolveOff (strLen s) e))
        (strLen s - max (strResolveOff (strLen s) b) (strResolveOff (strLen s) e)))
    (takes : o.Takes ok (s.text.take (strResolveOff (strLen s) b) ++
      s.text.drop (max (strResolveOff (strLen s) b) (strResolveOff (strLen s) e)))) :
    Writes ok o (strErase full o s b e) (s.text.take (strResolveOff (strLen s) b) ++
        s.text.drop (max (strResolveOff (strLen s) b) (strResolveOff (strLen s) e))) := by
  have from_le := strResolveOff_le (strLen s) b
  have to_le := strResolveOff_le (strLen s) e
  unfold strErase
  simp only
  generalize strResolveOff (strLen s) b = start at *
  generalize strResolveOff (strLen s) e = stop at *
  split
  case isTrue nothing =>
    rw [← nothing, take_append_drop] at takes ⊢
    exact strDupInto_writes o full.here given takes
  case isFalse =>
    obtain ⟨left, left_made, left_fine, left_text, -⟩ :=
      strSubStr_before joinable (full.call 0) .empty given from_le bounded cut.1
    obtain ⟨right, right_made, right_fine, right_text, -⟩ :=
      strSubStr_after joinable (full.call 1) .empty given (Nat.max_le.2 ⟨from_le, to_le⟩) bounded
        cut.2
    rw [← left_text, ← right_text] at takes ⊢
    rw [left_made, Option.bind_some, right_made, Option.bind_some]
    exact strConcat_writes joinable (full.call 2) o left_fine right_fine fun _ => takes

end Splice

/-! ### Texts alone -/

/-- Nothing is asked of the encoding bits. -/
def anyEnc (_ : StrEnc) (_ _ : List UInt8) : Prop := True

theorem anyEnc_joinable : Joinable anyEnc where
  nil := trivial
  part _ := trivial
  both _ _ := trivial

theorem snug_anyEnc (s : CxStr) (off len : Nat) : s.Snug anyEnc off len := by
  induction s generalizing off len with
  | null | plain | flat => trivial
  | rope enc left loff llen right roff rlen depth left_ih right_ih =>
    exact ⟨trivial, left_ih _ _, right_ih _ _⟩

theorem takes_anyEnc (o : StrDest) (bytes : List UInt8) : o.Takes anyEnc bytes := fun _ => trivial

end Cx.Str
