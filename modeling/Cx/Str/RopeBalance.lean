import Cx.Str.Build

/-!
# Balance of ropes

A single rotation does not mend a node whose deeper part leans the other way.  Appending flat
strings never leads there: the parts of a node on the right edge that have grown lean to the right.
-/

namespace Cx.Str

open CxStr

/-- Two whole strings under one node. -/
def ropeOf (left right : CxStr) : CxStr :=
  .rope ((strEnc left).both (strEnc right)) left 0 (strFastLen left) right 0 (strFastLen right)
    (max (strRopeDepth left + 1) (strRopeDepth right + 1))

/-- A string that a node refers to as it is. -/
structure Piece (s : CxStr) : Prop where
  check : strCheckValid s = true
  long : ropeMinSize ≤ strFastLen s
  shallow : strRopeDepth s < strFastLen s
  own : strMkOptimalRoperef false s 0 (strFastLen s) = some ⟨s, 0, strFastLen s⟩

theorem Piece.ne_null {s : CxStr} (piece : Piece s) : s ≠ .null := by
  rintro rfl
  exact absurd piece.check nofun

/-- The depths below every node differ by at most one. -/
def CxStr.Balanced : CxStr → Prop
  | .rope _ left _ _ right _ _ _ =>
    (strRopeDepth left ≤ strRopeDepth right + 1 ∧ strRopeDepth right ≤ strRopeDepth left + 1) ∧
      left.Balanced ∧ right.Balanced
  | _ => True

/-- What appending builds: along the right edge a node leans right only above another node. -/
inductive Grown : CxStr → Prop
  | flat {enc : StrEnc} {bytes : List UInt8} (long : ropeMinSize ≤ bytes.length) :
      Grown (.flat enc bytes)
  | node {left right : CxStr} (piece : Piece left) (balanced : left.Balanced)
      (grown : Grown right) (near : strRopeDepth left ≤ strRopeDepth right + 1)
      (leans : strRopeDepth right ≤ strRopeDepth left ∨
        strRopeDepth right = strRopeDepth left + 1 ∧ 2 ≤ strRopeDepth right) :
      Grown (ropeOf left right)

section

variable {left right lower : CxStr} {l r : StrRef}

@[simp] theorem strRopeDepth_ropeOf : strRopeDepth (ropeOf left right) =
    max (strRopeDepth left + 1) (strRopeDepth right + 1) := rfl

@[simp] theorem strFastLen_ropeOf :
    strFastLen (ropeOf left right) = strFastLen left + strFastLen right := rfl

theorem Piece.ropeOf (first : Piece left) (second : Piece right) : Piece (ropeOf left right) where
  check := rfl
  long := Nat.le_add_right_of_le first.long
  shallow := by
    have := first.shallow
    have := second.shallow
    rw [strRopeDepth_ropeOf, strFastLen_ropeOf]
    omega
  own := by
    have := first.long
    have := second.long
    simp only [ropeMinSize] at *
    rw [Cx.Str.ropeOf, strMkOptimalRoperef, if_neg (by simp; omega), if_neg (by simp; omega)]
    rfl

theorem Grown.piece {s : CxStr} (grown : Grown s) : Piece s := by
  induction grown with
  | flat long => exact ⟨rfl, long, Nat.lt_of_lt_of_le (show 0 < 64 by decide) long, rfl⟩
  | node piece _ _ _ _ ih => exact piece.ropeOf ih

theorem Grown.balanced {s : CxStr} (grown : Grown s) : s.Balanced := by
  induction grown with
  | flat => trivial
  | node _ balanced _ near leans ih => exact ⟨⟨near, by omega⟩, balanced, ih⟩

/-- An argument of `_strCreateRope` that stands for all of a string. -/
structure Stands (arg : StrRef) (s : CxStr) : Prop where
  str : arg.str = s
  off : arg.off = 0
  len : strArgLen arg = strFastLen s

theorem stands_zero (s : CxStr) : Stands ⟨s, 0, 0⟩ s := ⟨rfl, rfl, rfl⟩

theorem stands_all (s : CxStr) : Stands ⟨s, 0, strFastLen s⟩ s :=
  ⟨rfl, rfl, by simp [strArgLen]⟩

theorem strCreateNode_ropeOf (full : Stands l left) (full' : Stands r right) (first : Piece left)
    (second : Piece right) : strCreateNode .never l r = some (ropeOf left right) := by
  have := first.long
  have := second.long
  simp only [ropeMinSize] at *
  rw [strCreateNode, full.str, full'.str, full.len, full'.len, full.off, full'.off,
    if_neg first.ne_null, if_neg second.ne_null, if_neg (by simp only [ropeMinSize]; omega)]
  change (strMkOptimalRoperef false left 0 _).bind _ = _
  rw [first.own, Option.bind_some]
  change (strMkOptimalRoperef false right 0 _).bind _ = _
  rw [second.own]
  rfl

variable (create : Saturated → StrRef → StrRef → Option CxStr)

theorem strRotateRight_ropeOf (right_some : right ≠ .null) :
    strRotateRight create .never (ropeOf (ropeOf left right) lower) =
      (create .never ⟨right, 0, strFastLen right⟩ ⟨lower, 0, strFastLen lower⟩).bind
        fun new => strCreateNode .never ⟨left, 0, strFastLen left⟩ ⟨new, 0, 0⟩ := by
  simp [ropeOf, strRotateRight, right_some]
  rfl

theorem strRotateLeft_ropeOf (right_some : right ≠ .null) :
    strRotateLeft create .never (ropeOf lower (ropeOf left right)) =
      (create .never ⟨lower, 0, strFastLen lower⟩ ⟨left, 0, strFastLen left⟩).bind
        fun new => strCreateNode .never ⟨new, 0, 0⟩ ⟨right, 0, strFastLen right⟩ := by
  simp [ropeOf, strRotateLeft, right_some]
  rfl

theorem strRebalanceRope_near {iter : Nat} {lastbal : Int}
    (near : strRopeDepth left ≤ strRopeDepth right + 1)
    (near' : strRopeDepth right ≤ strRopeDepth left + 1) :
    strRebalanceRope create iter .never lastbal (ropeOf left right) = some (ropeOf left right) := by
  cases iter with
  | zero => rfl
  | succ iter =>
    rw [ropeOf, strRebalanceRope]
    split_ifs <;> first | rfl | omega

theorem strRebalanceRope_left (heavy : strRopeDepth right + 1 < strRopeDepth left) :
    strRebalanceRope create maxRebalanceIter .never 0 (ropeOf left right) =
      (strRotateRight create .never (ropeOf left right)).bind
        (strRebalanceRope create 2 .never (strRopeDepth right - strRopeDepth left)) := by
  rw [ropeOf, maxRebalanceIter, strRebalanceRope, if_neg (by omega), if_pos (by omega)]
  rfl

theorem strRebalanceRope_right {lastbal : Int}
    (heavy : strRopeDepth left + 1 < strRopeDepth right)
    (progress : (strRopeDepth right : Int) - strRopeDepth left < -lastbal) :
    strRebalanceRope create 2 .never lastbal (ropeOf left right) =
      (strRotateLeft create .never (ropeOf left right)).bind
        (strRebalanceRope create 1 .never (strRopeDepth right - strRopeDepth left)) := by
  rw [ropeOf, strRebalanceRope, if_neg (by omega), if_neg (by omega), if_pos (by omega)]
  rfl

theorem strCreateRope_ropeOf {fuel : Nat} (whole : Stands l left) (whole' : Stands r right)
    (first : Piece left) (second : Piece right) :
    strCreateRope (fuel + 1) .never l r =
      strRebalanceRope (strCreateRope fuel) maxRebalanceIter .never 0 (ropeOf left right) := by
  rw [strCreateRope]
  change (strCreateNode .never l r).bind _ = _
  rw [strCreateNode_ropeOf whole whole' first second]
  rfl

end

/-- A string that has become one deeper leans right, but for the first two. -/
structure Deepened (before after : CxStr) : Prop where
  grown : Grown after
  depth : strRopeDepth after = strRopeDepth before ∨
    strRopeDepth after = strRopeDepth before + 1 ∧ (2 ≤ strRopeDepth before →
      ∃ left right, after = ropeOf left right ∧ Piece left ∧ left.Balanced ∧ Grown right ∧
        strRopeDepth right = strRopeDepth left + 1)

/-- Appending one more flat string. -/
theorem Grown.append {t leaf : CxStr} (grown : Grown t) (last : Grown leaf)
    (flat : strRopeDepth leaf = 0) {l r : StrRef} {fuel : Nat} (whole : Stands l t)
    (whole' : Stands r leaf) (enough : strRopeDepth t < fuel) :
    ∃ after, strCreateRope fuel .never l r = some after ∧ Deepened t after := by
  induction grown generalizing l r fuel with
  | @flat enc bytes long =>
    have first : Grown (.flat enc bytes) := .flat long
    obtain ⟨fuel, rfl⟩ := Nat.exists_eq_add_one.2 enough
    rw [strCreateRope_ropeOf whole whole' first.piece last.piece]
    refine ⟨_, strRebalanceRope_near _ (Nat.zero_le _) (by omega),
      .node first.piece trivial last (Nat.zero_le _) (.inl (by omega)), .inr ⟨?_, nofun⟩⟩
    rw [strRopeDepth_ropeOf, flat]
    rfl
  | @node a b piece balanced grown near leans ih =>
    have top : Grown (ropeOf a b) := .node piece balanced grown near leans
    obtain ⟨fuel, rfl⟩ := Nat.exists_eq_add_one.2 (Nat.zero_lt_of_lt enough)
    rw [strCreateRope_ropeOf whole whole' top.piece last.piece]
    by_cases low : strRopeDepth (ropeOf a b) ≤ 1
    · refine ⟨_, strRebalanceRope_near _ (by omega) (by omega),
        .node top.piece top.balanced last (by omega) (.inl (by omega)), .inr ⟨?_, by omega⟩⟩
      rw [strRopeDepth_ropeOf]
      omega
    rw [strRopeDepth_ropeOf] at enough low
    obtain ⟨right, made, right_grown, depth⟩ := ih (stands_all b) (stands_all leaf)
      (show strRopeDepth b < fuel by omega)
    rw [strRebalanceRope_left _ (by rw [strRopeDepth_ropeOf]; omega),
      strRotateRight_ropeOf _ grown.piece.ne_null, made, Option.bind_some,
      strCreateNode_ropeOf (stands_all a) (stands_zero right) piece right_grown.piece,
      Option.bind_some]
    rcases depth with same | ⟨deeper, leaning⟩
    · refine ⟨_, strRebalanceRope_near _ (by omega) (by omega),
        .node piece balanced right_grown (by omega) (by omega), .inl ?_⟩
      simp only [strRopeDepth_ropeOf, same]
    by_cases close : strRopeDepth b ≤ strRopeDepth a
    · clear leaning
      refine ⟨_, strRebalanceRope_near _ (by omega) (by omega),
        .node piece balanced right_grown (by omega) (by omega), ?_⟩
      by_cases even : strRopeDepth b = strRopeDepth a
      · refine .inr ⟨?_, fun _ => ⟨a, right, rfl, piece, balanced, right_grown, by omega⟩⟩
        simp only [strRopeDepth_ropeOf]
        omega
      · refine .inl ?_
        simp only [strRopeDepth_ropeOf]
        omega
    · obtain ⟨x, y, rfl, x_piece, x_balanced, y_grown, leans_right⟩ := leaning (by omega)
      clear leaning
      rw [strRopeDepth_ropeOf] at deeper
      obtain ⟨fuel, rfl⟩ := Nat.exists_eq_add_one.2 (show 0 < fuel by omega)
      rw [strRebalanceRope_right _ (by rw [strRopeDepth_ropeOf]; omega)
        (by simp only [strRopeDepth_ropeOf]; omega), strRotateLeft_ropeOf _ y_grown.piece.ne_null,
        strCreateRope_ropeOf (stands_all a) (stands_all x) piece x_piece,
        strRebalanceRope_near _ (by omega) (by omega), Option.bind_some,
        strCreateNode_ropeOf (stands_zero _) (stands_all y) (piece.ropeOf x_piece) y_grown.piece,
        Option.bind_some]
      refine ⟨_, strRebalanceRope_near _ (by rw [strRopeDepth_ropeOf]; omega)
        (by rw [strRopeDepth_ropeOf]; omega), .node (piece.ropeOf x_piece)
          ⟨⟨by omega, by omega⟩, balanced, x_balanced⟩ y_grown (by rw [strRopeDepth_ropeOf]; omega)
          (by rw [strRopeDepth_ropeOf]; omega), .inl ?_⟩
      simp only [strRopeDepth_ropeOf]
      omega

/-- Handles of the heap filled by `strAppend` calls of long flat strings. -/
inductive Appended : CxStr → Prop
  | empty : Appended .null
  | append {io : StrDest} {enc : StrEnc} {bytes : List UInt8} {done : StrWrite}
      (held : Appended io.held) (heap : io.stack = false) (long : ropeMinSize ≤ bytes.length)
      (made : strAppend .never io (.flat enc bytes) = some done) : Appended done.out

theorem strAppend_grown {io : StrDest} {enc : StrEnc} {bytes : List UInt8}
    (held : io.held = .null ∨ Grown io.held) (heap : io.stack = false)
    (long : ropeMinSize ≤ bytes.length) :
    ∃ done, strAppend .never io (.flat enc bytes) = some done ∧ Grown done.out := by
  have last : Grown (.flat enc bytes) := .flat long
  rw [strAppend, if_neg nofun]
  rcases held with nothing | grown
  · rw [if_pos nothing]
    exact ⟨_, rfl, last⟩
  · have piece := grown.piece
    have merges : mergesInto io (strLen io.held) bytes.length = false := by
      have := piece.long
      simp only [mergesInto, StrDest.onStack, strLen, piece.check, heap, ropeMinSize,
        ropeJoinThresh] at *
      simp
      omega
    obtain ⟨after, made, deepened⟩ := grown.append last rfl (stands_zero _) (stands_zero _)
      (Nat.lt_succ_of_lt (Nat.lt_add_right bytes.length piece.shallow))
    rw [if_neg piece.ne_null, strFastLen, merges, if_neg Bool.false_ne_true, strJoinRope]
    exact ⟨_, congrArg _ made, deepened.grown⟩

/-- A string built by appending long flat strings stays balanced. -/
theorem append_balanced {s : CxStr} (appended : Appended s) :
    s.Balanced ∧ ∀ (io : StrDest) (enc : StrEnc) (bytes : List UInt8), io.held = s →
      io.stack = false → ropeMinSize ≤ bytes.length →
        ∃ done, strAppend .never io (.flat enc bytes) = some done ∧ done.out.Balanced := by
  have grown : s = .null ∨ Grown s := by
    induction appended with
    | empty => exact .inl rfl
    | append _ heap long made ih =>
      obtain ⟨done, made', grown⟩ := strAppend_grown ih heap long
      obtain rfl := Option.some.inj (made.symm.trans made')
      exact .inr grown
  constructor
  · rcases grown with rfl | grown
    · trivial
    · exact grown.balanced
  · rintro io enc bytes rfl heap long
    obtain ⟨done, made, grown⟩ := strAppend_grown grown heap long
    exact ⟨done, made, grown.balanced⟩

theorem append_balanced_three :
    ∃ done, strAppend .never ⟨twoHundred, true, false, 1, 0⟩ (hundred 99) = some done ∧
      done.out.Balanced := by
  have long : ∀ ch : UInt8, ropeMinSize ≤ (List.replicate 100 ch).length := by
    simp [ropeMinSize]
  have one : Appended (hundred 97) := @Appended.append .empty _ _ _ .empty rfl (long 97) rfl
  have two : Appended twoHundred :=
    @Appended.append ⟨hundred 97, true, false, 1, 0⟩ _ _ _ one rfl (long 98)
      (show strAppend _ _ (hundred 98) = some ⟨twoHundred, hundred 97⟩ by decide +kernel)
  exact (append_balanced two).2 _ _ _ rfl rfl (long 99)

/-- A hundred bytes in front of two hundred, with another hundred behind them. -/
def lopsided : CxStr :=
  .rope .mask (hundred 96) 0 100 (.rope .mask twoHundred 0 200 (hundred 99) 0 100 2) 0 300 3

/-- The node of depth two leans right.  Rotated to the right it leans as far the other way, which
counts as no progress. -/
theorem rotation_not_enough :
    strConcat .never .empty (hundred 97) (hundred 98) = some ⟨twoHundred, .null⟩ ∧
      strConcat .never .empty (hundred 96) twoHundred =
        some ⟨.rope .mask (hundred 96) 0 100 twoHundred 0 200 2, .null⟩ ∧
      strConcat .never .empty (.rope .mask (hundred 96) 0 100 twoHundred 0 200 2) (hundred 99) =
        some ⟨lopsided, .null⟩ ∧ ¬lopsided.Balanced := by
  refine ⟨strConcat_twoHundred, by decide +kernel, by decide +kernel, ?_⟩
  rintro ⟨⟨-, near⟩, -⟩
  exact absurd near (by decide)

end Cx.Str
