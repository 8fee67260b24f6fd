import Cx.Library.Run
import Cx.Library.Split

/-!
# Taking dot segments out of a URL path

`removeDotSegments` takes a path apart at its slashes, lets each `..` take back the segment before
it, and joins what it kept.  The standard instead rewrites the front of a text until nothing of it
is left.  The two agree on an absolute path unless it ends in a dot segment behind an empty one.
-/

namespace Cx.Http

open Library List

abbrev slash : UInt8 := '/'.toUInt8

abbrev dot : UInt8 := '.'.toUInt8

@[simp] theorem dot_ne_slash : dot ≠ slash := by decide

@[simp] theorem slash_ne_dot : slash ≠ dot := by decide

/-- The segment names its directory or the one above. -/
def dotSegment (s : List UInt8) : Bool := s == [dot] || s == [dot, dot]

/-- One turn of the loop over the segments. -/
def removeDotStep (outsegs : List (List UInt8)) (s : List UInt8) : List (List UInt8) :=
  if s = [dot] then outsegs
  else if s = [dot, dot] then
    -- never climb above the root
    if outsegs.length > 1 then outsegs.dropLast else outsegs
  else outsegs ++ [s]

def removeDotSegments (path : List UInt8) : List UInt8 :=
  let segs := path.splitOn slash
  let outsegs := run removeDotStep [] segs
  let outsegs :=
    if segs.getLast?.any dotSegment ∧ (outsegs.length = 0 ∨ outsegs.getLast? ≠ some []) then
      outsegs ++ [[]]
    else outsegs
  let joined := [slash].intercalate outsegs
  if joined = [] ∨ joined.head? ≠ some slash then slash :: joined else joined

/-! ### The algorithm of RFC 3986, section 5.2.4 -/

/-- The output without its last segment and the slash before it, if any. -/
def rfcUp (output : List UInt8) : List UInt8 :=
  (output.reverse.dropWhile (· != slash)).tail.reverse

/-- The first segment of the input, with the slash it starts with, if any. -/
def rfcFirst : List UInt8 → List UInt8
  | [] => []
  | first :: rest => first :: rest.takeWhile (· != slash)

/-- One step on the input buffer and the output buffer. -/
def rfcStep : List UInt8 × List UInt8 → List UInt8 × List UInt8
  | (input, output) =>
    if [dot, dot, slash] <+: input then (input.drop 3, output)
    else if [dot, slash] <+: input then (input.drop 2, output)
    else if [slash, dot, slash] <+: input then (input.drop 2, output)
    else if input = [slash, dot] then ([slash], output)
    else if [slash, dot, dot, slash] <+: input then (input.drop 3, rfcUp output)
    else if input = [slash, dot, dot] then ([slash], rfcUp output)
    else if input = [dot] ∨ input = [dot, dot] then ([], output)
    else (input.drop (rfcFirst input).length, output ++ rfcFirst input)

/-- Every step makes the input shorter, so that as many steps as it has bytes use it up. -/
def rfcRemoveDots (path : List UInt8) : List UInt8 := (rfcStep^[path.length] (path, [])).2

/-! ### The segments that both keep -/

/-- The segments kept behind the root. -/
def keepSegment (kept : List (List UInt8)) (s : List UInt8) : List (List UInt8) :=
  if s = [dot] then kept else if s = [dot, dot] then kept.dropLast else kept ++ [s]

theorem run_removeDotStep (segs kept : List (List UInt8)) :
    run removeDotStep ([] :: kept) segs = [] :: run keepSegment kept segs := by
  induction segs generalizing kept with
  | nil => rfl
  | cons s segs ih =>
    have step : removeDotStep ([] :: kept) s = [] :: keepSegment kept s := by
      unfold removeDotStep keepSegment
      cases kept <;> split_ifs <;> simp_all
    rw [run_cons, step, ih, run_cons]

variable {s : List UInt8} {segs kept : List (List UInt8)}

theorem mem_keepSegment {t : List UInt8} (inside : t ∈ keepSegment kept s) :
    t ∈ kept ∨ t = s ∧ ¬dotSegment s := by
  unfold keepSegment at inside
  split_ifs at inside
  · exact .inl inside
  · exact .inl (mem_of_mem_dropLast inside)
  · rcases mem_append.1 inside with before | new
    · exact .inl before
    · exact .inr ⟨mem_singleton.1 new, by simp_all [dotSegment]⟩

theorem mem_run_keepSegment {t : List UInt8} (inside : t ∈ run keepSegment kept segs) :
    t ∈ kept ∨ t ∈ segs ∧ ¬dotSegment t := by
  induction segs generalizing kept with
  | nil => exact .inl inside
  | cons s segs ih =>
    rcases ih inside with before | ⟨later, name⟩
    · rcases mem_keepSegment before with before | ⟨rfl, name⟩
      · exact .inl before
      · exact .inr ⟨mem_cons_self, name⟩
    · exact .inr ⟨mem_cons_of_mem s later, name⟩

theorem rfcUp_partsAfter (plain : ∀ s ∈ kept, slash ∉ s) :
    rfcUp (partsAfter slash kept) = partsAfter slash kept.dropLast := by
  rcases eq_nil_or_concat' kept with rfl | ⟨front, last, rfl⟩
  · rfl
  · have := plain last (by simp)
    have free : ∀ ch ∈ last.reverse, (ch != slash) = true := by grind
    simp [rfcUp, partsAfter, dropWhile_append_of_pos free]

/-- A step takes the first segment, but leaves a slash behind a last one that was a dot segment. -/
theorem rfcStep_partsAfter (plain : ∀ s ∈ kept, slash ∉ s) (segment : slash ∉ s) :
    rfcStep (partsAfter slash (s :: segs), partsAfter slash kept) =
      (if dotSegment s ∧ segs = [] then [slash] else partsAfter slash segs,
        partsAfter slash (keepSegment kept s)) := by
  have up := rfcUp_partsAfter plain
  by_cases here : s = [dot]
  · subst here
    cases segs <;> simp [rfcStep, partsAfter, dotSegment, keepSegment]
  by_cases above : s = [dot, dot]
  · subst above
    cases segs <;> simp_all [rfcStep, partsAfter, dotSegment, keepSegment]
  · have first : rfcFirst (partsAfter slash (s :: segs)) = slash :: s := by
      have free : ∀ ch ∈ s, (ch != slash) = true := by grind
      change slash :: (s ++ partsAfter slash segs).takeWhile (· != slash) = _
      rw [takeWhile_append_of_pos free]
      cases segs <;> simp [partsAfter]
    have names : ¬dotSegment s ∧ keepSegment kept s = kept ++ [s] := by
      simp [dotSegment, keepSegment, here, above]
    rw [names.2, if_neg fun dots => names.1 dots.1, rfcStep, first]
    have other := Ne.symm here
    have another := Ne.symm above
    rcases s with _ | ⟨a, _ | ⟨b, _ | ⟨c, s⟩⟩⟩ <;> cases segs <;>
      simp_all [partsAfter, cons_prefix_cons]

theorem iterate_rfcStep_nil (n : Nat) (output : List UInt8) :
    rfcStep^[n] ([], output) = ([], output) :=
  Function.iterate_fixed (by simp [rfcStep, rfcFirst]) n

/-- Nothing of the input is left, and what was taken from it is the segments kept, with an empty
one behind them if the last was a dot segment. -/
theorem iterate_rfcStep (plain : ∀ s ∈ kept, slash ∉ s) (segments : ∀ s ∈ segs, slash ∉ s)
    {n : Nat} (enough : (partsAfter slash segs).length ≤ n) :
    rfcStep^[n] (partsAfter slash segs, partsAfter slash kept) =
      ([], partsAfter slash (run keepSegment kept segs ++
        if segs.getLast?.any dotSegment then [[]] else [])) := by
  induction segs generalizing kept n with
  | nil =>
    rw [show partsAfter slash [] = [] from rfl, iterate_rfcStep_nil]
    simp
  | cons s segs ih =>
    have segment := segments s mem_cons_self
    have after : ∀ t ∈ keepSegment kept s, slash ∉ t := by
      intro t inside
      rcases mem_keepSegment inside with before | ⟨rfl, -⟩
      exacts [plain t before, segment]
    have long : (partsAfter slash (s :: segs)).length =
        s.length + 1 + (partsAfter slash segs).length := by
      simp only [partsAfter, flatMap_cons, length_append, length_cons]
    obtain ⟨n, rfl⟩ : ∃ m, n = m + 1 := ⟨n - 1, by omega⟩
    rw [Function.iterate_succ_apply, rfcStep_partsAfter plain segment, run_cons]
    by_cases last : dotSegment s ∧ segs = []
    · -- the slash that the last dot segment leaves is an empty segment of its own
      obtain ⟨dots, rfl⟩ := last
      have : 0 < s.length := length_pos_iff.2 (by rintro rfl; simp [dotSegment] at dots)
      obtain ⟨n, rfl⟩ : ∃ m, n = m + 1 := ⟨n - 1, by omega⟩
      rw [if_pos ⟨dots, rfl⟩, Function.iterate_succ_apply,
        show [slash] = partsAfter slash [[]] from rfl, rfcStep_partsAfter after not_mem_nil,
        if_neg (by simp [dotSegment]), show partsAfter slash [] = [] from rfl,
        iterate_rfcStep_nil]
      simp [dots, keepSegment]
    · rw [if_neg last,
        ih after (fun t inside => segments t (mem_cons_of_mem s inside)) (by omega)]
      cases segs <;> simp_all

theorem run_keepSegment_ne_nil (some_segment : segs ≠ [])
    (kept_last : ¬segs.getLast?.any dotSegment) : run keepSegment [] segs ≠ [] := by
  rcases eq_nil_or_concat' segs with rfl | ⟨front, last, rfl⟩
  · exact absurd rfl some_segment
  · rw [run_append]
    simp_all [keepSegment, dotSegment]

/-- What is joined ends in a slash only behind an empty segment. -/
theorem slash_suffix_partsAfter (plain : ∀ s ∈ kept, slash ∉ s) :
    [slash] <:+ partsAfter slash kept ↔ kept.getLast? = some [] := by
  rcases eq_nil_or_concat' kept with rfl | ⟨front, last, rfl⟩
  · simp [partsAfter]
  · have joined : partsAfter slash (front ++ [last]) =
        partsAfter slash front ++ slash :: last := by simp [partsAfter]
    rw [joined, getLast?_concat]
    rcases eq_nil_or_concat' last with rfl | ⟨name, ch, rfl⟩
    · simp
    · refine iff_of_false ?_ (by simp)
      rintro ⟨before, same⟩
      rw [← cons_append, ← append_assoc] at same
      obtain rfl : slash = ch := by simpa using (append_inj' same rfl).2
      exact plain (name ++ [slash]) (by simp) (by simp)

theorem rfcRemoveDots_partsAfter (segments : ∀ s ∈ segs, slash ∉ s) :
    rfcRemoveDots (partsAfter slash segs) =
      partsAfter slash (run keepSegment [] segs ++
        if segs.getLast?.any dotSegment then [[]] else []) :=
  congrArg Prod.snd (iterate_rfcStep (forall_mem_nil _) segments le_rfl)

theorem getLast?_splitOn_slash (rest : List UInt8) :
    ((slash :: rest).splitOn slash).getLast? = (rest.splitOn slash).getLast? := by
  obtain ⟨first, segs, split⟩ := exists_cons_of_ne_nil (splitOn_ne_nil slash rest)
  rw [splitOn_cons_sep, split, getLast?_cons_cons]

/-- The segments behind the root that are joined: an empty one is added behind a last dot segment
unless one is there already. -/
def leftSegments (segs : List (List UInt8)) : List (List UInt8) :=
  run keepSegment [] segs ++
    if segs.getLast?.any dotSegment ∧ (run keepSegment [] segs).getLast? ≠ some [] then [[]] else []

theorem leftSegments_ne_nil (some_segment : segs ≠ []) : leftSegments segs ≠ [] := by
  have kept_some := run_keepSegment_ne_nil some_segment
  intro none
  simp_all [leftSegments]

theorem removeDotSegments_cons (rest : List UInt8) :
    removeDotSegments (slash :: rest) =
      partsAfter slash (leftSegments (rest.splitOn slash)) := by
  have kept_some := run_keepSegment_ne_nil (splitOn_ne_nil slash rest)
  simp only [removeDotSegments, leftSegments, getLast?_splitOn_slash]
  rw [splitOn_cons_sep, run_cons, show removeDotStep [] [] = [[]] from rfl, run_removeDotStep]
  generalize run keepSegment [] (rest.splitOn slash) = kept at *
  cases kept with
  | nil => simp_all [partsAfter]
  | cons first kept =>
    rw [getLast?_cons_cons]
    split_ifs <;> simp_all [partsAfter, intercalate_cons_eq]

/-- What is kept of a path are its segments, without those that are dot segments. -/
theorem run_keepSegment_splitOn {rest : List UInt8}
    (inside : s ∈ run keepSegment [] (rest.splitOn slash)) : slash ∉ s ∧ ¬dotSegment s := by
  rcases mem_run_keepSegment inside with before | ⟨segment, name⟩
  · cases before
  · exact ⟨sep_not_mem_of_mem_splitOn segment, name⟩

def urlText (text : List Char) : List UInt8 := text.map Char.toUInt8

theorem run_keepSegment_of_names (names : ∀ s ∈ segs, ¬dotSegment s) :
    run keepSegment kept segs = kept ++ segs := by
  induction segs generalizing kept with
  | nil => simp
  | cons s segs ih =>
    rw [run_cons, ih fun t inside => names t (mem_cons_of_mem s inside)]
    have := names s mem_cons_self
    simp_all [keepSegment, dotSegment]

/-- No dot segment is left to climb with, and a second pass finds nothing to do. -/
theorem removeDotSegments_settles {path : List UInt8} (absolute : path.head? = some slash) :
    (removeDotSegments path).head? = some slash ∧
      (∀ s ∈ (removeDotSegments path).splitOn slash, ¬dotSegment s) ∧
      removeDotSegments (removeDotSegments path) = removeDotSegments path := by
  obtain ⟨rest, rfl⟩ := head?_eq_some_iff.1 absolute
  have free : ∀ s ∈ leftSegments (rest.splitOn slash), slash ∉ s ∧ ¬dotSegment s := by
    intro s inside
    rcases mem_append.1 inside with kept | added
    · exact run_keepSegment_splitOn kept
    · split_ifs at added <;> simp_all [dotSegment]
  rw [removeDotSegments_cons]
  obtain ⟨first, left, is_left⟩ :=
    exists_cons_of_ne_nil (leftSegments_ne_nil (splitOn_ne_nil slash rest))
  rw [is_left] at free ⊢
  have names : ∀ s ∈ first :: left, ¬dotSegment s := fun s inside => (free s inside).2
  have split : (first ++ partsAfter slash left).splitOn slash = first :: left := by
    rw [← intercalate_cons_eq]
    exact splitOn_intercalate slash (fun s inside => (free s inside).1) (cons_ne_nil _ _)
  have last : ¬(first :: left).getLast?.any dotSegment := by
    simpa [getLast?_eq_some_getLast] using names _ (getLast_mem (cons_ne_nil first left))
  rw [show partsAfter slash (first :: left) = slash :: (first ++ partsAfter slash left)
    from rfl]
  refine ⟨rfl, ?_, ?_⟩
  · rw [splitOn_cons_sep, split]
    exact forall_mem_cons.2 ⟨by decide, names⟩
  · rw [removeDotSegments_cons, split, leftSegments, run_keepSegment_of_names names,
      if_neg fun dots => last dots.1, append_nil]
    rfl

theorem removeDotSegments_settles_climb :
    removeDotSegments (removeDotSegments (urlText ['/', '.', '.', '/', 'a'])) =
      removeDotSegments (urlText ['/', '.', '.', '/', 'a']) :=
  (removeDotSegments_settles (by decide)).2.2

end Cx.Http
