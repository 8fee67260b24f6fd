import Cx.Fs.Path

/-!
# Normal paths are canonical

What the scanner lets through has no empty component, no `.` and no `..` behind a slash, but for an
empty one at the end, and what the eater leaves, put together and taken apart again, is the same.
So a normalized path leads where the original led, and normalizing twice does nothing more, where a
namespace is followed by a slash and, for relative paths, the eater follows the route.
-/

namespace Cx.Fs

open Library List

variable {names parts : List Path} {front name : Path} {ch : UInt8}

/-! ### What the scanner lets through -/

theorem foldlM_pathScan_history {s t : PathScan} (scanned : front.foldlM pathScan s = some t) :
    t.backbuf = front.foldl PathHistory.push s.backbuf ∧ fsBackslash ∉ front := by
  induction front generalizing s with
  | nil =>
    cases scanned
    exact ⟨rfl, not_mem_nil⟩
  | cons ch front ih =>
    obtain ⟨next, step, rest⟩ := Option.bind_eq_some_iff.1 scanned
    obtain ⟨history, no_backslash⟩ := ih rest
    unfold pathScan at step
    split_ifs at step with backslash
    cases step
    refine ⟨history, ?_⟩
    rw [mem_cons, not_or]
    exact ⟨fun same => backslash same.symm, no_backslash⟩

/-- The string ends in a slash and a reference to the current directory or its parent. -/
def EndsInDots (front : Path) : Prop :=
  [fsPathSep, fsDot, fsDot] <:+ front ∨ [fsPathSep, fsDot] <:+ front

theorem dots_of_endsInDots {history : PathHistory} (ends : EndsInDots front) :
    (front.foldl PathHistory.push history).dots = true := by
  rcases ends with ⟨before, rfl⟩ | ⟨before, rfl⟩
  · rw [foldl_append]
    rfl
  · rw [foldl_append]
    simp [PathHistory.push, PathHistory.dots]

structure Scanned (path : Path) : Prop where
  no_backslash : fsBackslash ∉ path
  inside : ∀ front back, path = front ++ fsPathSep :: back →
    ¬ EndsInDots front ∧ ¬ [fsPathSep] <:+ front
  ending : ¬ EndsInDots path

variable {path : Path}

theorem scanned_of_pathNormalized (normalized : pathNormalized path = true) : Scanned path := by
  unfold pathNormalized at normalized
  split at normalized
  · next last scanned =>
      obtain ⟨history, no_backslash⟩ := foldlM_pathScan_history scanned
      refine ⟨no_backslash, ?_, ?_⟩
      · intro front back split
        rw [split, foldlM_append] at scanned
        obtain ⟨middle, before, after⟩ := Option.bind_eq_some_iff.1 scanned
        obtain ⟨next, step, -⟩ := Option.bind_eq_some_iff.1 after
        obtain ⟨middle_history, -⟩ := foldlM_pathScan_history before
        unfold pathScan at step
        split_ifs at step with _ _ found
        simp only [true_and, not_or, middle_history] at found
        refine ⟨fun ends => found.1 (dots_of_endsInDots ends), ?_⟩
        rintro ⟨before, rfl⟩
        apply found.2
        rw [foldl_append]
        rfl
      · intro ends
        rw [history, dots_of_endsInDots ends] at normalized
        cases normalized
  · cases normalized

/-- A path from the root without climbs: a slash, then components none of which is `.` or `..` and
none but the last is empty. -/
structure Rooted (path : Path) : Prop where
  slash : path.head? = some fsPathSep
  no_backslash : fsBackslash ∉ path
  no_dots : ∀ component ∈ path.tail.splitOn fsPathSep,
    component ≠ fsCurrentDir ∧ component ≠ fsParentDir
  no_gaps : ∀ component ∈ (path.tail.splitOn fsPathSep).dropLast, component ≠ []

/-- Where a component stands that is not the first. -/
theorem component_context {path component : Path} {front back : List Path}
    (split : path.splitOn fsPathSep = front ++ component :: back) (later : front ≠ []) :
    ∃ ahead, path = ahead ++ fsPathSep :: component ++ partsAfter fsPathSep back := by
  obtain ⟨ahead, ends⟩ := sep_suffix_partsBefore fsPathSep later
  refine ⟨ahead, ?_⟩
  rw [eq_of_splitOn_eq split, ← ends]
  simp

theorem Scanned.component {path component : Path} {front back : List Path} (scanned : Scanned path)
    (split : path.splitOn fsPathSep = front ++ component :: back) (later : front ≠ []) :
    (component ≠ fsCurrentDir ∧ component ≠ fsParentDir) ∧ (back ≠ [] → component ≠ []) := by
  obtain ⟨ahead, context⟩ := component_context split later
  have no_dots : ¬ EndsInDots (ahead ++ fsPathSep :: component) := by
    cases back with
    | nil =>
      have whole : path = ahead ++ fsPathSep :: component := by
        rw [context]
        simp [partsAfter]
      exact whole ▸ scanned.ending
    | cons =>
      exact (scanned.inside _ _ context).1
  refine ⟨⟨?_, ?_⟩, ?_⟩
  · rintro rfl
    exact no_dots (.inr (suffix_append _ _))
  · rintro rfl
    exact no_dots (.inl (suffix_append _ _))
  · rintro some_part rfl
    obtain ⟨second, back, rfl⟩ := exists_cons_of_ne_nil some_part
    exact (scanned.inside _ _ context).2 (suffix_append _ _)

theorem Scanned.rooted (before : Path) (scanned : Scanned (before ++ fsPathSep :: path)) :
    Rooted (fsPathSep :: path) := by
  have facts {component : Path} {front back : List Path}
      (split : path.splitOn fsPathSep = front ++ component :: back) :
      (component ≠ fsCurrentDir ∧ component ≠ fsParentDir) ∧ (back ≠ [] → component ≠ []) := by
    apply scanned.component
    · rw [splitOn_append_cons_self, split, ← append_assoc]
    · exact append_ne_nil_of_left_ne_nil (splitOn_ne_nil _ _) _
  refine ⟨rfl, ?_, ?_, ?_⟩
  · exact fun inside => scanned.no_backslash (mem_append_right _ inside)
  · intro component is_part
    obtain ⟨front, back, split⟩ := append_of_mem is_part
    exact (facts split).1
  · intro component is_part
    obtain ⟨front, back, split⟩ := append_of_mem is_part
    have whole := dropLast_append_getLast (splitOn_ne_nil fsPathSep path)
    rw [tail_cons] at split
    rw [split, append_assoc, cons_append] at whole
    exact (facts whole.symm).2 (append_ne_nil_of_right_ne_nil _ (cons_ne_nil _ _))

/-! ### Taking apart and putting together -/

theorem pathSplitNS_append {ns rest : Path} (no_colon : fsNSSep ∉ ns) :
    pathSplitNS (ns ++ fsNSSep :: rest) = (ns, rest) := by
  have before : ∀ ch ∈ ns, (ch != fsNSSep) = true := fun ch inside =>
    bne_iff_ne.2 fun same => no_colon (same ▸ inside)
  have colon : fsNSSep ∈ ns ++ fsNSSep :: rest :=
    mem_append_right _ mem_cons_self
  rw [pathSplitNS, if_pos colon, takeWhile_append_of_pos before, dropWhile_append_of_pos before]
  simp

/-- A path with a colon is its namespace and the rest. -/
theorem pathSplitNS_spec (colon : fsNSSep ∈ path) :
    path = (pathSplitNS path).1 ++ fsNSSep :: (pathSplitNS path).2 ∧
      fsNSSep ∉ (pathSplitNS path).1 := by
  obtain ⟨ns, rest, split, no_colon⟩ := eq_append_cons_of_mem colon
  rw [split, pathSplitNS_append no_colon]
  exact ⟨rfl, no_colon⟩

theorem pathSplitNS_of_not_mem (no_colon : fsNSSep ∉ path) : pathSplitNS path = ([], path) :=
  if_neg no_colon

theorem pathSlashes_eq_self (no_backslash : fsBackslash ∉ path) : pathSlashes path = path := by
  refine (map_congr_left fun ch inside => ?_).trans (map_id path)
  exact if_neg fun same : ch = fsBackslash => no_backslash (same ▸ inside)

theorem mem_pathSlashes (inside : ch ∈ pathSlashes path) :
    ch ≠ fsBackslash ∧ (ch ∈ path ∨ ch = fsPathSep) := by
  obtain ⟨original, original_mem, rfl⟩ := mem_map.1 inside
  split_ifs with backslash
  · exact ⟨by decide, .inr rfl⟩
  · exact ⟨backslash, .inl original_mem⟩

/-- A rooted path is taken apart into its namespace and the walk from the root. -/
theorem pathDecompose_rooted {path rest : Path}
    (rooted : pathSlashes (pathSplitNS path).2 = fsPathSep :: rest) :
    pathDecompose path =
      ⟨(pathSplitNS path).1, [] :: (run pathWalk [] (rest.splitOn fsPathSep)).reverse, true⟩ := by
  have absolute : pathIsAbsolute (fsPathSep :: rest) = true := by
    simp [pathIsAbsolute]
  have eaten : run (pathEat true) [] ((fsPathSep :: rest).splitOn fsPathSep) =
      run pathWalk [] (rest.splitOn fsPathSep) ++ [[]] := by
    rw [splitOn_cons_sep, run_cons]
    exact run_pathEat_rooted _ []
  simp only [pathDecompose, rooted, absolute, eaten]
  simp

/-- A relative path is taken apart into the components of its route. -/
theorem pathDecompose_relative (no_colon : fsNSSep ∉ path)
    (no_slash : (pathSlashes path).head? ≠ some fsPathSep)
    (plain : Admits PathRoute.enter PathRoute.Plain {} (pathComponents path)) :
    pathDecompose path =
      ⟨[], (run PathRoute.enter {} (pathComponents path)).components.reverse, false⟩ := by
  have relative : pathIsAbsolute (pathSlashes path) = false := by
    have colon_free : fsNSSep ∉ pathSlashes path := fun inside =>
      (mem_pathSlashes inside).2.elim no_colon (by decide)
    rw [pathIsAbsolute, if_neg colon_free, if_neg no_slash]
  have eaten := run_pathEat_route plain
  change run (pathEat false) [] ((pathSlashes path).splitOn fsPathSep) = _ at eaten
  simp only [pathDecompose, pathSplitNS_of_not_mem no_colon, relative, eaten]
  simp

structure CleanName (name : Path) : Prop where
  is_name : PathName name
  no_slash : fsPathSep ∉ name
  no_backslash : fsBackslash ∉ name

theorem clean_of_mem_components {path component : Path} (name : PathName component)
    (is_part : component ∈ pathComponents path) : CleanName component where
  is_name := name
  no_slash := sep_not_mem_of_mem_splitOn is_part
  no_backslash inside := (mem_pathSlashes (mem_of_mem_splitOn is_part inside)).1 rfl

def pathHead (ns : Path) : Path := if ns ≠ [] then ns ++ [fsNSSep] else []

theorem pathCompose_rooted (ns : Path) (names : List Path) : pathCompose ns ([] :: names) =
      pathHead ns ++ fsPathSep :: [fsPathSep].intercalate names := by
  have joined : (if [] :: names = [[]] then [fsPathSep].intercalate ([] :: names) ++ [fsPathSep]
      else [fsPathSep].intercalate ([] :: names)) =
        fsPathSep :: [fsPathSep].intercalate names := by
    cases names with
    | nil => rfl
    | cons => simp [intercalate_cons_eq]
  simp only [pathCompose, pathHead]
  rw [joined]
  split_ifs with some_ns
  · rfl
  · rfl

theorem not_mem_intercalate (other : ch ≠ fsPathSep) (absent : ∀ name ∈ names, ch ∉ name) :
    ch ∉ fsPathSep :: [fsPathSep].intercalate names := by
  intro inside
  rcases mem_cons.1 inside with same | inside
  · exact other same
  · rcases mem_intercalate inside with same | ⟨name, is_name, inside⟩
    · exact other same
    · exact absent name is_name inside

theorem rooted_intercalate (clean : ∀ name ∈ names, CleanName name) :
    Rooted (fsPathSep :: [fsPathSep].intercalate names) := by
  have no_backslash := not_mem_intercalate (by decide) fun name is_name =>
    (clean name is_name).no_backslash
  by_cases empty : names = []
  · subst empty
    exact ⟨rfl, no_backslash, by decide, by decide⟩
  · have parts := splitOn_intercalate fsPathSep
      (fun name is_name => (clean name is_name).no_slash) empty
    refine ⟨rfl, no_backslash, ?_, ?_⟩
    · rw [tail_cons, parts]
      exact fun name is_name => (clean name is_name).is_name.2
    · rw [tail_cons, parts]
      exact fun name is_name => (clean name (mem_of_mem_dropLast is_name)).is_name.1

/-- Names put together behind a namespace come apart again. -/
theorem pathDecompose_pathCompose_rooted {ns : Path} (clean : ∀ name ∈ names, CleanName name)
    (no_colon : fsNSSep ∉ ns) (apart : ns ≠ [] ∨ ∀ name ∈ names, fsNSSep ∉ name) :
    pathDecompose (pathCompose ns ([] :: names)) = ⟨ns, [] :: names, true⟩ := by
  have splits : pathSplitNS (pathCompose ns ([] :: names)) =
      (ns, fsPathSep :: [fsPathSep].intercalate names) := by
    rw [pathCompose_rooted, pathHead]
    split_ifs with some_ns
    · rw [append_assoc]
      exact pathSplitNS_append no_colon
    · rw [nil_append, pathSplitNS_of_not_mem, not_not.1 some_ns]
      exact not_mem_intercalate (by decide) (apart.resolve_left some_ns)
  have slashes := pathSlashes_eq_self (rooted_intercalate clean).no_backslash
  have rooted : pathSlashes (pathSplitNS (pathCompose ns ([] :: names))).2 =
      fsPathSep :: [fsPathSep].intercalate names := by
    rw [splits, slashes]
  have walked : run pathWalk [] (([fsPathSep].intercalate names).splitOn fsPathSep) =
      names.reverse := by
    by_cases empty : names = []
    · subst empty
      rfl
    · rw [splitOn_intercalate _ (fun name is_name => (clean name is_name).no_slash) empty,
        run_pathWalk_names fun name is_name => (clean name is_name).is_name, append_nil]
  rw [pathDecompose_rooted rooted, splits, walked, reverse_reverse]

/-- What comes apart into what it was put together from is left as it is. -/
theorem pathNormalize_eq_self
    (again : pathCompose (pathDecompose path).ns (pathDecompose path).components = path) :
    pathNormalize path = path := by
  unfold pathNormalize
  split_ifs with normalized
  · rfl
  · exact again

/-! ### Absolute paths -/

/-- A namespace is followed by a slash, and what comes after an empty one has no colon.  A relative
path that is not normalized is one on which the eater follows the route. -/
structure PathPlain (path : Path) : Prop where
  namespaced : fsNSSep ∈ path →
    (pathSlashes (pathSplitNS path).2).head? = some fsPathSep ∧
      ((pathSplitNS path).1 ≠ [] ∨ fsNSSep ∉ (pathSplitNS path).2)
  relative : pathIsAbsolute path = false → pathNormalized path = false →
    Admits PathRoute.enter PathRoute.Plain {} (pathComponents path)

theorem slash_of_absolute (absolute : pathIsAbsolute path = true)
    (plain : PathPlain path) : ∃ rest, pathSlashes (pathSplitNS path).2 = fsPathSep :: rest := by
  have slash : (pathSlashes (pathSplitNS path).2).head? = some fsPathSep := by
    by_cases colon : fsNSSep ∈ path
    · exact (plain.namespaced colon).1
    · rw [pathIsAbsolute, if_neg colon] at absolute
      split_ifs at absolute with slash
      rw [pathSplitNS_of_not_mem colon, pathSlashes, List.head?_map, slash]
      rfl
  obtain ⟨rest, whole⟩ := List.head?_eq_some_iff.1 slash
  exact ⟨rest, whole⟩

/-- Where a walk has been: in the directory it started from, or in its components. -/
theorem mem_run_pathWalk {dir components : List Path}
    (inside : name ∈ run pathWalk dir components) : name ∈ dir ∨ name ∈ components := by
  induction components generalizing dir with
  | nil => exact .inl inside
  | cons component components ih =>
    rcases ih inside with walked | later
    · unfold pathWalk at walked
      split_ifs at walked
      · exact .inl walked
      · exact .inl (mem_of_mem_tail walked)
      · rcases mem_cons.1 walked with same | before
        · exact .inr (same ▸ mem_cons_self)
        · exact .inl before
    · exact .inr (mem_cons_of_mem component later)

/-- What is left of a rooted path are names that were components of it. -/
theorem clean_walk {path rest : Path} (rooted : pathSlashes path = fsPathSep :: rest)
    (is_name : name ∈ (run pathWalk [] (rest.splitOn fsPathSep)).reverse) :
    CleanName name ∧ (fsNSSep ∉ path → fsNSSep ∉ name) := by
  have walked := mem_reverse.1 is_name
  have is_part : name ∈ pathComponents path := by
    rw [pathComponents, rooted, splitOn_cons_sep]
    exact mem_cons_of_mem _ ((mem_run_pathWalk walked).resolve_left not_mem_nil)
  have proper : ∀ name ∈ run pathWalk [] (rest.splitOn fsPathSep), PathName name :=
    run_invariant (fun dir => ∀ name ∈ dir, PathName name)
      (fun _ inside => absurd inside not_mem_nil)
      (fun _ _ names => pathWalk_names names) _
  refine ⟨clean_of_mem_components (proper name walked) is_part, fun no_colon inside => ?_⟩
  exact (mem_pathSlashes (mem_of_mem_splitOn is_part inside)).2.elim no_colon (by decide)

theorem pathSplitNS_no_colon (path : Path) : fsNSSep ∉ (pathSplitNS path).1 := by
  by_cases colon : fsNSSep ∈ path
  · exact (pathSplitNS_spec colon).2
  · rw [pathSplitNS_of_not_mem colon]
    exact not_mem_nil

/-- An absolute path that is not normalized is put together from clean names. -/
theorem pathNormalize_rooted (absolute : pathIsAbsolute path = true)
    (plain : PathPlain path) (unnormalized : pathNormalized path = false) :
    ∃ names, (∀ name ∈ names, CleanName name) ∧
      ((pathSplitNS path).1 ≠ [] ∨ ∀ name ∈ names, fsNSSep ∉ name) ∧
      pathNormalize path = pathCompose (pathSplitNS path).1 ([] :: names) := by
  obtain ⟨rest, rooted⟩ := slash_of_absolute absolute plain
  refine ⟨(run pathWalk [] (rest.splitOn fsPathSep)).reverse,
    fun name is_name => (clean_walk rooted is_name).1, ?_, ?_⟩
  · by_cases colon : fsNSSep ∈ path
    · refine (plain.namespaced colon).2.imp_right fun no_colon name is_name => ?_
      exact (clean_walk rooted is_name).2 no_colon
    · refine .inr fun name is_name => (clean_walk rooted is_name).2 ?_
      rwa [pathSplitNS_of_not_mem colon]
  · rw [pathNormalize, unnormalized, pathDecompose_rooted rooted]
    rfl

/-- An absolute path becomes a namespace and a path from the root. -/
theorem pathNormalize_absolute (absolute : pathIsAbsolute path = true) (plain : PathPlain path) :
    ∃ head rest, pathNormalize path = head ++ rest ∧
      (head = [] ∨ head = (pathSplitNS path).1 ++ [fsNSSep]) ∧ Rooted rest := by
  cases normalized : pathNormalized path with
  | true =>
    have scanned := scanned_of_pathNormalized normalized
    have same : pathNormalize path = path := if_pos normalized
    obtain ⟨rest, rooted⟩ := slash_of_absolute absolute plain
    by_cases colon : fsNSSep ∈ path
    · have whole := (pathSplitNS_spec colon).1
      rw [pathSlashes_eq_self fun inside => scanned.no_backslash
        (whole ▸ mem_append_right _ (mem_cons_of_mem _ inside))] at rooted
      refine ⟨(pathSplitNS path).1 ++ [fsNSSep], fsPathSep :: rest, ?_, .inr rfl, ?_⟩
      · rw [same, ← rooted, append_assoc]
        exact whole
      · refine Scanned.rooted ((pathSplitNS path).1 ++ [fsNSSep]) ?_
        rw [← rooted, append_assoc]
        exact whole ▸ scanned
    · rw [pathSplitNS_of_not_mem colon, pathSlashes_eq_self scanned.no_backslash] at rooted
      refine ⟨[], path, same, .inl rfl, ?_⟩
      rw [rooted] at scanned ⊢
      exact Scanned.rooted [] scanned
  | false =>
    obtain ⟨names, clean, -, result⟩ := pathNormalize_rooted absolute plain normalized
    refine ⟨pathHead (pathSplitNS path).1, _, result.trans (pathCompose_rooted _ _), ?_,
      rooted_intercalate clean⟩
    unfold pathHead
    split_ifs
    · exact .inr rfl
    · exact .inl rfl

/-! ### Relative paths -/

def ClimbsFirst (components : List Path) : Prop :=
  ∃ up rest, components = List.replicate up fsParentDir ++ rest ∧ fsParentDir ∉ rest

theorem Scanned.climbsFirst (scanned : Scanned path) : ClimbsFirst (path.splitOn fsPathSep) := by
  obtain ⟨first, rest, split⟩ := exists_cons_of_ne_nil (splitOn_ne_nil fsPathSep path)
  have no_climb : fsParentDir ∉ rest := by
    intro inside
    obtain ⟨front, back, rest_eq⟩ := append_of_mem inside
    rw [rest_eq, ← cons_append] at split
    exact (scanned.component split (cons_ne_nil _ _)).1.2 rfl
  rw [split]
  by_cases climbs : first = fsParentDir
  · exact ⟨1, rest, by simp [climbs], no_climb⟩
  · refine ⟨0, first :: rest, rfl, ?_⟩
    rw [mem_cons, not_or]
    exact ⟨fun same => climbs same.symm, no_climb⟩

/-- A component of a relative path that has been put together. -/
structure RelativePart (component : Path) : Prop where
  nonempty : component ≠ []
  no_slash : fsPathSep ∉ component
  no_backslash : fsBackslash ∉ component
  no_colon : fsNSSep ∉ component

section

variable {path : Path} (no_colon : fsNSSep ∉ path)
  (plain : Admits PathRoute.enter PathRoute.Plain {} (pathComponents path))

include plain

theorem short_route : (run PathRoute.enter {} (pathComponents path)).Short :=
  admits_invariant PathRoute.Short ⟨Nat.zero_le 1, fun _ inside => absurd inside not_mem_nil⟩
    (fun _ _ short => short.enter) plain

/-- A path on which the eater follows the route does not begin with a separator. -/
theorem head_of_plain : (pathSlashes path).head? ≠ some fsPathSep := by
  intro slash
  obtain ⟨rest, whole⟩ := List.head?_eq_some_iff.1 slash
  rw [pathComponents, whole, splitOn_cons_sep] at plain
  exact plain.1.1 rfl rfl

include no_colon

theorem relativePart_of_mem {component : Path}
    (is_part : component ∈ (run PathRoute.enter {} (pathComponents path)).components.reverse) :
    RelativePart component := by
  rw [mem_reverse, PathRoute.components, mem_append] at is_part
  rcases is_part with is_name | climb
  · have name := (short_route plain).names component is_name
    have walked : run pathWalk [] (pathComponents path) =
        (run PathRoute.enter {} (pathComponents path)).down := by
      simpa [PathRoute.reach] using run_pathWalk (pathComponents path) {} []
    rw [← walked] at is_name
    have original := (mem_run_pathWalk is_name).resolve_left not_mem_nil
    have clean := clean_of_mem_components name original
    refine ⟨name.1, clean.no_slash, clean.no_backslash, fun inside => ?_⟩
    exact (mem_pathSlashes (mem_of_mem_splitOn original inside)).2.elim no_colon (by decide)
  · rw [(mem_replicate.1 climb).2]
    exact ⟨by decide, by decide, by decide, by decide⟩

end

theorem intercalate_relative (some_part : parts ≠ [])
    (relative : ∀ part ∈ parts, RelativePart part) :
    fsNSSep ∉ [fsPathSep].intercalate parts ∧
      ([fsPathSep].intercalate parts).head? ≠ some fsPathSep ∧
      pathComponents ([fsPathSep].intercalate parts) = parts := by
  have no_colon := not_mem_intercalate (by decide) fun part is_part =>
    (relative part is_part).no_colon
  have no_backslash := not_mem_intercalate (by decide) fun part is_part =>
    (relative part is_part).no_backslash
  refine ⟨fun inside => no_colon (mem_cons_of_mem _ inside), ?_, ?_⟩
  · obtain ⟨first, parts, rfl⟩ := exists_cons_of_ne_nil some_part
    have first_part := relative first mem_cons_self
    obtain ⟨ch, rest, rfl⟩ := exists_cons_of_ne_nil first_part.nonempty
    rw [intercalate_cons_eq, cons_append, List.head?_cons]
    intro same
    cases same
    exact first_part.no_slash mem_cons_self
  · rw [pathComponents, pathSlashes_eq_self fun inside =>
      no_backslash (mem_cons_of_mem _ inside)]
    exact splitOn_intercalate _ (fun part is_part => (relative part is_part).no_slash) some_part

theorem pathCompose_relative (relative : ∀ part ∈ parts, RelativePart part) :
    pathCompose [] parts = [fsPathSep].intercalate parts := by
  have not_root : parts ≠ [[]] := by
    rintro rfl
    exact (relative [] mem_cons_self).nonempty rfl
  simp [pathCompose, not_root]

structure KeepsRelative (path result : Path) : Prop where
  relative : pathIsAbsolute result = false
  leads : ∀ dir, run pathWalk dir (pathComponents result) = run pathWalk dir (pathComponents path)
  climbs_first : ClimbsFirst (pathComponents result)

theorem Scanned.keepsRelative (scanned : Scanned path)
    (relative : pathIsAbsolute path = false) : KeepsRelative path path where
  relative := relative
  leads _ := rfl
  climbs_first := by
    rw [pathComponents, pathSlashes_eq_self scanned.no_backslash]
    exact scanned.climbsFirst

/-- The components of a route put together. -/
theorem PathRoute.Short.keepsRelative {route : PathRoute} (short : route.Short)
    (reached : run PathRoute.enter {} (pathComponents path) = route)
    (parts : ∀ part ∈ route.components.reverse, RelativePart part) :
    KeepsRelative path ([fsPathSep].intercalate route.components.reverse) ∧
      pathNormalize ([fsPathSep].intercalate route.components.reverse) =
        [fsPathSep].intercalate route.components.reverse := by
  have leads (dir : List Path) : run pathWalk dir (pathComponents path) = route.reach dir := by
    rw [← reached]
    exact run_pathWalk (pathComponents path) {} dir
  by_cases nowhere : route.components.reverse = []
  · have start : route = {} := by
      by_contra somewhere
      exact PathRoute.components_ne_nil somewhere (reverse_eq_nil_iff.1 nowhere)
    rw [nowhere]
    refine ⟨⟨rfl, fun dir => ?_, ⟨0, [[]], rfl, by decide⟩⟩, rfl⟩
    rw [leads, start]
    rfl
  · obtain ⟨no_colon, no_slash, components⟩ := intercalate_relative nowhere parts
    obtain ⟨plain, again⟩ := run_enter_components short
    have relative : pathIsAbsolute ([fsPathSep].intercalate route.components.reverse) = false := by
      rw [pathIsAbsolute, if_neg no_colon, if_neg no_slash]
    refine ⟨⟨relative, fun dir => ?_, ?_⟩, ?_⟩
    · rw [leads, components]
      exact (run_pathWalk _ {} dir).trans (by rw [again])
    · refine ⟨route.up, route.down.reverse, ?_, ?_⟩
      · rw [components, PathRoute.components, reverse_append, reverse_replicate]
      · exact fun inside => (short.names _ (mem_reverse.1 inside)).2.2 rfl
    · apply pathNormalize_eq_self
      rw [← components] at plain again
      rw [pathDecompose_relative no_colon (head_of_plain plain) plain, again]
      exact pathCompose_relative parts

theorem pathNormalize_relative (relative : pathIsAbsolute path = false) (plain : PathPlain path) :
    KeepsRelative path (pathNormalize path) ∧
      pathNormalize (pathNormalize path) = pathNormalize path := by
  cases normalized : pathNormalized path with
  | true =>
    have same : pathNormalize path = path := if_pos normalized
    rw [same]
    exact ⟨(scanned_of_pathNormalized normalized).keepsRelative relative, same⟩
  | false =>
    have no_colon : fsNSSep ∉ path := by
      intro colon
      rw [pathIsAbsolute, if_pos colon] at relative
      cases relative
    have follows := plain.relative relative normalized
    have parts : ∀ part ∈ (run PathRoute.enter {} (pathComponents path)).components.reverse,
        RelativePart part := fun _ is_part => relativePart_of_mem no_colon follows is_part
    have result : pathNormalize path = [fsPathSep].intercalate
          (run PathRoute.enter {} (pathComponents path)).components.reverse := by
      rw [pathNormalize, normalized,
        pathDecompose_relative no_colon (head_of_plain follows) follows]
      exact pathCompose_relative parts
    rw [result]
    exact (short_route follows).keepsRelative rfl parts

def pathText (text : List Char) : Path := text.map Char.toUInt8

end Cx.Fs
