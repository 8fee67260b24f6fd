import Cx.Library.Run
import Cx.Library.Split

/-!
# Normalising paths

`pathNormalize` scans a path once to see whether there is anything to do, and otherwise takes it
apart, lets each `..` eat the component before it, and puts it together again.  What stands before
the cursor of the eater is kept here as a list with the last component first.

An eater that starts on a rooted path leaves the walk from the root.  On a relative one it leaves
the route, so many levels up and then down some names, as long as it does not come to an empty
component or to a second climb with nothing before them but the start.
-/

namespace Cx.Fs

open Library List

abbrev Path := List UInt8

/-- `fsPathSepStr` -/
abbrev fsPathSep : UInt8 := '/'.toUInt8

/-- `fsNSSepStr` -/
abbrev fsNSSep : UInt8 := ':'.toUInt8

/-- The separator of other systems. -/
abbrev fsBackslash : UInt8 := '\\'.toUInt8

abbrev fsDot : UInt8 := '.'.toUInt8

/-- `fsCurrentDirStr` -/
abbrev fsCurrentDir : Path := [fsDot]

/-- `fsParentDirStr` -/
abbrev fsParentDir : Path := [fsDot, fsDot]

def pathIsAbsolute (path : Path) : Bool :=
  if fsNSSep ∈ path then true else if path.head? = some fsPathSep then true else false

/-- `pathSplitNS`: the namespace before the first colon, and what comes after it. -/
def pathSplitNS (path : Path) : Path × Path :=
  if fsNSSep ∈ path then
    (path.takeWhile (· != fsNSSep), (path.dropWhile (· != fsNSSep)).tail)
  else ([], path)

/-! ### The scanner -/

structure PathHistory where
  /-- `backbuf[0]`, the oldest -/
  b0 : UInt8
  /-- `backbuf[1]` -/
  b1 : UInt8
  /-- `backbuf[2]` -/
  b2 : UInt8
  /-- `backbuf[3]` -/
  b3 : UInt8
  /-- `backbuf[4]`, the last -/
  b4 : UInt8
deriving DecidableEq, Repr

def PathHistory.push (h : PathHistory) (ch : UInt8) : PathHistory := ⟨h.b1, h.b2, h.b3, h.b4, ch⟩

def PathHistory.start : PathHistory := ⟨0, 0, 0, 0, 0⟩

/-- The last component is a reference to the current directory or its parent, and not the first. -/
def PathHistory.dots (h : PathHistory) : Bool :=
  (h.b4 == fsDot && h.b3 == fsDot && h.b2 == fsPathSep) || (h.b4 == fsDot && h.b3 == fsPathSep)

structure PathScan where
  /-- `backbuf` -/
  backbuf : PathHistory
  nsdone : Bool
  nscheck : Bool
deriving DecidableEq, Repr

/-- One byte; nothing if it shows that the path is not normalized. -/
def pathScan (s : PathScan) (ch : UInt8) : Option PathScan :=
  let colon := !s.nsdone && ch == fsNSSep
  if ch = fsBackslash then none
  else if s.nscheck ∧ ch ≠ fsPathSep then none
  else if ch = fsPathSep ∧ (s.backbuf.dots ∨ s.backbuf.b4 = fsPathSep) then none
  else some { backbuf := s.backbuf.push ch, nsdone := s.nsdone || colon, nscheck := colon }

def pathNormalized (path : Path) : Bool :=
  match path.foldlM pathScan ⟨.start, false, false⟩ with
  | some s => !s.backbuf.dots
  | none => false

/-! ### The eater -/

/-- `strReplaceChar` of backslashes by slashes. -/
def pathSlashes (path : Path) : Path := path.map fun ch => if ch =
    fsBackslash then fsPathSep else ch

def pathComponents (path : Path) : List Path := (pathSlashes path).splitOn fsPathSep

/-- The next component, `done.length` of them before it: keep it, drop it, or drop it with the one
before. -/
def pathEat (absolute : Bool) (done : List Path) (component : Path) : List Path :=
  if done.length > 0 ∧ component = [] then done
  else if done.length > 0 ∧ component = fsParentDir then
    -- an absolute path keeps the empty component before its first slash
    if absolute = false ∨ done.length - 1 > 0 then done.tail else done
  else if component = fsCurrentDir then done
  else component :: done

structure PathParts where
  ns : Path
  components : List Path
  absolute : Bool
deriving DecidableEq, Repr

def pathDecompose (pathin : Path) : PathParts :=
  let rpath := pathSlashes (pathSplitNS pathin).2
  let absolute := pathIsAbsolute rpath
  let components := (run (pathEat absolute) [] (rpath.splitOn fsPathSep)).reverse
  { ns := (pathSplitNS pathin).1
    components :=
      if absolute = true ∧ (components = [] ∨ components.head? ≠ some []) then [] :: components
      else components
    absolute := absolute }

def pathCompose (ns : Path) (components : List Path) : Path :=
  let joined := [fsPathSep].intercalate components
  let rpath := if components = [[]] then joined ++ [fsPathSep] else joined
  if ns ≠ [] then ns ++ [fsNSSep] ++ rpath else rpath

def pathNormalize (path : Path) : Path :=
  if pathNormalized path then path
  else pathCompose (pathDecompose path).ns (pathDecompose path).components

/-! ### What components mean -/

/-- Go from a directory, given by its names with the last one first, to a component of it. -/
def pathWalk (dir : List Path) (component : Path) : List Path :=
  if component = [] ∨ component = fsCurrentDir then dir
  else if component = fsParentDir then dir.tail
  else component :: dir

structure PathRoute where
  up : Nat := 0
  down : List Path := []
deriving DecidableEq, Repr

def PathRoute.enter (route : PathRoute) (component : Path) : PathRoute :=
  if component = [] ∨ component = fsCurrentDir then route
  else if component = fsParentDir then
    match route.down with
    | [] => { route with up := route.up + 1 }
    | _ :: down => { route with down := down }
  else { route with down := component :: route.down }

def PathName (component : Path) : Prop :=
  component ≠ [] ∧ component ≠ fsCurrentDir ∧ component ≠ fsParentDir

instance (component : Path) : Decidable (PathName component) := inferInstanceAs (Decidable (_ ∧ _))

def PathRoute.reach (route : PathRoute) (dir : List Path) : List Path :=
  route.down ++ dir.drop route.up

theorem PathRoute.reach_enter (route : PathRoute) (component : Path) (dir : List Path) :
    (route.enter component).reach dir = pathWalk (route.reach dir) component := by
  unfold enter pathWalk
  split_ifs with stays climbs
  · rfl
  · cases down : route.down with
    | nil => simp [PathRoute.reach, down, tail_drop]
    | cons => simp [PathRoute.reach, down]
  · rfl

/-- A walk goes where the route leads. -/
theorem run_pathWalk (components : List Path) (route : PathRoute) (dir : List Path) :
    run pathWalk (route.reach dir) components =
      (run PathRoute.enter route components).reach dir := by
  induction components generalizing route with
  | nil => rfl
  | cons component components ih => rw [run_cons, run_cons, ← ih, PathRoute.reach_enter]

variable {component : Path} {route : PathRoute}

theorem pathWalk_names {dir : List Path} (names : ∀ name ∈ dir, PathName name) :
    ∀ name ∈ pathWalk dir component, PathName name := by
  unfold pathWalk
  split_ifs with stays climbs
  · exact names
  · exact fun name inside => names name (mem_of_mem_tail inside)
  · intro name inside
    rcases mem_cons.1 inside with rfl | inside
    · rw [not_or] at stays
      exact ⟨stays.1, stays.2, climbs⟩
    · exact names name inside

/-! ### The eater follows the walk -/

/-- On a rooted path the eater walks from the root, over the empty component in front. -/
theorem pathEat_rooted (dir : List Path) (component : Path) :
    pathEat true (dir ++ [[]]) component = pathWalk dir component ++ [[]] := by
  unfold pathEat pathWalk
  by_cases empty : component = []
  · simp [empty]
  by_cases climbs : component = fsParentDir
  · cases dir with
    | nil | cons => simp [climbs]
  by_cases stays : component = fsCurrentDir
  · simp [stays]
  · simp [empty, climbs, stays]

theorem run_pathEat_rooted (components : List Path) (dir : List Path) :
    run (pathEat true) (dir ++ [[]]) components = run pathWalk dir components ++ [[]] := by
  induction components generalizing dir with
  | nil => rfl
  | cons component components ih => rw [run_cons, run_cons, pathEat_rooted, ih]

def PathRoute.components (route : PathRoute) : List Path :=
  route.down ++ List.replicate route.up fsParentDir

/-- An empty component comes only after something, and a climb does not follow a climb. -/
def PathRoute.Plain (route : PathRoute) (component : Path) : Prop :=
  (component = [] → route ≠ {}) ∧ (component = fsParentDir → route.down = [] → route.up = 0)

instance (route : PathRoute) (component : Path) : Decidable (route.Plain component) :=
  inferInstanceAs (Decidable (_ ∧ _))

theorem PathRoute.components_ne_nil (somewhere : route ≠ {}) : route.components ≠ [] := by
  intro empty
  obtain ⟨no_name, no_climb⟩ := append_eq_nil_iff.1 empty
  apply somewhere
  cases route
  simp_all

/-- On a relative path the eater keeps the components of the route. -/
theorem pathEat_route (plain : route.Plain component) :
    pathEat false route.components component = (route.enter component).components := by
  unfold pathEat PathRoute.enter
  by_cases empty : component = []
  · have some_done : route.components.length > 0 :=
      length_pos_of_ne_nil (PathRoute.components_ne_nil (plain.1 empty))
    simp [empty, some_done]
  by_cases climbs : component = fsParentDir
  · cases down : route.down with
    | nil =>
      have at_start := plain.2 climbs down
      simp [climbs, PathRoute.components, down, at_start]
    | cons => simp [climbs, PathRoute.components, down]
  by_cases stays : component = fsCurrentDir
  · simp [stays]
  · simp [empty, climbs, stays, PathRoute.components]

theorem run_pathEat_route {components : List Path}
    (plain : Admits PathRoute.enter PathRoute.Plain route components) :
    run (pathEat false) route.components components =
      (run PathRoute.enter route components).components := by
  induction components generalizing route with
  | nil => rfl
  | cons component components ih => rw [run_cons, run_cons, pathEat_route plain.1, ih plain.2]

/-- A route that the eater can keep: one level up at most, and down by names. -/
structure PathRoute.Short (route : PathRoute) : Prop where
  up_le : route.up ≤ 1
  names : ∀ name ∈ route.down, PathName name

theorem PathRoute.Short.enter (short : route.Short) (plain : route.Plain component) :
    (route.enter component).Short := by
  unfold PathRoute.enter
  split_ifs with stays climbs
  · exact short
  · cases down : route.down with
    | nil =>
      have at_start := plain.2 climbs down
      exact ⟨by simp [at_start], by simp⟩
    | cons name =>
      refine ⟨short.up_le, fun other inside => short.names other ?_⟩
      rw [down]
      exact mem_cons_of_mem name inside
  · rw [not_or] at stays
    refine ⟨short.up_le, fun name inside => ?_⟩
    rcases mem_cons.1 inside with rfl | inside
    · exact ⟨stays.1, stays.2, climbs⟩
    · exact short.names name inside

theorem run_pathWalk_names {names : List Path} (proper : ∀ name ∈ names, PathName name)
    (dir : List Path) : run pathWalk dir names = names.reverse ++ dir := by
  induction names generalizing dir with
  | nil => rfl
  | cons name names ih =>
    obtain ⟨some_byte, not_current, not_parent⟩ := proper name mem_cons_self
    have step : pathWalk dir name = name :: dir := by
      simp [pathWalk, some_byte, not_current, not_parent]
    rw [run_cons, step, ih fun other inside => proper other (mem_cons_of_mem _ inside)]
    simp

theorem run_enter_names {names : List Path} (proper : ∀ name ∈ names, PathName name)
    (route : PathRoute) :
    Admits PathRoute.enter PathRoute.Plain route names ∧
      run PathRoute.enter route names = { route with down := names.reverse ++ route.down } := by
  induction names generalizing route with
  | nil => exact ⟨trivial, rfl⟩
  | cons name names ih =>
    obtain ⟨some_byte, not_current, not_parent⟩ := proper name mem_cons_self
    have step : route.enter name = { route with down := name :: route.down } := by
      simp [PathRoute.enter, some_byte, not_current, not_parent]
    obtain ⟨plain, reached⟩ := ih
      (fun other inside => proper other (mem_cons_of_mem _ inside)) (route.enter name)
    refine ⟨⟨⟨fun empty => absurd empty some_byte, fun climbs => absurd climbs not_parent⟩, plain⟩,
      ?_⟩
    rw [run_cons, reached, step]
    simp

/-- The components of a short route lead along it, and the eater has nothing to do there. -/
theorem run_enter_components (short : route.Short) :
    Admits PathRoute.enter PathRoute.Plain {} route.components.reverse ∧
      run PathRoute.enter {} route.components.reverse = route := by
  obtain ⟨up_le, names⟩ := short
  have proper : ∀ name ∈ route.down.reverse, PathName name := fun name inside =>
    names name (mem_reverse.1 inside)
  rw [PathRoute.components, reverse_append, reverse_replicate]
  obtain ⟨up, down⟩ := route
  interval_cases up
  · obtain ⟨plain, reached⟩ := run_enter_names proper {}
    refine ⟨plain, ?_⟩
    rw [replicate_zero, nil_append, reached]
    simp
  · obtain ⟨plain, reached⟩ := run_enter_names proper { up := 1 }
    refine ⟨⟨⟨nofun, fun _ _ => rfl⟩, plain⟩, ?_⟩
    change run PathRoute.enter { up := 1 } down.reverse = _
    rw [reached]
    simp

end Cx.Fs
