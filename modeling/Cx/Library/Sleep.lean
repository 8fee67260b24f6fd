import Cx.Library.Census
import Mathlib.Data.List.Perm.Basic

/-!
# Threads that sleep

A turn is one access of one thread to shared memory, and it may put the thread to sleep or wake
others.  A turn that wakes some takes as many as it asked for, or all there are, and the scheduler
picks which; a sleeper may also take a turn of its own, when its time is up or for no reason.
-/

namespace Cx.Library

open List Function

inductive Wake
  | upTo (count : Nat)
  | all
deriving DecidableEq, Repr

/-- Take sleepers out of a queue, those the scheduler picks: the ones taken and the ones left. -/
def pick {ι : Type*} : List Nat → Nat → List ι → List ι × List ι
  | _, 0, queue => ([], queue)
  | _, _ + 1, [] => ([], [])
  | picks, count + 1, first :: rest =>
    let place := picks.headD 0 % (rest.length + 1)
    let later := pick picks.tail count ((first :: rest).eraseIdx place)
    ((first :: rest).getD place first :: later.1, later.2)

theorem pick_perm {ι : Type*} (picks : List Nat) (count : Nat) (queue : List ι) :
    ((pick picks count queue).1 ++ (pick picks count queue).2).Perm queue := by
  induction count generalizing picks queue with
  | zero => exact .refl _
  | succ count ih =>
    cases queue with
    | nil => exact .refl _
    | cons first rest =>
      have inside : picks.headD 0 % (rest.length + 1) < (first :: rest).length :=
        Nat.mod_lt _ (Nat.succ_pos _)
      simp only [pick, cons_append, getD_eq_getElem?_getD,
        List.getElem?_eq_getElem inside, Option.getD_some]
      refine ((ih picks.tail _).cons _).trans ?_
      exact getElem_cons_eraseIdx_perm inside

theorem length_pick {ι : Type*} (picks : List Nat) (count : Nat) (queue : List ι) :
    (pick picks count queue).1.length = min count queue.length := by
  induction count generalizing picks queue with
  | zero => simp [pick]
  | succ count ih =>
    cases queue with
    | nil => simp [pick]
    | cons first rest =>
      have inside : picks.headD 0 % (rest.length + 1) < (first :: rest).length :=
        Nat.mod_lt _ (Nat.succ_pos _)
      simp only [pick, length_cons, ih, length_eraseIdx_of_lt inside]
      omega

def Wake.serve {ι : Type*} (wake : Wake) (picks : List Nat) (queue : List ι) : List ι × List ι :=
  match wake with
  | .upTo count => pick picks count queue
  | .all => (queue, [])

theorem serve_perm {ι : Type*} (wake : Wake) (picks : List Nat) (queue : List ι) :
    ((wake.serve picks queue).1 ++ (wake.serve picks queue).2).Perm queue := by
  cases wake with
  | upTo count => exact pick_perm picks count queue
  | all => simp [Wake.serve]

structure Sleeping (σ α μ : Type*) where
  /-- A turn of a thread: the memory, where it stands then, and whom it wakes. -/
  act : σ → α → μ → σ × α × Wake
  asleep : α → Bool
  woken : α → α
  awake : ∀ place, asleep place = true → asleep (woken place) = false

structure Crowd {σ α μ : Type*} (program : Sleeping σ α μ) (ι : Type*) where
  memory : σ
  places : ι → α
  sleepers : List ι
  nodup : sleepers.Nodup
  mem_sleepers : ∀ thread, thread ∈ sleepers ↔ program.asleep (places thread) = true

structure Turn (ι μ : Type*) where
  thread : ι
  move : μ
  /-- Who is woken, if anyone, as places in what is left of the queue. -/
  picks : List Nat := []

namespace Crowd

variable {σ α μ ι : Type*} {program : Sleeping σ α μ} [DecidableEq ι]

def start (memory : σ) (place : α) (awake : program.asleep place = false) : Crowd program ι where
  memory := memory
  places := fun _ => place
  sleepers := []
  nodup := .nil
  mem_sleepers := fun _ => by simp [awake]

def acts (w : Crowd program ι) (turn : Turn ι μ) : σ × α × Wake :=
  program.act w.memory (w.places turn.thread) turn.move

/-- The sleepers apart from the thread whose turn it is: those it wakes, and those it leaves. -/
def served (w : Crowd program ι) (turn : Turn ι μ) : List ι × List ι :=
  (w.acts turn).2.2.serve turn.picks (w.sleepers.erase turn.thread)

def placed (w : Crowd program ι) (turn : Turn ι μ) (thread : ι) : α :=
  if thread = turn.thread then (w.acts turn).2.1
  else if thread ∈ (w.served turn).1 then program.woken (w.places thread)
  else w.places thread

def queued (w : Crowd program ι) (turn : Turn ι μ) : List ι :=
  (w.served turn).2 ++ if program.asleep (w.acts turn).2.1 then [turn.thread] else []

variable (w : Crowd program ι) (turn : Turn ι μ) (thread : ι)

theorem served_perm :
    ((w.served turn).1 ++ (w.served turn).2).Perm (w.sleepers.erase turn.thread) :=
  serve_perm _ _ _

/-- A sleeper other than the thread is woken or left. -/
theorem mem_served : thread ∈ (w.served turn).1 ∨ thread ∈ (w.served turn).2 ↔
      thread ≠ turn.thread ∧ program.asleep (w.places thread) = true := by
  rw [← mem_append, (w.served_perm turn).mem_iff, w.nodup.mem_erase_iff, w.mem_sleepers]

/-- Nobody is both woken and left. -/
theorem served_nodup : ((w.served turn).1 ++ (w.served turn).2).Nodup :=
  (w.served_perm turn).nodup_iff.2 (w.nodup.erase _)

theorem nodup_queued : (w.queued turn).Nodup := by
  have left_nodup := (nodup_append.1 (w.served_nodup turn)).2.1
  have absent : turn.thread ∉ (w.served turn).2 := fun left =>
    ((w.mem_served turn _).1 (.inr left)).1 rfl
  unfold queued
  split
  · exact nodup_append.2 ⟨left_nodup, nodup_singleton _, by
      rintro thread left _ last rfl
      rw [mem_singleton] at last
      exact absent (last ▸ left)⟩
  · simpa using left_nodup

theorem mem_queued : thread ∈ w.queued turn ↔ program.asleep (w.placed turn thread) = true := by
  have served := w.mem_served turn thread
  unfold queued placed
  by_cases own : thread = turn.thread
  · subst own
    have absent : turn.thread ∉ (w.served turn).2 := fun left => (served.1 (.inr left)).1 rfl
    by_cases sleeps : program.asleep (w.acts turn).2.1 = true
    · simp [sleeps]
    · simp [sleeps, absent]
  · have not_last : thread ∉ if program.asleep (w.acts turn).2.1 then [turn.thread] else [] := by
      split <;> simp [own]
    rw [mem_append, or_iff_left not_last, if_neg own]
    by_cases woken : thread ∈ (w.served turn).1
    · have slept := (served.1 (.inl woken)).2
      have left_out : thread ∉ (w.served turn).2 := fun left =>
        nodup_append.1 (w.served_nodup turn) |>.2.2 thread woken thread left rfl
      simp [woken, left_out, program.awake _ slept]
    · rw [if_neg woken]
      rw [or_iff_right woken] at served
      simp [served, own]

def step (w : Crowd program ι) (turn : Turn ι μ) : Crowd program ι where
  memory := (w.acts turn).1
  places := w.placed turn
  sleepers := w.queued turn
  nodup := w.nodup_queued turn
  mem_sleepers := w.mem_queued turn

/-! ### What a turn changes -/

@[simp] theorem step_memory : (w.step turn).memory = (w.acts turn).1 := rfl

@[simp] theorem step_places_self : (w.step turn).places turn.thread = (w.acts turn).2.1 :=
  if_pos rfl

/-- Another thread stays where it is, or is woken. -/
theorem step_places_other {thread : ι} (other : thread ≠ turn.thread) :
    (w.step turn).places thread = w.places thread ∨ program.asleep (w.places thread) = true ∧
        (w.step turn).places thread = program.woken (w.places thread) := by
  change (if thread = turn.thread then _ else _) = _ ∨ _ ∧ (if thread = turn.thread then _ else _) =
    _
  rw [if_neg other]
  split
  · next woken => exact .inr ⟨((w.mem_served turn thread).1 (.inl woken)).2, rfl⟩
  · exact .inl rfl

/-- A thread that is awake is not touched by the turns of others. -/
theorem step_places_awake {thread : ι} (other : thread ≠ turn.thread)
    (awake : program.asleep (w.places thread) = false) :
    (w.step turn).places thread = w.places thread := by
  rcases w.step_places_other turn other with same | ⟨slept, -⟩
  · exact same
  · rw [awake] at slept
    cases slept

/-- A turn that leaves no sleeper where it was leaves nobody asleep but its own thread. -/
theorem alone_of_left_nil {w : Crowd program ι} {turn : Turn ι μ}
    (none_left : (w.served turn).2 = []) {thread : ι}
    (asleep : program.asleep ((w.step turn).places thread) = true) : thread = turn.thread := by
  have queued := ((w.step turn).mem_sleepers thread).2 asleep
  change thread ∈ (w.served turn).2 ++ _ at queued
  rw [none_left, nil_append] at queued
  split at queued
  · exact mem_singleton.1 queued
  · cases queued

/-- A turn that wakes all of them leaves nobody asleep but its own thread. -/
theorem alone_of_wake_all {w : Crowd program ι} {turn : Turn ι μ} (wakes : (w.acts turn).2.2 = .all)
    {thread : ι} (asleep : program.asleep ((w.step turn).places thread) = true) :
    thread = turn.thread := by
  refine alone_of_left_nil ?_ asleep
  unfold served
  rw [wakes]
  rfl

/-- A turn that is to wake some and wakes nobody leaves no sleeper where it was. -/
theorem left_nil_of_woken_nil {w : Crowd program ι} {turn : Turn ι μ}
    (wakes : (w.acts turn).2.2 ≠ .upTo 0) (nobody : (w.served turn).1 = []) :
    (w.served turn).2 = [] := by
  have count := (w.served_perm turn).length_eq
  rw [nobody, nil_append] at count
  unfold served at nobody count ⊢
  cases wake : (w.acts turn).2.2 with
  | upTo number =>
    rw [wake] at nobody wakes count
    have positive : number ≠ 0 := fun zero => wakes (by rw [zero])
    have picked := length_pick turn.picks number (w.sleepers.erase turn.thread)
    change (pick turn.picks number (w.sleepers.erase turn.thread)).1 = [] at nobody
    rw [nobody, length_nil] at picked
    apply length_eq_zero_iff.1
    change (pick turn.picks number (w.sleepers.erase turn.thread)).2.length = _ at count
    change (pick turn.picks number (w.sleepers.erase turn.thread)).2.length = 0
    omega
  | all => rfl

/-- A turn that wakes someone leaves nobody asleep but its own thread, or there is one it woke. -/
theorem woken_or_alone (wakes : (w.acts turn).2.2 ≠ .upTo 0) :
    (∃ thread ≠ turn.thread, program.asleep (w.places thread) = true ∧
        (w.step turn).places thread = program.woken (w.places thread)) ∨
      ∀ thread, program.asleep ((w.step turn).places thread) = true → thread = turn.thread := by
  by_cases nobody : (w.served turn).1 = []
  · exact .inr fun thread => alone_of_left_nil (left_nil_of_woken_nil wakes nobody)
  · left
    obtain ⟨thread, woken⟩ := exists_mem_of_ne_nil _ nobody
    obtain ⟨other, slept⟩ := (w.mem_served turn thread).1 (.inl woken)
    refine ⟨thread, other, slept, ?_⟩
    change (if thread = turn.thread then _ else _) = _
    rw [if_neg other, if_pos woken]

/-! ### Counting -/

def wokenCount (w : Crowd program ι) (turn : Turn ι μ) : Nat := (w.served turn).1.length

/-- The sleepers apart from a thread. -/
theorem length_erase_sleepers :
    (w.sleepers.erase thread).length + (program.asleep (w.places thread)).toNat =
      w.sleepers.length := by
  cases asleep : program.asleep (w.places thread) with
  | true =>
    have member := (w.mem_sleepers thread).2 asleep
    have positive := length_pos_of_mem member
    rw [length_erase_of_mem member, Bool.toNat_true]
    omega
  | false =>
    have absent : thread ∉ w.sleepers := by
      rw [w.mem_sleepers, asleep]
      decide
    rw [erase_of_not_mem absent]
    rfl

/-- How many sleepers there are after a turn. -/
theorem length_sleepers_step : (w.step turn).sleepers.length + w.wokenCount turn +
        (program.asleep (w.places turn.thread)).toNat =
      w.sleepers.length + (program.asleep (w.acts turn).2.1).toNat := by
  have served := (w.served_perm turn).length_eq
  rw [length_append] at served
  have queued : (w.step turn).sleepers.length =
      (w.served turn).2.length + (program.asleep (w.acts turn).2.1).toNat := by
    change (w.queued turn).length = _
    rw [queued, length_append]
    cases program.asleep (w.acts turn).2.1 <;> rfl
  have erased := w.length_erase_sleepers turn.thread
  unfold wokenCount
  omega

theorem length_sleepers_all {w : Crowd program ι} {turn : Turn ι μ}
    (wakes : (w.acts turn).2.2 = .all) :
    (w.step turn).sleepers.length = (program.asleep (w.acts turn).2.1).toNat := by
  have count := w.length_sleepers_step turn
  have erased := w.length_erase_sleepers turn.thread
  have woken : w.wokenCount turn = (w.sleepers.erase turn.thread).length := by
    unfold wokenCount served
    rw [wakes]
    rfl
  omega

/-- A turn of a thread that is awake wakes as many as it is to wake, or all there are. -/
theorem wokenCount_upTo {w : Crowd program ι} {turn : Turn ι μ} {count : Nat}
    (wakes : (w.acts turn).2.2 = .upTo count)
    (awake : program.asleep (w.places turn.thread) = false) :
    w.wokenCount turn = min count w.sleepers.length := by
  have erased := w.length_erase_sleepers turn.thread
  rw [awake, Bool.toNat_false, Nat.add_zero] at erased
  rw [← erased]
  unfold wokenCount served
  rw [wakes]
  exact length_pick _ _ _

theorem wokenCount_zero {w : Crowd program ι} {turn : Turn ι μ}
    (wakes : (w.acts turn).2.2 = .upTo 0) : w.wokenCount turn = 0 := by
  unfold wokenCount served
  rw [wakes]
  exact (length_pick _ _ _).trans (Nat.zero_min _)

/-- Where the threads stand once some of them were woken. -/
def roused (program : Sleeping σ α μ) (chosen : List ι) (places : ι → α) (thread : ι) : α :=
  if thread ∈ chosen then program.woken (places thread) else places thread

theorem roused_cons {chosen : List ι} {places : ι → α} {first : ι} :
    roused program (first :: chosen) places =
      update (roused program chosen places) first (program.woken (places first)) := by
  funext thread
  by_cases same : thread = first
  · subst same
    rw [update_self, roused, if_pos mem_cons_self]
  · rw [update_of_ne same]
    simp only [roused, mem_cons, same, false_or]

section

variable [Fintype ι] (weight : α → Nat) {before after : Nat}
  (sleeping : ∀ place, program.asleep place = true → weight place = before)
  (woken : ∀ place, program.asleep place = true → weight (program.woken place) = after)

include sleeping woken

theorem census_roused (places : ι → α) {chosen : List ι} (nodup : chosen.Nodup)
    (asleep : ∀ thread ∈ chosen, program.asleep (places thread) = true) :
    census weight (roused program chosen places) + chosen.length * before =
      census weight places + chosen.length * after := by
  induction chosen with
  | nil => simp [show roused program [] places = places from funext fun _ => if_neg not_mem_nil]
  | cons first chosen ih =>
    obtain ⟨absent, nodup⟩ := nodup_cons.1 nodup
    have rest := ih nodup fun thread member => asleep thread (mem_cons_of_mem _ member)
    have slept := asleep first mem_cons_self
    have moved := census_update weight (roused program chosen places) first
      (program.woken (places first))
    rw [← roused_cons, woken _ slept, roused, if_neg absent, sleeping _ slept] at moved
    rw [length_cons, Nat.succ_mul, Nat.succ_mul]
    omega

/-- A turn moves its own thread and those it wakes. -/
theorem census_step (w : Crowd program ι) (turn : Turn ι μ) :
    census weight (w.step turn).places + weight (w.places turn.thread) +
        w.wokenCount turn * before =
      census weight w.places + weight (w.acts turn).2.1 + w.wokenCount turn * after := by
  have absent : turn.thread ∉ (w.served turn).1 := fun member =>
    ((w.mem_served turn _).1 (.inl member)).1 rfl
  have placed : (w.step turn).places = update
      (roused program (w.served turn).1 w.places) turn.thread (w.acts turn).2.1 := by
    funext thread
    by_cases own : thread = turn.thread
    · rw [own, step_places_self, update_self]
    · rw [update_of_ne own]
      exact if_neg own
  have moved := census_update weight (roused program (w.served turn).1 w.places) turn.thread
    (w.acts turn).2.1
  rw [← placed, roused, if_neg absent] at moved
  have others := census_roused weight sleeping woken w.places
    (nodup_append.1 (w.served_nodup turn)).1
    fun thread member => ((w.mem_served turn thread).1 (.inl member)).2
  unfold wokenCount
  omega

end

/-! ### One owner -/

/-- At most one thread stands where it owns something, and the memory says whether one does. -/
structure Exclusive (owns : α → Bool) (free : σ → Prop) (w : Crowd program ι) : Prop where
  alone : ∀ first second, owns (w.places first) = true → owns (w.places second) = true →
    first = second
  owned : ¬ free w.memory ↔ ∃ thread, owns (w.places thread) = true

theorem exclusive_start {ι : Type*} {owns : α → Bool} {free : σ → Prop} {memory : σ} {place : α}
    {awake : program.asleep place = false} (is_free : free memory) (nobody : owns place = false) :
    (start memory place awake : Crowd program ι).Exclusive owns free := by
  have not_owner (thread : ι) :
      owns ((start memory place awake : Crowd program ι).places thread) ≠ true := by
    change owns place ≠ true
    rw [nobody]
    decide
  refine ⟨fun first _ first_owns => absurd first_owns (not_owner first), ?_⟩
  exact iff_of_false (not_not_intro is_free) fun ⟨thread, owning⟩ => not_owner thread owning

inductive Passes (owns : α → Bool) (free : σ → Prop) (memory memory' : σ) (place place' : α) : Prop
  | keep (same : free memory' ↔ free memory) (owner : owns place' = owns place)
  | take (was_free : free memory) (taken : ¬ free memory') (owner : owns place' = true)
  | give (owner : owns place = true) (gone : owns place' = false) (is_free : free memory')

section

variable {owns : α → Bool} {free : σ → Prop} {w : Crowd program ι} {turn : Turn ι μ}

theorem owns_other (still : ∀ place, program.asleep place = true →
      owns (program.woken place) = owns place) {thread : ι} (other : thread ≠ turn.thread) :
    owns ((w.step turn).places thread) = owns (w.places thread) := by
  rcases w.step_places_other turn other with same | ⟨asleep, woken⟩
  · rw [same]
  · rw [woken, still _ asleep]

theorem Exclusive.step (exclusive : w.Exclusive owns free)
    (still : ∀ place, program.asleep place = true → owns (program.woken place) = owns place)
    (passes : Passes owns free w.memory (w.step turn).memory (w.places turn.thread)
      ((w.step turn).places turn.thread)) : (w.step turn).Exclusive owns free := by
  cases passes with
  | keep same owner =>
    have owns_same (thread : ι) : owns ((w.step turn).places thread) = owns (w.places thread) := by
      by_cases own : thread = turn.thread
      · rw [own, owner]
      · exact owns_other still own
    refine ⟨fun first second first_owns second_owns => ?_, ?_⟩
    · rw [owns_same] at first_owns second_owns
      exact exclusive.alone first second first_owns second_owns
    · rw [same, exclusive.owned]
      simp only [owns_same]
  | take was_free taken owner =>
    have only (thread : ι) (owning : owns ((w.step turn).places thread) = true) :
        thread = turn.thread := by
      by_contra other
      rw [owns_other still other] at owning
      exact exclusive.owned.2 ⟨thread, owning⟩ was_free
    refine ⟨fun first second first_owns second_owns => ?_, ?_⟩
    · rw [only first first_owns, only second second_owns]
    · exact iff_of_true taken ⟨turn.thread, owner⟩
  | give owner gone is_free =>
    have nobody (thread : ι) : owns ((w.step turn).places thread) ≠ true := by
      by_cases own : thread = turn.thread
      · rw [own, gone]
        decide
      · rw [owns_other still own]
        exact fun owning => own (exclusive.alone _ _ owning owner)
    refine ⟨fun first _ first_owns => absurd first_owns (nobody first), ?_⟩
    exact iff_of_false (not_not_intro is_free) fun ⟨thread, owning⟩ => nobody thread owning

end

end Crowd

end Cx.Library
