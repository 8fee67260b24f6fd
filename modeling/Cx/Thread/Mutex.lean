import Cx.Library.Run
import Cx.Library.Sleep

/-!
# The mutex

A `Mutex` is one word: 0 is free, 1 is held, 2 is held and somebody may be asleep.  A release of a
contended mutex takes two stores, and between them the word is 1 although nobody holds the mutex.

What the scheduler decides besides the thread is whether a weak exchange fails although the value
matched, whether a thread spins instead of going to sleep, when a sleeper comes back by itself,
whether a deadline has passed and whom a wake-up reaches.  A wake-up that reaches a thread whose
deadline passes at that moment is lost, and nothing else loses one.
-/

namespace Cx.Thread

open Library

inductive MutexWait
  /-- Not at all: `mutexTryAcquire` -/
  | never
  | timed
  /-- `timeForever` -/
  | forever
deriving DecidableEq, Repr

/-- Where a thread stands: outside the mutex's code, or before its next access to the word with the
values its local variables have there. -/
inductive MutexPlace
  | idle
  | holding
  | enter (wait : MutexWait)
  | fast (wait : MutexWait)
  /-- Acquire: the top of the loop; a word that was 1 is exchanged for 2. -/
  | contend (wait : MutexWait) (curstate : Int)
  | waiting (wait : MutexWait)
  /-- Acquire: asleep in `futexWait`. -/
  | asleep (wait : MutexWait)
  | reload (wait : MutexWait)
  | retry (wait : MutexWait)
  | release
  | releaseSet
  | releaseWake
deriving DecidableEq, Repr

inductive MutexMove
  | acquire (wait : MutexWait)
  /-- Call `mutexRelease`. -/
  | unlock
  | go
  /-- Make it, but have a weak exchange fail; spin instead of going to sleep. -/
  | spurious
  | expire
deriving DecidableEq, Repr

/-- Go on after a load in the loop. -/
def mutexReloaded (wait : MutexWait) (curstate : Int) : MutexPlace :=
  if curstate ≠ 0 then .contend wait curstate else .retry wait

/-- One access of a thread to the word.  Calls are correctly paired: a thread acquires while it does
not hold the mutex and releases it when it does. -/
def mutexAct (val : Int) : MutexPlace → MutexMove → Int × MutexPlace × Wake
  | .idle, .acquire wait => (val, .enter wait, .upTo 0)
  | .holding, .unlock => (val, .release, .upTo 0)
  | .enter wait, .go =>
    if val = 0 then (val, .fast wait, .upTo 0)
    else if wait = .never then (val, .idle, .upTo 0)
    else (val, .contend wait val, .upTo 0)
  | .fast wait, .go =>
    if val = 0 then (1, .holding, .upTo 0)
    else if wait = .never then (val, .idle, .upTo 0)
    else (val, .contend wait val, .upTo 0)
  | .contend wait curstate, .go =>
    if curstate = 2 then (val, .waiting wait, .upTo 0)
    else if curstate = 1 ∧ val = 1 then (2, .waiting wait, .upTo 0)
    else (val, .reload wait, .upTo 0)
  | .contend wait _, .spurious => (val, .reload wait, .upTo 0)
  | .waiting wait, .go => (val, if val = 2 then .asleep wait else .reload wait, .upTo 0)
  | .waiting wait, .spurious => (val, .reload wait, .upTo 0)
  -- a sleeper comes back at its deadline, or for no reason
  | .asleep wait, .go => (val, .reload wait, .upTo 0)
  | .reload wait, .go => (val, mutexReloaded wait val, .upTo 0)
  | .reload .timed, .expire => (val, .idle, .upTo 0)
  | .retry wait, .go =>
    if val = 0 then (2, .holding, .upTo 0) else (val, .contend wait val, .upTo 0)
  | .release, .go => (val - 1, if val > 1 then .releaseSet else .idle, .upTo 0)
  | .releaseSet, .go => (0, .releaseWake, .upTo 0)
  | .releaseWake, .go => (val, .idle, .upTo 1)
  | place, _ => (val, place, .upTo 0)

def MutexPlace.sleeps : MutexPlace → Bool
  | .asleep _ => true
  | _ => false

def MutexPlace.woken : MutexPlace → MutexPlace
  | .asleep wait => .reload wait
  | place => place

def mutexProgram : Sleeping Int MutexPlace MutexMove where
  act := mutexAct
  asleep := MutexPlace.sleeps
  woken := MutexPlace.woken
  awake place asleep := by
    cases place with
    | asleep => rfl
    | _ => cases asleep

abbrev MutexSystem (ι : Type*) := Crowd mutexProgram ι

/-- A mutex as `_mutexInit` leaves it, which no thread has touched. -/
def mutexInit {ι : Type*} : MutexSystem ι := Crowd.start 0 .idle rfl

/-! ### What one access can do -/

/-- The thread is between a successful acquire and the first step of its release. -/
def MutexPlace.holds : MutexPlace → Bool
  | .holding | .release => true
  | _ => false

/-- The mutex is the thread's: it holds it, or has not stored 0 yet to release it. -/
def MutexPlace.owns : MutexPlace → Bool
  | .holding | .release | .releaseSet => true
  | _ => false

/-- The thread is awake and will look at the word again, or wake a sleeper. -/
def MutexPlace.helps : MutexPlace → Bool
  | .contend .. | .waiting _ | .reload _ | .retry _ | .releaseSet | .releaseWake => true
  | _ => false

/-- What one access can do: the word and the thread's place before it and after it, and whom it
wakes. -/
inductive MutexTurn : Int → MutexPlace → Int → MutexPlace → Wake → Prop
  | looked {place place' : MutexPlace} (val : Int) (owns : place'.owns = place.owns)
      (helps : place.helps = true → place'.helps = true)
      (sleeps : place'.sleeps = true → place.sleeps = true) :
      MutexTurn val place val place' (.upTo 0)
  | slept (wait : MutexWait) : MutexTurn 2 (.waiting wait) 2 (.asleep wait) (.upTo 0)
  | gaveUp (val : Int) : MutexTurn val (.reload .timed) val .idle (.upTo 0)
  | took (wait : MutexWait) : MutexTurn 0 (.fast wait) 1 .holding (.upTo 0)
  /-- It takes one that it has waited for, on which others may sleep. -/
  | retook (wait : MutexWait) : MutexTurn 0 (.retry wait) 2 .holding (.upTo 0)
  | marked (wait : MutexWait) : MutexTurn 1 (.contend wait 1) 2 (.waiting wait) (.upTo 0)
  | released (val : Int) :
      MutexTurn val .release (val - 1) (if val > 1 then .releaseSet else .idle) (.upTo 0)
  | cleared (val : Int) : MutexTurn val .releaseSet 0 .releaseWake (.upTo 0)
  | woke (val : Int) : MutexTurn val .releaseWake val .idle (.upTo 1)

theorem mutexTurn (val : Int) (place : MutexPlace) (move : MutexMove) :
    MutexTurn val place (mutexAct val place move).1 (mutexAct val place move).2.1
      (mutexAct val place move).2.2 := by
  fun_cases mutexAct val place move with
  | case1 | case2 | case3 | case4 | case7 => exact .looked val rfl nofun nofun
  | case5 | case8 | case9 | case11 | case12 | case14 | case15 | case19 =>
    exact .looked val rfl (fun _ => rfl) nofun
  | case6 wait free => exact free ▸ .took wait
  | case10 wait curstate _ held =>
    obtain ⟨rfl, rfl⟩ := held
    exact .marked wait
  | case13 wait =>
    dsimp only
    split_ifs with contended
    · exact contended ▸ .slept wait
    · exact .looked val rfl (fun _ => rfl) nofun
  | case16 wait =>
    dsimp only [mutexReloaded]
    split_ifs <;> exact .looked val rfl (fun _ => rfl) nofun
  | case17 => exact .gaveUp val
  | case18 wait free => exact free ▸ .retook wait
  | case20 => exact .released val
  | case21 => exact .cleared val
  | case22 => exact .woke val
  -- a move that a place has no use for changes nothing
  | case23 => exact .looked val rfl id id

variable {place : MutexPlace}

/-- A sleeper does not own the mutex, woken or not. -/
theorem MutexPlace.owns_woken (asleep : place.sleeps = true) : place.woken.owns = place.owns := by
  cases place with
  | asleep => rfl
  | _ => cases asleep

/-- A sleeper that was woken looks at the word again. -/
theorem MutexPlace.helps_woken (asleep : place.sleeps = true) : place.woken.helps = true := by
  cases place with
  | asleep => rfl
  | _ => cases asleep

theorem MutexPlace.sleeps_of_helps (helps : place.helps = true) : place.sleeps = false := by
  cases place with
  | asleep => cases helps
  | _ => rfl

section

variable {ι : Type*} [DecidableEq ι]

variable (w : MutexSystem ι) (turn : Turn ι MutexMove)

theorem mutexTurn_step : MutexTurn w.memory (w.places turn.thread) (w.step turn).memory
      ((w.step turn).places turn.thread) (w.acts turn).2.2 := by
  rw [w.step_memory, w.step_places_self]
  exact mutexTurn _ _ _

/-! ### Exclusion -/

/-- At most one thread owns the mutex, and the word says whether one does. -/
structure MutexSound (w : MutexSystem ι) : Prop where
  word : w.memory = 0 ∨ w.memory = 1 ∨ w.memory = 2
  exclusive : w.Exclusive MutexPlace.owns (· = 0)

theorem MutexTurn.sound {val val' : Int} {place place' : MutexPlace} {wake : Wake}
    (moved : MutexTurn val place val' place' wake) (word : val = 0 ∨ val = 1 ∨ val = 2)
    (owned : place.owns = true → val ≠ 0) :
    (val' = 0 ∨ val' = 1 ∨ val' = 2) ∧
      Crowd.Passes MutexPlace.owns (· = 0) val val' place place' := by
  cases moved with
  | looked _ owns => exact ⟨word, .keep Iff.rfl owns⟩
  | slept | woke | gaveUp => exact ⟨word, .keep Iff.rfl rfl⟩
  | took | retook => exact ⟨by decide, .take rfl (by decide) rfl⟩
  | marked => exact ⟨by decide, .keep (by decide) rfl⟩
  | released =>
    have held := owned rfl
    split_ifs with contended
    · exact ⟨by omega, .keep (by omega) rfl⟩
    · exact ⟨by omega, .give rfl rfl (by omega)⟩
  | cleared => exact ⟨by decide, .give rfl rfl rfl⟩

theorem MutexSound.step {w : MutexSystem ι} (sound : MutexSound w) (turn : Turn ι MutexMove) :
    MutexSound (w.step turn) := by
  obtain ⟨word, passes⟩ := (mutexTurn_step w turn).sound sound.word fun owner =>
    sound.exclusive.owned.2 ⟨turn.thread, owner⟩
  exact ⟨word, sound.exclusive.step (fun _ => MutexPlace.owns_woken) passes⟩

theorem MutexPlace.owns_of_holds (holds : place.holds = true) : place.owns = true := by
  cases place with
  | holding | release => rfl
  | _ => cases holds

/-- At most one thread is between a successful acquire and the first step of its release, and the
word is 0 when all threads are outside. -/
theorem mutex_exclusive (turns : List (Turn ι MutexMove)) :
    (∀ first second, ((run Crowd.step mutexInit turns).places first).holds = true →
        ((run Crowd.step mutexInit turns).places second).holds = true → first = second) ∧
      ((∀ thread, (run Crowd.step mutexInit turns).places thread = MutexPlace.idle) →
        (run Crowd.step (mutexInit : MutexSystem ι) turns).memory = (0 : Int)) := by
  have sound : MutexSound (run Crowd.step (mutexInit : MutexSystem ι) turns) :=
    run_invariant MutexSound ⟨.inl rfl, Crowd.exclusive_start rfl rfl⟩
      (fun _ turn sound => sound.step turn) turns
  refine ⟨?_, ?_⟩
  · intro first second first_holds second_holds
    exact sound.exclusive.alone first second (MutexPlace.owns_of_holds first_holds)
      (MutexPlace.owns_of_holds second_holds)
  · intro outside
    by_contra held
    obtain ⟨thread, owner⟩ := sound.exclusive.owned.1 held
    rw [outside thread] at owner
    cases owner

/-! ### Sleepers -/

/-- Whoever sleeps will be woken: the next release sees that the mutex is contended, or a thread
that is awake will look at the word or wake a sleeper. -/
def MutexAttended (w : MutexSystem ι) : Prop :=
  ∀ thread, (w.places thread).sleeps = true →
    w.memory = 2 ∨ ∃ helper, (w.places helper).helps = true

/-- No turn puts another thread to sleep. -/
theorem mutexSleeps_other {thread : ι} (other : thread ≠ turn.thread)
    (asleep : ((w.step turn).places thread).sleeps = true) : (w.places thread).sleeps = true := by
  rcases w.step_places_other turn other with same | ⟨slept, -⟩
  · rwa [same] at asleep
  · exact slept

/-- A thread that helps goes on doing so through the turns of others. -/
theorem mutexHelps_other {thread : ι} (other : thread ≠ turn.thread)
    (helps : (w.places thread).helps = true) : ((w.step turn).places thread).helps = true := by
  rwa [w.step_places_awake turn other (MutexPlace.sleeps_of_helps helps)]

namespace MutexAttended

variable {w : MutexSystem ι} {turn : Turn ι MutexMove}

theorem of_helps (helper : ι) (helps : ((w.step turn).places helper).helps = true) :
    MutexAttended (w.step turn) :=
  fun _ _ => .inr ⟨helper, helps⟩

theorem leave (attended : MutexAttended w) (unmarked : w.memory ≠ 2)
    (idle : (w.places turn.thread).helps = false)
    (awake : ((w.step turn).places turn.thread).sleeps = false) : MutexAttended (w.step turn) := by
  intro thread asleep
  have other : thread ≠ turn.thread := by
    rintro rfl
    rw [awake] at asleep
    cases asleep
  obtain ⟨helper, helps⟩ :=
    (attended thread (mutexSleeps_other w turn other asleep)).resolve_left unmarked
  have helper_other : helper ≠ turn.thread := by
    rintro rfl
    rw [idle] at helps
    cases helps
  exact .inr ⟨helper, mutexHelps_other w turn helper_other helps⟩

theorem look (attended : MutexAttended w) (same : (w.step turn).memory = w.memory)
    (helps : (w.places turn.thread).helps = true → ((w.step turn).places turn.thread).helps = true)
    (sleeps : ((w.step turn).places turn.thread).sleeps = true →
      (w.places turn.thread).sleeps = true) : MutexAttended (w.step turn) := by
  intro thread asleep
  have slept : (w.places thread).sleeps = true := by
    by_cases own : thread = turn.thread
    · subst own
      exact sleeps asleep
    · exact mutexSleeps_other w turn own asleep
  rcases attended thread slept with marked | ⟨helper, helping⟩
  · exact .inl (same.trans marked)
  · by_cases own : helper = turn.thread
    · subst own
      exact .inr ⟨_, helps helping⟩
    · exact .inr ⟨helper, mutexHelps_other w turn own helping⟩

theorem wake (wakes : (w.acts turn).2.2 ≠ .upTo 0)
    (awake : ((w.step turn).places turn.thread).sleeps = false) : MutexAttended (w.step turn) := by
  rcases w.woken_or_alone turn wakes with ⟨helper, -, slept, woken⟩ | alone
  · refine of_helps helper ?_
    rw [woken]
    exact MutexPlace.helps_woken slept
  · intro thread asleep
    have own := alone thread asleep
    rw [own, awake] at asleep
    cases asleep

end MutexAttended

/-- The thread's deadline has passed, and its acquire returns without the mutex. -/
def MutexSystem.GivesUp (w : MutexSystem ι) (turn : Turn ι MutexMove) : Prop :=
  w.places turn.thread = .reload .timed ∧ (w.step turn).places turn.thread = .idle

/-- A thread gives up only while the word it has just read says that the mutex is contended, or
while nobody sleeps. -/
def MutexSystem.GivesUpContended (w : MutexSystem ι) (turn : Turn ι MutexMove) : Prop :=
  w.GivesUp turn → w.memory = 2 ∨ ∀ thread, (w.places thread).sleeps = false

theorem MutexAttended.step {w : MutexSystem ι} {turn : Turn ι MutexMove}
    (attended : MutexAttended w) (contended : w.GivesUpContended turn) :
    MutexAttended (w.step turn) := by
  have moved := mutexTurn_step w turn
  unfold MutexSystem.GivesUpContended MutexSystem.GivesUp at contended
  generalize val_eq : w.memory = val at moved contended
  generalize place_eq : w.places turn.thread = place at moved contended
  generalize val_eq' : (w.step turn).memory = val' at moved
  generalize place_eq' : (w.step turn).places turn.thread = place' at moved contended
  generalize wake_eq : (w.acts turn).2.2 = wake at moved
  cases moved with
  | looked =>
    exact attended.look (val_eq'.trans val_eq.symm) (by rwa [place_eq, place_eq'])
      (by rwa [place_eq, place_eq'])
  | slept | retook | marked => exact fun _ _ => .inl val_eq'
  | gaveUp =>
    rcases contended ⟨rfl, rfl⟩ with marked | nobody
    · exact fun _ _ => .inl (val_eq'.trans marked)
    · intro thread asleep
      by_cases own : thread = turn.thread
      · rw [own, place_eq'] at asleep
        cases asleep
      · have slept := mutexSleeps_other w turn own asleep
        rw [nobody thread] at slept
        cases slept
  | took =>
    exact attended.leave (by rw [val_eq]; decide) (by rw [place_eq]; rfl) (by rw [place_eq']; rfl)
  | released =>
    split_ifs at place_eq' with marked
    · exact of_helps turn.thread (by rw [place_eq']; rfl)
    · exact attended.leave (by omega) (by rw [place_eq]; rfl) (by rw [place_eq']; rfl)
  | cleared => exact of_helps turn.thread (by rw [place_eq']; rfl)
  | woke => exact .wake (by rw [wake_eq]; decide) (by rw [place_eq']; rfl)

def MutexPlace.rests : MutexPlace → Bool
  | .idle | .holding | .asleep _ => true
  | _ => false

theorem MutexPlace.not_rests_of_helps (helps : place.helps = true) : place.rests = false := by
  cases place <;> first | rfl | cases helps

/-- The mutex is free, nobody is awake inside an acquire or a release, and somebody sleeps. -/
def MutexSystem.Stranded (w : MutexSystem ι) : Prop :=
  w.memory = 0 ∧ (∀ thread, (w.places thread).rests = true) ∧
    ∃ thread, (w.places thread).sleeps = true

instance [Fintype ι] (w : MutexSystem ι) (turn : Turn ι MutexMove) :
    Decidable (w.GivesUpContended turn) :=
  inferInstanceAs (Decidable (_ ∧ _ → _ ∨ _))

instance [Fintype ι] (w : MutexSystem ι) : Decidable w.Stranded :=
  inferInstanceAs (Decidable (_ ∧ _))

/-- Nobody is left asleep on a free mutex, unless a wake-up reached a thread that gave up. -/
theorem mutex_not_stranded (turns : List (Turn ι MutexMove))
    (contended : Admits Crowd.step MutexSystem.GivesUpContended mutexInit turns) :
    ¬ MutexSystem.Stranded (run Crowd.step mutexInit turns) := by
  have attended : MutexAttended (run Crowd.step mutexInit turns) :=
    admits_invariant MutexAttended nofun (fun _ _ attended gives_up => attended.step gives_up)
      contended
  rintro ⟨free, rests, thread, asleep⟩
  rcases attended thread asleep with marked | ⟨helper, helps⟩
  · rw [free] at marked
    cases marked
  · have resting := rests helper
    rw [MutexPlace.not_rests_of_helps helps] at resting
    cases resting

/-- Three threads: the first holds the mutex and the others sleep, the second with a deadline. -/
def mutexCrowded : List (Turn (Fin 3) MutexMove) :=
  [⟨0, .acquire .forever, []⟩, ⟨0, .go, []⟩, ⟨0, .go, []⟩,
    ⟨1, .acquire .timed, []⟩, ⟨1, .go, []⟩, ⟨1, .go, []⟩, ⟨1, .go, []⟩,
    ⟨2, .acquire .forever, []⟩, ⟨2, .go, []⟩, ⟨2, .go, []⟩, ⟨2, .go, []⟩]

/-- The release of the first thread, which wakes one of the others. -/
def mutexReleases (picks : List Nat) : List (Turn (Fin 3) MutexMove) :=
  [⟨0, .unlock, []⟩, ⟨0, .go, []⟩, ⟨0, .go, []⟩, ⟨0, .go, picks⟩]

/-- The second thread gives up before the release, which wakes the third. -/
theorem mutex_not_stranded_three : Admits Crowd.step MutexSystem.GivesUpContended mutexInit
        (mutexCrowded ++ [⟨1, .go, []⟩, ⟨1, .expire, []⟩] ++ mutexReleases []) ∧
      ¬ MutexSystem.Stranded (run Crowd.step mutexInit
        (mutexCrowded ++ [⟨1, .go, []⟩, ⟨1, .expire, []⟩] ++ mutexReleases [])) := by
  have contended : Admits Crowd.step MutexSystem.GivesUpContended mutexInit
      (mutexCrowded ++ [⟨1, .go, []⟩, ⟨1, .expire, []⟩] ++ mutexReleases []) := by
    decide +kernel
  exact ⟨contended, mutex_not_stranded _ contended⟩

/-- The release wakes the second thread, whose deadline has passed: the third sleeps on. -/
theorem mutex_stranded_three : MutexSystem.Stranded (run Crowd.step mutexInit
      (mutexCrowded ++ mutexReleases [0] ++ [⟨1, .expire, []⟩])) := by
  decide +kernel

end

end Cx.Thread
