import Cx.Library.Run
import Cx.Library.Sleep

/-!
# The condition variable

A waiter reads the sequence number, leaves it behind as the number of the last waiter, releases the
mutex and sleeps until the sequence number is another one.  A waker publishes the number after the
last waiter's.  It reads the one and writes the other in two steps and without a lock, so a slow
waker may publish a number that waiters have had since.  As long as none publishes a number below
the present one, a broadcast reaches everyone who was waiting when it was called.

The mutex is a bit here: whoever acquires it sets it.
-/

namespace Cx.Thread

open Library

/-- The shared words of a condition variable, and the mutex used with it. -/
structure CondVar where
  seq : Nat
  lastseq : Nat
  locked : Bool
  /-- How many signals and broadcasts have got as far as `lastseq`, which the code does not keep. -/
  calls : Nat
deriving DecidableEq, Repr

/-- Where a thread stands: outside the condition variable's code, or before its next access with the
values its local variables have there. -/
inductive CvarPlace
  | idle
  | holding
  | waitLoad (timed : Bool)
  | waitStore (timed : Bool) (lastseq : Nat)
  | waitRelease (timed : Bool) (lastseq : Nat)
  /-- Wait: the number is still the same; spin, or sleep if it still is. -/
  | waiting (timed : Bool) (lastseq : Nat)
  /-- Wait: asleep in `futexWait`. -/
  | asleep (timed : Bool) (lastseq : Nat)
  | reload (timed : Bool) (lastseq : Nat)
  | reacquire (timed : Bool)
  | load (held all : Bool)
  | store (held all : Bool) (seq : Nat)
  | wake (held all : Bool)
deriving DecidableEq, Repr

inductive CvarMove
  | lock
  | unlock
  /-- Call `cvarWaitTimeout`; with no deadline it is `cvarWait`. -/
  | wait (timed : Bool)
  /-- Call `cvarSignal` or `cvarBroadcast`. -/
  | call (all : Bool)
  | go
  | spin
  | expire
deriving DecidableEq, Repr

def cvarOutside (held : Bool) : CvarPlace := if held then .holding else .idle

/-- One access of a thread.  A wait is called with the mutex held, a signal or a broadcast with or
without it. -/
def cvarAct (cv : CondVar) : CvarPlace → CvarMove → CondVar × CvarPlace × Wake
  | .idle, .lock =>
    if cv.locked then (cv, .idle, .upTo 0) else ({ cv with locked := true }, .holding, .upTo 0)
  | .holding, .unlock => ({ cv with locked := false }, .idle, .upTo 0)
  | .holding, .wait timed => (cv, .waitLoad timed, .upTo 0)
  | .idle, .call all => (cv, .load false all, .upTo 0)
  | .holding, .call all => (cv, .load true all, .upTo 0)
  | .waitLoad timed, .go => (cv, .waitStore timed cv.seq, .upTo 0)
  | .waitStore timed lastseq, .go =>
    ({ cv with lastseq := lastseq }, .waitRelease timed lastseq, .upTo 0)
  | .waitRelease timed lastseq, .go =>
    ({ cv with locked := false }, .waiting timed lastseq, .upTo 0)
  | .waiting timed lastseq, .go =>
    (cv, if cv.seq = lastseq then .asleep timed lastseq else .reload timed lastseq, .upTo 0)
  | .waiting timed lastseq, .spin => (cv, .reload timed lastseq, .upTo 0)
  | .waiting true _, .expire => (cv, .idle, .upTo 0)
  -- a sleeper comes back at its deadline, or for no reason
  | .asleep timed lastseq, .go => (cv, .reload timed lastseq, .upTo 0)
  | .reload timed lastseq, .go =>
    (cv, if cv.seq = lastseq then .waiting timed lastseq else .reacquire timed, .upTo 0)
  | .reacquire timed, .go =>
    if cv.locked then (cv, .reacquire timed, .upTo 0)
    else ({ cv with locked := true }, .holding, .upTo 0)
  | .reacquire true, .expire => (cv, .idle, .upTo 0)
  | .load held all, .go =>
    ({ cv with calls := cv.calls + 1 }, .store held all ((cv.lastseq + 1) % 2 ^ 32), .upTo 0)
  | .store held all seq, .go => ({ cv with seq := seq }, .wake held all, .upTo 0)
  | .wake held all, .go => (cv, cvarOutside held, if all then .all else .upTo 1)
  | place, _ => (cv, place, .upTo 0)

def CvarPlace.sleeps : CvarPlace → Bool
  | .asleep .. => true
  | _ => false

def CvarPlace.woken : CvarPlace → CvarPlace
  | .asleep timed lastseq => .reload timed lastseq
  | place => place

def cvarProgram : Sleeping CondVar CvarPlace CvarMove where
  act := cvarAct
  asleep := CvarPlace.sleeps
  woken := CvarPlace.woken
  awake place asleep := by
    cases place with
    | asleep => rfl
    | _ => cases asleep

/-- Threads and the condition variable they share. -/
abbrev CvarSystem (ι : Type*) := Crowd cvarProgram ι

/-- A condition variable as `_cvarInit` leaves it, with a mutex that is free. -/
def cvarInit {ι : Type*} : CvarSystem ι :=
  Crowd.start { seq := 0, lastseq := 0, locked := false, calls := 0 } .idle rfl

/-! ### What one access can do -/

def CvarPlace.number : CvarPlace → Option Nat
  | .waitRelease _ lastseq | .waiting _ lastseq | .asleep _ lastseq | .reload _ lastseq =>
    some lastseq
  | _ => none

def CvarPlace.holds : CvarPlace → Bool
  | .holding | .waitLoad _ | .waitStore .. | .waitRelease .. => true
  | .load held _ | .store held .. | .wake held _ => held
  | _ => false

/-- The thread is in the first steps of a wait. -/
def CvarPlace.enters : CvarPlace → Bool
  | .waitLoad _ | .waitStore .. => true
  | _ => false

/-- The thread is in a signal or a broadcast. -/
def CvarPlace.casts : CvarPlace → Bool
  | .load .. | .store .. | .wake .. => true
  | _ => false

/-- What one access can do: the words and the thread's place before it and after it, and whom it
wakes. -/
inductive CvarTurn (move : CvarMove) :
    CondVar → CvarPlace → CondVar → CvarPlace → Wake → Prop
  | stayed (cv : CondVar) (place : CvarPlace) : CvarTurn move cv place cv place (.upTo 0)
  | locked {cv : CondVar} {place : CvarPlace} (free : cv.locked = false)
      (quiet : place.casts = false) :
      CvarTurn move cv place { cv with locked := true } .holding (.upTo 0)
  | unlocked (cv : CondVar) : CvarTurn move cv .holding { cv with locked := false } .idle (.upTo 0)
  | called (cv : CondVar) (held all : Bool) :
      CvarTurn move cv (cvarOutside held) cv (.load held all) (.upTo 0)
  | waits (cv : CondVar) (timed : Bool) (call : move = .wait timed) :
      CvarTurn move cv .holding cv (.waitLoad timed) (.upTo 0)
  | seen (cv : CondVar) (timed : Bool) :
      CvarTurn move cv (.waitLoad timed) cv (.waitStore timed cv.seq) (.upTo 0)
  | left (cv : CondVar) (timed : Bool) (lastseq : Nat) :
      CvarTurn move cv (.waitStore timed lastseq) { cv with lastseq := lastseq }
        (.waitRelease timed lastseq) (.upTo 0)
  | released (cv : CondVar) (timed : Bool) (lastseq : Nat) :
      CvarTurn move cv (.waitRelease timed lastseq) { cv with locked := false }
        (.waiting timed lastseq) (.upTo 0)
  | slept {cv : CondVar} (timed : Bool) {lastseq : Nat} (same : cv.seq = lastseq) :
      CvarTurn move cv (.waiting timed lastseq) cv (.asleep timed lastseq) (.upTo 0)
  | looked {place : CvarPlace} (cv : CondVar) (timed again : Bool) {lastseq : Nat}
      (quiet : place.casts = false) (mutex : place.holds = false)
      (number : place.number = some lastseq) :
      CvarTurn move cv place cv
        (if again then .waiting timed lastseq else .reload timed lastseq) (.upTo 0)
  | done {place : CvarPlace} (cv : CondVar) (timed quits : Bool) (quiet : place.casts = false)
      (mutex : place.holds = false) :
      CvarTurn move cv place cv (if quits then .idle else .reacquire timed) (.upTo 0)
  | loaded (cv : CondVar) (held all : Bool) :
      CvarTurn move cv (.load held all) { cv with calls := cv.calls + 1 }
        (.store held all ((cv.lastseq + 1) % 2 ^ 32)) (.upTo 0)
  | stored (cv : CondVar) (held all : Bool) (seq : Nat) :
      CvarTurn move cv (.store held all seq) { cv with seq := seq } (.wake held all) (.upTo 0)
  | woke (cv : CondVar) (held all : Bool) :
      CvarTurn move cv (.wake held all) cv (cvarOutside held) (if all then .all else .upTo 1)

theorem cvarTurn (cv : CondVar) (place : CvarPlace) (move : CvarMove) :
    CvarTurn move cv place (cvarAct cv place move).1 (cvarAct cv place move).2.1
      (cvarAct cv place move).2.2 := by
  fun_cases cvarAct cv place move with
  -- the mutex is taken, or the place has no use for the move
  | case1 | case15 | case21 => exact .stayed cv _
  | case2 free => exact .locked (Bool.eq_false_iff.2 free) rfl
  | case16 timed free => exact .locked (Bool.eq_false_iff.2 free) rfl
  | case3 => exact .unlocked cv
  | case4 timed => exact .waits cv timed rfl
  | case5 all => exact .called cv false all
  | case6 all => exact .called cv true all
  | case7 timed => exact .seen cv timed
  | case8 timed lastseq => exact .left cv timed lastseq
  | case9 timed lastseq => exact .released cv timed lastseq
  | case10 timed =>
    dsimp only
    split_ifs with same
    · exact .slept timed same
    · exact .looked cv timed false rfl rfl rfl
  | case11 timed | case13 timed => exact .looked cv timed false rfl rfl rfl
  | case12 | case17 => exact .done cv true true rfl rfl
  | case14 timed =>
    dsimp only
    split_ifs with same
    · exact .looked cv timed true rfl rfl rfl
    · exact .done cv timed false rfl rfl
  | case18 held all => exact .loaded cv held all
  | case19 held all seq => exact .stored cv held all seq
  | case20 held all => exact .woke cv held all

/-! ### Numbers -/

/-- What a thread's local number has to do with the shared ones. -/
def CvarPlace.Fits (cv : CondVar) : CvarPlace → Prop
  | .waitStore _ lastseq => cv.lastseq ≤ lastseq ∧ lastseq ≤ cv.seq
  | .waitRelease _ lastseq | .waiting _ lastseq | .asleep _ lastseq | .reload _ lastseq =>
    lastseq ≤ cv.lastseq
  | .store _ _ seq => seq ≤ cv.calls
  | _ => True

/-- The numbers do not go back, and the last waiter's is changed only under the mutex. -/
structure CvarGrows (cv : CondVar) (place : CvarPlace) (cv' : CondVar) : Prop where
  seq : cv.seq ≤ cv'.seq
  lastseq : cv.lastseq ≤ cv'.lastseq
  calls : cv.calls ≤ cv'.calls
  mutex : cv'.lastseq = cv.lastseq ∨ place.holds = true

variable {cv cv' : CondVar} {place : CvarPlace}

theorem CvarPlace.Fits.mono {other : CvarPlace} (fits : other.Fits cv)
    (grows : CvarGrows cv place cv') (alone : place.holds = true → other.holds = false) :
    other.Fits cv' := by
  have ⟨seq, lastseq, calls, mutex⟩ := grows
  cases other with
  | waitStore =>
    have kept : cv'.lastseq = cv.lastseq := by
      refine mutex.resolve_right fun held => ?_
      cases alone held
    exact ⟨kept.le.trans fits.1, fits.2.trans seq⟩
  | waitRelease | waiting | asleep | reload => exact Nat.le_trans fits lastseq
  | store => exact Nat.le_trans fits calls
  | _ => trivial

theorem CvarPlace.Fits.woken (fits : place.Fits cv) : place.woken.Fits cv := by
  cases place with
  | asleep => exact fits
  | _ => exact fits

theorem CvarPlace.holds_woken (asleep : place.sleeps = true) : place.woken.holds = place.holds := by
  cases place with
  | asleep => rfl
  | _ => cases asleep

theorem cvarOutside_holds (held : Bool) : (cvarOutside held).holds = held := by
  cases held <;> rfl

variable {move : CvarMove} {place' : CvarPlace}

/-- What an access keeps that does not take the sequence number back. -/
theorem CvarTurn.keeps {wake : Wake}
    (moved : CvarTurn move cv place cv' place' wake) (fits : place.Fits cv)
    (last_le : cv.lastseq ≤ cv.seq) (seq_le : cv.seq ≤ cv.calls) (forward : cv.seq ≤ cv'.seq) :
    CvarGrows cv place cv' ∧ place'.Fits cv' ∧ cv'.lastseq ≤ cv'.seq ∧ cv'.seq ≤ cv'.calls := by
  have same : CvarGrows cv place cv := ⟨le_rfl, le_rfl, le_rfl, .inl rfl⟩
  cases moved with
  | stayed | slept => exact ⟨same, fits, last_le, seq_le⟩
  | locked | unlocked => exact ⟨⟨le_rfl, le_rfl, le_rfl, .inl rfl⟩, trivial, last_le, seq_le⟩
  | called | waits => exact ⟨same, trivial, last_le, seq_le⟩
  | seen => exact ⟨same, ⟨last_le, le_rfl⟩, last_le, seq_le⟩
  | left cv timed lastseq =>
    exact ⟨⟨le_rfl, fits.1, le_rfl, .inr rfl⟩, Nat.le_refl lastseq, fits.2, seq_le⟩
  | released =>
    exact ⟨⟨le_rfl, le_rfl, le_rfl, .inl rfl⟩, fits, last_le, seq_le⟩
  | looked cv timed again _ mutex number =>
    refine ⟨same, ?_, last_le, seq_le⟩
    cases place with
    | waitRelease | waiting | asleep | reload =>
      cases number
      cases again <;> exact fits
    | _ => cases number
  | done cv timed quits | woke cv quits => exact ⟨same, by cases quits <;> trivial, last_le, seq_le⟩
  | loaded cv =>
    refine ⟨⟨le_rfl, le_rfl, Nat.le_succ _, .inl rfl⟩, ?_, last_le, Nat.le_succ_of_le seq_le⟩
    change _ ≤ cv.calls + 1
    omega
  | stored =>
    exact ⟨⟨forward, le_rfl, le_rfl, .inl rfl⟩, trivial, last_le.trans forward, fits⟩

theorem CvarTurn.passes {wake : Wake} (moved : CvarTurn move cv place cv' place' wake) :
    Crowd.Passes CvarPlace.holds (·.locked = false) cv cv' place place' := by
  cases moved with
  | stayed | waits | seen | left | slept | loaded | stored => exact .keep Iff.rfl rfl
  | locked free => exact .take free nofun rfl
  | unlocked | released => exact .give rfl rfl rfl
  | called cv held => exact .keep Iff.rfl (cvarOutside_holds held).symm
  | woke cv held => exact .keep Iff.rfl (cvarOutside_holds held)
  | looked cv timed again _ mutex | done cv timed again _ mutex =>
    refine .keep Iff.rfl ?_
    rw [mutex]
    cases again <;> rfl

section

variable {ι : Type*} [DecidableEq ι]

theorem cvarTurn_step (w : CvarSystem ι) (turn : Turn ι CvarMove) :
    CvarTurn turn.move w.memory (w.places turn.thread) (w.step turn).memory
      ((w.step turn).places turn.thread) (w.acts turn).2.2 := by
  rw [w.step_memory, w.step_places_self]
  exact cvarTurn _ _ _

def CvarSystem.Forward (w : CvarSystem ι) (turn : Turn ι CvarMove) : Prop :=
  w.memory.seq ≤ (w.step turn).memory.seq

instance (w : CvarSystem ι) (turn : Turn ι CvarMove) : Decidable (w.Forward turn) :=
  inferInstanceAs (Decidable (_ ≤ _))

/-- The mutex has one holder, and every thread's number fits the shared ones. -/
structure CvarSound (w : CvarSystem ι) : Prop where
  exclusive : w.Exclusive CvarPlace.holds (·.locked = false)
  last_le : w.memory.lastseq ≤ w.memory.seq
  seq_le : w.memory.seq ≤ w.memory.calls
  fits : ∀ thread, (w.places thread).Fits w.memory

variable {w : CvarSystem ι} {turn : Turn ι CvarMove} {cv cv' : CondVar} {place : CvarPlace}
  {waiter : ι} {number : Option Nat}

theorem CvarSound.step (sound : CvarSound w) (forward : w.Forward turn) :
    CvarSound (w.step turn) := by
  have moved := cvarTurn_step w turn
  obtain ⟨grows, fits, last_le, seq_le⟩ :=
    moved.keeps (sound.fits turn.thread) sound.last_le sound.seq_le forward
  refine ⟨sound.exclusive.step (fun _ => CvarPlace.holds_woken) moved.passes, last_le, seq_le, ?_⟩
  intro thread
  by_cases own : thread = turn.thread
  · rw [own]
    exact fits
  · have kept : (w.places thread).Fits (w.step turn).memory := by
      refine (sound.fits thread).mono grows fun held => ?_
      by_contra holds
      exact own (sound.exclusive.alone _ _ (Bool.eq_true_of_not_eq_false holds) held)
    rcases w.step_places_other turn own with same | ⟨-, woken⟩
    · rw [same]
      exact kept
    · rw [woken]
      exact kept.woken

theorem cvarSound_init {ι : Type*} : CvarSound (cvarInit : CvarSystem ι) where
  exclusive := Crowd.exclusive_start rfl rfl
  last_le := le_rfl
  seq_le := le_rfl
  fits _ := trivial

/-! ### A broadcast -/

/-- No thread comes by a number, and none goes into a wait, but by calling one. -/
theorem CvarTurn.same_wait {wake : Wake}
    (moved : CvarTurn move cv place cv' place' wake) (inside : place.enters = false)
    (no_wait : ∀ timed, move ≠ .wait timed) :
    place'.enters = false ∧ ∀ lastseq, place'.number = some lastseq →
      place.number = some lastseq ∧ (place'.sleeps = true → place.sleeps = true ∨ cv.seq = lastseq)
    := by
  cases moved with
  | stayed => exact ⟨inside, fun _ number => ⟨number, .inl⟩⟩
  | locked | unlocked | called | loaded | stored => exact ⟨rfl, nofun⟩
  | waits cv timed call => exact absurd call (no_wait timed)
  | seen | left => cases inside
  | released => exact ⟨rfl, fun _ number => ⟨number, nofun⟩⟩
  | slept timed same =>
    refine ⟨rfl, fun lastseq number => ⟨number, fun _ => .inr ?_⟩⟩
    cases number
    exact same
  | looked cv timed again _ _ number =>
    cases again with
    | true | false => exact ⟨rfl, fun _ number' => ⟨number.trans number', nofun⟩⟩
  | done cv timed quits | woke cv quits => cases quits <;> exact ⟨rfl, nofun⟩

theorem CvarPlace.woken_frame (place : CvarPlace) :
    place.woken.enters = place.enters ∧ place.woken.number = place.number := by
  cases place <;> exact ⟨rfl, rfl⟩

theorem CvarPlace.number_of_sleeps (asleep : place.sleeps = true) :
    ∃ lastseq, place.number = some lastseq := by
  cases place with
  | asleep timed lastseq => exact ⟨lastseq, rfl⟩
  | _ => cases asleep

def CvarStays (waiter : ι) (turn : Turn ι CvarMove) : Prop :=
  turn.thread = waiter → ∀ timed, turn.move ≠ .wait timed

instance (waiter : ι) (turn : Turn ι CvarMove) : Decidable (CvarStays waiter turn) :=
  inferInstanceAs (Decidable (_ → ∀ _ : Bool, _))

/-- A turn leaves a waiter its number as long as it is in the same wait, and puts it to sleep only
if the sequence number is the waiter's. -/
theorem cvarSame_wait (inside : (w.places waiter).enters = false) (stays : CvarStays waiter turn) :
    ((w.step turn).places waiter).enters = false ∧
      ∀ lastseq, ((w.step turn).places waiter).number = some lastseq →
        (w.places waiter).number = some lastseq ∧ (((w.step turn).places waiter).sleeps = true →
            (w.places waiter).sleeps = true ∨ w.memory.seq = lastseq) := by
  by_cases own : waiter = turn.thread
  · subst own
    exact (cvarTurn_step w turn).same_wait inside (stays rfl)
  · rcases w.step_places_other turn own with same | ⟨slept, woken⟩
    · rw [same]
      exact ⟨inside, fun _ number => ⟨number, .inl⟩⟩
    · rw [woken]
      obtain ⟨enters_eq, number_eq⟩ := (w.places waiter).woken_frame
      exact ⟨enters_eq.trans inside, fun _ number =>
        ⟨number_eq.symm.trans number, fun _ => .inl slept⟩⟩

/-- The waiter is awake and will not sleep again in this wait: the sequence number has passed its
own. -/
structure CvarReached (waiter : ι) (w : CvarSystem ι) : Prop where
  inside : (w.places waiter).enters = false
  awake : (w.places waiter).sleeps = false
  passed : ∀ lastseq, (w.places waiter).number = some lastseq → lastseq < w.memory.seq

theorem CvarReached.step (reached : CvarReached waiter w) (forward : w.Forward turn)
    (stays : CvarStays waiter turn) : CvarReached waiter (w.step turn) := by
  obtain ⟨inside, same⟩ := cvarSame_wait reached.inside stays
  have passed (lastseq : Nat) (number : ((w.step turn).places waiter).number = some lastseq) :
      lastseq < w.memory.seq := reached.passed lastseq (same lastseq number).1
  refine ⟨inside, ?_, fun lastseq number => (passed lastseq number).trans_le forward⟩
  by_contra sleeps
  have asleep := Bool.eq_true_of_not_eq_false sleeps
  obtain ⟨lastseq, number⟩ := CvarPlace.number_of_sleeps asleep
  rcases (same lastseq number).2 asleep with slept | equal
  · rw [reached.awake] at slept
    cases slept
  · exact (passed lastseq number).ne' equal

/-- A broadcast on its way will pass the number. -/
def CvarPlace.Reaches (cv : CondVar) (number : Option Nat) : CvarPlace → Prop
  | .load _ true => True
  | .store _ true seq => ∀ lastseq, number = some lastseq → lastseq < seq
  | .wake _ true => ∀ lastseq, number = some lastseq → lastseq < cv.seq
  | _ => False

theorem CvarPlace.Reaches.casts (reaches : place.Reaches cv number) : place.casts = true := by
  cases place with
  | load | store | wake => rfl
  | _ => exact reaches.elim

theorem CvarPlace.sleeps_of_casts (casts : place.casts = true) : place.sleeps = false := by
  cases place with
  | asleep => cases casts
  | _ => rfl

theorem CvarPlace.Reaches.mono {number' : Option Nat} (reaches : place.Reaches cv number)
    (forward : cv.seq ≤ cv'.seq)
    (same : ∀ lastseq, number' = some lastseq → number = some lastseq) :
    place.Reaches cv' number' := by
  cases place with
  | load held all => cases all with
    | true => trivial
    | false => exact reaches
  | store held all => cases all with
    | true => exact fun lastseq has => reaches lastseq (same lastseq has)
    | false => exact reaches
  | wake held all => cases all with
    | true => exact fun lastseq has => (reaches lastseq (same lastseq has)).trans_le forward
    | false => exact reaches
  | _ => exact reaches

/-- What a turn of the broadcasting thread does for a waiter with a number. -/
theorem CvarTurn.reaches {wake : Wake}
    (moved : CvarTurn move cv place cv' place' wake) (reaches : place.Reaches cv number)
    (left : ∀ lastseq, number = some lastseq → lastseq ≤ cv.lastseq)
    (few : cv.lastseq < cv'.calls → cv.lastseq + 1 < 2 ^ 32) (last_lt : cv.lastseq ≤ cv.calls) :
    place'.Reaches cv' number ∨
      wake = .all ∧ ∀ lastseq, number = some lastseq → lastseq < cv'.seq := by
  have casts := reaches.casts
  cases moved with
  | stayed => exact .inl reaches
  | loaded cv held all =>
    have exact_next : (cv.lastseq + 1) % 2 ^ 32 = cv.lastseq + 1 :=
      Nat.mod_eq_of_lt (few (Nat.lt_succ_of_le last_lt))
    cases all with
    | true =>
      left
      intro lastseq has
      rw [exact_next]
      exact Nat.lt_succ_of_le (left lastseq has)
    | false => exact reaches.elim
  | stored cv held all => cases all with
    | true => exact .inl reaches
    | false => exact reaches.elim
  | woke cv held all => cases all with
    | true => exact .inr ⟨rfl, reaches⟩
    | false => exact reaches.elim
  | called cv held => cases held <;> exact reaches.elim
  | looked _ _ _ quiet | done _ _ _ quiet | locked _ quiet =>
    rw [quiet] at casts
    cases casts
  | _ => exact reaches.elim

def CvarReaching (caster waiter : ι) (w : CvarSystem ι) : Prop :=
  CvarReached waiter w ∨
    (w.places waiter).enters = false ∧
      (w.places caster).Reaches w.memory (w.places waiter).number

omit [DecidableEq ι] in
theorem CvarSound.number_le (sound : CvarSound w) {thread : ι} {lastseq : Nat}
    (number : (w.places thread).number = some lastseq) : lastseq ≤ w.memory.lastseq := by
  have fits := sound.fits thread
  cases place_eq : w.places thread <;> rw [place_eq] at fits number <;> cases number
  all_goals exact fits

theorem CvarReaching.step {caster : ι} (reaching : CvarReaching caster waiter w)
    (distinct : caster ≠ waiter) (sound : CvarSound w) (forward : w.Forward turn)
    (stays : CvarStays waiter turn) (few : (w.step turn).memory.calls < 2 ^ 32) :
    CvarReaching caster waiter (w.step turn) := by
  rcases reaching with reached | ⟨inside, reaches⟩
  · exact .inl (reached.step forward stays)
  obtain ⟨inside', same⟩ := cvarSame_wait inside stays
  by_cases casts : turn.thread = caster
  · subst casts
    have last_le := sound.last_le.trans sound.seq_le
    have next := (cvarTurn_step w turn).reaches reaches (fun _ => sound.number_le)
      (fun counted => (Nat.succ_le_of_lt counted).trans_lt few) last_le
    rcases next with reaches' | ⟨wakes, passed⟩
    · exact .inr ⟨inside', reaches'.mono le_rfl fun lastseq number => (same lastseq number).1⟩
    · refine .inl ⟨inside', ?_, fun lastseq number => passed lastseq (same lastseq number).1⟩
      rw [Bool.eq_false_iff]
      exact fun asleep => distinct (Crowd.alone_of_wake_all wakes asleep).symm
  · have caster_awake := CvarPlace.sleeps_of_casts reaches.casts
    rw [CvarReaching, w.step_places_awake turn (Ne.symm casts) caster_awake]
    exact .inr ⟨inside', reaches.mono forward fun lastseq number => (same lastseq number).1⟩

def CvarPlace.outside : CvarPlace → Bool
  | .idle | .holding => true
  | _ => false

/-- The thread has released the mutex in a wait that has not returned. -/
def CvarPlace.released : CvarPlace → Bool
  | .waiting .. | .asleep .. | .reload .. | .reacquire _ => true
  | _ => false

theorem CvarPlace.enters_of_released (released : place.released = true) : place.enters = false := by
  cases place with
  | waitLoad | waitStore => cases released
  | _ => rfl

theorem CvarPlace.of_outside (outside : place.outside = true) :
    place.released = false ∧ place.casts = false := by
  cases place with
  | idle | holding => exact ⟨rfl, rfl⟩
  | _ => cases outside

theorem cvarAct_call (cv : CondVar) (outside : place.outside = true) :
    ∃ held, cvarAct cv place (.call true) = (cv, .load held true, .upTo 0) := by
  cases place with
  | idle => exact ⟨false, rfl⟩
  | holding => exact ⟨true, rfl⟩
  | _ => cases outside

theorem CvarSound.calls_le (sound : CvarSound w) (forward : w.Forward turn) :
    w.memory.calls ≤ (w.step turn).memory.calls :=
  ((cvarTurn_step w turn).keeps (sound.fits turn.thread) sound.last_le sound.seq_le forward).1.calls

/-- What a turn keeps as long as the number of wakers stays small. -/
theorem cvarRun_keeps (Good : CvarSystem ι → Prop) {turns : List (Turn ι CvarMove)}
    (preserved : ∀ w turn, Good w → CvarSound w → w.Forward turn → CvarStays waiter turn →
      (w.step turn).memory.calls < 2 ^ 32 → Good (w.step turn))
    (sound : CvarSound w) (good : w.memory.calls < 2 ^ 32 → Good w)
    (forward : Admits Crowd.step CvarSystem.Forward w turns)
    (same_wait : ∀ turn ∈ turns, CvarStays waiter turn) :
    CvarSound (run Crowd.step w turns) ∧
      ((run Crowd.step w turns).memory.calls < 2 ^ 32 → Good (run Crowd.step w turns)) := by
  refine admits_invariant (fun w => CvarSound w ∧ (w.memory.calls < 2 ^ 32 → Good w))
    ⟨sound, good⟩ ?_ (admits_and.2 ⟨forward, admits_of_forall same_wait w⟩)
  rintro w turn ⟨sound, good⟩ ⟨forward, stays⟩
  refine ⟨sound.step forward, fun few => ?_⟩
  exact preserved w turn (good ((sound.calls_le forward).trans_lt few)) sound forward stays few

/-- A broadcast reaches everyone who had released the mutex in a wait when it was called: once it
has returned, such a thread does not sleep in that wait, as long as no waker takes the sequence
number back. -/
theorem cvarBroadcast_reaches (front middle back : List (Turn ι CvarMove))
    (call : Turn ι CvarMove) (waiter : ι) (casts : call.move = .call true)
    (outside : ((run Crowd.step (cvarInit : CvarSystem ι) front).places call.thread).outside = true)
    (waits : ((run Crowd.step (cvarInit : CvarSystem ι) front).places waiter).released = true)
    (returned : ((run Crowd.step (cvarInit : CvarSystem ι) (front ++ call :: middle)).places
      call.thread).outside = true)
    (same_wait : ∀ turn ∈ middle ++ back, CvarStays waiter turn)
    (few : (run Crowd.step (cvarInit : CvarSystem ι)
      (front ++ call :: middle ++ back)).memory.calls <
      2 ^ 32)
    (forward : Admits Crowd.step CvarSystem.Forward (cvarInit : CvarSystem ι)
      (front ++ call :: middle ++ back)) :
    ((run Crowd.step (cvarInit : CvarSystem ι) (front ++ call :: middle ++ back)).places
      waiter).sleeps = false := by
  obtain ⟨forward_middle, forward_back⟩ := admits_append.1 forward
  obtain ⟨forward_front, forward_call, forward_middle⟩ := admits_append.1 forward_middle
  simp only [run_append, run_cons] at forward_back few returned ⊢
  have sound_front : CvarSound (run Crowd.step (cvarInit : CvarSystem ι) front) :=
    admits_invariant CvarSound cvarSound_init (fun _ _ sound => sound.step) forward_front
  generalize run Crowd.step (cvarInit : CvarSystem ι) front = before at *
  have distinct : call.thread ≠ waiter := by
    intro same
    rw [← same, (CvarPlace.of_outside outside).1] at waits
    cases waits
  -- the call itself
  have called : CvarReaching call.thread waiter (before.step call) := by
    have stays : CvarStays waiter call := fun same => absurd same distinct
    obtain ⟨inside, -⟩ := cvarSame_wait (CvarPlace.enters_of_released waits) stays
    obtain ⟨held, acts⟩ := cvarAct_call before.memory outside
    have begun : (before.step call).places call.thread = .load held true := by
      rw [before.step_places_self, Crowd.acts, casts]
      exact congrArg (·.2.1) acts
    refine .inr ⟨inside, ?_⟩
    rw [begun]
    trivial
  obtain ⟨sound_middle, reaching⟩ := cvarRun_keeps (CvarReaching call.thread waiter)
    (fun _ _ reaching sound forward stays few => reaching.step distinct sound forward stays few)
    (sound_front.step forward_call) (fun _ => called) forward_middle
    fun turn member => same_wait turn (List.mem_append_left back member)
  generalize run Crowd.step (before.step call) middle = after at *
  have reached (few : after.memory.calls < 2 ^ 32) : CvarReached waiter after := by
    refine (reaching few).resolve_right fun ⟨_, reaches⟩ => ?_
    have casts := reaches.casts
    rw [(CvarPlace.of_outside returned).2] at casts
    cases casts
  obtain ⟨-, reached⟩ := cvarRun_keeps (CvarReached waiter)
    (fun _ _ reached _ forward stays _ => reached.step forward stays) sound_middle reached
    forward_back fun turn member => same_wait turn (List.mem_append_right middle member)
  exact (reached few).awake

def cvarWaits {ι : Type*} (thread : ι) : List (Turn ι CvarMove) :=
  [⟨thread, .lock, []⟩, ⟨thread, .wait false, []⟩, ⟨thread, .go, []⟩, ⟨thread, .go, []⟩,
    ⟨thread, .go, []⟩]

/-- The three steps of a signal or a broadcast. -/
def cvarCasts {ι : Type*} (thread : ι) : List (Turn ι CvarMove) :=
  [⟨thread, .go, []⟩, ⟨thread, .go, []⟩, ⟨thread, .go, []⟩]

/-- A thread that waits and has fallen asleep. -/
def cvarSleeps {ι : Type*} (thread : ι) : List (Turn ι CvarMove) :=
  cvarWaits thread ++ [⟨thread, .go, []⟩]

/-- The first thread falls asleep and the second broadcasts. -/
theorem cvarBroadcast_reaches_two :
    ((run Crowd.step (cvarInit : CvarSystem (Fin 2)) (cvarSleeps 0)).places 0).sleeps = true ∧
      ((run Crowd.step (cvarInit : CvarSystem (Fin 2))
        (cvarSleeps 0 ++ ⟨1, .call true, []⟩ :: cvarCasts 1 ++ [⟨0, .go, []⟩])).places 0).sleeps =
          false := by
  refine ⟨by decide, ?_⟩
  apply cvarBroadcast_reaches (cvarSleeps 0) (cvarCasts 1) [⟨0, .go, []⟩] ⟨1, .call true, []⟩ 0
  · rfl
  · decide
  · decide
  · decide
  · decide
  · decide
  · decide

/-- A signal of the first thread reads the last number and is held up.  A signal of the second comes
first, so the third thread waits with the number that the first is about to publish. -/
def cvarOvertaken : List (Turn (Fin 3) CvarMove) :=
  [⟨⟨0, by decide⟩, .call false, []⟩, ⟨⟨0, by decide⟩, .go, []⟩,
    ⟨⟨1, by decide⟩, .call false, []⟩] ++ cvarCasts ⟨1, by decide⟩ ++ cvarWaits ⟨2, by decide⟩

/-- The second thread broadcasts and returns.  Then the first publishes its number, and the third
thread, which was waiting when the broadcast was called, goes to sleep. -/
theorem cvarBroadcast_undone : ((run Crowd.step cvarInit cvarOvertaken).places 1).outside = true ∧
      ((run Crowd.step cvarInit cvarOvertaken).places 2).released = true ∧
      ((run Crowd.step cvarInit
        (cvarOvertaken ++ ⟨1, .call true, []⟩ :: cvarCasts 1)).places 1).outside = true ∧
      (run Crowd.step cvarInit (cvarOvertaken ++ ⟨1, .call true, []⟩ :: cvarCasts 1 ++
        [⟨0, .go, []⟩, ⟨2, .go, []⟩])).memory.calls = 3 ∧
      ((run Crowd.step cvarInit (cvarOvertaken ++ ⟨1, .call true, []⟩ :: cvarCasts 1 ++
        [⟨0, .go, []⟩, ⟨2, .go, []⟩])).places 2).sleeps = true := by
  decide

end

end Cx.Thread
