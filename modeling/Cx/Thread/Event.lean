import Cx.Library.Run
import Cx.Library.Sleep

/-!
# The event

An `Event` keeps a count of tokens, on which waiters sleep while it is 0, and a count of the waiters
that are registered.  A waiter registers and then sleeps if there is still no token.  A signal takes
registrations off the count, then adds as many tokens, then wakes as many sleepers.  A waiter whose
sleep was cut short takes a registration off the count, its own or another's.

A signal may take the registration of a thread that is not asleep yet.  If its token then goes to
another thread, the first one sleeps without being counted, and no later signal wakes it.  Nothing
else leaves a thread asleep on a signalled event.
-/

namespace Cx.Thread

open Library

/-- The shared words of an event.  The waiter count is never taken below zero, because whoever takes
from it has seen it to be larger. -/
structure Event where
  /-- The tokens; -1, the only negative value, if the event is locked in the signalled state. -/
  val : Int
  waiters : Nat
deriving DecidableEq, Repr

/-- Where a thread stands: outside the event's code, or before its next access with the values its
local variables have there. -/
inductive EventPlace
  | idle
  | waitEnter (timed : Bool)
  | waitFast (timed : Bool)
  | waitTake (timed : Bool) (val : Int)
  /-- Wait: there were none; look at the clock, spin, or register. -/
  | waitMiss (timed : Bool)
  | waitSleep (timed : Bool)
  /-- Wait: asleep in `futexWait`. -/
  | asleep (timed : Bool)
  | waitUndo (timed : Bool)
  | waitUndoSwap (timed : Bool) (waiters : Nat)
  | waitReload (timed : Bool)
  | manyLoad (count : Nat)
  | manyTake (count waiters : Nat)
  | manyVal (count : Nat)
  /-- Signal many: add as many tokens as registrations were taken, one at least. -/
  | manySet (count : Nat) (val : Int)
  /-- Signal many: there was no token and nobody registered, load the waiter count again. -/
  | manyRecheck
  | manyWake (count nwake : Nat)
  | allLoad
  | allTake (waiters : Nat)
  | allVal (waiters : Nat)
  | allSet (waiters : Nat) (val : Int)
  | lateLoad (val : Int)
  | lateTake (val : Int) (late : Nat)
  | lateVal (late : Nat)
  | lateSet (late : Nat) (lateval : Int)
  | allWake
  | lockStore
  | resetLoad
  | resetSwap (val : Int)
deriving DecidableEq, Repr

inductive EventMove
  /-- Call `eventWaitTimeout`, with a deadline or without. -/
  | wait (timed : Bool)
  /-- Call `eventSignalMany`. -/
  | signalMany (count : Nat)
  /-- Call `eventSignalAll`. -/
  | signalAll
  /-- Call `eventSignalLock`. -/
  | signalLock
  /-- Call `eventReset`. -/
  | reset
  | go
  /-- Make it, but have a weak exchange fail; spin instead of registering; come out of a sleep as if
  woken. -/
  | spurious
  | expire
deriving DecidableEq, Repr

/-- Go on with the wait loop, having seen a number of tokens. -/
def eventWaiting (timed : Bool) (val : Int) : EventPlace :=
  if val > 0 then .waitTake timed val else if val = -1 then .idle else .waitMiss timed

/-- Go on after the first load of the waiter count in `eventSignalMany`. -/
def eventTaking (count waiters : Nat) : EventPlace :=
  if waiters > 0 then .manyTake count waiters else .manyVal (min count waiters)

/-- Go on after a load of the tokens in `eventSignalMany`. -/
def eventSetting (count : Nat) (val : Int) : EventPlace :=
  if val ≥ 0 then .manySet count val else if count > 0 then .manyWake count count else .idle

/-- Go on after a load of the tokens in `eventSignalAll`. -/
def eventSettingAll (waiters : Nat) (val : Int) : EventPlace :=
  if val ≥ 0 then .allSet waiters val else .lateLoad val

/-- Go on after a load of the late registrations in `eventSignalAll`. -/
def eventTakingLate (val : Int) (late : Nat) : EventPlace :=
  if late > 0 then .lateTake val late else .allWake

def eventSettingLate (late : Nat) (lateval : Int) : EventPlace :=
  if lateval ≥ 0 then .lateSet late lateval else .allWake

/-- Go on after a load of the waiter count by a thread whose sleep was cut short. -/
def eventUndoing (timed : Bool) (waiters : Nat) : EventPlace :=
  if waiters > 0 then .waitUndoSwap timed waiters else .waitReload timed

/-- Go on after a load of the tokens in `eventReset`. -/
def eventResetting (val : Int) : EventPlace := if val = 0 then .idle else .resetSwap val

/-- One access of a thread. -/
def eventAct (e : Event) : EventPlace → EventMove → Event × EventPlace × Wake
  | .idle, .wait timed => (e, .waitEnter timed, .upTo 0)
  | .idle, .signalMany count => (e, .manyLoad count, .upTo 0)
  | .idle, .signalAll => (e, .allLoad, .upTo 0)
  | .idle, .signalLock => (e, .lockStore, .upTo 0)
  | .idle, .reset => (e, .resetLoad, .upTo 0)
  -- eventWaitTimeout
  | .waitEnter timed, .go =>
    (e, if e.val = 1 then .waitFast timed else eventWaiting timed e.val, .upTo 0)
  | .waitFast timed, .go =>
    if e.val = 1 then ({ e with val := 0 }, .idle, .upTo 0)
    else (e, eventWaiting timed e.val, .upTo 0)
  | .waitTake timed val, .go =>
    if val > 0 ∧ e.val = val then ({ e with val := e.val - 1 }, .idle, .upTo 0)
    else (e, eventWaiting timed e.val, .upTo 0)
  | .waitTake timed _, .spurious => (e, eventWaiting timed e.val, .upTo 0)
  | .waitMiss timed, .go => ({ e with waiters := e.waiters + 1 }, .waitSleep timed, .upTo 0)
  | .waitMiss timed, .spurious => (e, .waitReload timed, .upTo 0)
  | .waitMiss true, .expire => (e, .idle, .upTo 0)
  | .waitSleep timed, .go =>
    (e, if e.val = 0 then .asleep timed else .waitUndo timed, .upTo 0)
  | .waitSleep true, .expire => (e, .waitUndo true, .upTo 0)
  -- a sleeper comes back at its deadline, or for no reason
  | .asleep timed, .go => (e, .waitUndo timed, .upTo 0)
  | .asleep timed, .spurious => (e, .waitReload timed, .upTo 0)
  | .waitUndo timed, .go => (e, eventUndoing timed e.waiters, .upTo 0)
  | .waitUndoSwap timed waiters, .go =>
    if e.waiters = waiters then
      ({ e with waiters := e.waiters - 1 }, .waitReload timed, .upTo 0)
    else (e, eventUndoing timed e.waiters, .upTo 0)
  | .waitUndoSwap timed _, .spurious => (e, eventUndoing timed e.waiters, .upTo 0)
  | .waitReload timed, .go => (e, eventWaiting timed e.val, .upTo 0)
  -- eventSignalMany
  | .manyLoad count, .go => (e, eventTaking count e.waiters, .upTo 0)
  | .manyTake count waiters, .go =>
    if e.waiters = waiters then
      ({ e with waiters := e.waiters - count }, .manyVal (min count waiters), .upTo 0)
    else (e, eventTaking count e.waiters, .upTo 0)
  | .manyTake count _, .spurious => (e, eventTaking count e.waiters, .upTo 0)
  | .manyVal count, .go => (e, eventSetting count e.val, .upTo 0)
  | .manySet count val, .go =>
    if e.val = val then
      ({ e with val := max (e.val + count) 1 },
        if count > 0 then .manyWake count count else if val = 0 then .manyRecheck else .idle,
        .upTo 0)
    else (e, eventSetting count e.val, .upTo 0)
  | .manySet count _, .spurious => (e, eventSetting count e.val, .upTo 0)
  | .manyRecheck, .go => (e, if e.waiters > 0 then .manyWake 0 1 else .idle, .upTo 0)
  | .manyWake _ nwake, .go => (e, .idle, .upTo nwake)
  -- eventSignalAll
  | .allLoad, .go => (e, .allTake e.waiters, .upTo 0)
  | .allTake waiters, .go =>
    if e.waiters = waiters then ({ e with waiters := 0 }, .allVal waiters, .upTo 0)
    else (e, .allTake e.waiters, .upTo 0)
  | .allTake _, .spurious => (e, .allTake e.waiters, .upTo 0)
  | .allVal waiters, .go => (e, eventSettingAll waiters e.val, .upTo 0)
  | .allSet waiters val, .go =>
    if e.val = val then ({ e with val := e.val + waiters }, .lateLoad val, .upTo 0)
    else (e, eventSettingAll waiters e.val, .upTo 0)
  | .allSet waiters _, .spurious => (e, eventSettingAll waiters e.val, .upTo 0)
  | .lateLoad val, .go => (e, eventTakingLate val e.waiters, .upTo 0)
  | .lateTake val late, .go =>
    if e.waiters = late then
      ({ e with waiters := 0 }, if val ≥ 0 then .lateVal late else .allWake, .upTo 0)
    else (e, eventTakingLate val e.waiters, .upTo 0)
  | .lateTake val _, .spurious => (e, eventTakingLate val e.waiters, .upTo 0)
  | .lateVal late, .go => (e, eventSettingLate late e.val, .upTo 0)
  | .lateSet late lateval, .go =>
    if e.val = lateval then ({ e with val := e.val + late }, .allWake, .upTo 0)
    else (e, eventSettingLate late e.val, .upTo 0)
  | .lateSet late _, .spurious => (e, eventSettingLate late e.val, .upTo 0)
  | .allWake, .go => (e, .idle, .all)
  -- eventSignalLock
  | .lockStore, .go => ({ e with val := -1 }, .allLoad, .upTo 0)
  -- eventReset
  | .resetLoad, .go => (e, eventResetting e.val, .upTo 0)
  | .resetSwap val, .go =>
    if e.val = val then ({ e with val := 0 }, .idle, .upTo 0)
    else (e, eventResetting e.val, .upTo 0)
  | .resetSwap _, .spurious => (e, eventResetting e.val, .upTo 0)
  | place, _ => (e, place, .upTo 0)

def EventPlace.sleeps : EventPlace → Bool
  | .asleep _ => true
  | _ => false

def EventPlace.woken : EventPlace → EventPlace
  | .asleep timed => .waitReload timed
  | place => place

def eventProgram : Sleeping Event EventPlace EventMove where
  act := eventAct
  asleep := EventPlace.sleeps
  woken := EventPlace.woken
  awake place asleep := by
    cases place with
    | asleep => rfl
    | _ => cases asleep

abbrev EventSystem (ι : Type*) := Crowd eventProgram ι

/-- An event as `_eventInit` leaves it, which no thread has touched. -/
def eventInit {ι : Type*} : EventSystem ι := Crowd.start { val := 0, waiters := 0 } .idle rfl

/-! ### What one access can do -/

structure EventLoad where
  sleeps : Nat := 0
  /-- It is registered and awake: it has yet to sleep, or to take the registration back. -/
  pending : Nat := 0
  /-- Registrations it has taken without a wake-up for them so far. -/
  taken : Nat := 0
  owes : Nat := 0
  looks : Nat := 0
  sweeps : Nat := 0
deriving DecidableEq, Repr

def EventPlace.load : EventPlace → EventLoad
  | .asleep _ => { sleeps := 1 }
  | .waitEnter _ | .waitFast _ | .waitTake .. | .waitReload _ => { looks := 1 }
  | .waitSleep _ | .waitUndo _ | .waitUndoSwap .. => { pending := 1, looks := 1 }
  | .manyVal count | .manySet count _ => { taken := count }
  | .manyRecheck => { owes := 1 }
  | .manyWake count nwake => { taken := min count nwake, owes := nwake }
  | .allLoad | .allTake _ | .allVal _ | .allSet .. | .lateLoad _ | .lateTake .. | .lateVal _
  | .lateSet .. | .allWake => { sweeps := 1 }
  | .idle | .waitMiss _ | .manyLoad _ | .manyTake .. | .lockStore | .resetLoad | .resetSwap _ => {}

/-- A thread that only looks goes from one load to the other.  It stops looking for tokens only when
there are none. -/
structure EventLoad.Eases (load load' : EventLoad) (val : Int) : Prop where
  sleeps : load'.sleeps ≤ load.sleeps
  pending : load'.pending + load'.sleeps ≤ load.pending + load.sleeps
  taken : load.taken ≤ load'.taken
  owes : load.owes ≤ load'.owes
  looks : load.looks ≤ load'.looks ∨ val ≤ 0
  sweeps : load.sweeps ≤ load'.sweeps

theorem EventLoad.Eases.rfl {load : EventLoad} {val : Int} : load.Eases load val :=
  ⟨le_rfl, le_rfl, le_rfl, le_rfl, .inl le_rfl, le_rfl⟩

/-- What one access can do: the words and the thread's place before it and after it, and whom it
wakes. -/
inductive EventTurn : Event → EventPlace → Event → EventPlace → Wake → Prop
  | went {e : Event} {place place' : EventPlace} (eases : place.load.Eases place'.load e.val) :
      EventTurn e place e place' (.upTo 0)
  | took {e : Event} {place : EventPlace} (some_token : 0 < e.val)
      (load : place.load = { looks := 1 }) :
      EventTurn e place { e with val := e.val - 1 } .idle (.upTo 0)
  | registered (e : Event) (timed : Bool) :
      EventTurn e (.waitMiss timed) { e with waiters := e.waiters + 1 } (.waitSleep timed) (.upTo 0)
  | slept {e : Event} (timed : Bool) (no_token : e.val = 0) :
      EventTurn e (.waitSleep timed) e (.asleep timed) (.upTo 0)
  /-- A waiter whose sleep was cut short takes a registration back. -/
  | undone (e : Event) (timed : Bool) (waiters : Nat) :
      EventTurn e (.waitUndoSwap timed waiters) { e with waiters := e.waiters - 1 }
        (.waitReload timed) (.upTo 0)
  | collected (e : Event) (count waiters : Nat) :
      EventTurn e (.manyTake count waiters) { e with waiters := e.waiters - count }
        (.manyVal (min count e.waiters)) (.upTo 0)
  | published (e : Event) (count : Nat) (val : Int) :
      EventTurn e (.manySet count val) { e with val := max (e.val + count) 1 }
        (if count > 0 then .manyWake count count else if e.val = 0 then .manyRecheck else .idle)
        (.upTo 0)
  | missed {e : Event} (nobody : e.waiters = 0) : EventTurn e .manyRecheck e .idle (.upTo 0)
  | woke (e : Event) (count nwake : Nat) :
      EventTurn e (.manyWake count nwake) e .idle (.upTo nwake)
  | sweeping {e e' : Event} {place place' : EventPlace} (load : place'.load = { sweeps := 1 }) :
      EventTurn e place e' place' (.upTo 0)
  | swept (e : Event) : EventTurn e .allWake e .idle .all
  | reset (e : Event) (val : Int) : EventTurn e (.resetSwap val) { e with val := 0 } .idle (.upTo 0)

variable {place : EventPlace}
variable (e : Event)

/-- A waiter that has seen the tokens. -/
theorem eventTurn_waiting (timed : Bool) (load : place.load = { looks := 1 }) :
    EventTurn e place e (eventWaiting timed e.val) (.upTo 0) := by
  apply EventTurn.went
  rw [load]
  unfold eventWaiting
  split_ifs with some_token locked
  · exact .rfl
  · exact ⟨le_rfl, le_rfl, le_rfl, le_rfl, .inr (by omega), le_rfl⟩
  · exact ⟨le_rfl, le_rfl, le_rfl, le_rfl, .inr (by omega), le_rfl⟩

/-- A waiter that has seen the waiter count, to take a registration back. -/
theorem eventTurn_undoing (timed : Bool) (load : place.load = { pending := 1, looks := 1 }) :
    EventTurn e place e (eventUndoing timed e.waiters) (.upTo 0) := by
  apply EventTurn.went
  rw [load]
  unfold eventUndoing
  split_ifs with some_waiter
  · exact .rfl
  · exact ⟨le_rfl, Nat.zero_le _, le_rfl, le_rfl, .inl le_rfl, le_rfl⟩

/-- A signal that has seen the waiter count. -/
theorem eventTurn_taking (count : Nat) (load : place.load = {}) :
    EventTurn e place e (eventTaking count e.waiters) (.upTo 0) := by
  apply EventTurn.went
  rw [load]
  unfold eventTaking
  split_ifs with some_waiter
  · exact .rfl
  · exact ⟨le_rfl, le_rfl, Nat.zero_le _, le_rfl, .inl le_rfl, le_rfl⟩

/-- A signal that has seen the tokens. -/
theorem eventTurn_setting (count : Nat) (load : place.load = { taken := count }) :
    EventTurn e place e (eventSetting count e.val) (.upTo 0) := by
  apply EventTurn.went
  rw [load]
  unfold eventSetting
  split_ifs with unlocked some_taken
  · exact .rfl
  · exact ⟨le_rfl, le_rfl, (Nat.min_self count).ge, Nat.zero_le _, .inl le_rfl, le_rfl⟩
  · exact ⟨le_rfl, le_rfl, not_lt.1 some_taken, le_rfl, .inl le_rfl, le_rfl⟩

/-- A reset that has seen the tokens. -/
theorem eventTurn_resetting (load : place.load = {}) :
    EventTurn e place e (eventResetting e.val) (.upTo 0) := by
  apply EventTurn.went
  rw [load]
  unfold eventResetting
  split_ifs with no_token
  · exact .rfl
  · exact .rfl

/-- A sleeper that comes back by itself. -/
theorem eventTurn_risen {timed : Bool} {pending : Nat}
    (load : place.load = { pending := pending, looks := 1 }) (one : pending ≤ 1) :
    EventTurn e (.asleep timed) e place (.upTo 0) := by
  apply EventTurn.went
  rw [load]
  exact ⟨Nat.zero_le _, one, le_rfl, le_rfl, .inl (Nat.zero_le _), le_rfl⟩

/-- A thread that comes to look at the tokens. -/
theorem eventTurn_looking {place' : EventPlace} (load : place.load = {})
    (load' : place'.load = { looks := 1 }) : EventTurn e place e place' (.upTo 0) := by
  apply EventTurn.went
  rw [load, load']
  exact ⟨le_rfl, le_rfl, le_rfl, le_rfl, .inl (Nat.zero_le _), le_rfl⟩

theorem eventTurn (place : EventPlace) (move : EventMove) :
    EventTurn e place (eventAct e place move).1 (eventAct e place move).2.1
      (eventAct e place move).2.2 := by
  fun_cases eventAct e place move with
  -- calls and spinning
  | case1 | case13 => exact eventTurn_looking e rfl rfl
  | case2 | case4 | case5 | case14 | case16 => exact .went .rfl
  -- a wait
  | case6 timed =>
    dsimp only
    split_ifs with one_token
    · exact .went .rfl
    · exact eventTurn_waiting e timed rfl
  | case7 timed one_token =>
    have taken : (0 : Int) = e.val - 1 := by omega
    rw [taken]
    exact .took (by omega) rfl
  | case8 timed | case10 timed | case11 timed | case23 timed => exact eventTurn_waiting e timed rfl
  | case9 timed val same => exact .took (same.2 ▸ same.1) rfl
  | case12 timed => exact .registered e timed
  | case15 timed =>
    dsimp only
    split_ifs with no_token
    · exact .slept timed no_token
    · exact .went .rfl
  | case17 => exact eventTurn_risen e rfl (Nat.le_refl 1)
  | case18 => exact eventTurn_risen e rfl (Nat.zero_le 1)
  | case19 timed | case21 timed | case22 timed => exact eventTurn_undoing e timed rfl
  | case20 timed => exact .undone e timed e.waiters
  -- a signal to some
  | case24 count | case26 count | case27 count => exact eventTurn_taking e count rfl
  | case25 count => exact .collected e count e.waiters
  | case28 count | case30 count | case31 count => exact eventTurn_setting e count rfl
  | case29 count => exact .published e count e.val
  | case32 =>
    dsimp only
    split_ifs with some_waiter
    · exact .went ⟨le_rfl, le_rfl, Nat.zero_le _, le_rfl, .inl le_rfl, le_rfl⟩
    · exact .missed (by omega)
  | case33 count nwake => exact .woke e count nwake
  -- a signal to all
  | case3 | case34 | case35 | case36 | case37 | case39 | case47 | case51 => exact .sweeping rfl
  | case38 | case40 | case41 | case42 | case43 | case44 | case45 | case46 | case48 | case49 =>
    dsimp only [eventSettingAll, eventTakingLate, eventSettingLate]
    split_ifs <;> exact .sweeping rfl
  | case50 => exact .swept e
  -- a reset
  | case52 | case54 | case55 => exact eventTurn_resetting e rfl
  | case53 => exact .reset e e.val
  -- a move that a place has no use for changes nothing
  | case56 => exact .went .rfl

/-! ### Sleepers -/

/-- Everyone who is registered is counted, or was taken off the count by a signal that has yet to
wake. -/
def EventLoad.Counted (total : EventLoad) (e : Event) : Prop :=
  total.sleeps + total.pending ≤ e.waiters + total.taken

/-- Nobody sleeps, or a thread will wake everyone, or the sleepers are counted and there are no more
tokens than threads on their way to them, or as many wake-ups on their way as there are
sleepers. -/
def EventLoad.Attended (total : EventLoad) (e : Event) : Prop :=
  total.sleeps = 0 ∨ 0 < total.sweeps ∨
    total.Counted e ∧ 0 ≤ e.val ∧
      (e.val ≤ total.looks + total.owes ∨ total.sleeps ≤ total.taken)

/-- What all threads count for together changes by what one of them counts for before and after its
turn, and by the sleepers it wakes. -/
structure EventLoad.Shifts (total total' load load' : EventLoad) (woken : Nat) : Prop where
  sleeps : total'.sleeps + woken + load.sleeps = total.sleeps + load'.sleeps
  pending : total'.pending + load.pending = total.pending + load'.pending
  taken : total'.taken + load.taken = total.taken + load'.taken
  owes : total'.owes + load.owes = total.owes + load'.owes
  looks : total'.looks + load.looks = total.looks + load'.looks + woken
  sweeps : total'.sweeps + load.sweeps = total.sweeps + load'.sweeps
  own : load.sweeps ≤ total.sweeps

theorem EventTurn.attended {e e' : Event} {place' : EventPlace} {wake : Wake}
    {total total' : EventLoad} {woken : Nat} (moved : EventTurn e place e' place' wake)
    (shifts : total.Shifts total' place.load place'.load woken)
    (nobody : wake = .upTo 0 → woken = 0)
    (some_woken : ∀ nwake, wake = .upTo nwake → woken = min nwake total.sleeps ∨
      place.load.sleeps ≠ 0)
    (all_woken : wake = .all → total'.sleeps = place'.load.sleeps)
    (counted : place.load.sleeps = 0 → place'.load.sleeps = 1 → 0 < total.sweeps ∨ total.Counted e)
    (attended : total.Attended e) : total'.Attended e' := by
  obtain ⟨sleeps, pending, taken, owes, looks, sweeps, own⟩ := shifts
  unfold EventLoad.Attended EventLoad.Counted at *
  cases moved with
  | went eases =>
    obtain ⟨sleeps', pending', taken', owes', looks', sweeps'⟩ := eases
    omega
  | took some_token load =>
    rw [load] at sleeps pending taken owes looks sweeps
    simp only [EventPlace.load] at *
    omega
  | registered | undone | collected | missed | reset =>
    simp only [EventPlace.load] at *
    omega
  | slept =>
    have all_counted := counted rfl rfl
    simp only [EventPlace.load] at *
    omega
  | published =>
    split_ifs at * with some_taken no_token <;> simp only [EventPlace.load] at * <;> omega
  | woke count nwake =>
    have many := some_woken nwake rfl
    simp only [EventPlace.load] at *
    omega
  | sweeping load =>
    simp only [load] at sweeps
    right
    left
    omega
  | swept => exact .inl (all_woken rfl)

section

variable {ι : Type*} [Fintype ι]

/-- What all threads count for together. -/
def EventSystem.total (w : EventSystem ι) : EventLoad where
  sleeps := w.sleepers.length
  pending := census (fun place => (EventPlace.load place).pending) w.places
  taken := census (fun place => (EventPlace.load place).taken) w.places
  owes := census (fun place => (EventPlace.load place).owes) w.places
  looks := census (fun place => (EventPlace.load place).looks) w.places
  sweeps := census (fun place => (EventPlace.load place).sweeps) w.places

theorem EventPlace.load_asleep {place : EventPlace} (asleep : place.sleeps = true) :
    place.load = { sleeps := 1 } ∧ place.woken.load = { looks := 1 } := by
  cases place with
  | asleep => exact ⟨rfl, rfl⟩
  | _ => cases asleep

theorem EventPlace.load_sleeps (place : EventPlace) : place.load.sleeps = place.sleeps.toNat := by
  cases place <;> rfl

variable [DecidableEq ι]

theorem EventSystem.shifts (w : EventSystem ι) (turn : Turn ι EventMove) :
    w.total.Shifts (EventSystem.total (w.step turn)) (w.places turn.thread).load
      ((w.step turn).places turn.thread).load (w.wokenCount turn) := by
  have part (weight : EventLoad → Nat) :=
    Crowd.census_step (fun place : EventPlace => weight place.load)
      (fun place asleep => congrArg weight (EventPlace.load_asleep asleep).1)
      (fun place asleep => congrArg weight (EventPlace.load_asleep asleep).2) w turn
  rw [w.step_places_self]
  refine ⟨?_, ?_, ?_, ?_, ?_, ?_, ?_⟩
  · rw [EventPlace.load_sleeps, EventPlace.load_sleeps]
    exact w.length_sleepers_step turn
  · simpa [EventSystem.total] using part EventLoad.pending
  · simpa [EventSystem.total] using part EventLoad.taken
  · simpa [EventSystem.total] using part EventLoad.owes
  · simpa [EventSystem.total] using part EventLoad.looks
  · simpa [EventSystem.total] using part EventLoad.sweeps
  · exact weight_le_census (fun place => (EventPlace.load place).sweeps) w.places turn.thread

/-- A thread goes to sleep only while everyone who is registered is counted, or while a thread is on
its way that will wake everyone. -/
def EventSystem.SleepsCounted (w : EventSystem ι) (turn : Turn ι EventMove) : Prop :=
  (w.places turn.thread).sleeps = false → ((w.step turn).places turn.thread).sleeps = true →
    0 < w.total.sweeps ∨ w.total.Counted w.memory

theorem EventSystem.attended_step {w : EventSystem ι} {turn : Turn ι EventMove}
    (attended : w.total.Attended w.memory) (counted : w.SleepsCounted turn) :
    (EventSystem.total (w.step turn)).Attended (w.step turn).memory := by
  have moved : EventTurn w.memory (w.places turn.thread) (w.step turn).memory
      ((w.step turn).places turn.thread) (w.acts turn).2.2 := by
    rw [w.step_memory, w.step_places_self]
    exact eventTurn _ _ _
  refine moved.attended (EventSystem.shifts w turn) Crowd.wokenCount_zero ?_ ?_ ?_ attended
  · intro nwake wakes
    cases asleep : (w.places turn.thread).sleeps with
    | true => exact .inr (by rw [EventPlace.load_sleeps, asleep]; decide)
    | false => exact .inl (Crowd.wokenCount_upTo wakes asleep)
  · intro wakes
    rw [EventPlace.load_sleeps, w.step_places_self]
    exact Crowd.length_sleepers_all wakes
  · intro awake asleep
    rw [EventPlace.load_sleeps] at awake asleep
    exact counted (by simpa using awake) (by simpa using asleep)

def EventPlace.rests : EventPlace → Bool
  | .idle | .asleep _ => true
  | _ => false

theorem EventPlace.load_of_rests {place : EventPlace} (rests : place.rests = true) :
    place.load = {} ∨ place.load = { sleeps := 1 } := by
  cases place with
  | idle => exact .inl rfl
  | asleep => exact .inr rfl
  | _ => cases rests

/-- The event is signalled, nobody is awake inside a call, and somebody sleeps. -/
def EventSystem.Stranded (w : EventSystem ι) : Prop :=
  w.memory.val ≠ 0 ∧ (∀ thread, (w.places thread).rests = true) ∧
    ∃ thread, (w.places thread).sleeps = true

theorem EventSystem.not_stranded {ι : Type*} [Fintype ι] {w : EventSystem ι}
    (attended : w.total.Attended w.memory) : ¬ w.Stranded := by
  rintro ⟨signalled, rests, thread, asleep⟩
  have weightless (weight : EventLoad → Nat) (zero : weight {} = 0)
      (zero_asleep : weight { sleeps := 1 } = 0) :
      census (fun place : EventPlace => weight place.load) w.places = 0 := by
    refine census_eq_zero fun thread => ?_
    rcases EventPlace.load_of_rests (rests thread) with load | load
    · rw [load, zero]
    · rw [load, zero_asleep]
  have some_sleeper : 0 < w.total.sleeps :=
    List.length_pos_of_mem ((w.mem_sleepers thread).2 asleep)
  have no_sweep : w.total.sweeps = 0 := weightless EventLoad.sweeps rfl rfl
  have no_look : w.total.looks = 0 := weightless EventLoad.looks rfl rfl
  have no_debt : w.total.owes = 0 := weightless EventLoad.owes rfl rfl
  have none_taken : w.total.taken = 0 := weightless EventLoad.taken rfl rfl
  unfold EventLoad.Attended at attended
  omega

/-- A signalled event leaves nobody asleep, unless a thread went to sleep whose registration a
signal had taken already. -/
theorem event_not_stranded (turns : List (Turn ι EventMove))
    (counted : Admits Crowd.step EventSystem.SleepsCounted eventInit turns) :
    ¬ EventSystem.Stranded (run Crowd.step eventInit turns) :=
  EventSystem.not_stranded (admits_invariant (fun w : EventSystem ι => w.total.Attended w.memory)
    (.inl rfl) (fun _ _ => EventSystem.attended_step) counted)

instance (w : EventSystem ι) (turn : Turn ι EventMove) : Decidable (w.SleepsCounted turn) :=
  inferInstanceAs (Decidable (_ → _ → _ ∨ _ ≤ _))

instance (w : EventSystem ι) : Decidable w.Stranded :=
  inferInstanceAs (Decidable (_ ∧ _))

def eventCalls (thread : Fin 3) (call : EventMove) (steps : Nat) : List (Turn (Fin 3) EventMove) :=
  ⟨thread, call, []⟩ :: List.replicate steps ⟨thread, .go, []⟩

/-- The first thread falls asleep, and the second signals. -/
theorem event_not_stranded_two : Admits Crowd.step EventSystem.SleepsCounted eventInit
        (eventCalls 0 (.wait false) 3 ++ eventCalls 1 (.signalMany 1) 5) ∧
      ¬ EventSystem.Stranded (run Crowd.step eventInit
        (eventCalls 0 (.wait false) 3 ++ eventCalls 1 (.signalMany 1) 5)) := by
  have counted : Admits Crowd.step EventSystem.SleepsCounted eventInit
      (eventCalls 0 (.wait false) 3 ++ eventCalls 1 (.signalMany 1) 5) := by
    decide +kernel
  exact ⟨counted, event_not_stranded _ counted⟩

/-- The first thread registers.  The second signals it, but the third takes the token, so that the
first goes to sleep.  The second signals again and sees nobody to wake. -/
theorem event_stranded_three : EventSystem.Stranded (run Crowd.step eventInit
      (eventCalls 0 (.wait false) 2 ++ eventCalls 1 (.signalMany 1) 5 ++
        eventCalls 2 (.wait false) 2 ++ [⟨0, .go, []⟩] ++ eventCalls 1 (.signalMany 1) 4)) := by
  decide +kernel

end

end Cx.Thread
