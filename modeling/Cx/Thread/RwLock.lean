import Cx.Library.Run
import Mathlib.Logic.Function.Basic

/-!
# The reader-writer lock

`RWLock` packs three counts into one atomic word and keeps two more words, `rftx` and `wftx`, on
which waiters sleep.  A release swaps the word and then, in a step of its own, puts a token into one
of them; a waiter that takes the token has the lock.

The atomics are sequentially consistent, so an execution is an interleaving of accesses: the
scheduler picks a thread, whether its weak exchange fails, and whether its deadline has passed.  A
thread in `futexWait` is one the scheduler does not pick.  The adaptive spinning only decides how
long that lasts and is left out.
-/

namespace Cx.Thread

def rwlockReaderMax : UInt32 := 4095

def rwlockReadwaitMax : UInt32 := 2047

/-- `RWLOCK_WRITER_MAX`, active and pending -/
def rwlockWriterMax : UInt32 := 511

def rwlockReaders (state : UInt32) : UInt32 := state &&& 0x00000fff

def rwlockReadwait (state : UInt32) : UInt32 := (state &&& 0x007ff000) >>> 12

def rwlockWriters (state : UInt32) : UInt32 := (state &&& 0xff800000) >>> 23

def rwlockReadAdd : UInt32 := 0x00000001

def rwlockReadwaitAdd : UInt32 := 0x00001000

def rwlockWriteAdd : UInt32 := 0x00800000

/-- The shared words of a lock.  The token counts are never taken below zero, because a waiter
only takes from one it has seen to be nonzero. -/
structure RWLock where
  state : UInt32
  rftx : Nat
  wftx : Nat
deriving DecidableEq, Repr

def rwlockInit : RWLock := { state := 0, rftx := 0, wftx := 0 }

/-- The word a release of the write lock swaps in: one writer fewer, and if readers wait, or the
writer stays on as a reader, the waiting readers turned into readers. -/
def rwlockReleased (downgrade : Bool) (state : UInt32) : UInt32 :=
  let nstate := state - rwlockWriteAdd
  let rwait := rwlockReadwait state
  if 0 < rwait ∨ downgrade = true then
    (nstate &&& 0xff800000) ||| (rwait + if downgrade then 1 else 0)
  else nstate

inductive RwOp
  /-- `rwlockTryAcquireRead` -/
  | tryAcquireRead
  /-- `rwlockTryAcquireWrite` -/
  | tryAcquireWrite
  /-- `rwlockTryAcquireReadTimeout`; with no deadline it is `rwlockAcquireRead`. -/
  | acquireRead (timed : Bool)
  /-- `rwlockTryAcquireWriteTimeout`; with no deadline it is `rwlockAcquireWrite`. -/
  | acquireWrite (timed : Bool)
  /-- `rwlockReleaseRead` -/
  | releaseRead
  /-- `rwlockReleaseWrite` -/
  | releaseWrite
  /-- `rwlockDowngradeWrite` -/
  | downgradeWrite
deriving DecidableEq, Repr

/-- Where a thread stands: outside the lock's code, or before its next access to shared memory
with the values its local variables have there. -/
inductive RwPlace
  | idle
  | reading
  | writing
  | tryRead
  | tryReadSwap (state : UInt32)
  | tryWrite
  | tryWriteSwap (state : UInt32)
  | readEnter (timed : Bool)
  | readRegister (timed : Bool) (state : UInt32)
  | readLoad (timed : Bool)
  | readTest (timed : Bool) (rval : Nat)
  | readMissed (timed : Bool) (rval : Nat)
  | readUndo (state : UInt32)
  | writeEnter (timed : Bool)
  | writeFast (timed : Bool) (state : UInt32)
  | writeRegister (timed : Bool) (state : UInt32)
  | writeLoad (timed : Bool)
  | writeTest (timed : Bool) (wval : Nat)
  | writeMissed (timed : Bool) (wval : Nat)
  | readRelease
  | writeRelease (downgrade : Bool)
  | writeReleaseSwap (downgrade : Bool) (state : UInt32)
  /-- Release of the write lock: add a token for each reader let in. -/
  | grantReaders (downgrade : Bool) (rwait : Nat)
  /-- Release of either lock: add a token for one waiting writer. -/
  | grantWriter
deriving DecidableEq, Repr

inductive RwMove
  | call (op : RwOp)
  | go
  /-- Make it, but have a weak exchange fail although the value matched. -/
  | spurious
  /-- Find, at the check in a wait loop, that the deadline has passed. -/
  | expire
deriving DecidableEq, Repr

/-- Where a call takes a thread.  Calls are correctly paired: a thread acquires while it holds
nothing and releases what it holds. -/
def rwlockCall : RwPlace → RwOp → RwPlace
  | .idle, .tryAcquireRead => .tryRead
  | .idle, .tryAcquireWrite => .tryWrite
  | .idle, .acquireRead timed => .readEnter timed
  | .idle, .acquireWrite timed => .writeEnter timed
  | .reading, .releaseRead => .readRelease
  | .writing, .releaseWrite => .writeRelease false
  | .writing, .downgradeWrite => .writeRelease true
  | place, _ => place

/-- A compare-and-exchange on the state: whether it took place, and the lock after it. -/
def RWLock.swap (l : RWLock) (fails : Bool) (state nstate : UInt32) : Bool × RWLock :=
  if l.state = state ∧ fails = false then (true, { l with state := nstate }) else (false, l)

/-- The next access of a thread to shared memory, with the tests on its own variables that come
before it; `fails` makes a weak exchange fail. -/
def rwlockAccess (l : RWLock) (fails : Bool) : RwPlace → RWLock × RwPlace
  | .tryRead => (l, .tryReadSwap l.state)
  | .tryReadSwap state =>
    -- only valid when no writer locks are held or pending
    if rwlockWriters state = 0 then
      if rwlockReaders state = rwlockReaderMax then (l, .idle)
      else
        -- a strong exchange does not fail by itself
        match l.swap false state (state + rwlockReadAdd) with
        | (true, l) => (l, .reading)
        | (false, l) => (l, .idle)
    else (l, .idle)
  | .tryWrite => (l, .tryWriteSwap l.state)
  | .tryWriteSwap state =>
    if rwlockWriters state = 0 ∧ rwlockReaders state = 0 then
      if rwlockWriters state = rwlockWriterMax then (l, .idle)
      else
        match l.swap false state (state + rwlockWriteAdd) with
        | (true, l) => (l, .writing)
        | (false, l) => (l, .idle)
    else (l, .idle)
  | .readEnter timed => (l, .readRegister timed l.state)
  | .readRegister timed state =>
    if 0 < rwlockWriters state then
      -- if there are any writers we must go into readwait state
      if rwlockReadwait state = rwlockReadwaitMax then (l, .idle)
      else
        match l.swap fails state (state + rwlockReadwaitAdd) with
        | (true, l) => (l, .readLoad timed)
        | (false, l) => (l, .readRegister timed l.state)
    else
      if rwlockReaders state = rwlockReaderMax then (l, .idle)
      else
        match l.swap fails state (state + rwlockReadAdd) with
        | (true, l) => (l, .reading)
        | (false, l) => (l, .readRegister timed l.state)
  | .readLoad timed => (l, .readTest timed l.rftx)
  | .readTest timed rval =>
    if rval = 0 then (l, .readMissed timed rval)
    else if l.rftx = rval ∧ fails = false then ({ l with rftx := rval - 1 }, .reading)
    else (l, .readMissed timed l.rftx)
  | .readMissed timed rval =>
    -- the deadline has not passed: wait for a token, or try again for the one that was seen
    if rval = 0 then (l, .readTest timed l.rftx) else (l, .readTest timed rval)
  | .readUndo state =>
    if 0 < rwlockReadwait state then
      match l.swap fails state (state - rwlockReadwaitAdd) with
      | (true, l) => (l, .idle)
      | (false, l) => (l, .readUndo l.state)
    else (l, .idle)
  | .writeEnter timed => (l, .writeFast timed l.state)
  | .writeFast timed state =>
    if rwlockWriters state = 0 ∧ rwlockReaders state = 0 then
      match l.swap false state (state + rwlockWriteAdd) with
      | (true, l) => (l, .writing)
      | (false, l) => (l, .writeRegister timed l.state)
    else (l, .writeRegister timed state)
  | .writeRegister timed state =>
    if rwlockWriters state = rwlockWriterMax then (l, .idle)
    else
      match l.swap fails state (state + rwlockWriteAdd) with
      | (true, l) =>
        -- if there were any other readers or writers we must wait on them
        if 0 < rwlockReaders state ∨ 0 < rwlockWriters state then (l, .writeLoad timed)
        else (l, .writing)
      | (false, l) => (l, .writeRegister timed l.state)
  | .writeLoad timed => (l, .writeTest timed l.wftx)
  | .writeTest timed wval =>
    if wval = 0 then (l, .writeMissed timed wval)
    else if l.wftx = wval ∧ fails = false then ({ l with wftx := wval - 1 }, .writing)
    else (l, .writeMissed timed l.wftx)
  | .writeMissed timed wval =>
    if wval = 0 then (l, .writeTest timed l.wftx) else (l, .writeTest timed wval)
  | .readRelease =>
    let oldstate := l.state
    let l := { l with state := oldstate - rwlockReadAdd }
    -- if we were the last reader and any writers are waiting, unblock one
    if rwlockReaders oldstate = 1 ∧ 0 < rwlockWriters oldstate then (l, .grantWriter)
    else (l, .idle)
  | .writeRelease downgrade => (l, .writeReleaseSwap downgrade l.state)
  | .writeReleaseSwap downgrade state =>
    if rwlockWriters state = 0 then (l, .writing)
    else
      let rwait := rwlockReadwait state
      match l.swap fails state (rwlockReleased downgrade state) with
      | (true, l) =>
        -- waiting readers get priority over writers so that they take turns
        if 0 < rwait ∨ downgrade = true then (l, .grantReaders downgrade rwait.toNat)
        else if 1 < rwlockWriters state then (l, .grantWriter)
        else (l, .idle)
      | (false, l) => (l, .writeReleaseSwap downgrade l.state)
  | .grantReaders downgrade rwait =>
    ({ l with rftx := l.rftx + rwait }, if downgrade then .reading else .idle)
  | .grantWriter => ({ l with wftx := l.wftx + 1 }, .idle)
  | place => (l, place)

/-- What a thread does once the deadline has passed: a reader loads the state to take its
registration back, a writer subtracts its own. -/
def rwlockExpire (l : RWLock) : RwPlace → RWLock × RwPlace
  | .readMissed true _ => (l, .readUndo l.state)
  | .writeMissed true _ => ({ l with state := l.state - rwlockWriteAdd }, .idle)
  | place => (l, place)

def rwlockThread (l : RWLock) (place : RwPlace) : RwMove → RWLock × RwPlace
  | .call op => (l, rwlockCall place op)
  | .go => rwlockAccess l false place
  | .spurious => rwlockAccess l true place
  | .expire => rwlockExpire l place

structure RwSystem (ι : Type*) where
  lock : RWLock
  threads : ι → RwPlace

def RwSystem.init {ι : Type*} : RwSystem ι := { lock := rwlockInit, threads := fun _ => .idle }

def rwlockStep {ι : Type*} [DecidableEq ι] (s : RwSystem ι) (turn : ι × RwMove) : RwSystem ι :=
  let after := rwlockThread s.lock (s.threads turn.1) turn.2
  { lock := after.1, threads := Function.update s.threads turn.1 after.2 }

/-! ### The packed counts -/

variable (state : UInt32)

theorem toNat_rwlockReaders : (rwlockReaders state).toNat = state.toNat % 4096 := by
  rw [rwlockReaders, UInt32.toNat_and]
  exact Nat.and_two_pow_sub_one_eq_mod state.toNat 12

theorem toNat_rwlockReadwait : (rwlockReadwait state).toNat = state.toNat / 4096 % 2048 := by
  rw [rwlockReadwait, UInt32.toNat_shiftRight, UInt32.toNat_and]
  rw [Nat.shiftRight_and_distrib, Nat.shiftRight_eq_div_pow]
  exact Nat.and_two_pow_sub_one_eq_mod (state.toNat / 2 ^ 12) 11

theorem toNat_rwlockWriters : (rwlockWriters state).toNat = state.toNat / 8388608 := by
  have bounded := state.toNat_lt
  rw [rwlockWriters, UInt32.toNat_shiftRight, UInt32.toNat_and]
  rw [Nat.shiftRight_and_distrib, Nat.shiftRight_eq_div_pow]
  have masked := Nat.and_two_pow_sub_one_eq_mod (state.toNat / 2 ^ 23) 9
  change state.toNat / 2 ^ 23 &&& 511 = _ at masked
  change state.toNat / 2 ^ 23 &&& 511 = _
  omega

end Cx.Thread
