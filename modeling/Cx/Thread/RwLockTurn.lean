import Cx.Thread.RwLock

/-!
# The moves of the reader-writer lock

A thread's place in the code says which part it plays for the others, and the lock's words are
five counts.  Every move of a thread is one of the turns of `RwTurn`, each of which changes the
counts and the thread's role together.

Two turns break the balance between tokens and waiters.  A reader that gives up after a releasing
writer has turned its registration into a read lock leaves that lock and its token behind, and a
writer that gives up as the last one waiting leaves behind the token it has been handed.
-/

namespace Cx.Thread

/-! ### Counts and roles -/

structure LockCount where
  readers : Nat
  readwait : Nat
  writers : Nat
  rftx : Nat
  wftx : Nat
deriving DecidableEq

def RWLock.count (l : RWLock) : LockCount :=
  { readers := (rwlockReaders l.state).toNat
    readwait := (rwlockReadwait l.state).toNat
    writers := (rwlockWriters l.state).toNat
    rftx := l.rftx
    wftx := l.wftx }

theorem count_rwlockInit :
    rwlockInit.count = { readers := 0, readwait := 0, writers := 0, rftx := 0, wftx := 0 } := by
  decide

inductive RwRole
  | outside
  | reader
  | readWaiter
  | writer
  | writeWaiter
  /-- It has let readers in and not yet added their tokens; a writer that stays on as a reader
  holds a read lock already. -/
  | grantingReaders (rwait : Nat) (downgrade : Bool)
  /-- It has left the lock to a waiting writer and not yet added the token. -/
  | grantingWriter
deriving DecidableEq

/-- The part played by a thread at a place of the code.  A lock is held from the step that takes
it to the step that gives it up. -/
def RwPlace.role : RwPlace → RwRole
  | .reading | .readRelease => .reader
  | .readLoad _ | .readTest _ _ | .readMissed _ _ | .readUndo _ => .readWaiter
  | .writing | .writeRelease _ | .writeReleaseSwap _ _ => .writer
  | .writeLoad _ | .writeTest _ _ | .writeMissed _ _ => .writeWaiter
  | .grantReaders downgrade rwait => .grantingReaders rwait downgrade
  | .grantWriter => .grantingWriter
  | _ => .outside

def RwRole.reads : RwRole → Nat
  | .reader | .grantingReaders _ true => 1
  | _ => 0

def RwRole.writes : RwRole → Nat
  | .writer => 1
  | _ => 0

def RwRole.readWaits : RwRole → Nat
  | .readWaiter => 1
  | _ => 0

def RwRole.writeWaits : RwRole → Nat
  | .writeWaiter => 1
  | _ => 0

def RwRole.readGrants : RwRole → Nat
  | .grantingReaders rwait _ => rwait
  | _ => 0

def RwRole.writeGrants : RwRole → Nat
  | .grantingWriter => 1
  | _ => 0

/-! ### What the steps do to the word -/

section Word

variable {l : RWLock} {n : Nat}

theorem RWLock.count_eq (l : RWLock) : l.count = ⟨l.state.toNat % 4096,
    l.state.toNat / 4096 % 2048, l.state.toNat / 8388608, l.rftx, l.wftx⟩ := by
  rw [RWLock.count, toNat_rwlockReaders, toNat_rwlockReadwait, toNat_rwlockWriters]

theorem count_readAdd (room : rwlockReaders l.state ≠ rwlockReaderMax) :
    RWLock.count { l with state := l.state + rwlockReadAdd } =
      { l.count with readers := l.count.readers + 1 } := by
  have bounded := l.state.toNat_lt
  have room_nat : (rwlockReaders l.state).toNat ≠ 4095 := fun full =>
    room (UInt32.toNat_inj.mp full)
  have added : (l.state + rwlockReadAdd).toNat = (l.state.toNat + 1) % 2 ^ 32 :=
    UInt32.toNat_add _ _
  simp only [toNat_rwlockReaders] at room_nat
  simp only [RWLock.count_eq, added, LockCount.mk.injEq, and_true]
  omega

theorem count_readwaitAdd (room : rwlockReadwait l.state ≠ rwlockReadwaitMax) :
    RWLock.count { l with state := l.state + rwlockReadwaitAdd } =
      { l.count with readwait := l.count.readwait + 1 } := by
  have bounded := l.state.toNat_lt
  have room_nat : (rwlockReadwait l.state).toNat ≠ 2047 := fun full =>
    room (UInt32.toNat_inj.mp full)
  have added : (l.state + rwlockReadwaitAdd).toNat = (l.state.toNat + 4096) % 2 ^ 32 :=
    UInt32.toNat_add _ _
  simp only [toNat_rwlockReadwait] at room_nat
  simp only [RWLock.count_eq, added, LockCount.mk.injEq, and_true]
  omega

theorem count_writeAdd (room : rwlockWriters l.state ≠ rwlockWriterMax) :
    RWLock.count { l with state := l.state + rwlockWriteAdd } =
      { l.count with writers := l.count.writers + 1 } := by
  have bounded := l.state.toNat_lt
  have room_nat : (rwlockWriters l.state).toNat ≠ 511 := fun full =>
    room (UInt32.toNat_inj.mp full)
  have added : (l.state + rwlockWriteAdd).toNat = (l.state.toNat + 8388608) % 2 ^ 32 :=
    UInt32.toNat_add _ _
  simp only [toNat_rwlockWriters] at room_nat
  simp only [RWLock.count_eq, added, LockCount.mk.injEq, and_true]
  omega

theorem count_readSub (counted : l.count.readers = n + 1) :
    RWLock.count { l with state := l.state - rwlockReadAdd } = { l.count with readers := n } := by
  have bounded := l.state.toNat_lt
  have subtracted : (l.state - rwlockReadAdd).toNat = (2 ^ 32 - 1 + l.state.toNat) % 2 ^ 32 :=
    UInt32.toNat_sub _ _
  simp only [RWLock.count_eq] at counted
  simp only [RWLock.count_eq, subtracted, LockCount.mk.injEq, and_true]
  omega

theorem count_readwaitSub (counted : l.count.readwait = n + 1) :
    RWLock.count { l with state := l.state - rwlockReadwaitAdd } =
      { l.count with readwait := n } := by
  have bounded := l.state.toNat_lt
  have subtracted : (l.state - rwlockReadwaitAdd).toNat =
      (2 ^ 32 - 4096 + l.state.toNat) % 2 ^ 32 := UInt32.toNat_sub _ _
  simp only [RWLock.count_eq] at counted
  simp only [RWLock.count_eq, subtracted, LockCount.mk.injEq, and_true]
  omega

theorem count_writeSub (counted : l.count.writers = n + 1) :
    RWLock.count { l with state := l.state - rwlockWriteAdd } =
      { l.count with writers := n } := by
  have bounded := l.state.toNat_lt
  have subtracted : (l.state - rwlockWriteAdd).toNat =
      (2 ^ 32 - 8388608 + l.state.toNat) % 2 ^ 32 := UInt32.toNat_sub _ _
  simp only [RWLock.count_eq] at counted
  simp only [RWLock.count_eq, subtracted, LockCount.mk.injEq, and_true]
  omega

/-- The bits above the writers' mask and a number below it do not overlap. -/
theorem toNat_mask_or (state low : UInt32) (small : low.toNat < 8388608) :
    ((state &&& 0xff800000) ||| low).toNat = state.toNat / 8388608 * 8388608 + low.toNat := by
  have writers_eq := toNat_rwlockWriters state
  change (state.toNat &&& 0xff800000) >>> 23 = _ at writers_eq
  have aligned : (state.toNat &&& 0xff800000) % 2 ^ 23 = 0 := by
    rw [← Nat.and_two_pow_sub_one_eq_mod, Nat.and_assoc]
    exact Nat.and_zero _
  have masked : state.toNat &&& 0xff800000 = (state.toNat / 8388608) <<< 23 := by
    rw [Nat.shiftLeft_eq]
    omega
  rw [UInt32.toNat_or, UInt32.toNat_and]
  change (state.toNat &&& 0xff800000) ||| low.toNat = _
  rw [masked, ← Nat.shiftLeft_add_eq_or_of_lt small, Nat.shiftLeft_eq]

/-- Letting the waiting readers in: they are counted as readers, whatever was there before. -/
theorem count_released_grant {downgrade : Bool} (counted : l.count.writers = n + 1)
    (grants : 0 < rwlockReadwait l.state ∨ downgrade = true) :
    RWLock.count { l with state := rwlockReleased downgrade l.state } =
      { l.count with
        readers := l.count.readwait + (if downgrade then 1 else 0)
        readwait := 0
        writers := n } := by
  have bounded := l.state.toNat_lt
  have waiting_lt : (rwlockReadwait l.state).toNat < 2048 := by
    rw [toNat_rwlockReadwait]
    omega
  have low_eq : (rwlockReadwait l.state + if downgrade then 1 else 0).toNat =
      (rwlockReadwait l.state).toNat + (if downgrade then 1 else 0) := by
    rw [UInt32.toNat_add]
    cases downgrade
    · simp only [Bool.false_eq_true, if_false, UInt32.toNat_zero]
      omega
    · simp only [if_true, UInt32.toNat_one]
      omega
  have low_lt : (rwlockReadwait l.state + if downgrade then 1 else 0).toNat < 8388608 := by
    rw [low_eq]
    split <;> omega
  have subtracted : (l.state - rwlockWriteAdd).toNat =
      (2 ^ 32 - 8388608 + l.state.toNat) % 2 ^ 32 := UInt32.toNat_sub _ _
  have released : (rwlockReleased downgrade l.state).toNat =
      n * 8388608 + ((rwlockReadwait l.state).toNat + (if downgrade then 1 else 0)) := by
    rw [rwlockReleased]
    simp only [if_pos grants]
    rw [toNat_mask_or _ _ low_lt, low_eq, subtracted]
    simp only [RWLock.count_eq] at counted
    have kept : (2 ^ 32 - 8388608 + l.state.toNat) % 2 ^ 32 / 8388608 = n := by omega
    rw [kept]
  simp only [RWLock.count, LockCount.mk.injEq, and_true, toNat_rwlockReaders,
    toNat_rwlockReadwait, toNat_rwlockWriters, released]
  cases downgrade
  · simp only [Bool.false_eq_true, if_false]
    omega
  · simp only [if_true]
    omega

/-- Leaving with no reader waiting: one writer fewer. -/
theorem count_released_plain {downgrade : Bool} (counted : l.count.writers = n + 1)
    (plain : ¬ (0 < rwlockReadwait l.state ∨ downgrade = true)) :
    RWLock.count { l with state := rwlockReleased downgrade l.state } =
      { l.count with writers := n } := by
  simp only [rwlockReleased, if_neg plain]
  exact count_writeSub counted

end Word

/-! ### What one move does -/

/-- What one move of a thread does to the counts and to its role.  The two turns that leave a
token without a waiter ask for the occasion on which the code takes them. -/
inductive RwTurn (forfeits withdraws : Prop) :
    LockCount → RwRole → LockCount → RwRole → Prop
  | still (c : LockCount) (role : RwRole) : RwTurn forfeits withdraws c role c role
  | readIn (c : LockCount) (no_writer : c.writers = 0) :
      RwTurn forfeits withdraws c .outside { c with readers := c.readers + 1 } .reader
  | readQueue (c : LockCount) :
      RwTurn forfeits withdraws c .outside { c with readwait := c.readwait + 1 } .readWaiter
  | readToken (c : LockCount) {n : Nat} (token : c.rftx = n + 1) :
      RwTurn forfeits withdraws c .readWaiter { c with rftx := n } .reader
  | readUndo (c : LockCount) {n : Nat} (registered : c.readwait = n + 1) :
      RwTurn forfeits withdraws c .readWaiter { c with readwait := n } .outside
  /-- A waiting reader leaves although there is no registration to take back. -/
  | forfeit (c : LockCount) (occasion : forfeits) :
      RwTurn forfeits withdraws c .readWaiter c .outside
  | writeIn (c : LockCount) (no_writer : c.writers = 0) (no_reader : c.readers = 0) :
      RwTurn forfeits withdraws c .outside { c with writers := c.writers + 1 } .writer
  | writeQueue (c : LockCount) :
      RwTurn forfeits withdraws c .outside { c with writers := c.writers + 1 } .writeWaiter
  | writeToken (c : LockCount) {n : Nat} (token : c.wftx = n + 1) :
      RwTurn forfeits withdraws c .writeWaiter { c with wftx := n } .writer
  | withdraw (c : LockCount) {n : Nat} (counted : c.writers = n + 1) (occasion : withdraws) :
      RwTurn forfeits withdraws c .writeWaiter { c with writers := n } .outside
  | readOut (c : LockCount) {n : Nat} (counted : c.readers = n + 1) :
      RwTurn forfeits withdraws c .reader { c with readers := n } .outside
  | readHand (c : LockCount) (last : c.readers = 1) (awaited : 0 < c.writers) :
      RwTurn forfeits withdraws c .reader { c with readers := 0 } .grantingWriter
  | writeOut (c : LockCount) (last : c.writers = 1) :
      RwTurn forfeits withdraws c .writer { c with writers := 0 } .outside
  | writeHand (c : LockCount) {n : Nat} (awaited : c.writers = n + 2) :
      RwTurn forfeits withdraws c .writer { c with writers := n + 1 } .grantingWriter
  /-- The writer lets the waiting readers in, and may stay on as one of them. -/
  | writeGrant (c : LockCount) {n : Nat} (downgrade : Bool) (counted : c.writers = n + 1) :
      RwTurn forfeits withdraws c .writer
        { c with
          readers := c.readwait + (if downgrade then 1 else 0)
          readwait := 0
          writers := n }
        (.grantingReaders c.readwait downgrade)
  | grantReaders (c : LockCount) (rwait : Nat) (downgrade : Bool) :
      RwTurn forfeits withdraws c (.grantingReaders rwait downgrade)
        { c with rftx := c.rftx + rwait } (if downgrade then .reader else .outside)
  | grantWriter (c : LockCount) :
      RwTurn forfeits withdraws c .grantingWriter { c with wftx := c.wftx + 1 } .outside

/-- A reader that gave up finds no registration to take back. -/
def RwPlace.forfeits : RwPlace → Bool
  | .readUndo state => rwlockReadwait state = 0
  | _ => false

/-- A writer waits in a state where its deadline may take it out of the queue. -/
def RwPlace.withdraws : RwPlace → Bool
  | .writeMissed timed _ => timed
  | _ => false

theorem toNat_pos_of_pos {x : UInt32} (positive : 0 < x) : 0 < x.toNat := by
  simpa [UInt32.lt_iff_toNat_lt] using positive

theorem eq_zero_of_not_pos {x : UInt32} (not_positive : ¬ 0 < x) : x = 0 := by
  rw [UInt32.lt_iff_toNat_lt] at not_positive
  exact UInt32.toNat_inj.mp (by simpa using not_positive)

section Turns

variable {forfeits withdraws : Prop} {l : RWLock} {fails : Bool}

/-- An exchange takes place, or nothing is changed. -/
theorem RwTurn.swap {role : RwRole} {state nstate : UInt32} {won lost : RWLock → RWLock × RwPlace}
    (swapped : l.state = state → RwTurn forfeits withdraws l.count role
      (won { l with state := nstate }).1.count (won { l with state := nstate }).2.role)
    (failed : RwTurn forfeits withdraws l.count role (lost l).1.count (lost l).2.role) :
    let next := match l.swap fails state nstate with
      | (true, l) => won l
      | (false, l) => lost l
    RwTurn forfeits withdraws l.count role next.1.count next.2.role := by
  unfold RWLock.swap
  split_ifs with same
  · exact swapped same.1
  · exact failed

variable (place : RwPlace)

theorem turn_rwlockAccess (reader_counted : place.role = .reader → 0 < l.count.readers) :
    RwTurn (place.forfeits = true) withdraws l.count place.role
      (rwlockAccess l fails place).1.count (rwlockAccess l fails place).2.role := by
  cases place with
  | tryReadSwap state =>
    dsimp only [rwlockAccess]
    split_ifs with no_writer room
    · exact .still _ _
    · refine .swap ?_ (.still _ _)
      rintro rfl
      rw [count_readAdd room]
      exact .readIn _ (by simp [RWLock.count, no_writer])
    · exact .still _ _
  | tryWriteSwap state =>
    dsimp only [rwlockAccess]
    split_ifs with opened room
    · exact .still _ _
    · refine .swap ?_ (.still _ _)
      rintro rfl
      rw [count_writeAdd room]
      exact .writeIn _ (by simp [RWLock.count, opened.1]) (by simp [RWLock.count, opened.2])
    · exact .still _ _
  | readRegister timed state =>
    dsimp only [rwlockAccess]
    split_ifs with some_writer room room
    · exact .still _ _
    · refine .swap ?_ (.still _ _)
      rintro rfl
      rw [count_readwaitAdd room]
      exact .readQueue _
    · exact .still _ _
    · refine .swap ?_ (.still _ _)
      rintro rfl
      rw [count_readAdd room]
      exact .readIn _ (by simp [RWLock.count, eq_zero_of_not_pos some_writer])
  | readTest timed rval =>
    dsimp only [rwlockAccess]
    split_ifs with none taken
    · exact .still _ _
    · exact .readToken l.count (by simp only [RWLock.count]; omega)
    · exact .still _ _
  | writeTest timed wval =>
    dsimp only [rwlockAccess]
    split_ifs with none taken
    · exact .still _ _
    · exact .writeToken l.count (by simp only [RWLock.count]; omega)
    · exact .still _ _
  | readMissed | writeMissed =>
    dsimp only [rwlockAccess]
    split_ifs <;> exact .still _ _
  | readUndo state =>
    dsimp only [rwlockAccess]
    split_ifs with registered
    · refine .swap ?_ (.still _ _)
      rintro rfl
      obtain ⟨n, counted⟩ := Nat.exists_eq_add_of_lt (toNat_pos_of_pos registered)
      have counted : l.count.readwait = n + 1 := by simp only [RWLock.count]; omega
      rw [count_readwaitSub counted]
      exact .readUndo _ counted
    · exact .forfeit _ (decide_eq_true (eq_zero_of_not_pos registered))
  | writeFast timed state =>
    dsimp only [rwlockAccess]
    split_ifs with opened
    · refine .swap ?_ (.still _ _)
      rintro rfl
      have room : rwlockWriters l.state ≠ rwlockWriterMax := by rw [opened.1]; decide
      rw [count_writeAdd room]
      exact .writeIn _ (by simp [RWLock.count, opened.1]) (by simp [RWLock.count, opened.2])
    · exact .still _ _
  | writeRegister timed state =>
    dsimp only [rwlockAccess]
    split
    · exact .still _ _
    · next room =>
        refine .swap ?_ (.still _ _)
        rintro rfl
        split_ifs with others
        · rw [count_writeAdd room]
          exact .writeQueue _
        · rw [count_writeAdd room]
          exact .writeIn _
            (by simp [RWLock.count, eq_zero_of_not_pos fun other => others (.inr other)])
            (by simp [RWLock.count, eq_zero_of_not_pos fun other => others (.inl other)])
  | readRelease =>
    obtain ⟨n, readers_eq⟩ := Nat.exists_eq_add_of_lt (reader_counted rfl)
    dsimp only [rwlockAccess]
    split_ifs with last
    · have readers_one : l.count.readers = 0 + 1 := congrArg UInt32.toNat last.1
      rw [count_readSub readers_one]
      exact .readHand _ readers_one (toNat_pos_of_pos last.2)
    · have readers_eq : l.count.readers = n + 1 := by omega
      rw [count_readSub readers_eq]
      exact .readOut _ readers_eq
  | writeReleaseSwap downgrade state =>
    dsimp only [rwlockAccess]
    split
    · exact .still _ _
    · next some_writer =>
        refine .swap ?_ (.still _ _)
        rintro rfl
        obtain ⟨n, writers_eq⟩ : ∃ n, l.count.writers = n + 1 :=
          Nat.exists_eq_succ_of_ne_zero fun none => some_writer (UInt32.toNat_inj.mp none)
        split_ifs with grants awaited
        · rw [count_released_grant writers_eq grants]
          exact .writeGrant _ downgrade writers_eq
        · have awaited_nat : 1 < l.count.writers := by
            simpa [RWLock.count, UInt32.lt_iff_toNat_lt] using awaited
          have writers_eq : l.count.writers = n - 1 + 2 := by omega
          rw [count_released_plain writers_eq grants]
          exact .writeHand _ writers_eq
        · have alone_nat : ¬ 1 < l.count.writers := by
            simpa [RWLock.count, UInt32.lt_iff_toNat_lt] using awaited
          have writers_eq : l.count.writers = 0 + 1 := by omega
          rw [count_released_plain writers_eq grants]
          exact .writeOut _ writers_eq
  | grantReaders downgrade rwait =>
    have granted : RwTurn (RwPlace.forfeits (.grantReaders downgrade rwait) = true) withdraws
      l.count (.grantingReaders rwait downgrade) _ _ := .grantReaders l.count rwait downgrade
    cases downgrade <;> exact granted
  | grantWriter => exact .grantWriter _
  | idle | reading | writing | tryRead | tryWrite | readEnter | readLoad | writeEnter
  | writeLoad | writeRelease => exact .still _ _

theorem turn_rwlockExpire (writer_counted : place.role = .writeWaiter → 0 < l.count.writers) :
    RwTurn forfeits (place.withdraws = true) l.count place.role
      (rwlockExpire l place).1.count (rwlockExpire l place).2.role := by
  unfold rwlockExpire
  split
  · exact .still _ _
  · obtain ⟨n, writers_eq⟩ := Nat.exists_eq_add_of_lt (writer_counted rfl)
    have writers_eq : l.count.writers = n + 1 := by omega
    rw [count_writeSub writers_eq]
    exact .withdraw _ writers_eq rfl
  · exact .still _ _

def RwPlace.ForfeitsOn (place : RwPlace) (move : RwMove) : Prop :=
  (move = .go ∨ move = .spurious) ∧ place.forfeits = true

def RwPlace.WithdrawsOn (place : RwPlace) (move : RwMove) : Prop :=
  move = .expire ∧ place.withdraws = true

instance (place : RwPlace) (move : RwMove) : Decidable (place.ForfeitsOn move) :=
  inferInstanceAs (Decidable (_ ∧ _))

instance (place : RwPlace) (move : RwMove) : Decidable (place.WithdrawsOn move) :=
  inferInstanceAs (Decidable (_ ∧ _))

theorem turn_rwlockThread (move : RwMove)
    (reader_counted : place.role = .reader → 0 < l.count.readers)
    (writer_counted : place.role = .writeWaiter → 0 < l.count.writers) :
    RwTurn (place.ForfeitsOn move) (place.WithdrawsOn move) l.count place.role
      (rwlockThread l place move).1.count (rwlockThread l place move).2.role := by
  cases move with
  | call =>
    dsimp only [rwlockThread]
    fun_cases rwlockCall <;> exact .still _ _
  | go | spurious =>
    simpa [rwlockThread, RwPlace.ForfeitsOn] using turn_rwlockAccess place reader_counted
  | expire => simpa [rwlockThread, RwPlace.WithdrawsOn] using turn_rwlockExpire place writer_counted

end Turns

end Cx.Thread
