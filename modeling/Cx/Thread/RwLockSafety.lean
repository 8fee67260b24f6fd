import Cx.Library.Census
import Cx.Thread.RwLockTurn

/-!
# Who holds the reader-writer lock

The lock's counts are sums over the parts the threads play.  Each turn keeps these sums, a writer's
withdrawal as long as another writer is there to take the token that is out, a reader's as long as
its registration is still there to be taken back.
-/

namespace Cx.Thread

open Cx.Library

/-! ### The balance -/


section Balance

variable {ι : Type*} [Fintype ι]

def RwSystem.total (s : RwSystem ι) (weight : RwRole → Nat) : Nat :=
  census (fun place : RwPlace => weight place.role) s.threads

structure RwSystem.Sound (s : RwSystem ι) : Prop where
  /-- A counted reader holds the lock, has a token waiting or is about to get one. -/
  readers_eq : s.lock.count.readers = s.total RwRole.reads + s.lock.rftx + s.total RwRole.readGrants
  writers_eq : s.lock.count.writers = s.total RwRole.writes + s.total RwRole.writeWaits
  single : s.total RwRole.writes + s.lock.wftx + s.total RwRole.writeGrants ≤ 1
  alone : 0 < s.total RwRole.writes + s.lock.wftx + s.total RwRole.writeGrants →
    s.lock.count.readers = 0
  awaited : s.lock.wftx + s.total RwRole.writeGrants ≤ s.total RwRole.writeWaits

/-- A waiting reader is registered, has a token waiting or is about to get one. -/
def RwSystem.ReadersBalanced (s : RwSystem ι) : Prop :=
  s.lock.count.readwait + s.lock.rftx + s.total RwRole.readGrants = s.total RwRole.readWaits

theorem RwSystem.weight_le_total (s : RwSystem ι) (thread : ι) (weight : RwRole → Nat) :
    weight (s.threads thread).role ≤ s.total weight :=
  weight_le_census (fun place : RwPlace => weight place.role) s.threads thread

omit [Fintype ι] in
theorem RwSystem.lock_init : (RwSystem.init : RwSystem ι).lock = rwlockInit := rfl

theorem RwSystem.total_init (weight : RwRole → Nat) (weightless : weight .outside = 0) :
    (RwSystem.init : RwSystem ι).total weight = 0 :=
  census_eq_zero fun _ => weightless

theorem RwSystem.sound_init : (RwSystem.init : RwSystem ι).Sound := by
  have reads := total_init (ι := ι) RwRole.reads rfl
  have writes := total_init (ι := ι) RwRole.writes rfl
  have write_waits := total_init (ι := ι) RwRole.writeWaits rfl
  have read_grants := total_init (ι := ι) RwRole.readGrants rfl
  have write_grants := total_init (ι := ι) RwRole.writeGrants rfl
  constructor <;> simp only [reads, writes, write_waits, read_grants, write_grants, lock_init,
      count_rwlockInit] <;> decide

theorem RwSystem.readersBalanced_init : (RwSystem.init : RwSystem ι).ReadersBalanced := by
  have read_waits := total_init (ι := ι) RwRole.readWaits rfl
  have read_grants := total_init (ι := ι) RwRole.readGrants rfl
  simp only [ReadersBalanced, read_waits, read_grants, lock_init, count_rwlockInit]
  decide

variable [DecidableEq ι]

/-- The writers given leave to wait exceed the tokens on their way when one of them gives up. -/
def RwSystem.WithdrawsCovered (s : RwSystem ι) (turn : ι × RwMove) : Prop :=
  (s.threads turn.1).WithdrawsOn turn.2 →
    s.lock.wftx + s.total RwRole.writeGrants < s.total RwRole.writeWaits

theorem RwSystem.total_step (s : RwSystem ι) (turn : ι × RwMove) (weight : RwRole → Nat) :
    (rwlockStep s turn).total weight + weight (s.threads turn.1).role = s.total weight +
        weight (rwlockThread s.lock (s.threads turn.1) turn.2).2.role :=
  census_update (fun place : RwPlace => weight place.role) s.threads turn.1 _

/-- A move of a thread is a turn of the system's counts. -/
theorem RwSystem.Sound.turn {s : RwSystem ι} (sound : s.Sound) (turn : ι × RwMove) :
    RwTurn ((s.threads turn.1).ForfeitsOn turn.2) ((s.threads turn.1).WithdrawsOn turn.2)
      s.lock.count (s.threads turn.1).role (rwlockStep s turn).lock.count
      (rwlockThread s.lock (s.threads turn.1) turn.2).2.role := by
  refine turn_rwlockThread _ _ (fun reader => ?_) (fun waiter => ?_)
  · have counted := s.weight_le_total turn.1 RwRole.reads
    have held := sound.readers_eq
    rw [reader] at counted
    simp only [RwRole.reads] at counted
    omega
  · have counted := s.weight_le_total turn.1 RwRole.writeWaits
    have held := sound.writers_eq
    rw [waiter] at counted
    simp only [RwRole.writeWaits] at counted
    omega

theorem rftx_count (l : RWLock) : l.count.rftx = l.rftx := rfl

theorem wftx_count (l : RWLock) : l.count.wftx = l.wftx := rfl

/-- Every move keeps readers and writers apart, a writer's withdrawal if it is covered. -/
theorem RwSystem.Sound.step {s : RwSystem ι} (sound : s.Sound) (turn : ι × RwMove)
    (covered : s.WithdrawsCovered turn) : (rwlockStep s turn).Sound := by
  have reads := s.total_step turn RwRole.reads
  have writes := s.total_step turn RwRole.writes
  have write_waits := s.total_step turn RwRole.writeWaits
  have read_grants := s.total_step turn RwRole.readGrants
  have write_grants := s.total_step turn RwRole.writeGrants
  have moved := sound.turn turn
  obtain ⟨readers_eq, writers_eq, single, alone, awaited⟩ := sound
  unfold RwSystem.WithdrawsCovered at covered
  simp only [← rftx_count, ← wftx_count] at readers_eq writers_eq single alone awaited covered
  generalize (rwlockThread s.lock (s.threads turn.1) turn.2).2.role = role_after at *
  generalize (s.threads turn.1).role = role_before at *
  suffices balanced : _ ∧ _ ∧ _ ∧ _ ∧ _ from
    ⟨balanced.1, balanced.2.1, balanced.2.2.1, balanced.2.2.2.1, balanced.2.2.2.2⟩
  simp only [← rftx_count, ← wftx_count]
  generalize (rwlockStep s turn).lock.count = after at *
  generalize s.lock.count = before at *
  cases moved with
  | withdraw counted occasion =>
    -- one waiting writer fewer: the tokens must still have takers
    have takers := covered occasion
    simp only [RwRole.reads, RwRole.writes, RwRole.writeWaits, RwRole.readGrants,
      RwRole.writeGrants] at *
    omega
  | writeGrant downgrade | grantReaders rwait downgrade =>
    cases downgrade <;> simp only [RwRole.reads, RwRole.writes, RwRole.writeWaits,
      RwRole.readGrants, RwRole.writeGrants, Bool.false_eq_true, if_false, if_true] at * <;>
      omega
  | readHand =>
    -- a reader was counted, so no write lock was out and no token was on its way
    simp only [RwRole.reads, RwRole.writes, RwRole.writeWaits, RwRole.readGrants,
      RwRole.writeGrants] at *
    exact ⟨by omega, by omega, by omega, fun _ => trivial, by omega⟩
  | _ =>
    simp only [RwRole.reads, RwRole.writes, RwRole.writeWaits, RwRole.readGrants,
      RwRole.writeGrants] at *
    omega

/-- A reader that gives up still finds a registration to take back. -/
def RwSystem.ForfeitsNothing (s : RwSystem ι) (turn : ι × RwMove) : Prop :=
  ¬ (s.threads turn.1).ForfeitsOn turn.2

/-- Every move keeps waiting readers and their tokens in step, unless a reader forfeits one. -/
theorem RwSystem.Sound.readersBalanced_step {s : RwSystem ι} (sound : s.Sound)
    (balanced : s.ReadersBalanced) (turn : ι × RwMove) (kept : s.ForfeitsNothing turn) :
    (rwlockStep s turn).ReadersBalanced := by
  have read_waits := s.total_step turn RwRole.readWaits
  have read_grants := s.total_step turn RwRole.readGrants
  have moved := sound.turn turn
  clear sound
  unfold RwSystem.ReadersBalanced at *
  unfold RwSystem.ForfeitsNothing at kept
  simp only [← rftx_count] at *
  generalize (rwlockThread s.lock (s.threads turn.1) turn.2).2.role = role_after at *
  generalize (s.threads turn.1).role = role_before at *
  generalize (rwlockStep s turn).lock.count = after at *
  generalize s.lock.count = before at *
  cases moved with
  | forfeit occasion => exact absurd occasion kept
  | writeGrant =>
    simp only [RwRole.readWaits, RwRole.readGrants] at *
    omega
  | grantReaders rwait downgrade =>
    cases downgrade <;> simp only [RwRole.readWaits, RwRole.readGrants, Bool.false_eq_true,
      if_false, if_true] at * <;> omega
  | _ =>
    simp only [RwRole.readWaits, RwRole.readGrants] at *
    omega

theorem RwSystem.sound_run {turns : List (ι × RwMove)}
    (covered : Admits rwlockStep RwSystem.WithdrawsCovered RwSystem.init turns) :
    (run rwlockStep RwSystem.init turns).Sound :=
  admits_invariant RwSystem.Sound RwSystem.sound_init
    (fun _ turn sound allowed => sound.step turn allowed) covered

def RwSystem.GivesUpCleanly (s : RwSystem ι) (turn : ι × RwMove) : Prop :=
  s.WithdrawsCovered turn ∧ s.ForfeitsNothing turn

theorem RwSystem.balanced_run {turns : List (ι × RwMove)}
    (clean : Admits rwlockStep RwSystem.GivesUpCleanly RwSystem.init turns) :
    (run rwlockStep RwSystem.init turns).Sound ∧
      (run rwlockStep RwSystem.init turns).ReadersBalanced :=
  admits_invariant (fun s : RwSystem ι => s.Sound ∧ s.ReadersBalanced)
    ⟨RwSystem.sound_init, RwSystem.readersBalanced_init⟩
    (fun _ turn good allowed => ⟨good.1.step turn allowed.1,
      good.1.readersBalanced_step good.2 turn allowed.2⟩) clean

end Balance

/-! ### Exclusion -/

def RwPlace.HoldsWrite (place : RwPlace) : Prop := place.role.writes = 1

def RwPlace.HoldsRead (place : RwPlace) : Prop := place.role.reads = 1

instance (place : RwPlace) : Decidable place.HoldsWrite :=
  inferInstanceAs (Decidable (_ = _))

instance (place : RwPlace) : Decidable place.HoldsRead :=
  inferInstanceAs (Decidable (_ = _))

section Results

variable {ι : Type*} [Fintype ι] [DecidableEq ι]

instance (s : RwSystem ι) (turn : ι × RwMove) : Decidable (s.WithdrawsCovered turn) :=
  inferInstanceAs (Decidable (_ → _))

instance (s : RwSystem ι) (turn : ι × RwMove) : Decidable (s.GivesUpCleanly turn) :=
  inferInstanceAs (Decidable (_ ∧ ¬ _))

/-- No thread holds the lock beside one that holds it for writing. -/
def RwSystem.Exclusive (s : RwSystem ι) : Prop :=
  ∀ writer other, other ≠ writer → (s.threads writer).HoldsWrite →
    ¬ (s.threads other).HoldsWrite ∧ ¬ (s.threads other).HoldsRead

theorem RwSystem.Sound.exclusive {s : RwSystem ι} (sound : s.Sound) : s.Exclusive := by
  intro writer other distinct writes
  refine ⟨fun writes_too => ?_, fun reads => ?_⟩
  · have both := add_weight_le_census (fun place : RwPlace => place.role.writes) s.threads distinct
    have single := sound.single
    rw [writes, writes_too] at both
    change 1 + 1 ≤ s.total RwRole.writes at both
    omega
  · have one := s.weight_le_total other RwRole.reads
    have out := s.weight_le_total writer RwRole.writes
    rw [RwPlace.HoldsRead] at reads
    rw [RwPlace.HoldsWrite] at writes
    have no_reader := sound.alone (by omega)
    have readers_eq := sound.readers_eq
    omega

/-- In every interleaving the write lock is held alone, as long as a writer whose deadline passes
leaves another one waiting for the token that is out. -/
theorem rwlock_exclusion (turns : List (ι × RwMove))
    (covered : Admits rwlockStep RwSystem.WithdrawsCovered RwSystem.init turns) :
    (run rwlockStep RwSystem.init turns).Exclusive :=
  (RwSystem.sound_run covered).exclusive

end Results

/-- Two writers wait behind a reader, one of them gives up, and the reader's release lets the
other one in. -/
theorem rwlock_exclusion_withdrawn : (run rwlockStep (RwSystem.init : RwSystem (Fin 3))
      ([(0, .call (.acquireRead false)), (0, .go), (0, .go),
        (1, .call (.acquireWrite true)), (1, .go), (1, .go), (1, .go), (1, .go), (1, .go),
        (2, .call (.acquireWrite false)), (2, .go), (2, .go), (2, .go),
        (1, .expire), (0, .call .releaseRead), (0, .go), (0, .go), (2, .go), (2, .go)])).Exclusive
          :=
  rwlock_exclusion _ (by decide +kernel)

/-- A reader leaves, hands the lock to the writer that waits, and the writer gives up after all.
The token stays, so the next two writers both walk in: one because the lock looks open, the other
with the token. -/
theorem rwlock_two_writers :
    let s := run rwlockStep (RwSystem.init : RwSystem (Fin 4))
      ([(0, .call (.acquireRead false)), (0, .go), (0, .go),
        (1, .call (.acquireWrite true)), (1, .go), (1, .go), (1, .go), (1, .go), (1, .go),
        (0, .call .releaseRead), (0, .go), (0, .go), (1, .expire),
        (2, .call (.acquireWrite false)), (2, .go), (2, .go),
        (3, .call (.acquireWrite false)), (3, .go), (3, .go), (3, .go), (3, .go), (3, .go)])
    s.threads 2 = .writing ∧ s.threads 3 = .writing ∧ ¬ s.Exclusive := by
  intro s
  have second : s.threads 2 = .writing := by decide +kernel
  have third : s.threads 3 = .writing := by decide +kernel
  refine ⟨second, third, fun exclusive => ?_⟩
  refine (exclusive 2 3 (by decide) ?_).1 ?_
  · rw [second]
    rfl
  · rw [third]
    rfl

/-! ### Quiet states -/

def RwPlace.Outside (place : RwPlace) : Prop :=
  place = .idle ∨ place = .reading ∨ place = .writing

instance (place : RwPlace) : Decidable place.Outside :=
  inferInstanceAs (Decidable (_ ∨ _ ∨ _))

section Quiet

variable {ι : Type*} [Fintype ι] {s : RwSystem ι}

variable (weight : RwRole → Nat)

/-- A weight that counts the threads at one place counts nothing else in a quiet state. -/
theorem RwSystem.total_eq_card (at_place : RwPlace) (weighs : ∀ place : RwPlace, place.Outside →
      weight place.role = if place = at_place then 1 else 0)
    (quiet : ∀ thread, (s.threads thread).Outside) :
    s.total weight = (Finset.univ.filter fun thread => s.threads thread = at_place).card := by
  rw [Finset.card_filter]
  exact Finset.sum_congr rfl fun thread _ => weighs _ (quiet thread)

theorem RwSystem.total_eq_zero
    (weightless : ∀ place : RwPlace, place.Outside → weight place.role = 0)
    (quiet : ∀ thread, (s.threads thread).Outside) : s.total weight = 0 :=
  census_eq_zero fun thread => weightless _ (quiet thread)

/-- What the words of a lock say when every thread is outside its code. -/
structure RwSystem.Traceless (s : RwSystem ι) : Prop where
  readers_eq : (rwlockReaders s.lock.state).toNat =
    (Finset.univ.filter fun thread => s.threads thread = .reading).card
  /-- The writers counted are the threads that hold the write lock. -/
  writers_eq : (rwlockWriters s.lock.state).toNat =
    (Finset.univ.filter fun thread => s.threads thread = .writing).card
  writers_le : (rwlockWriters s.lock.state).toNat ≤ 1
  readwait_eq : rwlockReadwait s.lock.state = 0
  rftx_eq : s.lock.rftx = 0
  wftx_eq : s.lock.wftx = 0

theorem RwSystem.Sound.traceless (sound : s.Sound) (balanced : s.ReadersBalanced)
    (quiet : ∀ thread, (s.threads thread).Outside) : s.Traceless := by
  have reads := RwSystem.total_eq_card RwRole.reads .reading
    (by rintro place (rfl | rfl | rfl) <;> rfl) quiet
  have writes := RwSystem.total_eq_card RwRole.writes .writing
    (by rintro place (rfl | rfl | rfl) <;> rfl) quiet
  have read_waits := RwSystem.total_eq_zero RwRole.readWaits
    (by rintro place (rfl | rfl | rfl) <;> rfl) quiet
  have write_waits := RwSystem.total_eq_zero RwRole.writeWaits
    (by rintro place (rfl | rfl | rfl) <;> rfl) quiet
  obtain ⟨readers_eq, writers_eq, single, -, awaited⟩ := sound
  unfold RwSystem.ReadersBalanced at balanced
  simp only [RWLock.count] at readers_eq writers_eq balanced
  refine ⟨by omega, by omega, by omega, UInt32.toNat_inj.mp ?_, by omega, by omega⟩
  rw [UInt32.toNat_zero]
  omega

/-- The three counts are the whole word. -/
theorem eq_zero_of_counts {state : UInt32} (no_reader : rwlockReaders state = 0)
    (no_waiter : rwlockReadwait state = 0) (no_writer : rwlockWriters state = 0) : state = 0 := by
  have readers_eq := toNat_rwlockReaders state
  have readwait_eq := toNat_rwlockReadwait state
  have writers_eq := toNat_rwlockWriters state
  rw [no_reader] at readers_eq
  rw [no_waiter] at readwait_eq
  rw [no_writer] at writers_eq
  refine UInt32.toNat_inj.mp ?_
  simp only [UInt32.toNat_zero] at *
  omega

/-- A lock that no thread holds is a fresh one. -/
theorem RwSystem.Traceless.lock_eq (traceless : s.Traceless)
    (idle : ∀ thread, s.threads thread = .idle) : s.lock = rwlockInit := by
  obtain ⟨readers_eq, writers_eq, -, readwait_eq, rftx_eq, wftx_eq⟩ := traceless
  have nobody (place : RwPlace) (busy : place ≠ .idle) :
      (Finset.univ.filter fun thread => s.threads thread = place) = ∅ :=
    Finset.filter_eq_empty_iff.mpr fun thread _ there => busy (there.symm.trans (idle thread))
  rw [nobody _ (by simp), Finset.card_empty] at readers_eq writers_eq
  have state_eq := eq_zero_of_counts (UInt32.toNat_inj.mp readers_eq) readwait_eq
    (UInt32.toNat_inj.mp writers_eq)
  rcases s with ⟨⟨state, rftx, wftx⟩, threads⟩
  simp only at state_eq rftx_eq wftx_eq
  rw [state_eq, rftx_eq, wftx_eq]
  rfl

end Quiet

section Results

variable {ι : Type*} [Fintype ι] [DecidableEq ι]

omit [Fintype ι] in
theorem tryAcquire_rwlockInit {s : RwSystem ι} {thread : ι} (fresh : s.lock = rwlockInit)
    (idle : s.threads thread = .idle) :
    (run rwlockStep s [(thread, .call .tryAcquireRead), (thread, .go), (thread, .go)]).threads
        thread = .reading ∧
      (run rwlockStep s [(thread, .call .tryAcquireWrite), (thread, .go), (thread, .go)]).threads
        thread = .writing := by
  simp only [run_cons, run_nil, rwlockStep, Function.update_self, fresh, idle]
  decide +kernel

/-- In every interleaving in which no waiter gives up what it has been given, a state with every
thread outside the lock's code shows exactly who holds the lock, and a lock that nobody holds can
be taken at once. -/
theorem rwlock_leaves_no_trace (turns : List (ι × RwMove))
    (clean : Admits rwlockStep RwSystem.GivesUpCleanly RwSystem.init turns)
    (quiet : ∀ thread, ((run rwlockStep RwSystem.init turns).threads thread).Outside) :
    (run rwlockStep RwSystem.init turns).Traceless ∧
      ((∀ thread, (run rwlockStep RwSystem.init turns).threads thread = .idle) → ∀ thread,
        (run rwlockStep RwSystem.init
          (turns ++ [(thread, .call .tryAcquireRead), (thread, .go), (thread, .go)])).threads
            thread = .reading ∧
        (run rwlockStep RwSystem.init
          (turns ++ [(thread, .call .tryAcquireWrite), (thread, .go), (thread, .go)])).threads
            thread = .writing) := by
  obtain ⟨sound, balanced⟩ := RwSystem.balanced_run clean
  have traceless := sound.traceless balanced quiet
  refine ⟨traceless, fun idle thread => ?_⟩
  rw [run_append, run_append]
  exact tryAcquire_rwlockInit (traceless.lock_eq idle) (idle thread)

end Results

/-- A reader waits behind a writer past its deadline, takes its registration back, and the writer
leaves. -/
theorem rwlock_leaves_no_trace_expired : (run rwlockStep (RwSystem.init : RwSystem (Fin 2))
      ([(0, .call (.acquireWrite false)), (0, .go), (0, .go),
        (1, .call (.acquireRead true)), (1, .go), (1, .go), (1, .go), (1, .go),
        (1, .expire), (1, .go),
        (0, .call .releaseWrite), (0, .go), (0, .go)])).Traceless :=
  (rwlock_leaves_no_trace _ (by decide +kernel) (by decide +kernel)).1

/-- The writer leaves first and turns the waiting reader into a reader with a token.  The reader,
past its deadline, finds no registration to take back and returns: a lock that nobody holds has a
reader and a token, and no writer can take it. -/
theorem rwlock_reader_left_behind :
    let s := run rwlockStep (RwSystem.init : RwSystem (Fin 2))
      ([(0, .call (.acquireWrite false)), (0, .go), (0, .go),
        (1, .call (.acquireRead true)), (1, .go), (1, .go), (1, .go), (1, .go),
        (0, .call .releaseWrite), (0, .go), (0, .go), (0, .go),
        (1, .expire), (1, .go)])
    (∀ thread, s.threads thread = .idle) ∧ rwlockReaders s.lock.state = 1 ∧ s.lock.rftx = 1 ∧
      (run rwlockStep s [(0, .call .tryAcquireWrite), (0, .go), (0, .go)]).threads 0 = .idle := by
  decide +kernel

end Cx.Thread
