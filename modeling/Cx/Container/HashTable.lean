import Mathlib.Logic.Relation
import Mathlib.Tactic

/-!
# Churn in a hash table

The index of a hash table probes from the hash of a key to the first empty entry.  A removed key
leaves a mark behind, and its entry is meant to be used again.  The search starts its note of the
first mark with one value and looks for another before it writes, so no mark is ever noted: every
insertion takes an empty entry, and removing and inserting one key fills the index until it grows.
What stops the growth is the storage: where three quarters of it are dead it is packed, and the
index is built again.
-/

namespace Cx.Container

open Function Relation

/-! ### The table -/

inductive HtGrowAt where
  | at50 | at75 | at90
deriving DecidableEq

inductive HtGrowBy where
  | by50 | by100 | by200 | by300
deriving DecidableEq

/-- What a table is made with: the operations of its keys and how it grows. -/
structure HtType (K : Type) where
  hash : K → UInt32
  cmp : K → K → Bool
  growAt : HtGrowAt := .at75
  growBy : HtGrowBy := .by100

structure HtSlot (K : Type) where
  key : K
  deleted : Bool := false
deriving DecidableEq

structure HashTable (K : Type) where
  idxsz : Nat
  metadata : Bool
  idxused : Nat := 0
  valid : Nat := 0
  index : Nat → Nat := fun _ => 0
  metas : Nat → Nat := fun _ => 0
  /-- The storage from slot 1 on: slot 0 is not used. -/
  slots : List (HtSlot K) := []

def hashIndexEmpty : Nat := 0

def hashIndexDeleted : Nat := 0xffffffff

def HT_SLOTS_PER_CHUNK : Nat := 64

def HT_METADATA_THRESHOLD : Nat := 256

variable {K : Type} (ty : HtType K)

def HtType.quadratic : Bool := ty.growAt ≠ .at50

def HtType.pow2 : Bool := ty.growBy = .by100 ∨ ty.growBy = .by300

def HashTable.storused (t : HashTable K) : Nat := t.slots.length + 1

def npow2 (val : Nat) : Nat :=
  match (List.range 32).find? fun i => val ≤ 2 ^ i with
  | some i => 2 ^ i
  | none => 16

def calcGrowth (sz : Nat) : Nat :=
  match ty.growBy with
  | .by100 => 2 * sz % 2 ^ 32
  | .by200 => 3 * sz % 2 ^ 32
  | .by300 => 4 * sz % 2 ^ 32
  | .by50 => (sz + sz / 2) % 2 ^ 32

def htInit (initsz : Nat) : HashTable K :=
  let initsz := if initsz = 0 then HT_SLOTS_PER_CHUNK / 4 * 2 else initsz
  { idxsz := if ty.pow2 then npow2 initsz else initsz, metadata := ty.growAt = .at90 }

def clampHash (t : HashTable K) (hash : Nat) : Nat :=
  if ty.pow2 then hash &&& (t.idxsz - 1) else hash % t.idxsz

/-- The entry looked at next. -/
def nextHash (t : HashTable K) (hash probes : Nat) : Nat :=
  clampHash ty t ((hash + if ty.quadratic then probes * probes else 1) % 2 ^ 32)

/-- The search for a key: whether it was found, the entry it ended at and the mark it noted.  It
goes on until it meets an empty entry or the key, and `none` is a search that is not over. -/
def htFindIndexLoop (t : HashTable K) (key : K) : Nat → Nat → Nat → Nat → Option (Bool × Nat × Nat)
  | 0, _, _, _ => none
  | fuel + 1, hash, probes, deleted =>
    let slot := t.index hash
    if slot = hashIndexEmpty then some (false, hash, deleted)
    else if slot ≠ hashIndexDeleted then
      if (¬ t.metadata ∨ t.metas hash = (ty.hash key).toNat / 2 ^ 24) ∧
          (t.slots[slot - 1]?.any fun s => ty.cmp key s.key) then
        some (true, hash, deleted)
      else htFindIndexLoop t key fuel (nextHash ty t hash probes) (probes + 1) deleted
    else
      htFindIndexLoop t key fuel (nextHash ty t hash probes) (probes + 1)
        (if deleted = hashIndexEmpty then hash else deleted)

def htFindIndex (fuel : Nat) (t : HashTable K) (key : K) : Option (Bool × Nat × Nat) :=
  htFindIndexLoop ty t key fuel (clampHash ty t (ty.hash key).toNat) 1 hashIndexDeleted

def htFastFindIndex (t : HashTable K) : Nat → Nat → Nat → Option Nat
  | 0, _, _ => none
  | fuel + 1, hash, probes =>
    if t.index hash = hashIndexEmpty then some hash
    else htFastFindIndex t fuel (nextHash ty t hash probes) (probes + 1)

/-- The size a copy of the index gets. -/
def cloneSize (t : HashTable K) (minsz : Nat) : Nat :=
  let newsz := max minsz (t.valid + 1)
  if ty.pow2 then npow2 newsz else newsz

def cloneEmpty (t : HashTable K) (minsz : Nat) : HashTable K :=
  { idxsz := cloneSize ty t minsz
    metadata := t.metadata ∨ HT_METADATA_THRESHOLD ≤ cloneSize ty t minsz }

/-- Enter a slot of the storage in the index again. -/
def htReindexSlot (fuel : Nat) (t : HashTable K) (slot : HtSlot K × Nat) : Option (HashTable K) :=
  if slot.1.deleted then some t
  else do
    let hash := (ty.hash slot.1.key).toNat
    let idxent ← htFastFindIndex ty t fuel (clampHash ty t hash) 1
    return { t with
      idxused := t.idxused + 1
      index := update t.index idxent (slot.2 + 1)
      metas := if t.metadata then update t.metas idxent (hash / 2 ^ 24) else t.metas }

def htReindex (fuel : Nat) (t : HashTable K) (minsz : Nat) : Option (HashTable K) :=
  t.slots.zipIdx.foldlM (htReindexSlot ty fuel)
    { cloneEmpty ty t minsz with valid := t.valid, slots := t.slots }

def htGrowIndex (fuel : Nat) (t : HashTable K) : Option (HashTable K) :=
  htReindex ty fuel t (calcGrowth ty (if ty.pow2 then npow2 t.idxsz else t.idxsz))

/-- The number of used entries at which an index grows. -/
def growsz (idxsz : Nat) : Nat :=
  match ty.growAt with
  | .at50 => idxsz / 2
  | .at75 => idxsz / 2 + idxsz / 4
  | .at90 => idxsz * 9 % 2 ^ 32 / 10

/-- A key that was not found gets a slot and an entry. -/
def htEnter (t : HashTable K) (key : K) (idxent deleted : Nat) : HashTable K :=
  let entry := if deleted ≠ hashIndexDeleted then deleted else idxent
  { t with
    idxused := if deleted ≠ hashIndexDeleted then t.idxused else t.idxused + 1
    slots := t.slots ++ [⟨key, false⟩]
    index := update t.index entry t.storused
    metas := if t.metadata then update t.metas entry ((ty.hash key).toNat / 2 ^ 24) else t.metas
    valid := t.valid + 1 }

def htInsert (fuel : Nat) (t : HashTable K) (key : K) : Option (HashTable K) := do
  let (found, idxent, deleted) ← htFindIndex ty fuel t key
  if found then return t
  let entered := htEnter ty t key idxent deleted
  if entered.idxused ≥ growsz ty entered.idxsz then htGrowIndex ty fuel entered else return entered

def htRepack (fuel : Nat) (t : HashTable K) : Option (HashTable K) :=
  (t.slots.filter (!·.deleted)).foldlM (fun packed slot => htInsert ty fuel packed slot.key)
    (cloneEmpty ty t t.idxsz)

/-- A key that was found leaves a mark in the index and a dead slot. -/
def htMark (t : HashTable K) (idxent : Nat) : HashTable K :=
  { t with
    index := update t.index idxent hashIndexDeleted
    slots := t.slots.modify (t.index idxent - 1) fun slot => { slot with deleted := true }
    valid := t.valid - 1 }

def htExtract (fuel : Nat) (t : HashTable K) (key : K) : Option (HashTable K) := do
  let (found, idxent, _) ← htFindIndex ty fuel t key
  if !found then return t
  let marked := htMark t idxent
  if HT_SLOTS_PER_CHUNK < marked.storused ∧ marked.valid < marked.storused / 4 then
    htRepack ty fuel marked
  else return marked

/-! ### What one call does to the sizes -/

variable {ty : HtType K} {t t' : HashTable K} {fuel : Nat} {key : K}

/-- No mark is ever noted. -/
theorem htFindIndex_deleted {found : Bool} {idxent deleted : Nat}
    (ended : htFindIndex ty fuel t key = some (found, idxent, deleted)) :
    deleted = hashIndexDeleted := by
  unfold htFindIndex at ended
  generalize clampHash ty t (ty.hash key).toNat = hash, 1 = probes at ended
  induction fuel generalizing hash probes with
  | zero => cases ended
  | succ fuel ih =>
    have unnoted : (if hashIndexDeleted = hashIndexEmpty then hash else hashIndexDeleted) =
      hashIndexDeleted := if_neg (by decide)
    rw [htFindIndexLoop, unnoted] at ended
    split_ifs at ended
    · cases ended
      rfl
    · cases ended
      rfl
    · exact ih _ _ ended
    · exact ih _ _ ended

/-- The size of an index that is masked is a power of two, and each used entry has its slot. -/
structure HashTable.Fits (ty : HtType K) (t : HashTable K) : Prop where
  masked : ty.pow2 = true → npow2 t.idxsz = t.idxsz
  used_le : t.idxused ≤ t.slots.length

theorem npow2_npow2 (val : Nat) : npow2 (npow2 val) = npow2 val := by
  have fixed : ∀ i < 32, npow2 (2 ^ i) = 2 ^ i := by decide
  conv_lhs => arg 1; unfold npow2
  conv_rhs => unfold npow2
  split
  · next i found => exact fixed i (List.mem_range.1 (List.mem_of_find?_eq_some found))
  · rfl

theorem npow2_cloneSize (t : HashTable K) (minsz : Nat) (masks : ty.pow2 = true) :
    npow2 (cloneSize ty t minsz) = cloneSize ty t minsz := by
  simp only [cloneSize, masks, if_true, npow2_npow2]

/-- What each element of a list adds to a count, the list adds as often as it is long. -/
theorem foldlM_counted {σ α : Type} {step : σ → α → Option σ} (Counted : σ → Nat → Prop)
    (counts : ∀ s a s' n, Counted s n → step s a = some s' → Counted s' (n + 1)) {items : List α}
    {s last : σ} {n : Nat} (initially : Counted s n) (ended : items.foldlM step s = some last) :
    Counted last (n + items.length) := by
  induction items generalizing s n with
  | nil =>
    cases ended
    exact initially
  | cons item items ih =>
    obtain ⟨middle, first, rest⟩ := Option.bind_eq_some_iff.1 ended
    rw [List.length_cons, Nat.add_comm items.length, ← Nat.add_assoc]
    exact ih (counts s item middle n initially first) rest

theorem htGrowIndex_spec (grown : htGrowIndex ty fuel t = some t') :
    t'.Fits ty ∧ t'.valid = t.valid ∧ t'.slots = t.slots := by
  have counted := foldlM_counted (n := 0) (fun s n => s.idxused ≤ n ∧
    (ty.pow2 = true → npow2 s.idxsz = s.idxsz) ∧ s.valid = t.valid ∧ s.slots = t.slots) ?_ ?_ grown
  · rw [List.length_zipIdx, Nat.zero_add] at counted
    obtain ⟨used, masked, valid_eq, slots_eq⟩ := counted
    exact ⟨⟨masked, slots_eq ▸ used⟩, valid_eq, slots_eq⟩
  · intro s slot s' n counted entered
    unfold htReindexSlot at entered
    split at entered
    · cases entered
      exact ⟨by omega, counted.2⟩
    · obtain ⟨idxent, -, entered⟩ := Option.bind_eq_some_iff.1 entered
      cases entered
      exact ⟨Nat.succ_le_succ counted.1, counted.2⟩
  · exact ⟨le_rfl, npow2_cloneSize t _, rfl, rfl⟩

theorem htInsert_spec (fits : t.Fits ty) (inserted : htInsert ty fuel t key = some t') :
    t'.Fits ty ∧ ∃ n ≤ 1, t'.valid = t.valid + n ∧ t'.slots.length = t.slots.length + n ∧
      (t'.slots.length < growsz ty t.idxsz → t'.idxsz = t.idxsz) := by
  obtain ⟨⟨found, idxent, deleted⟩, searched, inserted⟩ := Option.bind_eq_some_iff.1 inserted
  obtain rfl := htFindIndex_deleted searched
  have used := fits.used_le
  have length_eq : (htEnter ty t key idxent hashIndexDeleted).slots.length = t.slots.length + 1 :=
    List.length_append
  have used_eq : (htEnter ty t key idxent hashIndexDeleted).idxused = t.idxused + 1 := rfl
  dsimp only at inserted
  split_ifs at inserted with known full
  · cases inserted
    exact ⟨fits, 0, by omega, rfl, rfl, fun _ => rfl⟩
  · obtain ⟨grown, valid_eq, slots_eq⟩ := htGrowIndex_spec inserted
    rw [← slots_eq] at length_eq
    refine ⟨grown, 1, le_rfl, valid_eq, length_eq, fun room => ?_⟩
    have same : (htEnter ty t key idxent hashIndexDeleted).idxsz = t.idxsz := rfl
    rw [same] at full
    omega
  · cases inserted
    exact ⟨⟨fits.masked, by omega⟩, 1, le_rfl, rfl, length_eq, fun _ => rfl⟩

theorem htRepack_spec (repacked : htRepack ty fuel t = some t') :
    t'.Fits ty ∧ t'.valid = t'.slots.length ∧ (t.slots.length < growsz ty (cloneSize ty t t.idxsz) →
      t'.idxsz = cloneSize ty t t.idxsz) := by
  have counted := foldlM_counted (n := 0) (fun s n => s.Fits ty ∧ s.valid = s.slots.length ∧
    s.slots.length ≤ n ∧ (n < growsz ty (cloneSize ty t t.idxsz) →
      s.idxsz = cloneSize ty t t.idxsz)) ?_ ?_ repacked
  · obtain ⟨fits, valid_eq, -, size_eq⟩ := counted
    have live_le := List.length_filter_le (fun slot : HtSlot K => !slot.deleted) t.slots
    exact ⟨fits, valid_eq, fun room => size_eq (by omega)⟩
  · rintro s slot s' n ⟨fits, valid_eq, le_n, size_eq⟩ inserted
    obtain ⟨fits', more, more_le, valid_eq', length_eq, same⟩ := htInsert_spec fits inserted
    refine ⟨fits', by omega, by omega, fun room => ?_⟩
    rw [size_eq (by omega)] at same
    exact same (by omega)
  · exact ⟨⟨npow2_cloneSize t _, le_rfl⟩, rfl, le_rfl, fun _ => rfl⟩

theorem growsz_le (ty : HtType K) (idxsz : Nat) : growsz ty idxsz ≤ idxsz := by
  have wrapped : idxsz * 9 % 2 ^ 32 ≤ idxsz * 9 := Nat.mod_le _ _
  unfold growsz
  split <;> omega

/-! ### Churn -/

/-- The slots a table of so many keys may take up: the storage is packed where it could take up
more. -/
def slotLimit (valid : Nat) : Nat := max (HT_SLOTS_PER_CHUNK + valid) (4 * valid + 3)

/-- What holds of every table that calls have led to. -/
structure HashTable.Sound (ty : HtType K) (t : HashTable K) : Prop extends t.Fits ty where
  valid_le : t.valid ≤ t.slots.length
  packed : t.storused ≤ slotLimit t.valid

/-- A call that comes to its end. -/
def HtStep (ty : HtType K) (t t' : HashTable K) : Prop :=
  ∃ fuel key, htInsert ty fuel t key = some t' ∨ htExtract ty fuel t key = some t'

/-- A call keeps what holds of a table, and the size of an index with room for the storage. -/
theorem HashTable.Sound.step (sound : t.Sound ty) (step : HtStep ty t t') :
    t'.Sound ty ∧ (slotLimit t.valid ≤ growsz ty t.idxsz → slotLimit t'.valid ≤ growsz ty t.idxsz →
      t'.idxsz = t.idxsz) := by
  obtain ⟨fits, valid_le, packed⟩ := sound
  obtain ⟨fuel, key, inserted | extracted⟩ := step
  · obtain ⟨fits, n, n_le, valid_eq, length_eq, same⟩ := htInsert_spec fits inserted
    have packed' : t'.storused ≤ slotLimit t'.valid := by
      unfold storused slotLimit HT_SLOTS_PER_CHUNK at *
      omega
    exact ⟨⟨fits, by omega, packed'⟩, fun _ room => same (packed'.trans room)⟩
  · obtain ⟨⟨found, idxent, deleted⟩, -, extracted⟩ := Option.bind_eq_some_iff.1 extracted
    have length_eq : (htMark t idxent).slots.length = t.slots.length := List.length_modify ..
    have valid_eq : (htMark t idxent).valid = t.valid - 1 := rfl
    dsimp only at extracted
    split_ifs at extracted with absent dead
    · cases extracted
      exact ⟨⟨fits, valid_le, packed⟩, fun _ _ => rfl⟩
    · obtain ⟨fits', all_valid, size_eq⟩ := htRepack_spec extracted
      refine ⟨⟨fits', all_valid.le, ?_⟩, fun room _ => ?_⟩
      · unfold storused slotLimit HT_SLOTS_PER_CHUNK
        omega
      · have fills := growsz_le ty t.idxsz
        have kept : cloneSize ty (htMark t idxent) t.idxsz = t.idxsz := by
          unfold storused at packed
          rw [cloneSize, max_eq_left (by omega)]
          split_ifs with masks
          · exact fits.masked masks
          · rfl
        have fits_index : (htMark t idxent).slots.length < growsz ty t.idxsz :=
          length_eq.trans_lt (packed.trans room)
        rw [← kept] at fits_index
        exact (size_eq fits_index).trans kept
    · cases extracted
      have used_le := fits.used_le
      refine ⟨⟨⟨fits.masked, length_eq ▸ used_le⟩, ?_, ?_⟩, fun _ _ => rfl⟩
      · omega
      · unfold storused slotLimit HT_SLOTS_PER_CHUNK at *
        omega

def numbers : HtType Nat := { hash := UInt32.ofNat, cmp := (· == ·) }

/-- A number entered in a small table, and then removed and entered again so many times. -/
def churned : Nat → Option (HashTable Nat)
  | 0 => htInsert numbers 8 (htInit numbers 4) 1
  | cycles + 1 => do htInsert numbers 8 (← htExtract numbers 8 (← churned cycles) 1) 1

end Cx.Container
