import Mathlib.Algebra.Order.BigOperators.Group.List
import Mathlib.Tactic

/-!
# Keyed tables

A finite table of values that carry their own key, in the order in which the keys were added.
Putting a value replaces the one with its key in place.  `Table.total` adds a measure over all
values, and is what conservation laws are stated with.
-/

namespace Cx.Library

open List

structure Table {κ α : Type*} (key : α → κ) where
  entries : List α
  nodup : (entries.map key).Nodup

namespace Table

variable {κ α : Type*} {key : α → κ}

def empty : Table key := ⟨[], nodup_nil⟩

def keys (t : Table key) : List κ := t.entries.map key

def total (f : α → Nat) (t : Table key) : Nat := (t.entries.map f).sum

theorem total_le {f g : α → Nat} {t : Table key} (le : ∀ value, f value ≤ g value) :
    t.total f ≤ t.total g :=
  sum_le_sum fun value _ => le value

variable [DecidableEq κ]

/-- Replace the value with the same key in place, or add it at the end. -/
def putIn (key : α → κ) : List α → α → List α
  | [], value => [value]
  | old :: rest, value =>
    if key old = key value then value :: rest else old :: putIn key rest value

theorem map_key_putIn (entries : List α) (value : α) :
    (putIn key entries value).map key = if key value ∈ entries.map key then entries.map key
      else entries.map key ++ [key value] := by
  induction entries with
  | nil => simp [putIn]
  | cons old rest ih =>
    rw [putIn]
    split_ifs with here present present
    · simp [here]
    · simp [here] at present
    · have later : key value ∈ rest.map key := by
        simpa [Ne.symm here] using present
      simp [ih, later]
    · have later : key value ∉ rest.map key := by
        simpa [Ne.symm here] using present
      simp [ih, later]

theorem nodup_putIn {entries : List α} (nodup : (entries.map key).Nodup) (value : α) :
    ((putIn key entries value).map key).Nodup := by
  rw [map_key_putIn]
  split_ifs with present
  · exact nodup
  · refine nodup_append.2 ⟨nodup, nodup_singleton _, ?_⟩
    rintro other other_mem again again_mem rfl
    exact present (mem_singleton.1 again_mem ▸ other_mem)

def find (t : Table key) (wanted : κ) : Option α :=
  t.entries.find? fun value => key value = wanted

def put (t : Table key) (value : α) : Table key :=
  ⟨putIn key t.entries value, nodup_putIn t.nodup value⟩

def erase (t : Table key) (unwanted : κ) : Table key :=
  ⟨t.entries.filter fun value => key value ≠ unwanted,
    t.nodup.sublist (filter_sublist.map key)⟩

/-- The measure of the value with a key, zero if there is none. -/
def share (f : α → Nat) (t : Table key) (wanted : κ) : Nat := ((t.find wanted).map f).getD 0

variable {t : Table key} {wanted : κ} {value : α}

theorem key_of_find (found : t.find wanted = some value) : key value = wanted := by
  simpa using List.find?_some found

variable (f : α → Nat) (entries : List α)

theorem share_of_find (found : t.find wanted = some value) : t.share f wanted = f value := by
  rw [share, found]
  rfl

theorem share_of_none (absent : t.find wanted = none) : t.share f wanted = 0 := by
  rw [share, absent]
  rfl

theorem find_put (t : Table key) (value : α) (wanted : κ) :
    (t.put value).find wanted = if wanted = key value then some value else t.find wanted := by
  simp only [find, put]
  induction t.entries with
  | nil => simp [putIn, List.find?_singleton, eq_comm]
  | cons old rest ih =>
    rw [putIn, List.find?_cons]
    by_cases here : key old = key value
    · rw [if_pos here, List.find?_cons]
      by_cases asked : wanted = key value
      · simp [asked]
      · simp [asked, Ne.symm asked, here]
    · rw [if_neg here, List.find?_cons, ih]
      by_cases asked : wanted = key value
      · simp [asked, here]
      · simp [asked]

theorem find_erase (t : Table key) (unwanted wanted : κ) :
    (t.erase unwanted).find wanted = if wanted = unwanted then none else t.find wanted := by
  simp only [find, erase]
  induction t.entries with
  | nil => simp
  | cons old rest ih =>
    rw [List.find?_cons]
    by_cases here : key old = unwanted
    · rw [filter_cons_of_neg (by simp [here]), ih]
      by_cases asked : wanted = unwanted
      · simp [asked]
      · simp [asked, Ne.symm asked, here]
    · rw [filter_cons_of_pos (by simp [here]), List.find?_cons, ih]
      by_cases asked : wanted = unwanted
      · simp [asked, here]
      · simp [asked]

theorem putIn_of_find {entries : List α}
    (found : entries.find? (fun other => key other = key value) = some value) :
    putIn key entries value = entries := by
  induction entries with
  | nil => cases found
  | cons old rest ih =>
    rw [List.find?_cons] at found
    rw [putIn]
    split_ifs with here
    · simp only [here, decide_true, Option.some.injEq] at found
      rw [found]
    · simp only [here, decide_false] at found
      rw [ih found]

/-- Putting back what is there changes nothing. -/
theorem put_of_find (found : t.find wanted = some value) : t.put value = t := by
  have key_eq := key_of_find found
  obtain ⟨entries, nodup⟩ := t
  simp only [put, Table.mk.injEq]
  subst key_eq
  exact putIn_of_find found

theorem putIn_putIn {first second : α} (same : key first = key second) :
    putIn key (putIn key entries first) second = putIn key entries second := by
  induction entries with
  | nil => simp [putIn, same]
  | cons old rest ih =>
    rw [putIn]
    by_cases here : key old = key first
    · simp [putIn, here, same]
    · have other : key old ≠ key second := same ▸ here
      simp [putIn, here, other, ih]

/-- The last value put under a key is the one that stays. -/
theorem put_put (t : Table key) {first second : α} (same : key first = key second) :
    (t.put first).put second = t.put second := by
  simp only [put, Table.mk.injEq]
  exact putIn_putIn t.entries same

theorem filter_putIn (value : α) :
    (putIn key entries value).filter (fun other => key other ≠ key value) =
      entries.filter fun other => key other ≠ key value := by
  induction entries with
  | nil => simp [putIn]
  | cons old rest ih =>
    rw [putIn]
    split_ifs with here
    · simp [here]
    · rw [filter_cons, filter_cons, ih]

/-- Removing a key forgets what was put under it. -/
theorem erase_put (t : Table key) (value : α) :
    (t.put value).erase (key value) = t.erase (key value) := by
  simp only [erase, put, Table.mk.injEq]
  exact filter_putIn t.entries value

theorem mem_keys : wanted ∈ t.keys ↔ (t.find wanted).isSome := by
  simp [keys, find]

/-- Putting a value trades the share of the old one for its own. -/
theorem total_put (t : Table key) (value : α) :
    (t.put value).total f + t.share f (key value) = t.total f + f value := by
  simp only [total, share, put, find]
  induction t.entries with
  | nil => simp [putIn]
  | cons old =>
    rw [putIn, List.find?_cons]
    by_cases here : key old = key value
    · simp only [here, if_true, decide_true, map_cons, sum_cons, Option.map_some, Option.getD_some]
      omega
    · simp only [here, if_false, decide_false, map_cons, sum_cons]
      omega

theorem total_put_of_find {old : α} (found : t.find (key value) = some old) :
    (t.put value).total f + f old = t.total f + f value := by
  rw [← share_of_find f found]
  exact total_put f t value

/-- Removing a key takes its share away. -/
theorem total_erase (t : Table key) (unwanted : κ) :
    (t.erase unwanted).total f + t.share f unwanted = t.total f := by
  obtain ⟨entries, nodup⟩ := t
  simp only [total, share, erase, find]
  induction entries with
  | nil => simp
  | cons old rest ih =>
    obtain ⟨fresh, rest_nodup⟩ := nodup_cons.1 nodup
    have rest_total := ih rest_nodup
    rw [List.find?_cons]
    by_cases here : key old = unwanted
    · have absent : rest.find? (fun value => key value = unwanted) = none := by
        rw [List.find?_eq_none]
        intro value value_mem
        simpa using fun same : key value = unwanted =>
          fresh (here ▸ same ▸ mem_map_of_mem value_mem)
      rw [absent] at rest_total
      rw [filter_cons_of_neg (by simp [here])]
      simp only [Option.map_none, Option.getD_none] at rest_total
      simp only [here, decide_true, map_cons, sum_cons, Option.map_some, Option.getD_some]
      omega
    · rw [filter_cons_of_pos (by simp [here])]
      simp only [here, decide_false, map_cons, sum_cons]
      omega

/-- The share of one key is part of the total. -/
theorem share_le_total (t : Table key) (wanted : κ) : t.share f wanted ≤ t.total f := by
  rw [← total_erase f t wanted]
  exact Nat.le_add_left _ _

end Table

end Cx.Library
