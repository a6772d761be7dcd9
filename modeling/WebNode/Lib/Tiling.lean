import Mathlib.Data.Nat.Init
import Mathlib.Tactic.Common

/-! Tilings of an interval by tiles laid end to end, where a predicate says which tile
lies at a position, and what happens when the tiles of a part are replaced. -/
namespace Tiling

variable {Tile : Type*}

def Tiles (size : Tile → Nat) (At : Nat → Tile → Prop) : Nat → List Tile → Nat → Prop
  | start, [], stop => start = stop
  | start, tile :: rest, stop => At start tile ∧ Tiles size At (start + size tile) rest stop

/-- The tile at a position of a tiling. -/
def Has (size : Tile → Nat) (At : Nat → Tile → Prop) (start stop position : Nat) (tile : Tile) : Prop :=
  ∃ before after, Tiles size At start before position ∧ At position tile ∧
    Tiles size At (position + size tile) after stop

/-- Tiles are not empty, and a position has at most one. -/
structure Proper (size : Tile → Nat) (At : Nat → Tile → Prop) : Prop where
  positive : ∀ {position tile}, At position tile → 0 < size tile
  unique : ∀ {position tile other}, At position tile → At position other → tile = other

variable {size : Tile → Nat} {At Later : Nat → Tile → Prop} {start stop middle position : Nat}
  {tile other : Tile} {before after row : List Tile}

theorem Tiles.append (left : Tiles size At start before middle) (right : Tiles size At middle after stop) :
    Tiles size At start (before ++ after) stop := by
  induction before generalizing start with
  | nil => exact (show start = middle from left) ▸ right
  | cons first rest ih => exact ⟨left.1, ih left.2⟩

theorem Tiles.exists_middle (tiled : Tiles size At start (before ++ after) stop) :
    ∃ middle, Tiles size At start before middle ∧ Tiles size At middle after stop := by
  induction before generalizing start with
  | nil => exact ⟨start, rfl, tiled⟩
  | cons first rest ih =>
    obtain ⟨middle, left, right⟩ := ih tiled.2
    exact ⟨middle, ⟨tiled.1, left⟩, right⟩

theorem Tiles.le (tiled : Tiles size At start row stop) : start ≤ stop := by
  induction row generalizing start with
  | nil => exact Nat.le_of_eq tiled
  | cons first rest ih => exact Nat.le_trans (Nat.le_add_right ..) (ih tiled.2)

theorem Tiles.mono (tiled : Tiles size At start row stop)
    (same : ∀ {position tile}, start ≤ position → position + size tile ≤ stop → At position tile →
      Later position tile) : Tiles size Later start row stop := by
  induction row generalizing start with
  | nil => exact tiled
  | cons first rest ih =>
    refine ⟨same (Nat.le_refl _) tiled.2.le tiled.1, ih tiled.2 fun above => ?_⟩
    exact same (Nat.le_trans (Nat.le_add_right ..) above)

theorem Has.bounds (has : Has size At start stop position tile) :
    start ≤ position ∧ position + size tile ≤ stop := by
  obtain ⟨_, _, left, _, right⟩ := has
  exact ⟨left.le, right.le⟩

theorem Has.at (has : Has size At start stop position tile) : At position tile := by
  obtain ⟨_, _, _, here, _⟩ := has
  exact here

theorem Has.append_right (has : Has size At middle stop position tile)
    (left : Tiles size At start row middle) : Has size At start stop position tile := by
  obtain ⟨before, after, first, here, rest⟩ := has
  exact ⟨row ++ before, after, left.append first, here, rest⟩

/-- The tiles of a row with their positions. -/
def placed (size : Tile → Nat) : Nat → List Tile → List (Nat × Tile)
  | _, [] => []
  | start, tile :: rest => (start, tile) :: placed size (start + size tile) rest

theorem tile_mem_of_placed {entry : Nat × Tile} (member : entry ∈ placed size start row) : entry.2 ∈ row := by
  induction row generalizing start with
  | nil => simp [placed] at member
  | cons first rest ih =>
    rcases List.mem_cons.mp member with rfl | later
    · exact List.mem_cons_self ..
    · exact List.mem_cons_of_mem _ (ih later)

theorem Tiles.has_of_mem (tiled : Tiles size At start row stop) (member : (position, tile) ∈ placed size start row) :
    Has size At start stop position tile := by
  induction row generalizing start with
  | nil => simp [placed] at member
  | cons first rest ih =>
    rcases List.mem_cons.mp member with here | later
    · obtain ⟨rfl, rfl⟩ := Prod.mk.inj here
      exact ⟨[], rest, rfl, tiled.1, tiled.2⟩
    · exact (ih tiled.2 later).append_right (show Tiles size At start [first] _ from ⟨tiled.1, rfl⟩)

theorem Proper.mem_of_has (proper : Proper size At) (tiled : Tiles size At start row stop)
    (has : Has size At start stop position tile) : (position, tile) ∈ placed size start row := by
  induction row generalizing start with
  | nil =>
    have bounds := has.bounds
    have positive := proper.positive has.at
    have ended : start = stop := tiled
    omega
  | cons first rest ih =>
    obtain ⟨skipped, remaining, passed, here, beyond⟩ := has
    cases skipped with
    | nil =>
      obtain rfl : start = position := passed
      obtain rfl := proper.unique tiled.1 here
      exact List.mem_cons_self ..
    | cons same others =>
      obtain rfl := proper.unique tiled.1 passed.1
      exact List.mem_cons_of_mem _ (ih tiled.2 ⟨others, remaining, passed.2, here, beyond⟩)

/-- The tiles of a tiled interval are those of its row. -/
theorem Proper.has_iff (proper : Proper size At) (tiled : Tiles size At start row stop) :
    Has size At start stop position tile ↔ (position, tile) ∈ placed size start row :=
  ⟨proper.mem_of_has tiled, tiled.has_of_mem⟩

theorem Tiles.mem_placed_append (left : Tiles size At start before middle) {entry : Nat × Tile} :
    entry ∈ placed size start (before ++ after) ↔
      entry ∈ placed size start before ∨ entry ∈ placed size middle after := by
  induction before generalizing start with
  | nil =>
    obtain rfl : start = middle := left
    simp [placed]
  | cons first rest ih => simp only [List.cons_append, placed, List.mem_cons, ih left.2, or_assoc]

/-- Two tiles of a tiling are the same or lie apart. -/
theorem Proper.has_apart (proper : Proper size At) {otherPosition : Nat}
    (has : Has size At start stop position tile) (otherHas : Has size At start stop otherPosition other) :
    (position = otherPosition ∧ tile = other) ∨ position + size tile ≤ otherPosition ∨
      otherPosition + size other ≤ position := by
  obtain ⟨before, after, left, here, right⟩ := has
  have member := proper.mem_of_has (left.append (show Tiles size At position (tile :: after) stop from ⟨here, right⟩))
    otherHas
  rw [left.mem_placed_append, placed, List.mem_cons] at member
  rcases member with earlier | same | later
  · exact .inr (.inr (left.has_of_mem earlier).bounds.2)
  · obtain ⟨rfl, rfl⟩ := Prod.mk.inj same
    exact .inl ⟨rfl, rfl⟩
  · exact .inr (.inl (right.has_of_mem later).bounds.1)

/-- A tiling in which some tiles have been replaced by others. -/
structure Replaced (size : Tile → Nat) (At Later : Nat → Tile → Prop) (start stop : Nat)
    (gone new : List (Nat × Tile)) : Prop where
  tiles : ∃ row, Tiles size Later start row stop
  back : ∀ {position tile}, Has size Later start stop position tile →
    (Has size At start stop position tile ∧ (position, tile) ∉ gone) ∨ (position, tile) ∈ new
  forth : ∀ {position tile}, Has size At start stop position tile →
    Has size Later start stop position tile ∨ (position, tile) ∈ gone
  added : ∀ {position tile}, (position, tile) ∈ new → Has size Later start stop position tile
  removed : ∀ {position tile}, (position, tile) ∈ gone → Has size At start stop position tile

/-- Replace the tiles between two positions and leave the others as they are. -/
theorem Proper.replace (proper : Proper size At) (later : Proper size Later) {left right : Nat}
    {first second old new : List Tile} (opening : Tiles size At start first left)
    (removed : Tiles size At left old right) (added : Tiles size Later left new right)
    (closing : Tiles size At right second stop)
    (same : ∀ {position tile}, position + size tile ≤ left ∨ right ≤ position →
      start ≤ position → position + size tile ≤ stop → At position tile → Later position tile) :
    Replaced size At Later start stop (placed size left old) (placed size left new) := by
  have leftLe := opening.le
  have rightLe := closing.le
  have middleLe := removed.le
  have openingLater : Tiles size Later start first left := opening.mono fun above below =>
    same (.inl below) above (by omega)
  have closingLater : Tiles size Later right second stop := closing.mono fun above below =>
    same (.inr above) (by omega) below
  have whole := opening.append (removed.append closing)
  have wholeLater := openingLater.append (added.append closingLater)
  have members {position : Nat} {tile : Tile} : Has size At start stop position tile ↔
      (position, tile) ∈ placed size start first ∨ (position, tile) ∈ placed size left old ∨
        (position, tile) ∈ placed size right second := by
    rw [proper.has_iff whole, opening.mem_placed_append, removed.mem_placed_append]
  have membersLater {position : Nat} {tile : Tile} : Has size Later start stop position tile ↔
      (position, tile) ∈ placed size start first ∨ (position, tile) ∈ placed size left new ∨
        (position, tile) ∈ placed size right second := by
    rw [later.has_iff wholeLater, openingLater.mem_placed_append, added.mem_placed_append]
  -- the old tiles lie between the two positions, the tiles of the other rows do not
  have between {position : Nat} {tile : Tile} (member : (position, tile) ∈ placed size left old) :
      left ≤ position ∧ position < right := by
    have has := removed.has_of_mem member
    have bounds := has.bounds
    have positive := proper.positive has.at
    omega
  have apart {position : Nat} {tile : Tile} (member : (position, tile) ∈ placed size start first ∨
      (position, tile) ∈ placed size right second) : (position, tile) ∉ placed size left old := by
    intro gone
    have inside := between gone
    rcases member with opens | closes
    · have has := opening.has_of_mem opens
      have bounds := has.bounds
      have positive := proper.positive has.at
      omega
    · have bounds := (closing.has_of_mem closes).bounds
      omega
  refine ⟨⟨_, wholeLater⟩, fun has => ?_, fun has => ?_, fun member => membersLater.mpr (.inr (.inl member)),
    fun member => members.mpr (.inr (.inl member))⟩
  · rcases membersLater.mp has with opens | here | closes
    · exact .inl ⟨members.mpr (.inl opens), apart (.inl opens)⟩
    · exact .inr here
    · exact .inl ⟨members.mpr (.inr (.inr closes)), apart (.inr closes)⟩
  · rcases members.mp has with opens | here | closes
    · exact .inl (membersLater.mpr (.inl opens))
    · exact .inr here
    · exact .inl (membersLater.mpr (.inr (.inr closes)))

end Tiling
