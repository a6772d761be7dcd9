import Mathlib.Data.List.Nodup

/-!
# Coloured binary trees

Binary trees with a colour at every node, and the path from a subtree up to the root. Left and
right are one argument, so that a fact and its mirror image are proved together.
-/

namespace WebNode.Lib

inductive Color where
  | red
  | black
  deriving DecidableEq, Repr

inductive Side where
  | left
  | right
  deriving DecidableEq, Repr

def Side.other : Side → Side
  | left => right
  | right => left

inductive ColoredTree (α : Type) where
  | leaf
  | node (color : Color) (left : ColoredTree α) (item : α) (right : ColoredTree α)
  deriving DecidableEq, Repr

namespace ColoredTree

variable {α : Type}

/-- The colour at the root; a leaf counts as black. -/
def rootColor : ColoredTree α → Color
  | leaf => .black
  | node color _ _ _ => color

def paint (color : Color) : ColoredTree α → ColoredTree α
  | leaf => leaf
  | node _ left item right => node color left item right

/-- The items from left to right. -/
def items : ColoredTree α → List α
  | leaf => []
  | node _ left item right => left.items ++ item :: right.items

/-- Another item in the place of each. -/
def map (change : α → α) : ColoredTree α → ColoredTree α
  | leaf => leaf
  | node color left item right => node color (left.map change) (change item) (right.map change)

/-- A node with the subtree `near` on the given side. -/
def join (side : Side) (color : Color) (near : ColoredTree α) (item : α) (far : ColoredTree α) : ColoredTree α :=
  match side with
  | .left => node color near item far
  | .right => node color far item near

/-- A node taken apart, with the subtree `near` on a given side. -/
structure Parts (α : Type) where
  color : Color
  near : ColoredTree α
  item : α
  far : ColoredTree α

def cut (side : Side) : ColoredTree α → Option (Parts α)
  | leaf => none
  | node color left item right =>
    match side with
    | .left => some ⟨color, left, item, right⟩
    | .right => some ⟨color, right, item, left⟩

/-- The root goes down to the side, and its other child takes its place. -/
def rotate (side : Side) (tree : ColoredTree α) : Option (ColoredTree α) := do
  let x ← tree.cut side
  let y ← x.far.cut side
  return join side y.color (join side x.color x.near x.item y.near) y.item y.far

@[simp]
theorem items_paint (color : Color) (tree : ColoredTree α) : (tree.paint color).items = tree.items := by
  cases tree <;> rfl

theorem items_map (change : α → α) (tree : ColoredTree α) : (tree.map change).items = tree.items.map change := by
  induction tree with
  | leaf => rfl
  | node color left item right leftIh rightIh => simp [map, items, leftIh, rightIh]

theorem eq_join_of_cut {side : Side} {tree : ColoredTree α} {parts : Parts α} (found : tree.cut side = some parts) :
    tree = join side parts.color parts.near parts.item parts.far := by
  cases tree with
  | leaf => cases found
  | node color left item right => cases side <;> cases found <;> rfl

/-- Colours do not matter, and a subtree can be exchanged for one with the same items. -/
theorem items_join_congr {side : Side} {color new : Color} {near near' far far' : ColoredTree α} {item : α}
    (sameNear : near'.items = near.items) (sameFar : far'.items = far.items) :
    (join side new near' item far').items = (join side color near item far).items := by
  cases side <;> simp [join, items, sameNear, sameFar]

/-- A rotation keeps the order of the items. -/
theorem items_rotate {side : Side} {tree turned : ColoredTree α} (done : tree.rotate side = some turned) :
    turned.items = tree.items := by
  obtain ⟨x, cutX, rest⟩ := Option.bind_eq_some_iff.mp done
  obtain ⟨y, cutY, same⟩ := Option.bind_eq_some_iff.mp rest
  cases same
  rw [eq_join_of_cut cutX, eq_join_of_cut cutY]
  cases side <;> simp [join, items]

end ColoredTree

open ColoredTree

/-- A node above a subtree: the side on which the subtree stands, and the rest of the node. -/
structure Frame (α : Type) where
  side : Side
  color : Color
  item : α
  sibling : ColoredTree α

/-- The nodes above a subtree, the nearest first. -/
abbrev Path (α : Type) := List (Frame α)

variable {α : Type}

def Frame.fill (frame : Frame α) (tree : ColoredTree α) : ColoredTree α :=
  join frame.side frame.color tree frame.item frame.sibling

namespace Path

def fill : Path α → ColoredTree α → ColoredTree α
  | [], tree => tree
  | frame :: rest, tree => fill rest (frame.fill tree)

/-- The items to the left of the subtree. -/
def before : Path α → List α
  | [] => []
  | frame :: rest =>
    match frame.side with
    | .left => before rest
    | .right => before rest ++ (frame.sibling.items ++ [frame.item])

/-- The items to the right of the subtree. -/
def after : Path α → List α
  | [] => []
  | frame :: rest =>
    match frame.side with
    | .left => frame.item :: frame.sibling.items ++ after rest
    | .right => after rest

theorem items_fill (path : Path α) (tree : ColoredTree α) :
    (path.fill tree).items = path.before ++ tree.items ++ path.after := by
  induction path generalizing tree with
  | nil => simp [fill, before, after]
  | cons frame rest ih =>
    rw [fill, ih]
    cases side : frame.side <;> simp [before, after, side, Frame.fill, join, items]

theorem items_fill_congr (path : Path α) {tree tree' : ColoredTree α} (same : tree'.items = tree.items) :
    (path.fill tree').items = (path.fill tree).items := by
  rw [items_fill, items_fill, same]

end Path

end WebNode.Lib
