import WebNode.Lib.ColoredTree
import Mathlib.Data.Finset.Basic
import Mathlib.Order.Basic

/-!
# Searches in the red-black tree of `wtf/RedBlackTree.h`

A pointer to a node of the tree is a subtree with the path of its parents. The mirrored branches
of the code are one, for the side. A function has no result where the code follows a null pointer.
-/

namespace WebNode.Wtf.RedBlackTree

open WebNode.Lib WebNode.Lib.ColoredTree

variable {α : Type}

section Code

section Keys

variable {κ : Type} [LinearOrder κ] (key : α → κ)

def findExact (wanted : κ) : ColoredTree α → Option α
  | leaf => none
  | node _ left current right =>
    if key current = wanted then some current
    else if wanted < key current then findExact wanted left
    else findExact wanted right

/-- The loop of `findLeastGreaterThanOrEqual`. -/
def findLeast (wanted : κ) (best : Option α) : ColoredTree α → Option α
  | leaf => best
  | node _ left current right =>
    if key current = wanted then some current
    else if key current < wanted then findLeast wanted best right
    else findLeast wanted (some current) left

def findLeastGreaterThanOrEqual (wanted : κ) (tree : ColoredTree α) : Option α := findLeast key wanted none tree

/-- The loop of `findGreatestLessThanOrEqual`. -/
def findGreatest (wanted : κ) (best : Option α) : ColoredTree α → Option α
  | leaf => best
  | node _ left current right =>
    if key current = wanted then some current
    else if key current > wanted then findGreatest wanted best left
    else findGreatest wanted (some current) right

def findGreatestLessThanOrEqual (wanted : κ) (tree : ColoredTree α) : Option α := findGreatest key wanted none tree

/-- The loop of `treeInsert`: the path to the place of `z`. -/
def descend (z : α) : ColoredTree α → Path α → Path α
  | leaf, path => path
  | node color left x right, path =>
    if key z < key x then descend z left (⟨.left, color, x, right⟩ :: path)
    else descend z right (⟨.right, color, x, left⟩ :: path)

end Keys

/-- Case 2 of `insert`, which leaves a red node on the side of its red parent. -/
def turnParent (side : Side) (x : ColoredTree α) (parent : Frame α) : Option (ColoredTree α) :=
  if parent.side = side then some (parent.fill x) else (parent.fill x).rotate side

/-- Cases 2 and 3 of `insert`: the tree in the place of the grandparent. -/
def raiseParent (x : ColoredTree α) (parent grandparent : Frame α) : Option (ColoredTree α) := do
  let parent ← turnParent grandparent.side x parent
  (join grandparent.side .red (parent.paint .black) grandparent.item grandparent.sibling).rotate grandparent.side.other

/-- The loop of `insert`. -/
def insertFixup : ColoredTree α → Path α → Option (ColoredTree α)
  | x, [] => some x
  | x, [parent] => if parent.color = .red then none else some (parent.fill x)
  | x, parent :: grandparent :: rest =>
    if parent.color = .red then
      if grandparent.sibling.rootColor = .red then
        -- Case 1
        insertFixup (join grandparent.side .red (join parent.side .black x parent.item parent.sibling) grandparent.item
          (grandparent.sibling.paint .black)) rest
      else do
        -- The parent of `x` is black afterwards, and the loop ends.
        let raised ← raiseParent x parent grandparent
        return Path.fill rest raised
    else some (Path.fill (parent :: grandparent :: rest) x)

def insert {κ : Type} [LinearOrder κ] (key : α → κ) (tree : ColoredTree α) (z : α) : Option (ColoredTree α) := do
  let tree ← insertFixup (node .red leaf z leaf) (descend key z tree [])
  return tree.paint .black

/-- What a round of `removeFixup` comes to after its Case 1. -/
inductive Settled (α : Type) where
  /-- Case 2: the loop goes on with `xParent`, the root of the tree. -/
  | up (x : ColoredTree α)
  /-- Case 4: the loop goes on, and ends, with the root. -/
  | done (tree : ColoredTree α)

/-- Case 3 of `removeFixup`, which leaves a sibling with a red child on the other side. -/
def turnNephew (side : Side) (sibling : ColoredTree α) (w : Parts α) : Option (ColoredTree α) :=
  if w.far.rootColor = .black then (join side .red (w.near.paint .black) w.item w.far).rotate side.other
  else some sibling

def settle (x : ColoredTree α) (xParent : Frame α) : Option (Settled α) := do
  let side := xParent.side
  let w ← xParent.sibling.cut side
  if w.near.rootColor = .black ∧ w.far.rootColor = .black then
    -- Case 2
    return .up (join side xParent.color x xParent.item (xParent.sibling.paint .red))
  else
    let sibling ← turnNephew side xParent.sibling w
    -- Case 4
    let w ← sibling.cut side
    let raised ←
      (join side .black x xParent.item (join side xParent.color w.near w.item (w.far.paint .black))).rotate side
    return .done raised

def removeFixup : ColoredTree α → Path α → Option (ColoredTree α)
  | x, [] => some (x.paint .black)
  | x, xParent :: rest =>
    if x.rootColor = .red then some (Path.fill (xParent :: rest) (x.paint .black))
    else do
      let w ← xParent.sibling.cut xParent.side
      if w.color = .red then
        -- Case 1
        let above : Path α := ⟨xParent.side, .black, w.item, w.far⟩ :: rest
        match ← settle x ⟨xParent.side, .red, xParent.item, w.near⟩ with
        -- The new `x` is red, which ends the loop.
        | .up x => return above.fill (x.paint .black)
        | .done raised => return (above.fill raised).paint .black
      else
        match ← settle x xParent with
        | .up x => removeFixup x rest
        | .done raised => return (Path.fill rest raised).paint .black

/-- The node `z` with the path to it. -/
def locate [DecidableEq α] (z : α) : ColoredTree α → Path α → Option (Parts α × Path α)
  | leaf, _ => none
  | node color left x right, path =>
    if x = z then some (⟨color, left, x, right⟩, path)
    else
      match locate z left (⟨.left, color, x, right⟩ :: path) with
      | some found => some found
      | none => locate z right (⟨.right, color, x, left⟩ :: path)

def treeMinimum : ColoredTree α → Path α → Option (Parts α × Path α)
  | leaf, _ => none
  | node color left x right, path =>
    match left with
    | leaf => some (⟨color, leaf, x, right⟩, path)
    | left => treeMinimum left (⟨.left, color, x, right⟩ :: path)

/-- The left child, or else the right one. -/
def eitherChild (left right : ColoredTree α) : ColoredTree α :=
  match left with
  | leaf => right
  | left => left

/-- Unlinks `y`, which has at most one child, and mends the tree. -/
def unlink (y : Parts α) (path : Path α) : Option (ColoredTree α) :=
  let x := eitherChild y.near y.far
  if y.color = .black then removeFixup x path else some (path.fill x)

/-- With two children, the successor of `z` is unlinked and then put in the place of `z`. -/
def remove [DecidableEq α] (tree : ColoredTree α) (z : α) : Option (ColoredTree α) := do
  let (parts, path) ← locate z tree []
  if parts.near = leaf ∨ parts.far = leaf then unlink parts path
  else
    let (y, yPath) ← treeMinimum parts.far (⟨.right, parts.color, z, parts.near⟩ :: path)
    let rest ← unlink y yPath
    return rest.map fun item => if item = z then y.item else item

end Code

section Order

theorem items_raiseParent {x raised : ColoredTree α} {parent grandparent : Frame α}
    (done : raiseParent x parent grandparent = some raised) :
    raised.items = (grandparent.fill (parent.fill x)).items := by
  obtain ⟨below, turned, rest⟩ := Option.bind_eq_some_iff.mp done
  have same : below.items = (parent.fill x).items := by
    rw [turnParent] at turned
    split at turned
    · cases turned
      rfl
    · exact items_rotate turned
  rw [items_rotate rest]
  exact items_join_congr ((items_paint ..).trans same) rfl

theorem items_insertFixup {x tree : ColoredTree α} {path : Path α} (done : insertFixup x path = some tree) :
    tree.items = (path.fill x).items := by
  fun_induction insertFixup x path with
  | case1 x => cases done; rfl
  | case2 => cases done
  | case3 => cases done; rfl
  | case4 x parent grandparent rest red uncleRed ih =>
    rw [ih done]
    exact Path.items_fill_congr _ (items_join_congr (items_join_congr rfl rfl) (items_paint ..))
  | case5 x parent grandparent rest red uncleBlack =>
    obtain ⟨raised, run, same⟩ := Option.bind_eq_some_iff.mp done
    cases same
    exact Path.items_fill_congr _ (items_raiseParent run)
  | case6 => cases done; rfl

/-- The tree that a round leaves, whether or not the loop goes on. -/
def Settled.tree : Settled α → ColoredTree α
  | up x => x
  | done tree => tree

theorem items_settle {x : ColoredTree α} {xParent : Frame α} {settled : Settled α}
    (done : settle x xParent = some settled) : settled.tree.items = (xParent.fill x).items := by
  obtain ⟨w, cutW, rest⟩ := Option.bind_eq_some_iff.mp done
  split at rest
  · cases rest
    exact items_join_congr rfl (items_paint ..)
  · obtain ⟨sibling, turned, rest⟩ := Option.bind_eq_some_iff.mp rest
    obtain ⟨w', cutW', rest⟩ := Option.bind_eq_some_iff.mp rest
    obtain ⟨raised, run, same⟩ := Option.bind_eq_some_iff.mp rest
    cases same
    have sameSibling : sibling.items = xParent.sibling.items := by
      rw [turnNephew] at turned
      split at turned
      · rw [items_rotate turned, eq_join_of_cut cutW]
        exact items_join_congr (items_paint ..) rfl
      · cases turned
        rfl
    rw [Settled.tree, items_rotate run]
    refine items_join_congr rfl (Eq.trans ?_ sameSibling)
    rw [eq_join_of_cut cutW']
    exact items_join_congr rfl (items_paint ..)

/-- Case 1 of `removeFixup` is a rotation. -/
theorem items_turned {x : ColoredTree α} {xParent : Frame α} {w : Parts α}
    (cutW : xParent.sibling.cut xParent.side = some w) (below above : Color) :
    (join xParent.side above (join xParent.side below x xParent.item w.near) w.item w.far).items =
      (xParent.fill x).items := by
  rw [Frame.fill, eq_join_of_cut cutW]
  cases xParent.side <;> simp [join, items]

theorem items_removeFixup {x tree : ColoredTree α} {path : Path α} (done : removeFixup x path = some tree) :
    tree.items = (path.fill x).items := by
  induction path generalizing x with
  | nil =>
    cases done
    exact items_paint ..
  | cons xParent rest ih =>
    rw [removeFixup] at done
    split at done
    · cases done
      exact Path.items_fill_congr _ (items_paint ..)
    · obtain ⟨w, cutW, next⟩ := Option.bind_eq_some_iff.mp done
      split at next
      · obtain ⟨settled, run, last⟩ := Option.bind_eq_some_iff.mp next
        have same : (Path.fill (⟨xParent.side, .black, w.item, w.far⟩ :: rest) settled.tree).items =
            (Path.fill (xParent :: rest) x).items :=
          Path.items_fill_congr rest ((items_join_congr (items_settle run) rfl).trans (items_turned cutW .red .black))
        cases settled with
        | up y =>
          cases last
          exact (Path.items_fill_congr _ (items_paint ..)).trans same
        | done raised =>
          cases last
          exact (items_paint ..).trans same
      · obtain ⟨settled, run, last⟩ := Option.bind_eq_some_iff.mp next
        have same : (Path.fill rest settled.tree).items = (Path.fill (xParent :: rest) x).items :=
          Path.items_fill_congr rest (items_settle run)
        cases settled with
        | up y => exact (ih last).trans same
        | done raised =>
          cases last
          exact (items_paint ..).trans same

theorem items_unlink {y : Parts α} {path : Path α} {tree : ColoredTree α} (single : y.near = leaf ∨ y.far = leaf)
    (done : unlink y path = some tree) : tree.items = path.before ++ (y.near.items ++ y.far.items) ++ path.after := by
  obtain ⟨color, near, item, far⟩ := y
  have child : (eitherChild near far).items = near.items ++ far.items := by
    cases near with
    | leaf => rfl
    | node =>
      obtain rfl : far = leaf := single.resolve_left nofun
      exact (List.append_nil _).symm
  rw [← child, ← Path.items_fill]
  rw [unlink] at done
  split at done
  · exact items_removeFixup done
  · cases done
    rfl

end Order

section Places

theorem locate_spec [DecidableEq α] {z : α} {tree : ColoredTree α} {path below : Path α} {parts : Parts α}
    (done : locate z tree path = some (parts, below)) :
    parts.item = z ∧ below.fill (node parts.color parts.near z parts.far) = path.fill tree := by
  induction tree generalizing path with
  | leaf => cases done
  | node color left x right leftIh rightIh =>
    rw [locate] at done
    split at done
    · next here =>
      cases done
      exact ⟨here, by rw [here]⟩
    · split at done
      · next found => exact leftIh (found.trans done)
      · exact rightIh done

/-- The minimum is the first item, and has no left child. -/
theorem treeMinimum_spec {tree : ColoredTree α} {path below : Path α} {parts : Parts α}
    (done : treeMinimum tree path = some (parts, below)) :
    parts.near = leaf ∧ below.before = path.before ∧
      parts.item :: parts.far.items ++ below.after = tree.items ++ path.after := by
  induction tree generalizing path with
  | leaf => cases done
  | node color left x right leftIh rightIh =>
    cases left with
    | leaf =>
      cases done
      exact ⟨rfl, rfl, rfl⟩
    | node =>
      obtain ⟨noLeft, sameBefore, sameItems⟩ := leftIh done
      refine ⟨noLeft, sameBefore, sameItems.trans ?_⟩
      simp [Path.after, items]

theorem map_eq_self [DecidableEq α] {list : List α} {z : α} (y : α) (absent : z ∉ list) :
    (list.map fun item => if item = z then y else item) = list :=
  (List.map_congr_left fun item member => if_neg fun (same : item = z) => absent (same ▸ member)).trans (List.map_id _)

/-- Removing a node removes it from the order, whichever node was unlinked. -/
theorem items_remove [DecidableEq α] {tree changed : ColoredTree α} {z : α} (distinct : tree.items.Nodup)
    (done : remove tree z = some changed) : changed.items = tree.items.erase z := by
  obtain ⟨⟨parts, path⟩, found, rest⟩ := Option.bind_eq_some_iff.mp done
  have place : tree.items = (path.before ++ parts.near.items) ++ z :: (parts.far.items ++ path.after) := by
    rw [← show path.fill (node parts.color parts.near z parts.far) = tree from (locate_spec found).2, Path.items_fill]
    simp [items]
  rw [place] at distinct ⊢
  have apart := List.nodup_middle.mp distinct
  obtain ⟨absent, -⟩ := List.nodup_cons.mp apart
  rw [List.mem_append, not_or] at absent
  rw [List.erase_append_right _ absent.1, List.erase_cons_head]
  dsimp only at rest
  split at rest
  · next single =>
    rw [items_unlink single rest]
    simp
  · obtain ⟨⟨y, yPath⟩, minimum, rest⟩ := Option.bind_eq_some_iff.mp rest
    obtain ⟨removed, run, same⟩ := Option.bind_eq_some_iff.mp rest
    cases same
    obtain ⟨noLeft, sameBefore, sameItems⟩ := treeMinimum_spec minimum
    have sameAfter : y.item :: (y.far.items ++ yPath.after) = parts.far.items ++ path.after := sameItems
    rw [← sameAfter] at absent ⊢
    have rests : removed.items = (path.before ++ parts.near.items) ++ z :: (y.far.items ++ yPath.after) := by
      rw [items_unlink (.inl noLeft) run, noLeft, sameBefore]
      simp [Path.before, items]
    have absentBack := fun member => absent.2 (List.mem_cons_of_mem y.item member)
    rw [items_map, rests, List.map_append, List.map_cons, map_eq_self _ absent.1, map_eq_self _ absentBack, if_pos rfl]

variable {κ : Type} [LinearOrder κ] {key : α → κ}

/-- The place of a new node is after all nodes whose keys are not larger. -/
theorem descend_spec {z : α} {tree : ColoredTree α} {path : Path α} (sorted : tree.items.Pairwise (key · ≤ key ·))
    (low : ∀ v ∈ path.before, key v ≤ key z) (high : ∀ v ∈ path.after, key z ≤ key v) :
    ((descend key z tree path).fill leaf).items = (path.fill tree).items ∧
      (∀ v ∈ (descend key z tree path).before, key v ≤ key z) ∧ ∀ v ∈ (descend key z tree path).after,
      key z ≤ key v := by
  induction tree generalizing path with
  | leaf => exact ⟨rfl, low, high⟩
  | node color left x right leftIh rightIh =>
    simp only [items, List.pairwise_append, List.pairwise_cons, List.mem_cons] at sorted
    rw [descend]
    split
    · refine leftIh sorted.1 low fun v member => ?_
      simp only [Path.after, List.mem_append, List.mem_cons] at member
      grind
    · refine rightIh sorted.2.1.2 (fun v member => ?_) high
      simp only [Path.before, List.mem_append, List.mem_singleton] at member
      grind

/-- An insertion puts the node between the smaller and the larger ones. -/
theorem items_insert {tree changed : ColoredTree α} {z : α} (sorted : tree.items.Pairwise (key · ≤ key ·))
    (done : insert key tree z = some changed) :
    ∃ front back, tree.items = front ++ back ∧ changed.items = front ++ z :: back ∧
      (∀ v ∈ front, key v ≤ key z) ∧ ∀ v ∈ back, key z ≤ key v := by
  obtain ⟨mended, run, same⟩ := Option.bind_eq_some_iff.mp done
  cases same
  obtain ⟨sameItems, low, high⟩ :=
    @descend_spec _ _ _ key z tree [] sorted (by simp [Path.before]) (by simp [Path.after])
  refine ⟨_, _, ?_, ?_, low, high⟩
  · rw [← show (Path.fill [] tree).items = tree.items from rfl, ← sameItems, Path.items_fill]
    simp [items]
  · rw [items_paint, items_insertFixup run, Path.items_fill]
    simp [items]

end Places

section Searches

variable {κ : Type} [LinearOrder κ] {key : α → κ}

theorem findExact_spec (wanted : κ) {tree : ColoredTree α} (sorted : tree.items.Pairwise (key · ≤ key ·)) :
    (findExact key wanted tree = none ↔ ∀ v ∈ tree.items, key v ≠ wanted) ∧
      ∀ x, findExact key wanted tree = some x → x ∈ tree.items ∧ key x = wanted := by
  induction tree with
  | leaf => simp [findExact, items]
  | node color left x right leftIh rightIh =>
    simp only [items, List.pairwise_append, List.pairwise_cons, List.mem_cons] at sorted
    have inLeft := leftIh sorted.1
    have inRight := rightIh sorted.2.1.2
    simp only [findExact, items, List.mem_append, List.mem_cons]
    grind

/-- The best node so far is the answer just if nothing in the tree is. -/
theorem findLeast_spec (wanted : κ) (best : Option α) {tree : ColoredTree α}
    (sorted : tree.items.Pairwise (key · ≤ key ·)) :
    (findLeast key wanted best tree = best ∧ ∀ v ∈ tree.items, key v < wanted) ∨
      ∃ x ∈ tree.items, findLeast key wanted best tree = some x ∧ wanted ≤ key x ∧
        ∀ v ∈ tree.items, wanted ≤ key v → key x ≤ key v := by
  induction tree generalizing best with
  | leaf => exact .inl ⟨rfl, by simp [items]⟩
  | node color left x right leftIh rightIh =>
    simp only [items, List.pairwise_append, List.pairwise_cons, List.mem_cons] at sorted
    have inLeft := leftIh (some x) sorted.1
    have inRight := rightIh best sorted.2.1.2
    simp only [findLeast, items, List.mem_append, List.mem_cons]
    grind

theorem findGreatest_spec (wanted : κ) (best : Option α) {tree : ColoredTree α}
    (sorted : tree.items.Pairwise (key · ≤ key ·)) :
    (findGreatest key wanted best tree = best ∧ ∀ v ∈ tree.items, wanted < key v) ∨
      ∃ x ∈ tree.items, findGreatest key wanted best tree = some x ∧ key x ≤ wanted ∧
        ∀ v ∈ tree.items, key v ≤ wanted → key v ≤ key x := by
  induction tree generalizing best with
  | leaf => exact .inl ⟨rfl, by simp [items]⟩
  | node color left x right leftIh rightIh =>
    simp only [items, List.pairwise_append, List.pairwise_cons, List.mem_cons] at sorted
    have inLeft := leftIh best sorted.1
    have inRight := rightIh (some x) sorted.2.1.2
    simp only [findGreatest, items, List.mem_append, List.mem_cons]
    grind

end Searches

section Runs

variable {κ : Type} [LinearOrder κ] [DecidableEq α]

/-- Trees that some insertions and removals made, with the nodes that are in the tree. -/
inductive Built (key : α → κ) : ColoredTree α → Finset α → Prop
  | empty : Built key leaf ∅
  | insert {tree changed : ColoredTree α} {members : Finset α} {z : α} (built : Built key tree members)
      (fresh : z ∉ members) (done : insert key tree z = some changed) : Built key changed (Insert.insert z members)
  | remove {tree changed : ColoredTree α} {members : Finset α} {z : α} (built : Built key tree members)
      (done : remove tree z = some changed) : Built key changed (members.erase z)

variable {key : α → κ} {tree : ColoredTree α} {members : Finset α}

/-- The order of a tree holds its members once, and sorted. -/
structure Sorted (key : α → κ) (tree : ColoredTree α) (members : Finset α) : Prop where
  mem_iff : ∀ x, x ∈ tree.items ↔ x ∈ members
  distinct : tree.items.Nodup
  sorted : tree.items.Pairwise (key · ≤ key ·)

theorem Sorted.insert {changed : ColoredTree α} {z : α} (order : Sorted key tree members) (fresh : z ∉ members)
    (done : insert key tree z = some changed) : Sorted key changed (Insert.insert z members) := by
  obtain ⟨front, back, split, items', low, high⟩ := items_insert order.sorted done
  have absent : z ∉ front ++ back := fun member => fresh ((order.mem_iff z).mp (split ▸ member))
  have sorted := split ▸ order.sorted
  refine ⟨fun x => ?_, ?_, ?_⟩
  · rw [items', Finset.mem_insert, ← order.mem_iff x, split]
    simp only [List.mem_append, List.mem_cons]
    tauto
  · rw [items', List.nodup_middle]
    exact List.nodup_cons.mpr ⟨absent, split ▸ order.distinct⟩
  · rw [items']
    simp only [List.pairwise_append, List.pairwise_cons, List.mem_cons] at sorted ⊢
    grind

theorem Sorted.remove {changed : ColoredTree α} {z : α} (order : Sorted key tree members)
    (done : remove tree z = some changed) : Sorted key changed (members.erase z) := by
  have items' := items_remove order.distinct done
  refine ⟨fun x => ?_, ?_, ?_⟩
  · rw [items', order.distinct.mem_erase_iff, Finset.mem_erase, order.mem_iff]
  · rw [items']
    exact order.distinct.erase z
  · rw [items']
    exact order.sorted.sublist List.erase_sublist

theorem Built.order (built : Built key tree members) : Sorted key tree members := by
  induction built with
  | empty => exact ⟨by simp [items], .nil, .nil⟩
  | insert _ fresh done ih => exact ih.insert fresh done
  | remove _ done ih => exact ih.remove done

/-- After any insertions and removals the searches are exact, also where keys are equal. -/
theorem Built.searches_exact (built : Built key tree members) (wanted : κ) :
    (findExact key wanted tree = none ↔ ∀ v ∈ members, key v ≠ wanted) ∧
    (∀ x, findExact key wanted tree = some x → x ∈ members ∧ key x = wanted) ∧
    (findLeastGreaterThanOrEqual key wanted tree = none ↔ ∀ v ∈ members, key v < wanted) ∧
    (∀ x, findLeastGreaterThanOrEqual key wanted tree = some x →
      x ∈ members ∧ wanted ≤ key x ∧ ∀ v ∈ members, wanted ≤ key v → key x ≤ key v) ∧
    (findGreatestLessThanOrEqual key wanted tree = none ↔ ∀ v ∈ members, wanted < key v) ∧
    ∀ x, findGreatestLessThanOrEqual key wanted tree = some x →
      x ∈ members ∧ key x ≤ wanted ∧ ∀ v ∈ members, key v ≤ wanted → key v ≤ key x := by
  have order := built.order
  have exact_ := findExact_spec wanted order.sorted
  have least := findLeast_spec wanted none order.sorted
  have greatest := findGreatest_spec wanted none order.sorted
  simp only [order.mem_iff] at exact_ least greatest
  refine ⟨exact_.1, exact_.2, ?_⟩
  simp only [findLeastGreaterThanOrEqual, findGreatestLessThanOrEqual]
  grind

/-- The nodes 2, 4 and 5 with the keys 1, 2 and 2, after node 3 of key 1 was removed. -/
theorem Built.searches_exact_three : ∃ tree : ColoredTree Nat, Built (· / 2) tree {2, 4, 5} ∧
    tree.items = [2, 4, 5] ∧ findExact (· / 2) 3 tree = none ∧
    ∀ x, findGreatestLessThanOrEqual (· / 2) 9 tree = some x → x = 4 ∨ x = 5 := by
  have start : Built (fun x : Nat => x / 2) leaf ∅ := .empty
  have fourth := (((start.insert (z := 4) (by decide) rfl).insert (z := 3) (by decide) rfl).insert (z := 5)
    (by decide) rfl).insert (z := 2) (by decide) rfl
  have built := fourth.remove (z := 3) rfl
  rw [show Finset.erase _ 3 = ({2, 4, 5} : Finset Nat) by decide] at built
  have facts := Built.searches_exact built
  refine ⟨_, built, rfl, (facts 3).1.mpr (by decide), fun x found => ?_⟩
  obtain ⟨member, _, greatest⟩ := (facts 9).2.2.2.2.2 x found
  have above := greatest 4 (by decide) (by decide)
  simp only [Finset.mem_insert, Finset.mem_singleton] at member
  omega

end Runs

end WebNode.Wtf.RedBlackTree
