import Mathlib.Logic.Relation
import Mathlib.Logic.Function.Basic
import Mathlib.Data.List.Basic

/-!
# Fast rejection of selectors

`SelectorFilter` keeps the identifier hashes of the ancestors of an element in a counting Bloom filter,
    and rejects a selector
one of whose ancestor identifiers is not in it. The parent stack is listed from its last frame on.
-/

namespace WebNode.Css

/-! ### The filter -/

namespace BloomFilter

def maximumCount : Nat := 255

/-- The counters of the slots. -/
abbrev Table := Nat → Nat

def firstSlot (hash : UInt32) : Nat :=
  (hash &&& 0xFFF).toNat

def secondSlot (hash : UInt32) : Nat :=
  ((hash >>> 16) &&& 0xFFF).toNat

def increment (table : Table) (slot : Nat) : Table :=
  if table slot < maximumCount then Function.update table slot (table slot + 1) else table

/-- An overflowed slot sticks; an empty one would wrap around. -/
def decrement (table : Table) (slot : Nat) : Table :=
  if table slot < maximumCount then Function.update table slot ((table slot + 255) % 256) else table

def add (table : Table) (hash : UInt32) : Table :=
  increment (increment table (firstSlot hash)) (secondSlot hash)

def remove (table : Table) (hash : UInt32) : Table :=
  decrement (decrement table (firstSlot hash)) (secondSlot hash)

def mayContain (table : Table) (hash : UInt32) : Bool :=
  table (firstSlot hash) ≠ 0 && table (secondSlot hash) ≠ 0

def clear : Table :=
  fun _ => 0

/-- A slot has its exact count, or has overflowed. -/
def Counts (table : Table) (slots : List Nat) : Prop :=
  ∀ slot, table slot = maximumCount ∨ table slot = slots.count slot ∧ slots.count slot < maximumCount

def slotsOf (hashes : List UInt32) : List Nat :=
  hashes.flatMap fun hash => [firstSlot hash, secondSlot hash]

theorem counts_clear : Counts clear [] :=
  fun _ => .inr ⟨rfl, Nat.succ_pos 254⟩

theorem increment_of_ne {slot other : Nat} (differs : other ≠ slot) (table : Table) :
    increment table slot other = table other := by
  rw [increment]
  split
  · exact Function.update_of_ne differs ..
  · rfl

theorem decrement_of_ne {slot other : Nat} (differs : other ≠ slot) (table : Table) :
    decrement table slot other = table other := by
  rw [decrement]
  split
  · exact Function.update_of_ne differs ..
  · rfl

theorem Counts.increment {table : Table} {slots : List Nat} (counts : Counts table slots) (slot : Nat) :
    Counts (increment table slot) (slot :: slots) := by
  intro other
  have here := counts other
  rw [List.count_cons]
  by_cases same : slot = other
  · subst same
    rw [BloomFilter.increment]
    split
    · next below =>
      rw [Function.update_self]
      simp only [beq_self_eq_true, if_true]
      omega
    · next full => exact .inl (here.resolve_right fun exact_ => full (exact_.1 ▸ exact_.2))
  · simpa [increment_of_ne (Ne.symm same), same] using here

theorem Counts.decrement {table : Table} {slots : List Nat} {slot : Nat} (counts : Counts table (slot :: slots)) :
    Counts (decrement table slot) slots := by
  intro other
  have here := counts other
  rw [List.count_cons] at here
  by_cases same : slot = other
  · subst same
    simp only [beq_self_eq_true, if_true] at here
    rw [BloomFilter.decrement]
    split
    · next below =>
      rw [Function.update_self]
      rw [maximumCount] at *
      omega
    · next full => exact .inl (here.resolve_right fun exact_ => full (exact_.1 ▸ exact_.2))
  · simpa [decrement_of_ne (Ne.symm same), same] using here

theorem Counts.perm {table : Table} {slots other : List Nat} (counts : Counts table slots) (same : slots.Perm other) :
    Counts table other :=
  fun slot => same.count_eq slot ▸ counts slot

theorem Counts.add {table : Table} {hashes : List UInt32} (counts : Counts table (slotsOf hashes)) (hash : UInt32) :
    Counts (add table hash) (slotsOf (hash :: hashes)) :=
  ((counts.increment (firstSlot hash)).increment (secondSlot hash)).perm (List.Perm.swap ..)

theorem Counts.remove {table : Table} {hashes : List UInt32} {hash : UInt32}
    (counts : Counts table (slotsOf (hash :: hashes))) : Counts (remove table hash) (slotsOf hashes) :=
  Counts.decrement (Counts.decrement counts)

/-- No false negatives. -/
theorem Counts.mayContain {table : Table} {hashes : List UInt32} (counts : Counts table (slotsOf hashes))
    {hash : UInt32} (member : hash ∈ hashes) : mayContain table hash = true := by
  have counted {slot : Nat} (isSlot : slot ∈ [firstSlot hash, secondSlot hash]) : table slot ≠ 0 := by
    have present : 0 < (slotsOf hashes).count slot := List.count_pos_iff.2 (List.mem_flatMap.2 ⟨hash, member, isSlot⟩)
    rcases counts slot with full | ⟨exact_, _⟩
    · exact full ▸ by decide
    · exact exact_ ▸ Nat.ne_of_gt present
  rw [BloomFilter.mayContain, Bool.and_eq_true, decide_eq_true_iff, decide_eq_true_iff]
  exact ⟨counted (by simp), counted (by simp)⟩

theorem Counts.foldl_add {table : Table} {hashes : List UInt32} (counts : Counts table (slotsOf hashes))
    (new : List UInt32) :
    Counts (new.foldl BloomFilter.add table) (slotsOf (new.reverse ++ hashes)) := by
  induction new generalizing table hashes with
  | nil => exact counts
  | cons hash rest ih =>
    have whole := ih (counts.add hash)
    rwa [List.reverse_cons, List.append_assoc, List.singleton_append]

theorem slotsOf_perm {hashes other : List UInt32} (same : hashes.Perm other) : (slotsOf hashes).Perm (slotsOf other) :=
  same.flatMap_right _

theorem foldl_add_of_not_mem (new : List UInt32) (table : Table) {slot : Nat} (unused : slot ∉ slotsOf new) :
    new.foldl add table slot = table slot := by
  induction new generalizing table with
  | nil => rfl
  | cons hash rest ih =>
    rw [slotsOf, List.flatMap_cons, List.mem_append, not_or] at unused
    obtain ⟨notHere, notLater⟩ := unused
    rw [List.mem_cons, List.mem_singleton, not_or] at notHere
    rw [List.foldl_cons, ih _ notLater, add, increment_of_ne notHere.2, increment_of_ne notHere.1]

/-- The hashes of a part can be removed again. -/
theorem Counts.foldl_remove {table : Table} {hashes old : List UInt32}
    (counts : Counts table (slotsOf (old ++ hashes))) :
    Counts (old.foldl BloomFilter.remove table) (slotsOf hashes) := by
  induction old generalizing table with
  | nil => exact counts
  | cons hash rest ih => exact ih counts.remove

end BloomFilter

/-! ### Elements and selectors -/

abbrev Name := List Char

def convertToASCIILowercase (name : Name) : Name :=
  name.map Char.toLower

def starAtom : Name := ['*']

/-- What selectors see of an element. -/
structure Element where
  localName : Name
  id : Option Name
  classNames : List Name
  isStyledElement : Bool
  deriving DecidableEq, Repr

/-- Elements with their parents and their previous siblings. -/
structure Tree (ε : Type) where
  element : ε → Element
  parent : ε → Option ε
  previousSibling : ε → Option ε
  depth : ε → Nat
  depth_parent : ∀ e p, parent e = some p → depth p < depth e
  parent_previousSibling : ∀ e s, previousSibling e = some s → parent s = parent e

inductive Simple where
  | tag (localName : Name)
  | id (value : Name)
  | cssClass (value : Name)
  deriving DecidableEq, Repr

inductive Relation where
  | subSelector
  | descendant
  | child
  | directAdjacent
  | indirectAdjacent
  deriving DecidableEq, Repr

/-- The rightmost simple selector, its relation to the next one, and the further ones with theirs. -/
structure Selector where
  simple : Simple
  relation : Relation
  tagHistory : List (Simple × Relation)
  deriving DecidableEq, Repr

namespace SelectorFilter

variable {ε : Type} [DecidableEq ε]

section Code

-- `hash` is `existingHash`.
variable (hash : Name → UInt32) (tree : Tree ε)

def tagNameSalt : UInt32 := 13

def idAttributeSalt : UInt32 := 17

def classAttributeSalt : UInt32 := 19

def collectElementIdentifierHashes (element : Element) : List UInt32 :=
  [hash (convertToASCIILowercase element.localName) * tagNameSalt] ++
    (element.id.map fun id => hash id * idAttributeSalt).toList ++
    if element.isStyledElement then element.classNames.map fun name => hash name * classAttributeSalt else []

structure ParentStackFrame (ε : Type) where
  element : ε
  identifierHashes : List UInt32

structure State (ε : Type) where
  parentStack : List (ParentStackFrame ε)
  ancestorIdentifierFilter : Option BloomFilter.Table

def State.init : State ε :=
  ⟨[], none⟩

/-- `none` where the code would use a filter that is not there. -/
def pushParentStackFrame (state : State ε) (parent : ε) : Option (State ε) :=
  let identifierHashes := collectElementIdentifierHashes hash (tree.element parent)
  state.ancestorIdentifierFilter.map fun filter =>
    ⟨⟨parent, identifierHashes⟩ :: state.parentStack, some (identifierHashes.foldl BloomFilter.add filter)⟩

def popParentStackFrame (state : State ε) : Option (State ε) :=
  match state.parentStack, state.ancestorIdentifierFilter with
  | frame :: parentStack, some filter =>
    some ⟨parentStack,
      if parentStack.isEmpty then none else some (frame.identifierHashes.foldl BloomFilter.remove filter)⟩
  | _, _ => none

/-- The ancestors that `setupParentStack` climbs up to. -/
def climb : Nat → Option ε → List ε
  | 0, _ => []
  | _ + 1, none => []
  | fuel + 1, some ancestor => ancestor :: climb fuel (tree.parent ancestor)

def setupParentStack (parent : ε) : Option (State ε) :=
  let cleared : State ε := ⟨[], some BloomFilter.clear⟩
  if (tree.parent parent).isNone then pushParentStackFrame hash tree cleared parent
  else (climb tree (tree.depth parent + 1) (some parent)).reverse.foldlM (pushParentStackFrame hash tree) cleared

def pushParent (state : State ε) (parent : ε) : Option (State ε) :=
  match state.parentStack with
  | [] => none
  | last :: _ =>
    if some last.element ≠ tree.parent parent then some state else pushParentStackFrame hash tree state parent

def parentStackIsConsistent (state : State ε) (parentNode : ε) : Bool :=
  (state.parentStack.head?.map (·.element)) = some parentNode

def collectDescendantSelectorIdentifierHashes : Simple → List UInt32
  | .id value => if value.isEmpty then [] else [hash value * idAttributeSalt]
  | .cssClass value => if value.isEmpty then [] else [hash value * classAttributeSalt]
  | .tag localName =>
    let tagLowercaseLocalName := convertToASCIILowercase localName
    if tagLowercaseLocalName = starAtom then [] else [hash tagLowercaseLocalName * tagNameSalt]

/-- Only identifiers that match ancestors are collected. -/
def collectForRelation (relation : Relation) (simple : Simple) (skipOverSubselectors : Bool) (hashes : List UInt32) :
    Bool × List UInt32 :=
  let collected := collectDescendantSelectorIdentifierHashes hash simple
  match relation with
  | .subSelector => (skipOverSubselectors, if skipOverSubselectors then hashes else hashes ++ collected)
  | .directAdjacent | .indirectAdjacent => (true, hashes)
  | .descendant | .child => (false, hashes ++ collected)

def collectLoop (maximumIdentifierCount : Nat) : List (Simple × Relation) → Relation → Bool → List UInt32 → List UInt32
  | [], _, _, hashes => hashes ++ [0]
  | (simple, next) :: rest, relation, skipOverSubselectors, hashes =>
    let round := collectForRelation hash relation simple skipOverSubselectors hashes
    if round.2.length = maximumIdentifierCount then round.2
    else collectLoop maximumIdentifierCount rest next round.1 round.2

def collectIdentifierHashes (selector : Selector) (maximumIdentifierCount : Nat) : List UInt32 :=
  collectLoop hash maximumIdentifierCount selector.tagHistory selector.relation true []

/-- `none` for a filter that is not there. -/
def fastRejectSelector (state : State ε) (maximumIdentifierCount : Nat) (identifierHashes : List UInt32) :
    Option Bool :=
  state.ancestorIdentifierFilter.map fun filter =>
    ((identifierHashes.take maximumIdentifierCount).takeWhile (· ≠ 0)).any fun hash =>
      !BloomFilter.mayContain filter hash

/-- A call; `popParent` is made only when the stack is consistent with the parent. -/
inductive Call (ε : Type) where
  | setupParentStack (parent : ε)
  | pushParent (parent : ε)
  | popParent (parent : ε)

def step (state : State ε) : Call ε → Option (State ε)
  | .setupParentStack parent => setupParentStack hash tree parent
  | .pushParent parent => pushParent hash tree state parent
  | .popParent parent => if parentStackIsConsistent state parent then popParentStackFrame state else none

end Code

/-! ### The purpose -/

section Semantics

variable (tree : Tree ε)

def MatchesSimple (element : Element) : Simple → Prop
  | .tag localName => convertToASCIILowercase localName = starAtom ∨
      convertToASCIILowercase localName = convertToASCIILowercase element.localName
  | .id value => element.id = some value
  | .cssClass value => value ∈ element.classNames

/-- The elements that a combinator leads to. -/
def Related : Relation → ε → ε → Prop
  | .subSelector, e, other => e = other
  | .descendant, e, other => Relation.TransGen (fun x y => tree.parent x = some y) e other
  | .child, e, other => tree.parent e = some other
  | .directAdjacent, e, other => tree.previousSibling e = some other
  | .indirectAdjacent, e, other => Relation.TransGen (fun x y => tree.previousSibling x = some y) e other

def MatchesRest : List (Simple × Relation) → Relation → ε → Prop
  | [], _, _ => True
  | (simple, next) :: rest, relation, e =>
    ∃ other, Related tree relation e other ∧ MatchesSimple (tree.element other) simple ∧ MatchesRest rest next other

def Matches (selector : Selector) (e : ε) : Prop :=
  MatchesSimple (tree.element e) selector.simple ∧ MatchesRest tree selector.tagHistory selector.relation e

/-- With any hash function, after any calls: a selector that is rejected for an element, with the stack consistent with
its parent, does not match it. -/
def NeverRejectsMatch : Prop :=
  ∀ (hash : Name → UInt32) (calls : List (Call ε)) (state : State ε),
    calls.foldlM (step hash tree) State.init = some state →
    ∀ e p, tree.parent e = some p → parentStackIsConsistent state p = true →
      ∀ (selector : Selector) (maximumIdentifierCount : Nat),
        fastRejectSelector state maximumIdentifierCount (collectIdentifierHashes hash selector maximumIdentifierCount) =
          some true →
          ¬ Matches tree selector e

/-- Some styled ancestor of an element has every class of its ancestors. -/
def ClassesOnStyled : Prop :=
  ∀ e a, Relation.TransGen (fun x y => tree.parent x = some y) e a → ∀ name ∈ (tree.element a).classNames, name ≠ [] →
    ∃ b, Relation.TransGen (fun x y => tree.parent x = some y) e b ∧ (tree.element b).isStyledElement = true ∧
      name ∈ (tree.element b).classNames

end Semantics

/-! ### The parent stack -/

section Stack

variable {hash : Name → UInt32} {tree : Tree ε} {state next : State ε}

/-- Each element is followed by its parent, up to a root. -/
def IsLine (tree : Tree ε) : List ε → Prop
  | [] => True
  | e :: rest => tree.parent e = rest.head? ∧ IsLine tree rest

omit [DecidableEq ε] in
/-- All ancestors of an element are on the line that starts with its parent. -/
theorem IsLine.mem {line : List ε} (isLine : IsLine tree line) {e a : ε} (starts : tree.parent e = line.head?)
    (ancestor : Relation.TransGen (fun x y => tree.parent x = some y) e a) : a ∈ line := by
  induction line generalizing e with
  | nil =>
    obtain ⟨_, first, _⟩ := Relation.TransGen.head'_iff.1 ancestor
    rw [starts] at first
    cases first
  | cons p rest ih =>
    obtain ⟨_, first, further⟩ := Relation.TransGen.head'_iff.1 ancestor
    obtain rfl := Option.some.inj (starts.symm.trans first)
    rcases Relation.ReflTransGen.cases_head_iff.1 further with rfl | ⟨_, second, further⟩
    · exact List.mem_cons_self
    · exact List.mem_cons_of_mem _ (ih isLine.2 isLine.1 (Relation.TransGen.head'_iff.2 ⟨_, second, further⟩))

/-- The stack is a line of ancestors, and the filter counts their hashes. -/
structure Keeps (hash : Name → UInt32) (tree : Tree ε) (state : State ε) : Prop where
  line : IsLine tree (state.parentStack.map (·.element))
  hashes : ∀ frame ∈ state.parentStack,
    frame.identifierHashes = collectElementIdentifierHashes hash (tree.element frame.element)
  counts : ∀ table ∈ state.ancestorIdentifierFilter,
    BloomFilter.Counts table (BloomFilter.slotsOf (state.parentStack.flatMap (·.identifierHashes)))

omit [DecidableEq ε] in
theorem Keeps.push (keeps : Keeps hash tree state) {parent : ε}
    (onTop : tree.parent parent = (state.parentStack.map (·.element)).head?)
    (pushed : pushParentStackFrame hash tree state parent = some next) :
    Keeps hash tree next ∧ next.parentStack.map (·.element) = parent :: state.parentStack.map (·.element) := by
  obtain ⟨filter, isFilter, rfl⟩ := Option.map_eq_some_iff.1 pushed
  refine ⟨⟨⟨onTop, keeps.line⟩, ?_, ?_⟩, rfl⟩
  · exact List.forall_mem_cons.2 ⟨rfl, keeps.hashes⟩
  · rintro _ ⟨⟩
    refine ((keeps.counts filter isFilter).foldl_add _).perm (BloomFilter.slotsOf_perm ?_)
    exact (List.reverse_perm _).append_right _

omit [DecidableEq ε] in
theorem Keeps.pop (keeps : Keeps hash tree state) (popped : popParentStackFrame state = some next) :
    Keeps hash tree next := by
  obtain ⟨stack, filter⟩ := state
  cases stack with
  | nil => cases popped
  | cons frame stack =>
    cases filter with
    | none => cases popped
    | some filter =>
      obtain rfl := Option.some.inj popped
      refine ⟨keeps.line.2, fun other member => keeps.hashes other (List.mem_cons_of_mem _ member),
        fun table isTable => ?_⟩
      dsimp only at isTable
      split at isTable
      · cases isTable
      · obtain rfl := Option.some.inj isTable
        exact (keeps.counts filter rfl).foldl_remove

omit [DecidableEq ε] in
theorem keeps_cleared : Keeps hash tree ⟨[], some BloomFilter.clear⟩ :=
  ⟨trivial, by simp, fun _ isTable => Option.some.inj isTable ▸ BloomFilter.counts_clear⟩

omit [DecidableEq ε] in
theorem climb_isLine (fuel : Nat) (e : ε) (enough : tree.depth e < fuel) :
    IsLine tree (climb tree fuel (some e)) ∧ (climb tree fuel (some e)).head? = some e := by
  induction fuel generalizing e with
  | zero => exact absurd enough (Nat.not_lt_zero _)
  | succ fuel ih =>
    refine ⟨?_, rfl⟩
    rw [climb]
    cases parent : tree.parent e with
    | none => cases fuel <;> exact ⟨parent, trivial⟩
    | some p =>
      obtain ⟨isLine, starts⟩ := ih p (by have := tree.depth_parent e p parent; omega)
      exact ⟨parent.trans starts.symm, isLine⟩

omit [DecidableEq ε] in
theorem climb_ancestor (fuel : Nat) (e a : ε) (member : a ∈ climb tree fuel (some e)) :
    Relation.ReflTransGen (fun x y => tree.parent x = some y) e a := by
  induction fuel generalizing e with
  | zero => cases member
  | succ fuel ih =>
    rcases List.mem_cons.1 member with rfl | further
    · exact .refl
    · cases parent : tree.parent e with
      | none =>
        rw [parent] at further
        cases fuel <;> cases further
      | some p => exact .head parent (ih p (parent ▸ further))

omit [DecidableEq ε] in
/-- Pushing a line from its root on succeeds and leaves it on the stack; slots that no hash has are empty. -/
theorem pushLine (line : List ε) (isLine : IsLine tree line) :
    ∃ next, line.reverse.foldlM (pushParentStackFrame hash tree) ⟨[], some BloomFilter.clear⟩ = some next ∧
      Keeps hash tree next ∧ next.parentStack.map (·.element) = line ∧
      ∃ table, next.ancestorIdentifierFilter = some table ∧
        ∀ slot, (∀ a ∈ line, slot ∉ BloomFilter.slotsOf (collectElementIdentifierHashes hash (tree.element a))) →
          table slot = 0 := by
  induction line with
  | nil => exact ⟨_, rfl, keeps_cleared, rfl, _, rfl, fun _ _ => rfl⟩
  | cons e rest ih =>
    obtain ⟨below, folded, keeps, elements, table, isTable, unused⟩ := ih isLine.2
    have pushed : pushParentStackFrame hash tree below e = some
        ⟨⟨e, collectElementIdentifierHashes hash (tree.element e)⟩ :: below.parentStack,
          some ((collectElementIdentifierHashes hash (tree.element e)).foldl BloomFilter.add table)⟩ := by
      rw [pushParentStackFrame, isTable]
      rfl
    obtain ⟨keepsNext, nextElements⟩ := keeps.push (isLine.1.trans (elements ▸ rfl)) pushed
    refine ⟨_, ?_, keepsNext, nextElements.trans (elements ▸ rfl), _, rfl, fun slot free => ?_⟩
    · rw [List.reverse_cons, List.foldlM_append, folded]
      simpa using pushed
    · obtain ⟨here, above⟩ := List.forall_mem_cons.1 free
      rw [BloomFilter.foldl_add_of_not_mem _ table here, unused slot above]

omit [DecidableEq ε] in
/-- `setupParentStack` leaves the parent with its ancestors on the stack. -/
theorem setupParentStack_spec (parent : ε) :
    ∃ next, setupParentStack hash tree parent = some next ∧ Keeps hash tree next ∧
      (next.parentStack.map (·.element)).head? = some parent ∧
      ∃ table, next.ancestorIdentifierFilter = some table ∧
        ∀ slot, (∀ a, Relation.ReflTransGen (fun x y => tree.parent x = some y) parent a →
          slot ∉ BloomFilter.slotsOf (collectElementIdentifierHashes hash (tree.element a))) → table slot = 0 := by
  -- The fast version for a root pushes the same line.
  obtain ⟨line, isLine, starts, onLine, setup⟩ : ∃ line, IsLine tree line ∧ line.head? = some parent ∧
      (∀ a ∈ line, Relation.ReflTransGen (fun x y => tree.parent x = some y) parent a) ∧
      setupParentStack hash tree parent =
        line.reverse.foldlM (pushParentStackFrame hash tree) ⟨[], some BloomFilter.clear⟩ := by
    rw [setupParentStack]
    split
    · next isRoot =>
      refine ⟨[parent], ⟨Option.isNone_iff_eq_none.1 isRoot, trivial⟩, rfl, fun a member => ?_, ?_⟩
      · exact List.mem_singleton.1 member ▸ .refl
      · simp
    · obtain ⟨isLine, starts⟩ := climb_isLine (tree.depth parent + 1) parent (Nat.lt_succ_self _)
      exact ⟨_, isLine, starts, fun a => climb_ancestor _ _ a, rfl⟩
  obtain ⟨next, folded, keeps, elements, table, isTable, unused⟩ := pushLine line isLine
  exact ⟨next, setup.trans folded, keeps, elements ▸ starts, table, isTable, fun slot free =>
    unused slot fun a member => free a (onLine a member)⟩

theorem Keeps.step (keeps : Keeps hash tree state) {call : Call ε} (stepped : step hash tree state call = some next) :
    Keeps hash tree next := by
  cases call with
  | setupParentStack parent =>
    obtain ⟨other, setup, keepsOther, _⟩ := @setupParentStack_spec _ hash tree parent
    exact Option.some.inj (setup.symm.trans stepped) ▸ keepsOther
  | pushParent parent =>
    rw [SelectorFilter.step, pushParent] at stepped
    split at stepped
    · cases stepped
    · next last below stack =>
      split at stepped
      · exact Option.some.inj stepped ▸ keeps
      · next onTop => exact (keeps.push (by rw [stack]; exact (not_not.1 onTop).symm) stepped).1
  | popParent parent =>
    rw [SelectorFilter.step] at stepped
    split at stepped
    · exact keeps.pop stepped
    · cases stepped

theorem keeps_calls (calls : List (Call ε)) (keeps : Keeps hash tree state)
    (run : calls.foldlM (SelectorFilter.step hash tree) state = some next) : Keeps hash tree next := by
  induction calls generalizing state with
  | nil => exact Option.some.inj run ▸ keeps
  | cons call rest ih =>
    rw [List.foldlM_cons] at run
    obtain ⟨middle, stepped, further⟩ := Option.bind_eq_some_iff.1 run
    exact ih (keeps.step stepped) further

end Stack

/-! ### Collected identifiers -/

section Collected

variable {hash : Name → UInt32} {tree : Tree ε}

/-- A hash that an ancestor has in the filter. -/
def OnAncestor (hash : Name → UInt32) (tree : Tree ε) (e : ε) (identifierHash : UInt32) : Prop :=
  ∃ a, Relation.TransGen (fun x y => tree.parent x = some y) e a ∧
    identifierHash ∈ collectElementIdentifierHashes hash (tree.element a)

omit [DecidableEq ε] in
theorem onAncestor_of_matchesSimple (onStyled : ClassesOnStyled tree) {e a : ε} {simple : Simple}
    {identifierHash : UInt32} (ancestor : Relation.TransGen (fun x y => tree.parent x = some y) e a)
    (isMatch : MatchesSimple (tree.element a) simple)
    (collected : identifierHash ∈ collectDescendantSelectorIdentifierHashes hash simple) :
    OnAncestor hash tree e identifierHash := by
  cases simple with
  | tag localName =>
    rw [collectDescendantSelectorIdentifierHashes] at collected
    split at collected
    · cases collected
    · next notStar =>
      obtain rfl := List.mem_singleton.1 collected
      refine ⟨a, ancestor, ?_⟩
      simp [collectElementIdentifierHashes, isMatch.resolve_left notStar]
  | id value =>
    rw [collectDescendantSelectorIdentifierHashes] at collected
    split at collected
    · cases collected
    · obtain rfl := List.mem_singleton.1 collected
      refine ⟨a, ancestor, ?_⟩
      simp [collectElementIdentifierHashes, show (tree.element a).id = some value from isMatch]
  | cssClass value =>
    rw [collectDescendantSelectorIdentifierHashes] at collected
    split at collected
    · cases collected
    · next notEmpty =>
      obtain rfl := List.mem_singleton.1 collected
      obtain ⟨b, ancestorB, styled, hasClass⟩ := onStyled e a ancestor value isMatch fun empty => notEmpty (empty ▸ rfl)
      refine ⟨b, ancestorB, ?_⟩
      rw [collectElementIdentifierHashes, if_pos styled]
      exact List.mem_append_right _ (List.mem_map_of_mem hasClass)

omit [DecidableEq ε] in
theorem parent_of_siblings {e s : ε} (siblings : Relation.TransGen (fun x y => tree.previousSibling x = some y) e s) :
    tree.parent s = tree.parent e := by
  induction siblings with
  | single first => exact tree.parent_previousSibling _ _ first
  | tail _ last ih => exact (tree.parent_previousSibling _ _ last).trans ih

omit [DecidableEq ε] in
theorem ancestor_of_parent_eq {x y a : ε} (same : tree.parent y = tree.parent x)
    (ancestor : Relation.TransGen (fun x y => tree.parent x = some y) y a) :
    Relation.TransGen (fun x y => tree.parent x = some y) x a := by
  obtain ⟨p, first, further⟩ := Relation.TransGen.head'_iff.1 ancestor
  exact Relation.TransGen.head'_iff.2 ⟨p, same.symm.trans first, further⟩

/-- Where the search for a match of a selector at `e` stands: at an ancestor of `e` while identifiers are collected, and
over a sibling combinator still below the ancestors of `e` only. -/
structure Standing (tree : Tree ε) (e x : ε) (skipOverSubselectors : Bool) : Prop where
  above : ∀ a, Relation.TransGen (fun x y => tree.parent x = some y) x a →
    Relation.TransGen (fun x y => tree.parent x = some y) e a
  onAncestor : skipOverSubselectors = false → Relation.TransGen (fun x y => tree.parent x = some y) e x

omit [DecidableEq ε] in
theorem Standing.collect (onStyled : ClassesOnStyled tree) {e x y : ε} {skip : Bool} (standing : Standing tree e x skip)
    {relation : Relation} {simple : Simple} {hashes : List UInt32} (related : Related tree relation x y)
    (isMatch : MatchesSimple (tree.element y) simple) (known : ∀ h ∈ hashes, h = 0 ∨ OnAncestor hash tree e h) :
    Standing tree e y (collectForRelation hash relation simple skip hashes).1 ∧
      ∀ h ∈ (collectForRelation hash relation simple skip hashes).2, h = 0 ∨ OnAncestor hash tree e h := by
  have collected (ancestor : Relation.TransGen (fun x y => tree.parent x = some y) e y) :
      ∀ h ∈ hashes ++ collectDescendantSelectorIdentifierHashes hash simple, h = 0 ∨ OnAncestor hash tree e h := by
    intro h member
    rcases List.mem_append.1 member with old | new
    · exact known h old
    · exact .inr (onAncestor_of_matchesSimple onStyled ancestor isMatch new)
  have climbed (ancestor : Relation.TransGen (fun x y => tree.parent x = some y) x y) : Standing tree e y false :=
    ⟨fun a further => standing.above a (ancestor.trans further), fun _ => standing.above y ancestor⟩
  have beside (same : tree.parent y = tree.parent x) : Standing tree e y true :=
    ⟨fun a further => standing.above a (ancestor_of_parent_eq same further), fun no => Bool.noConfusion no⟩
  cases relation with
  | subSelector =>
    cases related
    refine ⟨standing, ?_⟩
    cases skip with
    | true => exact known
    | false => exact collected (standing.onAncestor rfl)
  | descendant => exact ⟨climbed related, collected (standing.above y related)⟩
  | child => exact ⟨climbed (.single related), collected (standing.above y (.single related))⟩
  | directAdjacent => exact ⟨beside (tree.parent_previousSibling _ _ related), known⟩
  | indirectAdjacent => exact ⟨beside (parent_of_siblings related), known⟩

omit [DecidableEq ε] in
theorem collectLoop_onAncestor (onStyled : ClassesOnStyled tree) {e : ε} (maximumIdentifierCount : Nat)
    (rest : List (Simple × Relation)) {relation : Relation} {skip : Bool} {hashes : List UInt32} {x : ε}
    (standing : Standing tree e x skip) (isMatch : MatchesRest tree rest relation x)
    (known : ∀ h ∈ hashes, h = 0 ∨ OnAncestor hash tree e h) :
    ∀ h ∈ collectLoop hash maximumIdentifierCount rest relation skip hashes, h = 0 ∨ OnAncestor hash tree e h := by
  induction rest generalizing relation skip hashes x with
  | nil =>
    intro h member
    rcases List.mem_append.1 member with old | last
    · exact known h old
    · exact .inl (List.mem_singleton.1 last)
  | cons component rest ih =>
    obtain ⟨simple, next⟩ := component
    obtain ⟨y, related, matchesY, further⟩ := isMatch
    obtain ⟨standingY, knownY⟩ := standing.collect onStyled related matchesY known
    rw [collectLoop]
    split
    · exact knownY
    · exact ih standingY further knownY

end Collected

/-! ### Rejection -/

section Rejection

variable {hash : Name → UInt32} {tree : Tree ε}

theorem Keeps.not_reject {state : State ε} (keeps : Keeps hash tree state) (onStyled : ClassesOnStyled tree) {e p : ε}
    (parent : tree.parent e = some p) (consistent : parentStackIsConsistent state p = true) {selector : Selector}
    (isMatch : Matches tree selector e) (maximumIdentifierCount : Nat) :
    fastRejectSelector state maximumIdentifierCount
      (collectIdentifierHashes hash selector maximumIdentifierCount) ≠ some true := by
  intro rejected
  obtain ⟨filter, isFilter, found⟩ := Option.map_eq_some_iff.1 rejected
  obtain ⟨h, member, absent⟩ := List.any_eq_true.1 found
  have nonzero : h ≠ 0 := by simpa using List.all_eq_true.1 List.all_takeWhile h member
  have inCollected := List.mem_of_mem_take ((List.takeWhile_sublist _).subset member)
  have start : Standing tree e e true := ⟨fun _ ancestor => ancestor, fun no => Bool.noConfusion no⟩
  obtain ⟨a, ancestor, hasHash⟩ :=
    (collectLoop_onAncestor onStyled maximumIdentifierCount selector.tagHistory start isMatch.2
    (by simp) h inCollected).resolve_left nonzero
  have starts : tree.parent e = (state.parentStack.map (·.element)).head? := by
    rw [parent, List.head?_map]
    exact (of_decide_eq_true consistent).symm
  obtain ⟨frame, isFrame, rfl⟩ := List.mem_map.1 (keeps.line.mem starts ancestor)
  have inFilter := (keeps.counts filter isFilter).mayContain
    (List.mem_flatMap.2 ⟨frame, isFrame, (keeps.hashes frame isFrame).symm ▸ hasHash⟩)
  rw [inFilter] at absent
  cases absent

/-- A hash function that tells one name from all others. -/
def hashOf (name other : Name) : UInt32 :=
  if other = name then 1 else 2

omit [DecidableEq ε] in
/-- With that hash function only a styled element with the class fills the slot of its hash. -/
theorem slot_unused {name : Name} {element : Element}
    (without : element.isStyledElement = true → name ∉ element.classNames) :
    BloomFilter.firstSlot (1 * classAttributeSalt) ∉
      BloomFilter.slotsOf (collectElementIdentifierHashes (hashOf name) element) := by
  have free (value : Name) (salt : UInt32) (isSalt : salt = tagNameSalt ∨ salt = idAttributeSalt ∨
      salt = classAttributeSalt ∧ value ≠ name) :
      BloomFilter.firstSlot (1 * classAttributeSalt) ∉
        [BloomFilter.firstSlot (hashOf name value * salt), BloomFilter.secondSlot (hashOf name value * salt)] := by
    rw [hashOf]
    rcases isSalt with rfl | rfl | ⟨rfl, differs⟩
    · split <;> decide
    · split <;> decide
    · rw [if_neg differs]
      decide
  intro member
  obtain ⟨h, isHash, inSlots⟩ := List.mem_flatMap.1 member
  rw [collectElementIdentifierHashes, List.mem_append, List.mem_append, List.mem_singleton] at isHash
  rcases isHash with (rfl | isId) | isClass
  · exact free _ _ (.inl rfl) inSlots
  · obtain ⟨id, _, rfl⟩ := Option.map_eq_some_iff.1 (Option.mem_toList.1 isId)
    exact free _ _ (.inr (.inl rfl)) inSlots
  · split at isClass
    · next styled =>
      obtain ⟨value, hasClass, rfl⟩ := List.mem_map.1 isClass
      exact free _ _ (.inr (.inr ⟨rfl, fun same => without styled (same ▸ hasClass)⟩)) inSlots
    · cases isClass

/-- An element is rejected for a class that only ancestors without style have. -/
theorem rejects_of_not_styled {e p : ε} {name : Name} (parent : tree.parent e = some p) (nonempty : name ≠ [])
    (without : ∀ b, Relation.TransGen (fun x y => tree.parent x = some y) e b →
      (tree.element b).isStyledElement = true → name ∉ (tree.element b).classNames) :
    ∃ state, [Call.setupParentStack p].foldlM (step (hashOf name) tree) State.init = some state ∧
      parentStackIsConsistent state p = true ∧
      fastRejectSelector state 1 (collectIdentifierHashes (hashOf name)
        ⟨.tag starAtom, .descendant, [(.cssClass name, .subSelector)]⟩ 1) = some true := by
  obtain ⟨state, setup, _, starts, table, isTable, unused⟩ := @setupParentStack_spec _ (hashOf name) tree p
  have notEmpty : name.isEmpty = false := List.isEmpty_eq_false_iff.2 nonempty
  have collected :
      collectIdentifierHashes (hashOf name) ⟨.tag starAtom, .descendant, [(.cssClass name, .subSelector)]⟩ 1 =
      [1 * classAttributeSalt] := by
    simp [collectIdentifierHashes, collectLoop, collectForRelation, collectDescendantSelectorIdentifierHashes, notEmpty,
      hashOf]
  have empty : table (BloomFilter.firstSlot (1 * classAttributeSalt)) = 0 := unused _ fun a further =>
    slot_unused (without a (Relation.TransGen.head'_iff.2 ⟨p, parent, further⟩))
  refine ⟨state, by simpa [step] using setup, ?_, ?_⟩
  · rw [parentStackIsConsistent, ← List.head?_map, starts, decide_eq_true_iff]
  · rw [fastRejectSelector, isTable, collected]
    have absent : BloomFilter.mayContain table (1 * classAttributeSalt) = false := by
      rw [BloomFilter.mayContain, empty]
      rfl
    have nonzero : (1 * classAttributeSalt : UInt32) ≠ 0 := by decide
    rw [Option.map_some, List.take_one, List.head?_cons, Option.toList_some,
      List.takeWhile_cons_of_pos (by simpa using nonzero), List.takeWhile_nil, List.any_cons, absent]
    rfl

/-- Fast rejection never rejects a match, with any hash function, exactly when every class of an ancestor of an element
is also on a styled ancestor of it. -/
theorem neverRejectsMatch_iff (tree : Tree ε) : NeverRejectsMatch tree ↔ ClassesOnStyled tree := by
  constructor
  · intro never e a ancestor name hasClass nonempty
    by_contra none
    push Not at none
    obtain ⟨p, parent, _⟩ := Relation.TransGen.head'_iff.1 ancestor
    obtain ⟨state, run, consistent, rejected⟩ := rejects_of_not_styled parent nonempty none
    refine never _ _ state run e p parent consistent _ 1 rejected ⟨.inl (by decide), a, ancestor, hasClass, trivial⟩
  · intro onStyled hash calls state run e p parent consistent selector maximumIdentifierCount rejected isMatch
    have initial : Keeps hash tree State.init := ⟨trivial, by simp [State.init], by simp [State.init]⟩
    exact (keeps_calls calls initial run).not_reject onStyled parent consistent isMatch maximumIdentifierCount rejected

end Rejection

/-- A child `x` of an element `r` with the class `c`. -/
def childOf (isStyledElement : Bool) : Tree Bool where
  element e := if e then ⟨['x'], none, [], true⟩ else ⟨['r'], none, [['c']], isStyledElement⟩
  parent e := if e then some false else none
  previousSibling _ := none
  depth e := if e then 1 else 0
  depth_parent := by decide
  parent_previousSibling := by simp

theorem neverRejectsMatch_styled : NeverRejectsMatch (childOf true) := by
  refine (neverRejectsMatch_iff _).2 fun e a ancestor name hasClass _ => ?_
  cases a with
  | true => simp [childOf] at hasClass
  | false => exact ⟨false, ancestor, rfl, hasClass⟩

/-- The class of an element without style is not in the filter: `.c x` is rejected for `x`, which it matches. -/
theorem unstyled_class_rejected :
    (∃ state, [Call.setupParentStack false].foldlM (step (hashOf ['c']) (childOf false)) State.init = some state ∧
      parentStackIsConsistent state false = true ∧
      fastRejectSelector state 4 (collectIdentifierHashes (hashOf ['c'])
        ⟨.tag ['x'], .descendant, [(.cssClass ['c'], .subSelector)]⟩ 4) = some true) ∧
      Matches (childOf false) ⟨.tag ['x'], .descendant, [(.cssClass ['c'], .subSelector)]⟩ true ∧
      ¬ NeverRejectsMatch (childOf false) := by
  have isMatch : Matches (childOf false) ⟨.tag ['x'], .descendant, [(.cssClass ['c'], .subSelector)]⟩ true :=
    ⟨.inr rfl, false, .single rfl, List.mem_cons_self, trivial⟩
  have rejected :
      ∃ state, [Call.setupParentStack false].foldlM (step (hashOf ['c']) (childOf false)) State.init = some state ∧
      parentStackIsConsistent state false = true ∧
      fastRejectSelector state 4 (collectIdentifierHashes (hashOf ['c'])
        ⟨.tag ['x'], .descendant, [(.cssClass ['c'], .subSelector)]⟩ 4) = some true := ⟨_, rfl, by decide, by decide⟩
  refine ⟨rejected, isMatch, fun never => ?_⟩
  obtain ⟨state, run, consistent, reject⟩ := rejected
  exact never _ _ state run true false rfl consistent _ 4 reject isMatch

end SelectorFilter

end WebNode.Css
