import Mathlib.Data.List.InsertIdx
import WebNode.Lib.Unsigned

/-!
# The back-forward list

`WebBackForwardList` holds the items of a page and the index of the current one. Its state is saved
through a filter and restored as a list of new items.
-/

namespace WebNode.UiProcess

open Lib (unsignedSub)

/-- An item is known by its address. -/
structure WebBackForwardListItem (State : Type) where
  address : Nat
  itemState : State
  deriving DecidableEq

structure BackForwardListState (State : Type) where
  items : List State
  currentIndex : Option Nat

structure WebBackForwardList (State : Type) where
  entries : List (WebBackForwardListItem State) := []
  hasCurrentIndex : Bool := false
  currentIndex : Nat := 0
  capacity : UInt32
  deriving DecidableEq

variable {State : Type}

namespace WebBackForwardList

/-- Toss everything in the forward list. -/
def tossForward (list : WebBackForwardList State) : WebBackForwardList State :=
  { list with entries := list.entries.take ((list.currentIndex + 1) % 2 ^ 32) }

/-- Toss the first item if the list is getting too big. -/
def tossFirst (list : WebBackForwardList State) : WebBackForwardList State :=
  if list.entries.length = list.capacity.toNat ∧ (list.currentIndex ≠ 0 ∨ list.capacity = 1) then
    if list.entries.tail.isEmpty then { list with entries := [], hasCurrentIndex := false }
    else { list with entries := list.entries.tail, currentIndex := unsignedSub list.currentIndex 1 }
  else list

/-- Insert the item at the current index, unless that is past the end. -/
def insertCurrent (list : WebBackForwardList State) (newItem : WebBackForwardListItem State) :
    WebBackForwardList State :=
  if list.currentIndex ≤ list.entries.length then
    { list with entries := list.entries.insertIdx list.currentIndex newItem } else list

/-- Add an item, with what the page answers to `shouldKeepCurrentBackForwardListItemInList`. There is no
result if an entry that is read is not there. -/
def addItem (list : WebBackForwardList State) (newItem : Option (WebBackForwardListItem State))
    (shouldKeepCurrentItem : Bool) :
    Option (WebBackForwardList State) :=
  match newItem with
  | none => some list
  | some newItem =>
    if list.capacity = 0 then some list
    else
      let list := if list.hasCurrentIndex then list.tossForward.tossFirst else { list with entries := [] }
      if !list.hasCurrentIndex then
        some (insertCurrent { list with currentIndex := 0, hasCurrentIndex := true } newItem)
      else if list.currentIndex < list.entries.length then
        if shouldKeepCurrentItem then
          some (insertCurrent { list with currentIndex := (list.currentIndex + 1) % 2 ^ 32 } newItem)
        else some { list with entries := list.entries.set list.currentIndex newItem }
      else none

/-- `m_entries.find`, which compares addresses. -/
def find (list : WebBackForwardList State) (item : WebBackForwardListItem State) : Option Nat :=
  list.entries.findIdx? fun entry => entry.address = item.address

def goToItem (list : WebBackForwardList State) (item : Option (WebBackForwardListItem State))
    (shouldKeepCurrentItem : Bool) :
    Option (WebBackForwardList State) :=
  match item with
  | none => some list
  | some item =>
    if list.entries.isEmpty || !list.hasCurrentIndex then some list
    else
      match list.find item with
      | none => some list
      | some targetIndex => do
        let currentItem ← list.entries[list.currentIndex]?
        if currentItem.address ≠ item.address && !shouldKeepCurrentItem then
          let list := { list with entries := list.entries.eraseIdx list.currentIndex }
          let targetIndex ← list.find item
          some { list with currentIndex := targetIndex }
        else some { list with currentIndex := targetIndex }

def removeAllItems (list : WebBackForwardList State) : WebBackForwardList State :=
  { list with entries := [], hasCurrentIndex := false }

def clear (list : WebBackForwardList State) : Option (WebBackForwardList State) :=
  if list.entries.length ≤ 1 then some list
  else if !list.hasCurrentIndex then some list.removeAllItems
  else do
    let currentItem ← list.entries[list.currentIndex]?
    some { list with entries := [currentItem], currentIndex := 0 }

/-- The loop of `backForwardListState` from an index on: the states that are kept, and the current index,
which is lowered for an item that is dropped if it is not below that item. -/
def filterEntries (filter : WebBackForwardListItem State → Bool) :
    Nat → Option Nat → List (WebBackForwardListItem State) → BackForwardListState State
  | _, currentIndex, [] => ⟨[], currentIndex⟩
  | index, currentIndex, entry :: rest =>
    if filter entry then
      let state := filterEntries filter (index + 1) currentIndex rest
      { state with items := entry.itemState :: state.items }
    else
      filterEntries filter (index + 1)
        (currentIndex.map fun current => if index ≤ current then unsignedSub current 1 else current) rest

def backForwardListState (list : WebBackForwardList State) (filter : WebBackForwardListItem State → Bool) :
    BackForwardListState State :=
  filterEntries filter 0 (if list.hasCurrentIndex then some list.currentIndex else none) list.entries

/-- Items are created for the states, from an address on. -/
def restoreFromState (list : WebBackForwardList State) (address : Nat) (state : BackForwardListState State) :
    WebBackForwardList State :=
  { list with
    entries := state.items.zipIdx.map fun (itemState, offset) => ⟨address + offset, itemState⟩
    hasCurrentIndex := state.currentIndex.isSome
    currentIndex := state.currentIndex.getD 0 }

end WebBackForwardList

/-- A state that was saved, with what it was saved from. -/
structure SavedState (State : Type) where
  list : WebBackForwardList State
  filter : WebBackForwardListItem State → Bool

def SavedState.state (saved : SavedState State) : BackForwardListState State :=
  saved.list.backForwardListState saved.filter

inductive BackForwardOperation (State : Type) where
  | addItem (newItem : Option (WebBackForwardListItem State)) (shouldKeepCurrentItem : Bool)
  | goToItem (item : Option (WebBackForwardListItem State)) (shouldKeepCurrentItem : Bool)
  | clear
  | removeAllItems
  | backForwardListState (filter : WebBackForwardListItem State → Bool)
  /-- Restore a state that was saved before, with items created from an address on. -/
  | restoreFromState (saved : Nat) (address : Nat)

/-- The list of a page, and the states that were saved of it. -/
structure BackForwardHistory (State : Type) where
  list : WebBackForwardList State
  saved : List (SavedState State) := []

def BackForwardHistory.step (history : BackForwardHistory State) :
    BackForwardOperation State → Option (BackForwardHistory State)
  | .addItem newItem shouldKeepCurrentItem =>
    (history.list.addItem newItem shouldKeepCurrentItem).map ({ history with list := · })
  | .goToItem item shouldKeepCurrentItem =>
    (history.list.goToItem item shouldKeepCurrentItem).map ({ history with list := · })
  | .clear => history.list.clear.map ({ history with list := · })
  | .removeAllItems => some { history with list := history.list.removeAllItems }
  | .backForwardListState filter => some { history with saved := history.saved ++ [⟨history.list, filter⟩] }
  | .restoreFromState saved address =>
    (history.saved[saved]?).map fun saved => { history with list := history.list.restoreFromState address saved.state }

end WebNode.UiProcess
