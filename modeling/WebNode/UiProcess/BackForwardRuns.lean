import WebNode.Lib.CarefulRuns
import WebNode.UiProcess.BackForwardList

/-!
# Runs of the back-forward list

Adding, going to and removing items keep the current index inside the list. Saving lowers an index that
it also compares with, so it misses a dropped item before the current one once enough others were
dropped before that; the index that is saved is right exactly if no such item is missed.
-/

namespace WebNode.UiProcess

open Lib (unsignedSub unsignedSub_of_le)

variable {State : Type} {list later : WebBackForwardList State} {entries : List (WebBackForwardListItem State)}
  {filter : WebBackForwardListItem State → Bool}

namespace WebBackForwardList

/-- The list has at most its capacity of entries, and its current index is one of them. -/
structure Consistent (list : WebBackForwardList State) : Prop where
  size : list.entries.length ≤ list.capacity.toNat
  current : list.hasCurrentIndex = true → list.currentIndex < list.entries.length

/-! ### Adding and removing items -/

theorem Consistent.length_lt (consistent : Consistent list) : list.entries.length < 2 ^ 32 :=
  Nat.lt_of_le_of_lt consistent.size list.capacity.toNat_lt

theorem capacity_tossFirst (list : WebBackForwardList State) : list.tossFirst.capacity = list.capacity := by
  rw [tossFirst]
  split
  · split <;> rfl
  · rfl

/-- Behind the tosses the current item is the last one, and there is room for another. -/
theorem Consistent.toss (consistent : Consistent list) (current : list.hasCurrentIndex = true) :
    if list.tossForward.tossFirst.hasCurrentIndex then
      list.tossForward.tossFirst.currentIndex + 1 = list.tossForward.tossFirst.entries.length ∧
        list.tossForward.tossFirst.entries.length < list.capacity.toNat
    else list.tossForward.tossFirst.entries = [] := by
  have inside := consistent.current current
  have small := consistent.length_lt
  have size := consistent.size
  have forward : list.tossForward.entries.length = list.currentIndex + 1 := by
    rw [tossForward, List.length_take, Nat.mod_eq_of_lt (by omega)]
    omega
  rw [tossFirst]
  split
  · split
    · simp
    · next nonempty =>
      have more : 0 < list.tossForward.entries.tail.length := List.length_pos_iff.mpr (by simpa using nonempty)
      rw [List.length_tail, forward] at more
      simp only [show list.tossForward.hasCurrentIndex = true from current, if_true, List.length_tail, forward]
      rw [show list.tossForward.currentIndex = list.currentIndex from rfl, unsignedSub_of_le (by omega) (by omega)]
      omega
  · next keeps =>
    have one : list.capacity.toNat = 1 → list.capacity = 1 := fun same => UInt32.toNat_inj.mp same
    rw [if_pos (show list.tossForward.hasCurrentIndex = true from current), forward]
    refine ⟨rfl, ?_⟩
    rw [forward, not_and_or, not_or] at keeps
    change ¬list.currentIndex + 1 = list.capacity.toNat ∨ ¬list.currentIndex ≠ 0 ∧ ¬list.capacity = 1 at keeps
    rcases keeps with apart | ⟨first, more⟩
    · omega
    · have : list.capacity.toNat ≠ 1 := fun same => more (one same)
      omega

theorem insertCurrent_consistent {newItem : WebBackForwardListItem State}
    (inside : list.currentIndex ≤ list.entries.length) (room : list.entries.length < list.capacity.toNat) :
    Consistent (list.insertCurrent newItem) := by
  rw [insertCurrent, if_pos inside]
  refine ⟨?_, fun _ => ?_⟩
  · simp only [List.length_insertIdx_of_le_length inside]
    exact room
  · simp only [List.length_insertIdx_of_le_length inside]
    omega

theorem capacity_insertCurrent (list : WebBackForwardList State) (newItem : WebBackForwardListItem State) :
    (list.insertCurrent newItem).capacity = list.capacity := by
  rw [insertCurrent]
  split <;> rfl

theorem Consistent.addItem (consistent : Consistent list) (newItem : Option (WebBackForwardListItem State))
    (keep : Bool) :
    ∃ later, list.addItem newItem keep = some later ∧ Consistent later ∧ later.capacity = list.capacity := by
  cases newItem with
  | none => exact ⟨list, rfl, consistent, rfl⟩
  | some newItem =>
    rw [WebBackForwardList.addItem]
    split
    · exact ⟨list, rfl, consistent, rfl⟩
    · next room =>
      have positive : 0 < list.capacity.toNat := Nat.pos_of_ne_zero fun none => room (UInt32.toNat_inj.mp none)
      cases current : list.hasCurrentIndex with
      | false =>
        simp only [Bool.false_eq_true, if_false, Bool.not_false, if_true]
        exact ⟨_, rfl, insertCurrent_consistent (Nat.zero_le _) positive, capacity_insertCurrent ..⟩
      | true =>
        have tossed := consistent.toss current
        have capacity : list.tossForward.tossFirst.capacity = list.capacity := capacity_tossFirst _
        simp only [if_true]
        generalize list.tossForward.tossFirst = kept at tossed capacity
        cases has : kept.hasCurrentIndex with
        | false =>
          simp only [has, Bool.false_eq_true, if_false] at tossed
          refine ⟨_, rfl, insertCurrent_consistent (Nat.zero_le _) ?_, (capacity_insertCurrent ..).trans capacity⟩
          rw [tossed, capacity]
          exact positive
        | true =>
          simp only [has, if_true] at tossed
          have small := list.capacity.toNat_lt
          simp only [Bool.not_true, Bool.false_eq_true, if_false,
            if_pos (show kept.currentIndex < kept.entries.length by omega)]
          cases keep with
          | true =>
            refine ⟨_, rfl, insertCurrent_consistent ?_ ?_, (capacity_insertCurrent ..).trans capacity⟩
            · simp only
              rw [Nat.mod_eq_of_lt (by omega)]
              omega
            · rw [capacity]
              exact tossed.2
          | false =>
            refine ⟨_, rfl, ⟨?_, fun _ => ?_⟩, capacity⟩
            · simp only [List.length_set, capacity]
              omega
            · simp only [List.length_set]
              omega

theorem find_lt {item : WebBackForwardListItem State} {target : Nat} (found : list.find item = some target) :
    ∃ inside : target < list.entries.length, list.entries[target].address = item.address := by
  obtain ⟨inside, same, _⟩ := List.findIdx?_eq_some_iff_getElem.mp found
  exact ⟨inside, by simpa using same⟩

theorem Consistent.goToItem (consistent : Consistent list) (item : Option (WebBackForwardListItem State))
    (keep : Bool) :
    ∃ later, list.goToItem item keep = some later ∧ Consistent later ∧ later.capacity = list.capacity := by
  cases item with
  | none => exact ⟨list, rfl, consistent, rfl⟩
  | some item =>
    rw [WebBackForwardList.goToItem]
    split
    · exact ⟨list, rfl, consistent, rfl⟩
    · next has =>
      simp only [Bool.or_eq_true, Bool.not_eq_true', not_or, Bool.not_eq_false] at has
      have inside := consistent.current has.2
      split
      · exact ⟨list, rfl, consistent, rfl⟩
      · next target found =>
        obtain ⟨there, same⟩ := find_lt found
        simp only [List.getElem?_eq_getElem inside, Option.bind_eq_bind, Option.bind_some]
        split
        · next removes =>
          simp only [Bool.and_eq_true, decide_eq_true_eq] at removes
          -- the item is at another index than the current one, so it is still found
          have apart : target ≠ list.currentIndex := by
            rintro rfl
            exact removes.1 same
          have remains : list.entries[target] ∈ list.entries.eraseIdx list.currentIndex :=
            List.mem_eraseIdx_iff_getElem.mpr ⟨target, there, apart, rfl⟩
          obtain ⟨index, again⟩ :=
            Option.isSome_iff_exists.mp
              (List.findIdx?_isSome (p := fun entry => decide (entry.address = item.address)) |>.trans
            (List.any_eq_true.mpr ⟨_, remains, by simpa using same⟩))
          obtain ⟨within, _⟩ := @find_lt _ { list with entries := list.entries.eraseIdx list.currentIndex } _ _ again
          refine ⟨{ list with entries := list.entries.eraseIdx list.currentIndex, currentIndex := index }, ?_,
            ⟨?_, fun _ => within⟩, rfl⟩
          · simp [find, again]
          · exact Nat.le_trans (List.length_eraseIdx_le ..) consistent.size
        · exact ⟨_, rfl, ⟨consistent.size, fun _ => there⟩, rfl⟩

theorem Consistent.removeAllItems (list : WebBackForwardList State) : Consistent list.removeAllItems :=
  ⟨Nat.zero_le _, nofun⟩

theorem Consistent.clear (consistent : Consistent list) :
    ∃ later, list.clear = some later ∧ Consistent later ∧ later.capacity = list.capacity := by
  rw [WebBackForwardList.clear]
  split
  · exact ⟨list, rfl, consistent, rfl⟩
  · next many =>
    split
    · exact ⟨_, rfl, .removeAllItems list, rfl⟩
    · next has =>
      have inside := consistent.current (by simpa using has)
      have size := consistent.size
      simp only [List.getElem?_eq_getElem inside, Option.bind_eq_bind, Option.bind_some]
      refine ⟨_, rfl, ⟨?_, fun _ => Nat.zero_lt_one⟩, rfl⟩
      simp only [List.length_singleton]
      omega

/-! ### Saving the current index -/

/-- The number of dropped entries whose index, with the number of entries dropped before, does not exceed the
current index. The first two numbers are the index of the first entry and what was dropped before. -/
def counted (filter : WebBackForwardListItem State → Bool) (current : Nat) :
    Nat → Nat → List (WebBackForwardListItem State) → Nat
  | _, _, [] => 0
  | index, dropped, entry :: rest =>
    if filter entry then counted filter current (index + 1) dropped rest
    else (if index + dropped ≤ current then 1 else 0) + counted filter current (index + 1) (dropped + 1) rest

theorem filterEntries_items (filter : WebBackForwardListItem State → Bool) (index : Nat) (current : Option Nat)
    (entries : List (WebBackForwardListItem State)) :
    (filterEntries filter index current entries).items = (entries.filter filter).map (·.itemState) := by
  induction entries generalizing index current with
  | nil => rfl
  | cons entry rest ih =>
    rw [filterEntries]
    cases kept : filter entry with
    | true => simp [ih, kept]
    | false => simp [ih, kept]

theorem filterEntries_none (filter : WebBackForwardListItem State → Bool) (index : Nat)
    (entries : List (WebBackForwardListItem State)) :
    (filterEntries filter index none entries).currentIndex = none := by
  induction entries generalizing index with
  | nil => rfl
  | cons entry rest ih =>
    rw [filterEntries]
    split
    · exact ih _
    · exact ih _

/-- The index is lowered by what is counted, unless the first entry is dropped at index zero. -/
theorem filterEntries_some {index dropped lowered current : Nat} (small : current < 2 ^ 32) (before : lowered ≤ dropped)
    (bound : dropped ≤ index) (within : lowered ≤ current) (misses : lowered = dropped ∨ current < index + lowered)
    (moves : 0 < index ∨ 0 < current ∨ ∃ entry ∈ entries.head?, filter entry = true) :
    lowered + counted filter current index dropped entries ≤ current ∧
      (filterEntries filter index (some (current - lowered)) entries).currentIndex =
        some (current - (lowered + counted filter current index dropped entries)) := by
  induction entries generalizing index dropped lowered with
  | nil => exact ⟨within, rfl⟩
  | cons entry rest ih =>
    rw [filterEntries, counted]
    cases kept : filter entry with
    | true => exact ih before (by omega) within (by omega) (by omega)
    | false =>
      have moved : 0 < index ∨ 0 < current := by
        rcases moves with moved | moved | ⟨other, head, keeps⟩
        · exact .inl moved
        · exact .inr moved
        · rw [← Option.some.inj head, kept] at keeps
          cases keeps
      simp only [Bool.false_eq_true, if_false, Option.map_some]
      by_cases reaches : index + dropped ≤ current
      · obtain rfl : lowered = dropped := by omega
        rw [if_pos reaches, if_pos (by omega), unsignedSub_of_le (by omega) (by omega), Nat.sub_sub, ← Nat.add_assoc]
        exact ih (by omega) (by omega) (by omega) (by omega) (by omega)
      · rw [if_neg reaches, if_neg (by omega), Nat.zero_add]
        exact ih (by omega) (by omega) within (by omega) (by omega)

/-- An index that has wrapped around stays above the number of entries. -/
theorem le_filterEntries {index current slack : Nat} (small : current < 2 ^ 32)
    (large : entries.length + slack ≤ current) :
    ∃ saved, (filterEntries filter index (some current) entries).currentIndex = some saved ∧
      entries.countP filter + slack ≤ saved := by
  induction entries generalizing index current slack with
  | nil => exact ⟨current, rfl, by simpa using large⟩
  | cons entry rest ih =>
    rw [List.length_cons] at large
    rw [filterEntries]
    cases kept : filter entry with
    | true =>
      obtain ⟨saved, same, le⟩ := @ih (index + 1) current (slack + 1) small (by omega)
      exact ⟨saved, same, by rw [List.countP_cons_of_pos kept]; omega⟩
    | false =>
      simp only [Bool.false_eq_true, if_false, Option.map_some]
      rw [List.countP_cons_of_neg (by simp [kept])]
      split
      · rw [unsignedSub_of_le (by omega) small]
        exact ih (by omega) (by omega)
      · exact ih small (by omega)

end WebBackForwardList

open WebBackForwardList

namespace SavedState

variable {saved : SavedState State}

/-- What is counted when the state is saved. -/
def lowered (saved : SavedState State) : Nat := counted saved.filter saved.list.currentIndex 0 0 saved.list.entries

/-- The number of entries before the current one that the filter drops. -/
def droppedBefore (saved : SavedState State) : Nat :=
  (saved.list.entries.take saved.list.currentIndex).countP fun item => !saved.filter item

/-- If the filter keeps the current item, then the index that is saved is the place of that item among those
that are kept. -/
def Designates (saved : SavedState State) : Prop :=
  saved.list.hasCurrentIndex = true → ∀ item, saved.list.entries[saved.list.currentIndex]? = some item →
    saved.filter item = true →
    saved.state.currentIndex = some ((saved.list.entries.take saved.list.currentIndex).countP saved.filter)

/-- No dropped entry before the current one is missed. -/
def CountsAll (saved : SavedState State) : Prop :=
  saved.list.hasCurrentIndex = true → ∀ item, saved.list.entries[saved.list.currentIndex]? = some item →
    saved.filter item = true →
    saved.lowered = saved.droppedBefore

/-- The lowered index is one of an entry that is kept. -/
def Restorable (saved : SavedState State) : Prop :=
  saved.list.hasCurrentIndex = true → saved.lowered ≤ saved.list.currentIndex ∧
    saved.list.currentIndex - saved.lowered < saved.list.entries.countP saved.filter

theorem state_of_current (current : saved.list.hasCurrentIndex = true) :
    saved.state = filterEntries saved.filter 0 (some saved.list.currentIndex) saved.list.entries := by
  rw [state, backForwardListState, if_pos current]

theorem state_items (saved : SavedState State) : saved.state.items.length = saved.list.entries.countP saved.filter := by
  rw [state, backForwardListState, filterEntries_items, List.length_map, List.countP_eq_length_filter]

/-- The first entry is not dropped at index zero. -/
def Moves (saved : SavedState State) : Prop :=
  0 < saved.list.currentIndex ∨ ∃ entry ∈ saved.list.entries.head?, saved.filter entry = true

theorem currentIndex_of_moves (consistent : Consistent saved.list) (current : saved.list.hasCurrentIndex = true)
    (moves : saved.Moves) :
    saved.lowered ≤ saved.list.currentIndex ∧
      saved.state.currentIndex = some (saved.list.currentIndex - saved.lowered) := by
  have inside := consistent.current current
  have small := consistent.length_lt
  have found :=
    @filterEntries_some State saved.list.entries saved.filter 0 0 0 saved.list.currentIndex
      (by omega) Nat.le.refl Nat.le.refl
    (Nat.zero_le _) (.inl rfl) (.inr moves)
  rw [Nat.zero_add] at found
  rw [state_of_current current]
  exact found

/-- An index that is lowered below zero is none of an entry. -/
theorem currentIndex_of_stays (consistent : Consistent saved.list) (current : saved.list.hasCurrentIndex = true)
    (stays : ¬saved.Moves) :
    saved.list.currentIndex < saved.lowered ∧
      ∃ index, saved.state.currentIndex = some index ∧ saved.list.entries.countP saved.filter ≤ index := by
  have inside := consistent.current current
  have small := consistent.length_lt
  rw [Moves, not_or] at stays
  rw [state_of_current current, lowered]
  obtain ⟨entry, rest, split⟩ := List.exists_cons_of_ne_nil (List.ne_nil_of_length_pos (Nat.zero_lt_of_lt inside))
  rw [split] at stays small ⊢
  have first : saved.list.currentIndex = 0 := by omega
  have dropped : saved.filter entry = false := by simpa using stays.2
  rw [List.length_cons] at small
  refine ⟨by simp [counted, first, dropped, Nat.add_comm 1], ?_⟩
  have wraps : (if 0 ≤ 0 then unsignedSub 0 1 else 0) = 2 ^ 32 - 1 := by decide
  obtain ⟨index, same, le⟩ := @le_filterEntries State rest saved.filter 1 (2 ^ 32 - 1) 0 (by omega) (by omega)
  refine ⟨index, ?_, by rwa [List.countP_cons_of_neg (by simp [dropped])]⟩
  rw [first, filterEntries, if_neg (by simp [dropped]), Option.map_some, wraps]
  exact same

theorem take_countP (saved : SavedState State) (inside : saved.list.currentIndex < saved.list.entries.length) :
    (saved.list.entries.take saved.list.currentIndex).countP saved.filter + saved.droppedBefore =
      saved.list.currentIndex := by
  rw [droppedBefore]
  have total := List.length_eq_countP_add_countP saved.filter (l := saved.list.entries.take saved.list.currentIndex)
  rw [List.length_take, Nat.min_eq_left (Nat.le_of_lt inside)] at total
  simpa using total.symm

theorem moves_of_keeps {item : WebBackForwardListItem State}
    (found : saved.list.entries[saved.list.currentIndex]? = some item) (keeps : saved.filter item = true) :
    saved.Moves := by
  rcases Nat.eq_zero_or_pos saved.list.currentIndex with first | positive
  · rw [first, ← List.head?_eq_getElem?] at found
    exact .inr ⟨item, found, keeps⟩
  · exact .inl positive

/-- The saved index is right exactly if no dropped entry is missed. -/
theorem designates_iff (consistent : Consistent saved.list) : saved.Designates ↔ saved.CountsAll := by
  refine forall_congr' fun current => forall_congr' fun item => forall_congr' fun found => forall_congr' fun keeps => ?_
  obtain ⟨le, same⟩ := currentIndex_of_moves consistent current (moves_of_keeps found keeps)
  have place := take_countP saved (consistent.current current)
  rw [same, Option.some.injEq]
  omega

theorem consistent_restore {address : Nat} (consistent : Consistent saved.list)
    (capacity : saved.list.capacity = list.capacity) :
    Consistent (list.restoreFromState address saved.state) ↔ saved.Restorable := by
  have size : saved.state.items.length ≤ list.capacity.toNat := by
    rw [state_items, ← capacity]
    exact Nat.le_trans List.countP_le_length consistent.size
  have entries : (list.restoreFromState address saved.state).entries.length = saved.state.items.length := by
    simp [restoreFromState]
  have split : Consistent (list.restoreFromState address saved.state) ↔
      (saved.state.currentIndex.isSome = true → saved.state.currentIndex.getD 0 < saved.state.items.length) :=
    ⟨fun restored => entries ▸ restored.current, fun inside => ⟨entries ▸ size, entries ▸ inside⟩⟩
  rw [split, state_items, Restorable]
  cases current : saved.list.hasCurrentIndex with
  | false =>
    have none : saved.state.currentIndex = none := by
      rw [state, backForwardListState, current]
      exact filterEntries_none ..
    simp [none]
  | true =>
    by_cases moves : saved.Moves
    · obtain ⟨le, same⟩ := currentIndex_of_moves consistent current moves
      simp [same, le]
    · obtain ⟨lt, index, same, le⟩ := currentIndex_of_stays consistent current moves
      simp only [same, Option.isSome_some, Option.getD_some, forall_const]
      omega

end SavedState

/-! ### Runs -/

namespace BackForwardHistory

variable {history : BackForwardHistory State}

/-- A state is saved only if no dropped entry before the current one is missed, and restored only if its
index is one of an entry. -/
def Careful (history : BackForwardHistory State) : BackForwardOperation State → Prop
  | .backForwardListState filter => SavedState.CountsAll ⟨history.list, filter⟩
  | .restoreFromState saved _ => ∀ found ∈ history.saved[saved]?, found.Restorable
  | _ => True

/-- The list is consistent, and every state that was saved designates the item that was current. -/
structure Right (history : BackForwardHistory State) : Prop where
  consistent : history.list.Consistent
  designates : ∀ saved ∈ history.saved, saved.Designates

/-- The abstract state is the number of states that were saved, of which one can be restored. -/
def comparison (State : Type) : Lib.Comparison (BackForwardHistory State) Nat (BackForwardOperation State) where
  step := step
  specify
    | saved, .backForwardListState _ => saved + 1
    | saved, _ => saved
  right history _ := history.Right
  meets := Careful
  allowed
    | saved, .restoreFromState index _ => index < saved
    | _, _ => True

structure Invariant (history : BackForwardHistory State) (count : Nat) : Prop where
  count : history.saved.length = count
  right : history.Right
  saved : ∀ saved ∈ history.saved, Consistent saved.list ∧ saved.list.capacity = history.list.capacity

/-- An operation on the list alone. -/
theorem Invariant.replace {count : Nat} (invariant : Invariant history count) {later : WebBackForwardList State}
    (consistent : Consistent later)
    (capacity : later.capacity = history.list.capacity) : Invariant { history with list := later } count :=
  ⟨invariant.count, ⟨consistent, invariant.right.designates⟩, fun saved member =>
    ⟨(invariant.saved saved member).1, (invariant.saved saved member).2.trans capacity.symm⟩⟩

theorem Invariant.map {count : Nat} (invariant : Invariant history count) {result : Option (WebBackForwardList State)}
    (returns : ∃ later, result = some later ∧ Consistent later ∧ later.capacity = history.list.capacity) :
    ∃ later, result.map ({ history with list := · }) = some later ∧ Invariant later count := by
  obtain ⟨later, rfl, consistent, capacity⟩ := returns
  exact ⟨_, rfl, invariant.replace consistent capacity⟩

theorem Invariant.save {count : Nat} (invariant : Invariant history count)
    {filter : WebBackForwardListItem State → Bool} (counts : SavedState.CountsAll ⟨history.list, filter⟩) :
    Invariant { history with saved := history.saved ++ [⟨history.list, filter⟩] } (count + 1) := by
  refine ⟨by simp [invariant.count], ⟨invariant.right.consistent, fun saved member => ?_⟩, fun saved member => ?_⟩
  · rcases List.mem_append.mp member with member | last
    · exact invariant.right.designates saved member
    · rw [List.mem_singleton.mp last]
      exact (SavedState.designates_iff invariant.right.consistent).mpr counts
  · rcases List.mem_append.mp member with member | last
    · exact invariant.saved saved member
    · rw [List.mem_singleton.mp last]
      exact ⟨invariant.right.consistent, rfl⟩

theorem Invariant.restore {count index address : Nat} (invariant : Invariant history count) {found : SavedState State}
    (present : history.saved[index]? = some found) (restorable : found.Restorable) :
    Invariant { history with list := history.list.restoreFromState address found.state } count := by
  obtain ⟨consistent, capacity⟩ := invariant.saved found (List.mem_of_getElem? present)
  exact invariant.replace ((SavedState.consistent_restore consistent capacity).mpr restorable) rfl

theorem sound : (comparison State).Sound Invariant where
  right _ _ invariant := invariant.right
  keeps := by
    intro history count operation invariant allowed meets
    cases operation with
    | addItem newItem keep => exact invariant.map (invariant.right.consistent.addItem newItem keep)
    | goToItem item keep => exact invariant.map (invariant.right.consistent.goToItem item keep)
    | clear => exact invariant.map invariant.right.consistent.clear
    | removeAllItems => exact ⟨_, rfl, invariant.replace (.removeAllItems _) rfl⟩
    | backForwardListState filter => exact ⟨_, rfl, invariant.save meets⟩
    | restoreFromState index address =>
      have present := List.getElem?_eq_getElem (show index < history.saved.length from invariant.count ▸ allowed)
      exact ⟨_,
        by simp only [comparison, step, present, Option.map_some]; rfl, invariant.restore present (meets _ present)⟩

/-- What goes wrong shows at once. -/
theorem Invariant.careful_of_right {count : Nat} (invariant : Invariant history count)
    {operation : BackForwardOperation State} {later : BackForwardHistory State}
    (stepped : history.step operation = some later) (right : later.Right) :
    history.Careful operation := by
  cases operation with
  | backForwardListState filter =>
    obtain rfl := Option.some.inj stepped
    exact (SavedState.designates_iff invariant.right.consistent).mp (right.designates _ (by simp))
  | restoreFromState index address =>
    intro found present
    obtain ⟨consistent, capacity⟩ := invariant.saved found (List.mem_of_getElem? present)
    rw [step, show history.saved[index]? = some found from present, Option.map_some] at stepped
    obtain rfl := Option.some.inj stepped
    exact (SavedState.consistent_restore consistent capacity).mp right.consistent
  | addItem | goToItem | clear | removeAllItems => exact trivial

/-- For every capacity, a run of operations from an empty list keeps the list consistent and saves its
position exactly if every state is saved and restored with care. -/
theorem history_right_iff (capacity : UInt32) (operations : List (BackForwardOperation State))
    (allowed : (comparison State).Allowed 0 operations) :
    (comparison State).Follows ⟨{ capacity }, []⟩ 0 operations ↔
      (comparison State).Careful ⟨{ capacity }, []⟩ operations := by
  refine sound.follows_iff (fun history count operation later invariant _ fails stepped right => ?_)
    ⟨rfl, ⟨⟨Nat.zero_le _, nofun⟩, by simp⟩, by simp⟩ allowed
  exact fails (invariant.careful_of_right stepped right)

/-- The first of two items is not saved. -/
theorem history_right_iff_example :
    (comparison Nat).Follows ⟨{ capacity := 2 }, []⟩ 0 [.addItem (some ⟨1, 10⟩) true, .addItem (some ⟨2, 20⟩) true,
      .backForwardListState fun item => item.address = 2, .restoreFromState 0 3] := by
  refine (@history_right_iff Nat 2 [.addItem _ _, .addItem _ _, .backForwardListState _, .restoreFromState _ _]
    ⟨trivial, trivial, trivial, Nat.zero_lt_one, trivial⟩).mpr ⟨trivial, ?_⟩
  rintro later ⟨⟩
  refine ⟨trivial, ?_⟩
  rintro later ⟨⟩
  refine ⟨fun _ item found _ => ?_, ?_⟩
  · decide
  · rintro later ⟨⟩
    refine ⟨fun found present => ?_, fun _ _ => trivial⟩
    obtain rfl := Option.some.inj present
    exact fun _ => by decide

/-- The last of four items is current, and the others are dropped: the state has one item and index one. -/
theorem three_dropped_before_current :
    ∃ list : WebBackForwardList Nat, list = ⟨[⟨1, 10⟩, ⟨2, 20⟩, ⟨3, 30⟩, ⟨4, 40⟩], true, 3, 100⟩ ∧
      ([1, 2, 3, 4].foldlM (fun list address => list.addItem (some ⟨address, address * 10⟩) true) { capacity := 100 } =
      some list) ∧
      (list.backForwardListState fun item => item.address = 4).items = [40] ∧
      (list.backForwardListState fun item => item.address = 4).currentIndex = some 1 ∧
      ¬Consistent (list.restoreFromState 5 (list.backForwardListState fun item => item.address = 4)) := by
  refine ⟨_, rfl, by decide, by decide, by decide, fun consistent => ?_⟩
  exact absurd (consistent.current (by decide)) (by decide)

end BackForwardHistory

end WebNode.UiProcess
