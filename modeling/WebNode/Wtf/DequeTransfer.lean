import WebNode.Wtf.Deque

/-!
# Copying, moving and swapping deques

All go through `VectorBuffer::swap`. `Deque::swap` passes it no sizes,
    so inline objects that are not plain data stay where
they are, while the indices are exchanged.
-/

namespace WebNode.Wtf

open Function (update)
open WebNode.Lib.Ring

variable {α : Type}

/-- The loop of `swapInlineBuffers` over the common part. -/
def swapSlots (left right : Slots α) : Nat → Slots α × Slots α
  | 0 => (left, right)
  | count + 1 =>
    let (left, right) := swapSlots left right count
    (update left count (right count), update right count (left count))

def swapInlineBuffers (left right : Slots α) (leftSize rightSize : Nat) : Slots α × Slots α :=
  let swapBound := min leftSize rightSize
  let (left, right) := swapSlots left right swapBound
  let (left, right) := move left right swapBound swapBound (leftSize - swapBound)
  let (right, left) := move right left swapBound swapBound (rightSize - swapBound)
  (left, right)

def swapInlineBuffer (type : ElementType) (left right : Slots α) (mySize otherSize : Nat) : Slots α × Slots α :=
  if type.isPod then (right, left) else swapInlineBuffers left right mySize otherSize

/-- `VectorCopier::uninitializedCopy`. -/
def uninitializedCopy (source target : Slots α) (src dst : Nat) : Nat → Slots α
  | 0 => target
  | count + 1 => uninitializedCopy source (update target dst (source src)) (src + 1) (dst + 1) count

theorem uninitializedCopy_spec (source target : Slots α) (src dst count : Nat) :
    uninitializedCopy source target src dst count = fun p =>
      if dst ≤ p ∧ p < dst + count then source (src + (p - dst)) else target p := by
  induction count generalizing target src dst with
  | zero =>
    funext p
    rw [uninitializedCopy, if_neg (by omega)]
  | succ count ih =>
    rw [uninitializedCopy, ih]
    funext p
    simp only [Function.update_apply]
    split_ifs <;> first | rfl | omega | (congr 1; omega)

namespace Deque

variable {inlineCapacity : Nat}

/-- `VectorBuffer::swap`. A buffer that is inline is inline in the object that it comes to. -/
def swapBuffers (type : ElementType) (a b : Deque α inlineCapacity) (mySize otherSize : Nat) :
    Deque α inlineCapacity × Deque α inlineCapacity :=
  match a.buffer, b.buffer with
  | .inline, .inline =>
    let (mine, others) := swapInlineBuffer type a.inlineBuffer b.inlineBuffer mySize otherSize
    ({ a with capacity := b.capacity, inlineBuffer := mine }, { b with capacity := a.capacity, inlineBuffer := others })
  | .inline, theirs =>
    let (mine, others) := swapInlineBuffer type a.inlineBuffer b.inlineBuffer mySize 0
    ({ a with buffer := theirs, capacity := b.capacity, inlineBuffer := mine },
      { b with buffer := .inline, capacity := a.capacity, inlineBuffer := others })
  | ours, .inline =>
    let (mine, others) := swapInlineBuffer type a.inlineBuffer b.inlineBuffer 0 otherSize
    ({ a with buffer := .inline, capacity := b.capacity, inlineBuffer := mine },
      { b with buffer := ours, capacity := a.capacity, inlineBuffer := others })
  | ours, theirs =>
    ({ a with buffer := theirs, capacity := b.capacity }, { b with buffer := ours, capacity := a.capacity })

def swap (type : ElementType) (a b : Deque α inlineCapacity) : Deque α inlineCapacity × Deque α inlineCapacity :=
  swapBuffers type { a with mStart := b.mStart, mEnd := b.mEnd } { b with mStart := a.mStart, mEnd := a.mEnd } 0 0

/-- `VectorBuffer(size_t capacity)`, in a deque with nothing in it. -/
def withCapacity (type : ElementType) (capacity : Nat) : Option (Deque α inlineCapacity) :=
  if capacity > inlineCapacity then
    (type.allocateBuffer capacity).map fun capacity => ⟨0, 0, .heap dead, capacity, dead⟩
  else some empty

/-- What the copy constructor copies. In the second part it reads up to its own capacity. -/
def copySlots (other : Deque α inlineCapacity) (target : Slots α) (capacity : Nat) : Slots α :=
  if other.mStart ≤ other.mEnd then
    uninitializedCopy other.slots target other.mStart other.mStart (other.mEnd - other.mStart)
  else
    uninitializedCopy other.slots (uninitializedCopy other.slots target 0 0 other.mEnd) other.mStart other.mStart
      (capacity - other.mStart)

/-- The copy constructor. -/
def copy (type : ElementType) (other : Deque α inlineCapacity) : Option (Deque α inlineCapacity) :=
  (withCapacity type other.capacity).map fun (fresh : Deque α inlineCapacity) =>
    { fresh.setSlots (other.copySlots fresh.slots fresh.capacity) with mStart := other.mStart, mEnd := other.mEnd }

/-- The move constructor: the new deque, and what is left of the other. -/
def moveConstruct (type : ElementType) (other : Deque α inlineCapacity) :
    Deque α inlineCapacity × Deque α inlineCapacity :=
  swap type empty other

/-- `operator=(const Deque&)`. -/
def assign (type : ElementType) (a b : Deque α inlineCapacity) : Option (Deque α inlineCapacity) :=
  (copy type b).map fun copied => (swap type a copied).1

/-- `operator=(Deque&&)`. -/
def moveAssign (type : ElementType) (a b : Deque α inlineCapacity) : Deque α inlineCapacity × Deque α inlineCapacity :=
  swap type a b

/-- The deques that any operations lead to, whether or not they kept the contents. -/
inductive Reachable (type : ElementType) : Deque α inlineCapacity → Prop
  | empty : Reachable type empty
  | step {deque result given} (operation : DequeOperation α) (reachable : Reachable type deque)
      (stepped : operation.step type deque = some (result, given)) : Reachable type result
  | copy {other result} (reachable : Reachable type other) (copied : copy type other = some result) :
    Reachable type result
  | swapped {a b} (left : Reachable type a) (right : Reachable type b) : Reachable type (swap type a b).1
  | swappedWith {a b} (left : Reachable type a) (right : Reachable type b) : Reachable type (swap type a b).2

/-- A slot between start and end. -/
def Occupies (deque : Deque α inlineCapacity) (p : Nat) : Prop :=
  ∃ i < deque.size, slotAt deque.capacity deque.mStart i = p

/-- The first deque can take over the contents of the second: plain data, storage on the heap, or objects that already
stand in the same inline slots of both. -/
def Receives (type : ElementType) (a b : Deque α inlineCapacity) : Prop :=
  type.isPod = true ∨ b.buffer ≠ .inline ∨ ∀ p, b.Occupies p → a.inlineBuffer p = b.inlineBuffer p

/-- What every operation keeps. -/
structure Sound (type : ElementType) (deque : Deque α inlineCapacity) : Prop where
  stored : deque.Stored type
  start_le : deque.mStart ≤ deque.capacity - 1
  end_le : deque.mEnd ≤ deque.capacity - 1

section Sound

variable {type : ElementType} {deque result a b : Deque α inlineCapacity}

theorem sound_empty : (empty : Deque α inlineCapacity).Sound type := by
  refine ⟨?_, Nat.zero_le _, Nat.zero_le _⟩
  rw [Stored, empty]
  by_cases none : inlineCapacity = 0
  · rw [if_pos none]
    exact none
  · rw [if_neg none]
    exact ⟨rfl, by omega⟩

theorem Sound.replace (sound : deque.Sound type) (slots : Slots α) {newStart newEnd : Nat}
    (start_le : newStart ≤ deque.capacity - 1) (end_le : newEnd ≤ deque.capacity - 1) :
    ({ deque.setSlots slots with mStart := newStart, mEnd := newEnd } : Deque α inlineCapacity).Sound type where
  stored := by
    have stored := sound.stored
    rw [Stored] at stored ⊢
    rw [setSlots]
    cases buffer : deque.buffer <;> rw [buffer] at stored <;> exact stored
  start_le := start_le
  end_le := end_le

theorem next_le {capacity index : Nat} (bounded : index ≤ capacity - 1) : next capacity index ≤ capacity - 1 := by
  rw [next]
  split <;> omega

theorem previous_le {capacity index : Nat} (bounded : index ≤ capacity - 1) :
    previous capacity index ≤ capacity - 1 := by
  rw [previous]
  split <;> omega

theorem Sound.expandCapacity (sound : deque.Sound type) (expanded : deque.expandCapacity type = some result) :
    result.Sound type := by
  have bounds := And.intro sound.start_le sound.end_le
  have larger : deque.capacity < deque.requested := by
    rw [requested]
    omega
  have moved : ∀ newCapacity target, deque.capacity < newCapacity →
      (deque.relocate newCapacity target).1 ≤ newCapacity - 1 := by
    intro newCapacity target room
    rw [relocate]
    split <;> dsimp only <;> omega
  rw [Deque.expandCapacity] at expanded
  split at expanded
  · next large =>
    obtain ⟨newCapacity, allocated, rfl⟩ := Option.map_eq_some_iff.mp expanded
    obtain ⟨enough, again⟩ := ElementType.allocateBuffer_spec allocated
    have start := moved newCapacity dead (by omega)
    have stored : inlineCapacity < newCapacity := by omega
    cases deque.buffer <;> exact ⟨⟨stored, again⟩, start, by dsimp only; omega⟩
  · next small =>
    cases expanded
    exact ⟨⟨rfl, by omega⟩, moved inlineCapacity deque.inlineBuffer (by omega), by dsimp only; omega⟩

theorem Sound.expandCapacityIfNeeded (sound : deque.Sound type)
    (expanded : deque.expandCapacityIfNeeded type = some result) :
    result.Sound type := by
  rw [Deque.expandCapacityIfNeeded] at expanded
  split_ifs at expanded
  all_goals first
    | exact sound.expandCapacity expanded
    | exact Option.some.inj expanded ▸ sound

theorem Sound.remove (sound : deque.Sound type) (increments : Nat) :
    (deque.remove ((next deque.capacity)^[increments] deque.mStart)).Sound type := by
  have bounds := And.intro sound.start_le sound.end_le
  rw [Deque.remove]
  split
  · exact sound
  · next notEnd =>
    have buffer : 0 < deque.capacity := by
      refine Nat.pos_of_ne_zero fun none => notEnd ?_
      -- Without a buffer every index is zero.
      have zero : ∀ count, (next deque.capacity)^[count] deque.mStart = 0 := by
        intro count
        induction count with
        | zero => exact (show deque.mStart = 0 by omega)
        | succ count ih => rw [Function.iterate_succ_apply', ih, next, if_pos (by omega)]
      rw [zero]
      omega
    have wrap : ∀ index, index % deque.capacity ≤ deque.capacity - 1 := by
      intro index
      have := Nat.mod_lt index buffer
      omega
    dsimp only
    split
    · exact sound.replace _ (wrap _) sound.end_le
    · exact sound.replace _ sound.start_le (wrap _)

theorem Sound.step (sound : deque.Sound type) (operation : DequeOperation α) {given : List (Option α)}
    (stepped : operation.step type deque = some (result, given)) : result.Sound type := by
  cases operation with
  | append value =>
    obtain ⟨appended, grows, pair⟩ := Option.map_eq_some_iff.mp stepped
    obtain ⟨grown, expanded, rfl⟩ := Option.map_eq_some_iff.mp grows
    cases pair
    have holds := sound.expandCapacityIfNeeded expanded
    exact holds.replace _ holds.start_le (next_le holds.end_le)
  | prepend value =>
    obtain ⟨prepended, grows, pair⟩ := Option.map_eq_some_iff.mp stepped
    obtain ⟨grown, expanded, rfl⟩ := Option.map_eq_some_iff.mp grows
    cases pair
    have holds := sound.expandCapacityIfNeeded expanded
    exact holds.replace _ (previous_le holds.start_le) holds.end_le
  | takeFirst =>
    cases stepped
    exact sound.replace _ (next_le sound.start_le) sound.end_le
  | takeLast =>
    cases stepped
    exact sound.replace _ sound.start_le (previous_le sound.end_le)
  | remove increments =>
    cases stepped
    exact sound.remove increments
  | clear =>
    cases stepped
    have stored := sound.stored
    rw [Stored] at stored
    rw [clear]
    cases buffer : deque.buffer with
    | heap old => exact ⟨rfl, Nat.zero_le _, Nat.zero_le _⟩
    | null =>
      rw [buffer] at stored
      exact ⟨stored, Nat.zero_le _, Nat.zero_le _⟩
    | inline =>
      rw [buffer] at stored
      exact ⟨stored, Nat.zero_le _, Nat.zero_le _⟩

/-- What the first of two deques is after a swap: indices, capacity and storage come from the second, inline slots only
with plain data. -/
structure Takes (type : ElementType) (result a b : Deque α inlineCapacity) : Prop where
  start_eq : result.mStart = b.mStart
  end_eq : result.mEnd = b.mEnd
  capacity_eq : result.capacity = b.capacity
  buffer_eq : result.buffer = b.buffer
  inline_eq : b.buffer = .inline → result.inlineBuffer = if type.isPod then b.inlineBuffer else a.inlineBuffer

theorem takes_swap (type : ElementType) (a b : Deque α inlineCapacity) :
    Takes type (swap type a b).1 a b ∧ Takes type (swap type a b).2 b a := by
  rw [swap, swapBuffers]
  cases left : a.buffer <;> cases right : b.buffer <;> refine ⟨⟨rfl, rfl, rfl, ?_, ?_⟩, ⟨rfl, rfl, rfl, ?_, ?_⟩⟩ <;>
    simp [left, right, swapInlineBuffer, swapInlineBuffers, swapSlots, move] <;> split <;> rfl

theorem Takes.sound (takes : Takes type result a b) (sound : b.Sound type) : result.Sound type where
  stored := by
    have stored := sound.stored
    rw [Stored] at stored ⊢
    rwa [takes.buffer_eq, takes.capacity_eq]
  start_le := by
    rw [takes.start_eq, takes.capacity_eq]
    exact sound.start_le
  end_le := by
    rw [takes.end_eq, takes.capacity_eq]
    exact sound.end_le

theorem iterate_eq_iff (sound : a.Sound type) (soundToo : b.Sound type) (start : a.mStart = b.mStart)
    (sizes : a.size = b.size) (capacities : a.capacity = b.capacity) :
    a.iterate = b.iterate ↔ ∀ p, b.Occupies p → a.slots p = b.slots p := by
  rw [iterate_eq sound.start_le sound.end_le, iterate_eq soundToo.start_le soundToo.end_le, start, sizes, capacities,
    List.map_inj_left]
  constructor
  · rintro same p ⟨i, inside, rfl⟩
    exact same i (List.mem_range.mpr inside)
  · intro same i inside
    exact same _ ⟨i, List.mem_range.mp inside, rfl⟩

/-- A deque that takes over another one has its contents exactly when it can receive them. -/
theorem Takes.iterate_iff (takes : Takes type result a b) (sound : b.Sound type) :
    result.iterate = b.iterate ↔ Receives type a b := by
  have sizes : result.size = b.size := by rw [size, size, takes.start_eq, takes.end_eq, takes.capacity_eq]
  rw [iterate_eq_iff (takes.sound sound) sound takes.start_eq sizes takes.capacity_eq, Receives, slots, slots,
    takes.buffer_eq]
  cases buffer : b.buffer with
  | null => simp
  | heap old => simp
  | inline =>
    rw [takes.inline_eq buffer]
    cases type.isPod <;> simp

theorem occupies_iff (sound : b.Sound type) {p : Nat} :
    b.Occupies p ↔ if b.mStart ≤ b.mEnd then b.mStart ≤ p ∧ p < b.mEnd else p < b.mEnd ∨ b.mStart ≤ p ∧
      p < b.capacity := by
  have bounds := And.intro sound.start_le sound.end_le
  simp only [Occupies, size, slotAt]
  split
  · constructor
    · rintro ⟨i, inside, rfl⟩
      split <;> omega
    · intro inside
      exact ⟨p - b.mStart, by omega, by rw [if_pos (by omega)]; omega⟩
  · constructor
    · rintro ⟨i, inside, rfl⟩
      split <;> omega
    · rintro (low | high)
      · exact ⟨p + b.capacity - b.mStart, by omega, by rw [if_neg (by omega)]; omega⟩
      · exact ⟨p - b.mStart, by omega, by rw [if_pos (by omega)]; omega⟩

theorem copySlots_eq (sound : b.Sound type) (target : Slots α) {p : Nat} (occupied : b.Occupies p) :
    b.copySlots target b.capacity p = b.slots p := by
  have bounds := And.intro sound.start_le sound.end_le
  rw [occupies_iff sound] at occupied
  rw [copySlots]
  split at occupied
  · next straight =>
    rw [if_pos straight]
    simp only [uninitializedCopy_spec]
    rw [if_pos (by omega)]
    congr 1
    omega
  · next wrapped =>
    rw [if_neg wrapped]
    simp only [uninitializedCopy_spec]
    split_ifs <;> first | omega | (congr 1; omega)

/-- A copy into a buffer of the same capacity. -/
theorem copied_spec {fresh : Deque α inlineCapacity} (sound : b.Sound type) (soundFresh : fresh.Sound type)
    (same : fresh.capacity = b.capacity) (kind : fresh.buffer = .inline ↔ b.buffer = .inline)
    (buffer : fresh.buffer ≠ .null) :
    let copied : Deque α inlineCapacity :=
      { fresh.setSlots (b.copySlots fresh.slots fresh.capacity) with mStart := b.mStart, mEnd := b.mEnd }
    copied.Sound type ∧ copied.iterate = b.iterate ∧ ∀ a, Receives type a copied ↔ Receives type a b := by
  intro copied
  have soundCopied : copied.Sound type :=
    soundFresh.replace _ (by rw [same]; exact sound.start_le) (by rw [same]; exact sound.end_le)
  have capacities : copied.capacity = b.capacity := same
  have sizes : copied.size = b.size := by rw [size, size, capacities]
  have contents : ∀ p, b.Occupies p → b.copySlots fresh.slots fresh.capacity p = b.slots p := by
    intro p occupied
    rw [same]
    exact copySlots_eq sound fresh.slots occupied
  have slots : copied.slots = b.copySlots fresh.slots fresh.capacity := by
    change (fresh.setSlots _).slots = _
    rw [Deque.slots, setSlots]
    cases kind : fresh.buffer with
    | null => exact absurd kind buffer
    | inline => rfl
    | heap old => rfl
  have stays : copied.buffer = .inline ↔ b.buffer = .inline := by
    rw [← kind]
    change (fresh.setSlots _).buffer = .inline ↔ _
    rw [setSlots]
    cases fresh.buffer <;> simp
  refine ⟨soundCopied, (iterate_eq_iff soundCopied sound rfl sizes capacities).mpr ?_, fun a => ?_⟩
  · intro p occupied
    rw [slots, contents p occupied]
  · rw [Receives, Receives]
    refine or_congr_right ?_
    by_cases inside : b.buffer = .inline
    · refine or_congr (not_congr stays) (forall_congr' fun p => ?_)
      have occupies : copied.Occupies p ↔ b.Occupies p := by
        rw [occupies_iff soundCopied, occupies_iff sound, capacities]
      rw [occupies]
      refine forall_congr' fun occupied => ?_
      have stored : copied.inlineBuffer p = b.inlineBuffer p := by
        have value := contents p occupied
        rwa [← slots, Deque.slots, Deque.slots, stays.mpr inside, inside] at value
      rw [stored]
    · exact iff_of_true (.inl (mt stays.mp inside)) (.inl inside)

/-- A copy always succeeds and has the objects of the other in the same slots. -/
theorem copy_spec (sound : b.Sound type) :
    ∃ copied, copy type b = some copied ∧ copied.Sound type ∧ copied.iterate = b.iterate ∧
      ∀ a, Receives type a copied ↔ Receives type a b := by
  have stored := sound.stored
  have bounds := And.intro sound.start_le sound.end_le
  rw [Stored] at stored
  rw [copy, withCapacity]
  cases buffer : b.buffer with
  | heap old =>
    rw [buffer] at stored
    rw [if_pos stored.1, stored.2]
    exact ⟨_, rfl, copied_spec sound ⟨stored, Nat.zero_le _, Nat.zero_le _⟩ rfl (by simp [buffer]) (by simp)⟩
  | inline =>
    rw [buffer] at stored
    obtain ⟨same, some⟩ := stored
    have inside : (empty : Deque α inlineCapacity).buffer = .inline := if_neg (by omega)
    rw [if_neg (by omega)]
    exact ⟨_, rfl, copied_spec sound sound_empty same.symm (by simp [buffer, inside]) (by simp [inside])⟩
  | null =>
    rw [buffer] at stored
    dsimp only at stored
    have start : b.mStart = 0 := by omega
    have final : b.mEnd = 0 := by omega
    rw [if_neg (by omega)]
    refine ⟨_, rfl,
      sound_empty.replace _ (by omega) (by omega), ?_, fun a => iff_of_true (.inr (.inr ?_)) (.inr (.inl ?_))⟩
    · rw [iterate_eq (by dsimp only; omega) (by dsimp only; omega), iterate_eq sound.start_le sound.end_le, size, size]
      simp [start, final]
    · rintro p ⟨i, inside, -⟩
      simp [size, start, final] at inside
    · rw [buffer]
      simp

theorem Reachable.sound (reachable : Reachable type deque) : deque.Sound type := by
  induction reachable with
  | empty => exact sound_empty
  | step operation _ stepped ih => exact ih.step operation stepped
  | copy _ copied ih =>
    obtain ⟨result, found, sound, -⟩ := copy_spec ih
    cases copied.symm.trans found
    exact sound
  | swapped _ _ _ right => exact (takes_swap type _ _).1.sound right
  | swappedWith _ _ left _ => exact (takes_swap type _ _).2.sound left

/-- The operations hand over the contents exactly when the deque that gets them can receive them. -/
theorem transfers_iff (left : Reachable type a) (right : Reachable type b) :
    ((swap type a b).1.iterate = b.iterate ∧ (swap type a b).2.iterate = a.iterate ↔ Receives type a b ∧
      Receives type b a) ∧
    (∃ result, assign type a b = some result ∧ (result.iterate = b.iterate ↔ Receives type a b)) ∧
    ((moveConstruct type b).1.iterate = b.iterate ↔ Receives type empty b) ∧
    ((moveAssign type a b).1.iterate = b.iterate ↔ Receives type a b) := by
  have swapped := fun a => (takes_swap type a b).1.iterate_iff right.sound
  refine ⟨and_congr (swapped a) ((takes_swap type a b).2.iterate_iff left.sound), ?_, swapped empty, swapped a⟩
  obtain ⟨copied, found, sound, contents, receives⟩ := copy_spec right.sound
  refine ⟨(swap type a copied).1, by rw [assign, found]; rfl, ?_⟩
  rw [← contents, (takes_swap type a copied).1.iterate_iff sound, receives a]

end Sound

/-- Plain data is exchanged, also between inline slots. -/
theorem transfers_plain :
    ((empty : Deque Nat 2).append (byteType true) 7).map (fun a => (swap (byteType true) a empty).2.iterate) =
      some [some 7] := by
  obtain ⟨a, appended⟩ : ∃ a, (empty : Deque Nat 2).append (byteType true) 7 = some a := Option.isSome_iff_exists.mp rfl
  have reachable : Reachable (byteType true) a := .step (.append 7) .empty (by rw [DequeOperation.step, appended]; rfl)
  have exchanged := ((transfers_iff reachable .empty).1.mpr ⟨.inl rfl, .inl rfl⟩).2
  rw [appended, Option.map_some, exchanged]
  cases appended
  rfl

/-- An object in an inline slot is not exchanged: the other deque gets its place and not the object. -/
theorem swap_diverges :
    ((empty : Deque Nat 2).append (byteType false) 7).map
      (fun a => (a.iterate, (swap (byteType false) a empty).2.iterate)) = some ([some 7], [none]) := rfl

end Deque

end WebNode.Wtf
