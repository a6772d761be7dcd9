import WebNode.Bmalloc.Sizes
import WebNode.Lib.Alignment

/-!
# Extra-large allocation

`tryVMAllocate` maps more than it needs and gives both ends back. All sums and differences are words of
64 bits, so a request near the top of the address space can turn into a small one.
-/

namespace WebNode.Bmalloc

open Lib (alignUp alignUp_mod alignUp_of_fits alignUp_of_wraps)

def xLargeAlignment : Nat := vmPageSize

/-- A mapping, what `munmap` was called on of it, and the address that is returned. -/
structure VMAllocation where
  result : Nat
  mapped : Nat
  mappedSize : Nat
  unmapped : List (Nat × Nat)
  deriving DecidableEq

/-- `munmap` takes a range that ends inside the address space, and fails for any other. -/
def unmaps (range : Nat × Nat) (address : Nat) : Prop :=
  range.1 + range.2 ≤ 2 ^ 64 ∧ range.1 ≤ address ∧ address < range.1 + range.2

/-- The address is in the part of the mapping that is kept. -/
def VMAllocation.Keeps (allocation : VMAllocation) (address : Nat) : Prop :=
  (allocation.mapped ≤ address ∧ address < allocation.mapped + allocation.mappedSize) ∧
    ∀ range ∈ allocation.unmapped, ¬unmaps range address

/-- The number of bytes that `mmap` is asked for. -/
def mappedSize (vmAlignment vmSize : Nat) : Nat :=
  ((if vmSize < vmAlignment then vmAlignment else vmSize) + vmAlignment) % 2 ^ 64

/-- `tryVMAllocate` of an alignment and a size, with the address `mmap` answers. -/
def tryVMAllocate (answer : Option Nat) (vmAlignment vmSize : Nat) : Option VMAllocation :=
  match answer with
  | none | some 0 => none
  | some mapped =>
    let mappedEnd := (mapped + mappedSize vmAlignment vmSize) % 2 ^ 64
    let aligned := alignUp vmAlignment mapped
    let alignedEnd := (aligned + vmSize) % 2 ^ 64
    let leftExtra := (aligned + 2 ^ 64 - mapped) % 2 ^ 64
    let rightExtra := (mappedEnd + 2 ^ 64 - alignedEnd) % 2 ^ 64
    some ⟨aligned, mapped, mappedSize vmAlignment vmSize,
      (if leftExtra ≠ 0 then [(mapped, leftExtra)] else []) ++
        if rightExtra ≠ 0 then [(alignedEnd, rightExtra)] else []⟩

/-- An extra-large object is recorded as a range that begins at its address. -/
structure XLargeObject where
  allocation : VMAllocation
  range : Nat × Nat
  deriving DecidableEq

def tryAllocateXLarge (answer : Option Nat) (alignment size : Nat) : Option XLargeObject := do
  let allocation ← tryVMAllocate answer alignment size
  if allocation.result = 0 then none else some ⟨allocation, (allocation.result, size)⟩

/-- The request behind `Allocator::tryAllocate` of a size above `largeMax`, with `superChunkSize` for the
alignment, and behind the last branch of `Allocator::allocate`. -/
def requestXLarge (answer : Option Nat) (alignment size : Nat) : Option XLargeObject :=
  tryAllocateXLarge answer alignment (alignUp xLargeAlignment size)

def tryAllocate (answer : Option Nat) (size : Nat) : Option XLargeObject := requestXLarge answer superChunkSize size

/-- `mmap` answers failure or a region of the size in the address space. A size of zero always fails. -/
def Answers (answer : Option Nat) (size : Nat) : Prop :=
  ∀ mapped ∈ answer, 0 < mapped ∧ 0 < size ∧ mapped + size ≤ 2 ^ 64

/-- The request returns null, or an aligned object that lies in what is kept, with a range that covers it. -/
def Served (alignment size : Nat) : Option XLargeObject → Prop
  | none => True
  | some object => object.allocation.result % alignment = 0 ∧
      (∀ offset < size, object.allocation.Keeps (object.allocation.result + offset)) ∧
      object.range.1 = object.allocation.result ∧ size ≤ object.range.2

variable {log size mapped : Nat}

/-- Both roundings are of a power of two. -/
theorem xLargeAlignment_eq : xLargeAlignment = 2 ^ 12 := rfl

/-- Without wrapping around, exactly what was asked for is kept. -/
theorem keeps_of_fits (logLe : log ≤ 64) {vmSize : Nat} (positive : 0 < mapped)
    (inside : mapped + ((if vmSize < 2 ^ log then 2 ^ log else vmSize) + 2 ^ log) ≤ 2 ^ 64) :
    ∃ allocation, tryVMAllocate (some mapped) (2 ^ log) vmSize = some allocation ∧ allocation.result % 2 ^ log = 0 ∧
      0 < allocation.result ∧ ∀ offset < vmSize, allocation.Keeps (allocation.result + offset) := by
  have unit := Nat.two_pow_pos log
  obtain ⟨above, below⟩ := @alignUp_of_fits log mapped logLe (by split at inside <;> omega)
  have multiple := alignUp_mod logLe mapped
  rw [tryVMAllocate, mappedSize, Nat.mod_eq_of_lt (by omega)]
  · generalize alignUp (2 ^ log) mapped = aligned at above below multiple ⊢
    generalize whole : (if vmSize < 2 ^ log then 2 ^ log else vmSize) = larger at inside ⊢
    have enough : vmSize ≤ larger := by split at whole <;> omega
    refine ⟨_, rfl, multiple, show 0 < aligned by omega,
      fun offset less => ⟨⟨by dsimp only; omega, by dsimp only; omega⟩, fun range member => ?_⟩⟩
    simp only [List.mem_append] at member
    rcases member with left | right
    · split at left
      · rw [List.mem_singleton.mp left]
        simp only [unmaps]
        omega
      · cases left
    · split at right
      · rw [List.mem_singleton.mp right]
        simp only [unmaps]
        omega
      · cases right
  · rintro rfl
    exact absurd positive (Nat.lt_irrefl 0)

/-- An object that is served lies in the mapping. -/
theorem Served.size_le {alignment : Nat} {object : XLargeObject} (served : Served alignment size (some object)) :
    size ≤ object.allocation.mappedSize := by
  rcases Nat.eq_zero_or_pos size with rfl | positive
  · exact Nat.zero_le _
  · have first := (served.2.1 0 positive).1
    have last := (served.2.1 (size - 1) (by omega)).1
    omega

/-- What is returned, if anything is. -/
theorem requestXLarge_eq (positive : 0 < mapped) {alignment : Nat} (nonzero : alignUp alignment mapped ≠ 0) :
    ∃ object, requestXLarge (some mapped) alignment size = some object ∧
      object.allocation.mappedSize = mappedSize alignment (alignUp xLargeAlignment size) ∧
      object.range.2 = alignUp xLargeAlignment size := by
  rw [requestXLarge, tryAllocateXLarge, tryVMAllocate]
  · simp only [Option.bind_eq_bind, Option.bind_some, if_neg nonzero]
    exact ⟨_, rfl, rfl, rfl⟩
  · rintro rfl
    exact absurd positive (Nat.lt_irrefl 0)

theorem requestXLarge_null {alignment : Nat} (wraps : alignUp alignment mapped = 0) :
    requestXLarge (some mapped) alignment size = none := by
  rw [requestXLarge, tryAllocateXLarge]
  cases mapped with
  | zero => rfl
  | succ mapped => simp [tryVMAllocate, wraps]

theorem served_of_fits (coarse : 25 ≤ log) (logLt : log < 64) {answer : Option Nat}
    (answers : Answers answer (mappedSize (2 ^ log) (alignUp xLargeAlignment size)))
    (fits : size + 2 ^ log + vmPageSize ≤ 2 ^ 64) : Served (2 ^ log) size (requestXLarge answer (2 ^ log) size) := by
  have page : vmPageSize = 2 ^ 12 := rfl
  have large : 2 ^ 25 ≤ 2 ^ log := Nat.pow_le_pow_right (by decide) coarse
  have small : 2 ^ log ≤ 2 ^ 63 := Nat.pow_le_pow_right (by decide) (by omega)
  have pages : 2 ^ log % 2 ^ 12 = 0 := Nat.mod_eq_zero_of_dvd (Nat.pow_dvd_pow 2 (by omega))
  cases answer with
  | none => exact trivial
  | some mapped =>
    obtain ⟨positive, nonempty, inside⟩ := answers mapped rfl
    obtain ⟨above, below⟩ := @alignUp_of_fits 12 size (by decide) (by omega)
    have whole := @alignUp_mod 12 (by decide) size
    rw [requestXLarge, xLargeAlignment_eq] at *
    generalize alignUp (2 ^ 12) size = vmSize at *
    rw [mappedSize] at nonempty inside
    -- the sum fits, unless it is zero, for which there is no answer
    have sum : (if vmSize < 2 ^ log then 2 ^ log else vmSize) + 2 ^ log < 2 ^ 64 := by
      split at nonempty <;> split <;> omega
    rw [Nat.mod_eq_of_lt sum] at inside
    obtain ⟨allocation, same, multiple, nonzero, keeps⟩ := keeps_of_fits (Nat.le_of_lt logLt) positive inside
    rw [tryAllocateXLarge, same]
    simp only [Option.bind_eq_bind, Option.bind_some, if_neg (Nat.ne_of_gt nonzero)]
    exact ⟨multiple, fun offset less => keeps offset (by omega), rfl, above⟩

theorem fits_of_served (coarse : 25 ≤ log) (logLt : log < 64) (small : size < 2 ^ 64)
    (answers : Answers (some mapped) (mappedSize (2 ^ log) (alignUp xLargeAlignment size)))
    (low : mapped + (2 ^ log - 1) < 2 ^ 64)
    (served : Served (2 ^ log) size (requestXLarge (some mapped) (2 ^ log) size)) :
    size + 2 ^ log + vmPageSize ≤ 2 ^ 64 := by
  have page : vmPageSize = 2 ^ 12 := rfl
  have large : 2 ^ 25 ≤ 2 ^ log := Nat.pow_le_pow_right (by decide) coarse
  have top : 2 ^ log ≤ 2 ^ 63 := Nat.pow_le_pow_right (by decide) (by omega)
  have pages : 2 ^ log % 2 ^ 12 = 0 := Nat.mod_eq_zero_of_dvd (Nat.pow_dvd_pow 2 (by omega))
  obtain ⟨positive, nonempty, inside⟩ := answers mapped rfl
  have start := (@alignUp_of_fits log mapped (Nat.le_of_lt logLt) low).1
  obtain ⟨object, same, mappedBytes, range⟩ := @requestXLarge_eq size mapped positive (2 ^ log) (by omega)
  rw [same] at served
  have bound := served.size_le
  have recorded := served.2.2.2
  rw [mappedBytes, mappedSize] at bound
  rw [range] at recorded
  rw [mappedSize] at nonempty
  by_contra exceeds
  rcases Nat.lt_or_ge (size + (2 ^ 12 - 1)) (2 ^ 64) with rounds | wraps
  · obtain ⟨above, below⟩ := @alignUp_of_fits 12 size (by decide) rounds
    have whole := @alignUp_mod 12 (by decide) size
    rw [xLargeAlignment_eq] at *
    generalize alignUp (2 ^ 12) size = vmSize at *
    split at bound <;> omega
  · rw [xLargeAlignment_eq, @alignUp_of_wraps 12 size (by decide) small wraps] at recorded
    omega

/-- Whatever `mmap` answers, a request is served exactly if it fails, if the size leaves room for the
alignment and a page in the address space, or if the address rounds up to null. -/
theorem requestXLarge_served_iff (log size : Nat) (coarse : superChunkSize ≤ 2 ^ log) (logLt : log < 64)
    (small : size < 2 ^ 64) (answer : Option Nat)
    (answers : Answers answer (mappedSize (2 ^ log) (alignUp xLargeAlignment size))) :
    Served (2 ^ log) size (requestXLarge answer (2 ^ log) size) ↔
      size + 2 ^ log + vmPageSize ≤ 2 ^ 64 ∨ ∀ mapped ∈ answer, 2 ^ 64 ≤ mapped + (2 ^ log - 1) := by
  have coarse : 25 ≤ log := (Nat.pow_le_pow_iff_right (show 1 < 2 by decide)).mp coarse
  constructor
  · intro served
    by_contra fails
    rw [not_or, not_forall] at fails
    obtain ⟨exceeds, mapped, low⟩ := fails
    rw [Classical.not_imp, Nat.not_le] at low
    obtain ⟨rfl, low⟩ := low
    exact exceeds (fits_of_served coarse logLt small answers low served)
  · rintro (fits | high)
    · exact served_of_fits coarse logLt answers fits
    · cases answer with
      | none => exact trivial
      | some mapped =>
        obtain ⟨_, nonempty, inside⟩ := answers mapped rfl
        rw [requestXLarge_null (alignUp_of_wraps (Nat.le_of_lt logLt) (by omega) (high mapped rfl))]
        trivial

/-- A request of 17 MB is served from a mapping of 64 MB. -/
theorem requestXLarge_served_iff_example : Served superChunkSize 17825792 (tryAllocate (some 4096) 17825792) :=
  (requestXLarge_served_iff 25 17825792 (by decide) (by decide) (by decide) (some 4096) (by
    intro mapped found
    obtain rfl := Option.some.inj found
    decide +kernel)).mpr (.inl (by decide))

/-- A request of `SIZE_MAX` bytes returns the address of a range of no bytes, all of it given back. -/
theorem request_of_everything :
    ∃ object, tryAllocate (some 4096) (2 ^ 64 - 1) = some object ∧ object.range = (33554432, 0) ∧
      object.allocation.unmapped = [(4096, 33550336), (33554432, 33558528)] ∧
      ¬Served superChunkSize (2 ^ 64 - 1) (tryAllocate (some 4096) (2 ^ 64 - 1)) := by
  have result : tryAllocate (some 4096) (2 ^ 64 - 1) =
      some ⟨⟨33554432, 4096, 67108864, [(4096, 33550336), (33554432, 33558528)]⟩, (33554432, 0)⟩ := by decide +kernel
  refine ⟨_, result, rfl, rfl, fun served => ?_⟩
  rw [result] at served
  exact absurd served.2.2.2 (by decide)

end WebNode.Bmalloc
