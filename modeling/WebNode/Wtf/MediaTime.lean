import WebNode.Wtf.CheckedOperations

/-!
# Media times

`MediaTime.cpp` for times without a double value. Arithmetic of `int64_t` that overflows has no result.
-/

namespace WebNode.Wtf

open CheckedOperations

/-- The bits of `m_timeFlags`. -/
structure TimeFlags where
  valid : Bool
  hasBeenRounded : Bool := false
  positiveInfinite : Bool := false
  negativeInfinite : Bool := false
  indefinite : Bool := false
  deriving DecidableEq, Repr

def maximumTimeScale : Nat := 0x7fffffff

structure MediaTime where
  timeValue : Int
  timeScale : Nat
  timeFlags : TimeFlags
  fits : int64.Holds timeValue
  scaled : 1 ≤ timeScale ∧ timeScale ≤ maximumTimeScale
  deriving DecidableEq, Repr

namespace MediaTime

def isInvalid (self : MediaTime) : Bool := !self.timeFlags.valid

def isPositiveInfinite (self : MediaTime) : Bool := self.timeFlags.positiveInfinite

def isNegativeInfinite (self : MediaTime) : Bool := self.timeFlags.negativeInfinite

def isIndefinite (self : MediaTime) : Bool := self.timeFlags.indefinite

def isFinite (self : MediaTime) : Bool :=
  !self.isInvalid && !self.isPositiveInfinite && !self.isNegativeInfinite && !self.isIndefinite

def invalidTime : MediaTime := ⟨-1, 1, { valid := false }, by decide, by decide⟩

def positiveInfiniteTime : MediaTime := ⟨0, 1, { valid := true, positiveInfinite := true }, by decide, by decide⟩

def negativeInfiniteTime : MediaTime := ⟨-1, 1, { valid := true, negativeInfinite := true }, by decide, by decide⟩

def indefiniteTime : MediaTime := ⟨0, 1, { valid := true, indefinite := true }, by decide, by decide⟩

/-- A value that was computed, unless that overflowed. -/
def ofValue (value : Int) (timeScale : Nat) (timeFlags : TimeFlags) : Option MediaTime :=
  if valid : int64.Holds value ∧ 1 ≤ timeScale ∧ timeScale ≤ maximumTimeScale then
    some ⟨value, timeScale, timeFlags, valid.1, valid.2⟩
  else none

section Rescaling

/-- The loop that halves the scale until the whole part fits. -/
def scaleWholePart (wholePart : Int) (timeScale : Nat) : Option (Nat × Int) :=
  match safe .multiply int64 int32 int64 wholePart timeScale with
  | some (some newWholePart) => some (timeScale, newWholePart)
  -- A scale of 0 is never refused.
  | some none => if positive : timeScale = 0 then none else scaleWholePart wholePart (timeScale / 2)
  | none => none
termination_by timeScale
decreasing_by omega

def setTimeScale (self : MediaTime) (timeScale : Nat) : Option MediaTime :=
  if timeScale = self.timeScale then some self else do
    let timeScale := min maximumTimeScale timeScale
    let wholePart := self.timeValue.tdiv self.timeScale
    let (timeScale, newWholePart) ← scaleWholePart wholePart timeScale
    let remainder := self.timeValue.tmod self.timeScale
    guard (int64.Holds (remainder * timeScale))
    ofValue (newWholePart + (remainder * timeScale).tdiv self.timeScale) timeScale self.timeFlags

end Rescaling

section Sums

/-- Euclid's algorithm. -/
def greatestCommonDivisor (a : Nat) : Nat → Nat
  | 0 => a
  | b + 1 => greatestCommonDivisor (b + 1) (a % (b + 1))
termination_by b => b
decreasing_by exact Nat.mod_lt _ (Nat.succ_pos _)

/-- The least common multiple, or the maximum if that is not an `int32_t`. -/
def commonTimeScale (a b : Nat) : Nat :=
  match safe .multiply int32 int32 int32 a ((b / greatestCommonDivisor a b : Nat) : Int) with
  | some (some multiple) => if multiple > maximumTimeScale then maximumTimeScale else multiple.toNat
  | _ => maximumTimeScale

/-- The loop of `operator+` and `operator-`, with both operands already rescaled. -/
def combineLoop (operation : Int → Int → Option (Option Int)) (a b : MediaTime) (commonTimeScale : Nat) :
    Option MediaTime :=
  match operation a.timeValue b.timeValue with
  | some (some value) => ofValue value a.timeScale a.timeFlags
  | none => none
  | some none =>
    if commonTimeScale = 1 then
      some (if a.timeValue > 0 then positiveInfiniteTime else negativeInfiniteTime)
    -- A scale of 0 would be halved without an end.
    else if positive : commonTimeScale = 0 then none
    else do
      let a ← a.setTimeScale (commonTimeScale / 2)
      let b ← b.setTimeScale (commonTimeScale / 2)
      combineLoop operation a b (commonTimeScale / 2)
termination_by commonTimeScale
decreasing_by omega

def combine (operation : Int → Int → Option (Option Int)) (self rhs : MediaTime) : Option MediaTime := do
  let commonTimeScale := commonTimeScale self.timeScale rhs.timeScale
  let a ← self.setTimeScale commonTimeScale
  let b ← rhs.setTimeScale commonTimeScale
  combineLoop operation a b commonTimeScale

/-- `operator+`. -/
def add (self rhs : MediaTime) : Option MediaTime :=
  if rhs.isInvalid || self.isInvalid then some invalidTime
  else if rhs.isIndefinite || self.isIndefinite then some indefiniteTime
  else if self.isPositiveInfinite && rhs.isNegativeInfinite then some invalidTime
  else if self.isNegativeInfinite && rhs.isPositiveInfinite then some invalidTime
  else if self.isPositiveInfinite || rhs.isPositiveInfinite then some positiveInfiniteTime
  else if self.isNegativeInfinite || rhs.isNegativeInfinite then some negativeInfiniteTime
  else combine (safe .add int64 int64 int64) self rhs

/-- `operator-` with two operands. -/
def sub (self rhs : MediaTime) : Option MediaTime :=
  if rhs.isInvalid || self.isInvalid then some invalidTime
  else if rhs.isIndefinite || self.isIndefinite then some indefiniteTime
  else if self.isPositiveInfinite && rhs.isPositiveInfinite then some invalidTime
  else if self.isNegativeInfinite && rhs.isNegativeInfinite then some invalidTime
  else if self.isPositiveInfinite || rhs.isNegativeInfinite then some positiveInfiniteTime
  else if self.isNegativeInfinite || rhs.isPositiveInfinite then some negativeInfiniteTime
  else combine (safe .sub int64 int64 int64) self rhs

end Sums

/-- `compare`, where the products of the remainders may overflow. -/
def compare (self rhs : MediaTime) : Option Ordering :=
  if (self.isPositiveInfinite && rhs.isPositiveInfinite) || (self.isNegativeInfinite && rhs.isNegativeInfinite) ||
      (self.isInvalid && rhs.isInvalid) || (self.isIndefinite && rhs.isIndefinite) then some .eq
  else if self.isInvalid then some .gt
  else if rhs.isInvalid then some .lt
  else if rhs.isNegativeInfinite || self.isPositiveInfinite then some .gt
  else if rhs.isPositiveInfinite || self.isNegativeInfinite then some .lt
  else if self.isIndefinite then some .gt
  else if rhs.isIndefinite then some .lt
  else
    let rhsWhole := rhs.timeValue.tdiv rhs.timeScale
    let lhsWhole := self.timeValue.tdiv self.timeScale
    if lhsWhole > rhsWhole then some .gt
    else if lhsWhole < rhsWhole then some .lt
    else
      let rhsRemain := rhs.timeValue.tmod rhs.timeScale
      let lhsRemain := self.timeValue.tmod self.timeScale
      let lhsFactor := lhsRemain * rhs.timeScale
      let rhsFactor := rhsRemain * self.timeScale
      if int64.Holds lhsFactor ∧ int64.Holds rhsFactor then
        if lhsFactor = rhsFactor then some .eq
        else if lhsFactor > rhsFactor then some .gt
        else some .lt
      else none

end MediaTime

end WebNode.Wtf
