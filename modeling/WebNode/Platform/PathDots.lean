import Mathlib.Data.List.Basic
import Mathlib.Data.List.TakeDrop

/-!
# Copying a path without its dot segments

`copyPathRemovingDots` and `hasSlashDotOrDotDot` of `URL.cpp`. Reading or writing outside of a buffer has no result.
-/

namespace WebNode.Platform.UrlPath

section Code

/-- `*dst = c`. -/
def write (buffer : List Char) (dst : Nat) (c : Char) : Option (List Char) :=
  if dst < buffer.length then some (buffer.set dst c) else none

/-- What the look-ahead finds at the start of a segment. -/
inductive Dots where
  | single
  | double
  | other
  deriving DecidableEq, Repr

/-- The tests for a `.` or `..` segment at `baseStringPos`, which look ahead as far as `baseStringEnd`. -/
def dotsAt (src : List Char) (srcEnd pos : Nat) (buffer : List Char) (dst : Nat) : Option Dots := do
  if (← src[pos]?) = '.' then
    if (← if dst = 0 then none else buffer[dst - 1]?) = '/' then
      let next ← src[pos + 1]?
      if next = '/' ∨ pos + 1 = srcEnd then return .single
      else if next = '.' then
        if (← src[pos + 2]?) = '/' ∨ pos + 2 = srcEnd then return .double
        else return .other
      else return .other
    else return .other
  else return .other

/-- `while (dst > bufferPathStart && dst[-1] != '/') dst--`. -/
def rewind (buffer : List Char) : Nat → Option Nat
  | 0 => some 0
  | dst + 1 =>
    match buffer[dst]? with
    | none => none
    | some last => if last ≠ '/' then rewind buffer dst else some (dst + 1)

def copyLoop (src : List Char) (srcEnd pos : Nat) (buffer : List Char) (dst : Nat) : Option (List Char × Nat) :=
  if pos < srcEnd then
    match dotsAt src srcEnd pos buffer dst with
    | none => none
    | some .single => copyLoop src srcEnd (pos + 2) buffer dst
    | some .double =>
      match rewind buffer (if dst > 1 then dst - 1 else dst) with
      | none => none
      | some dst => copyLoop src srcEnd (pos + 3) buffer dst
    | some .other =>
      match src[pos]?.bind (write buffer dst) with
      | none => none
      | some buffer => copyLoop src srcEnd (pos + 1) buffer (dst + 1)
  else some (buffer, dst)
termination_by srcEnd - pos

/-- The destination starts at the index 0 of the buffer. The result is the buffer and the length. -/
def copyPathRemovingDots (buffer src : List Char) (srcStart srcEnd : Nat) : Option (List Char × Nat) := do
  let (buffer, dst) ←
    if srcStart ≠ srcEnd then do
      let buffer ← write buffer 0 (← src[srcStart]?)
      copyLoop src srcEnd (srcStart + 1) buffer 1
    else some (buffer, 0)
  let buffer ← write buffer dst '\x00'
  return (buffer, dst)

/-- The loop over the characters behind the first one. -/
def scanPairs (pc : Char) : List Char → Bool
  | [] => false
  | c :: rest =>
    if c = '\x00' then false
    else if c = '.' ∧ (pc = '/' ∨ pc = '.') then true
    else scanPairs c rest

def hasSlashDotOrDotDot : List Char → Bool
  | [] => false
  | pc :: rest => if pc = '\x00' then false else scanPairs pc rest

end Code

section Lists

/-- What the look-ahead finds, by the characters before in reverse and those that are left. -/
def dotsOf (out : List Char) : List Char → Dots
  | '.' :: rest =>
    if out.head? = some '/' then
      match rest with
      | [] => .single
      | next :: after =>
        if next = '/' then .single
        else if next = '.' ∧ (after = [] ∨ after.head? = some '/') then .double
        else .other
    else .other
  | _ => .other

/-- The rewinding of a `..` segment. -/
def stepBack (out : List Char) : List Char :=
  (if out.length > 1 then out.tail else out).dropWhile (· ≠ '/')

/-- The loop over the characters that are left, with those that are written in reverse. -/
def strip (out : List Char) : List Char → List Char
  | [] => out
  | c :: rest =>
    match dotsOf out (c :: rest) with
    | .single => strip out (rest.drop 1)
    | .double => strip (stepBack out) (rest.drop 2)
    | .other => strip (c :: out) rest
termination_by input => input.length
decreasing_by
  · rw [List.length_drop, List.length_cons]; omega
  · rw [List.length_drop, List.length_cons]; omega
  · exact Nat.lt_succ_self _

end Lists

section Refinement

variable {src buffer out : List Char} {srcEnd pos dst : Nat}

/-- The characters that are written stand at the front of the buffer. -/
structure Holds (buffer : List Char) (dst : Nat) (out : List Char) : Prop where
  length : out.length = dst
  front : buffer.take dst = out.reverse

theorem Holds.last {c : Char} {rest : List Char} (holds : Holds buffer dst (c :: rest)) :
    buffer[dst - 1]? = some c := by
  obtain ⟨length, front⟩ := holds
  subst length
  have last := congrArg (fun text => text[rest.length]?) front
  simpa [List.getElem?_take] using last

theorem Holds.tail {c : Char} {rest : List Char} (holds : Holds buffer dst (c :: rest)) :
    Holds buffer (dst - 1) rest := by
  obtain ⟨length, front⟩ := holds
  subst length
  refine ⟨by simp, ?_⟩
  have shorter := congrArg (fun text => text.take rest.length) front
  simpa [List.take_take] using shorter

theorem Holds.write {c : Char} (holds : Holds buffer dst out) (room : dst < buffer.length) :
    UrlPath.write buffer dst c = some (buffer.set dst c) ∧ Holds (buffer.set dst c) (dst + 1) (c :: out) := by
  refine ⟨if_pos room, by rw [List.length_cons, holds.length], ?_⟩
  rw [List.take_add_one, List.take_set_of_le (Nat.le_refl dst), holds.front, List.getElem?_set_self room]
  simp

theorem Holds.rewind (holds : Holds buffer dst out) :
    ∃ back, UrlPath.rewind buffer dst = some back ∧ Holds buffer back (out.dropWhile (· ≠ '/')) := by
  induction out generalizing dst with
  | nil =>
    obtain rfl : 0 = dst := holds.length
    exact ⟨0, rfl, holds⟩
  | cons c rest ih =>
    have last := holds.last
    have length := holds.length
    obtain ⟨shorter, rfl⟩ : ∃ shorter, dst = shorter + 1 := ⟨rest.length, by simpa using length.symm⟩
    rw [Nat.add_sub_cancel] at last
    rw [UrlPath.rewind, last]
    by_cases slash : c = '/'
    · subst slash
      exact ⟨_, if_neg (by simp), by simpa using holds⟩
    · obtain ⟨back, rewound, backHolds⟩ := ih holds.tail
      exact ⟨back, (if_pos slash).trans rewound, by simpa [slash] using backHolds⟩

theorem Holds.stepBack (holds : Holds buffer dst out) :
    ∃ back, UrlPath.rewind buffer (if dst > 1 then dst - 1 else dst) = some back ∧
      Holds buffer back (stepBack out) := by
  unfold UrlPath.stepBack
  rw [holds.length]
  split
  · next more =>
    cases out with
    | nil =>
      have length : 0 = dst := holds.length
      omega
    | cons c rest => exact holds.tail.rewind
  · exact holds.rewind

theorem window_cons (inside : srcEnd < src.length) (more : pos < srcEnd) :
    ∃ c, src[pos]? = some c ∧ (src.take srcEnd).drop pos = c :: (src.take srcEnd).drop (pos + 1) := by
  have within : pos < (src.take srcEnd).length := by
    rw [List.length_take]
    omega
  refine ⟨src[pos], List.getElem?_eq_getElem _, ?_⟩
  rw [List.drop_eq_getElem_cons within, List.getElem_take]

theorem window_nil (done : srcEnd ≤ pos) : (src.take srcEnd).drop pos = [] := by
  rw [List.drop_eq_nil_iff, List.length_take]
  omega

/-- The character behind the end is read, but makes no difference. -/
theorem dotsAt_eq (holds : Holds buffer dst out) (written : out ≠ []) (inside : srcEnd < src.length)
    (more : pos < srcEnd) :
    dotsAt src srcEnd pos buffer dst = some (dotsOf out ((src.take srcEnd).drop pos)) := by
  obtain ⟨last, before, rfl⟩ := List.exists_cons_of_ne_nil written
  have notZero : dst ≠ 0 := by
    have length := holds.length
    rw [List.length_cons] at length
    omega
  obtain ⟨c, current, window⟩ := window_cons inside more
  rw [window]
  simp only [dotsAt, current, holds.last, if_neg notZero, Option.bind_eq_bind, Option.bind_some]
  by_cases dot : c = '.'
  · subst dot
    by_cases slash : last = '/'
    · subst slash
      by_cases ends : pos + 1 = srcEnd
      · obtain ⟨next, reads⟩ : ∃ next, src[pos + 1]? = some next := ⟨_, List.getElem?_eq_getElem (by omega)⟩
        rw [window_nil (by omega : srcEnd ≤ pos + 1), reads]
        simp [ends, dotsOf]
      · obtain ⟨next, reads, window⟩ := window_cons inside (by omega : pos + 1 < srcEnd)
        rw [window, reads]
        by_cases nextSlash : next = '/'
        · simp [nextSlash, dotsOf]
        · by_cases nextDot : next = '.'
          · subst nextDot
            by_cases ends : pos + 1 + 1 = srcEnd
            · obtain ⟨after, readsAfter⟩ : ∃ after, src[pos + 2]? = some after :=
                ⟨_, List.getElem?_eq_getElem (by omega)⟩
              rw [window_nil (by omega : srcEnd ≤ pos + 1 + 1), readsAfter]
              simp [ends, dotsOf, show ¬ pos + 1 = srcEnd by omega]
            · obtain ⟨after, readsAfter, window⟩ := window_cons inside (by omega : pos + 1 + 1 < srcEnd)
              rw [window, readsAfter]
              by_cases afterSlash : after = '/' <;>
                simp [dotsOf, afterSlash, show ¬ pos + 1 = srcEnd by omega, show ¬ pos + 2 = srcEnd from ends]
          · simp [dotsOf, nextSlash, nextDot, ends]
    · simp [dotsOf, slash]
  · simp [dotsOf, dot]

/-- The leading slash is written. -/
def Rooted (out : List Char) : Prop := ∃ above, out = above ++ ['/']

theorem Rooted.ne_nil (rooted : Rooted out) : out ≠ [] := by
  obtain ⟨above, rfl⟩ := rooted
  simp

theorem Rooted.dropWhile (rooted : Rooted out) : Rooted (out.dropWhile (· ≠ '/')) := by
  obtain ⟨above, rfl⟩ := rooted
  induction above with
  | nil => exact ⟨[], by simp⟩
  | cons c rest ih =>
    by_cases slash : c = '/'
    · exact ⟨c :: rest, by simp [slash]⟩
    · simpa [slash] using ih

theorem Rooted.stepBack (rooted : Rooted out) : Rooted (stepBack out) := by
  unfold UrlPath.stepBack
  split
  · next long =>
    obtain ⟨above, rfl⟩ := rooted
    cases above with
    | nil => simp at long
    | cons c rest => exact Rooted.dropWhile ⟨rest, rfl⟩
  · exact rooted.dropWhile

theorem length_stepBack_le : (stepBack out).length ≤ out.length := by
  unfold stepBack
  refine Nat.le_trans (List.dropWhile_suffix _).length_le ?_
  split <;> simp

/-- A run of the loop: what stands in the buffer at its end, and what is left as it was. -/
structure Copied (buffer : List Char) (limit : Nat) (out : List Char) (final : List Char) : Prop where
  holds : Holds final out.length out
  short : out.length ≤ limit
  size : final.length = buffer.length
  behind : final.drop limit = buffer.drop limit

/-- The loop writes what the characters give, never behind the place of the last character that it reads. -/
theorem copyLoop_eq {limit : Nat} (holds : Holds buffer dst out) (rooted : Rooted out) (inside : srcEnd < src.length)
    (limited : dst + (srcEnd - pos) ≤ limit) (room : limit < buffer.length) :
    ∃ final, copyLoop src srcEnd pos buffer dst = some (final, (strip out ((src.take srcEnd).drop pos)).length) ∧
      Copied buffer limit (strip out ((src.take srcEnd).drop pos)) final := by
  induction left : srcEnd - pos using Nat.strongRecOn generalizing pos buffer dst out with
  | ind left_ ih =>
    rw [copyLoop]
    by_cases more : pos < srcEnd
    · obtain ⟨c, current, window⟩ := window_cons inside more
      have dropped :
          ∀ count, (src.take srcEnd).drop (pos + 1 + count) = ((src.take srcEnd).drop (pos + 1)).drop count :=
        fun count => List.drop_drop.symm
      rw [if_pos more, dotsAt_eq holds rooted.ne_nil inside more, window, strip]
      cases dotsOf out (c :: (src.take srcEnd).drop (pos + 1)) with
      | single =>
        rw [← dropped 1]
        exact ih _ (by omega) holds rooted (by omega) room rfl
      | double =>
        obtain ⟨back, rewound, backHolds⟩ := holds.stepBack
        have shorter : back ≤ dst := by
          rw [← backHolds.length, ← holds.length]
          exact length_stepBack_le
        simp only [rewound]
        rw [← dropped 2]
        exact ih _ (by omega) backHolds rooted.stepBack (by omega) room rfl
      | other =>
        obtain ⟨writes, written⟩ := holds.write (c := c) (by omega)
        have nextRooted : Rooted (c :: out) := by
          obtain ⟨above, rfl⟩ := rooted
          exact ⟨c :: above, rfl⟩
        have limitedNext : dst + 1 + (srcEnd - (pos + 1)) ≤ limit := by omega
        obtain ⟨final, looped, copied⟩ := ih _ (by omega) written nextRooted limitedNext (by rwa [List.length_set]) rfl
        simp only [current, Option.bind_some, writes]
        refine ⟨final, looped, copied.holds, copied.short, by rw [copied.size, List.length_set], ?_⟩
        rw [copied.behind, List.drop_set_of_lt (by omega)]
    · rw [if_neg more, window_nil (by omega), strip, holds.length]
      refine ⟨buffer, rfl, ?_, by rw [holds.length]; omega, rfl, rfl⟩
      rw [holds.length]
      exact holds

/-- The whole copy of a path that begins with a slash. -/
theorem copyPathRemovingDots_eq {rest before after : List Char} (terminated : after ≠ [])
    (room : rest.length + 1 < buffer.length) :
    ∃ final, copyPathRemovingDots buffer (before ++ '/' :: rest ++
      after) before.length (before.length + (rest.length + 1)) =
        some (final, (strip ['/'] rest).length) ∧
      final.take (strip ['/'] rest).length = (strip ['/'] rest).reverse ∧
      final[(strip ['/'] rest).length]? = some '\x00' ∧
      (strip ['/'] rest).length ≤ rest.length + 1 ∧ final.length = buffer.length ∧
      final.drop (rest.length + 2) = buffer.drop (rest.length + 2) := by
  have first : (before ++ '/' :: rest ++ after)[before.length]? = some '/' := by simp
  have window : ((before ++ '/' :: rest ++ after).take (before.length + (rest.length + 1))).drop (before.length + 1) =
      rest := by
    rw [← List.drop_drop, List.append_assoc, List.take_length_add_append, List.drop_left]
    simp
  have empty : Holds buffer 0 [] := ⟨rfl, rfl⟩
  obtain ⟨writes, holds⟩ := empty.write (c := '/') (by omega)
  have inside : before.length + (rest.length + 1) < (before ++ '/' :: rest ++ after).length := by
    have := List.length_pos_of_ne_nil terminated
    rw [List.length_append, List.length_append, List.length_cons]
    omega
  have limited : 1 + (before.length + (rest.length + 1) - (before.length + 1)) ≤ rest.length + 1 := by omega
  obtain ⟨copied, looped, result⟩ := copyLoop_eq holds ⟨[], rfl⟩ inside limited (by rwa [List.length_set])
  rw [window] at looped result
  obtain ⟨resultHolds, short, size, behind⟩ := result
  rw [List.length_set] at size
  have fits : (strip ['/'] rest).length < copied.length := by omega
  refine ⟨copied.set (strip ['/'] rest).length '\x00', ?_, ?_, by simp [fits], short, by rw [List.length_set, size], ?_⟩
  · rw [copyPathRemovingDots, if_pos (by omega), first]
    simp only [Option.bind_eq_bind, Option.bind_some, writes, looped]
    rw [UrlPath.write, if_pos fits]
    rfl
  · rw [List.take_set_of_le (Nat.le_refl _), resultHolds.front]
  · rw [List.drop_set_of_lt (by omega)]
    have further := congrArg (List.drop 1) behind
    rw [List.drop_drop, List.drop_drop, List.drop_set_of_lt (by omega)] at further
    exact further

end Refinement

end WebNode.Platform.UrlPath
