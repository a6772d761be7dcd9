import WebNode.Platform.PathDots

/-!
# Dot segments of a path

`remove_dot_segments` of RFC 3986, section 5.2.4, and its agreement with `copyPathRemovingDots`. Both work on the
segments of the path in the same way.
-/

namespace WebNode.Platform.UrlPath

section Procedure

/-- Removes the last segment and its preceding slash, if any, from the output. -/
def removeLastSegment (output : List Char) : List Char := (output.reverse.dropWhile (· ≠ '/')).tail.reverse

/-- The first segment, with the initial slash if any, up to the next slash. -/
def firstSegment : List Char → List Char
  | [] => []
  | c :: rest => c :: rest.takeWhile (· ≠ '/')

/-- The steps A to E of the procedure on the input and output buffers. -/
def removeDotSegmentsLoop (output input : List Char) : List Char :=
  if _ : input = [] then output
  else if ['.', '.', '/'] <+: input then removeDotSegmentsLoop output (input.drop 3)
  else if ['.', '/'] <+: input then removeDotSegmentsLoop output (input.drop 2)
  else if ['/', '.', '/'] <+: input then removeDotSegmentsLoop output (input.drop 2)
  else if _ : input = ['/', '.'] then removeDotSegmentsLoop output ['/']
  else if ['/', '.', '.', '/'] <+: input then removeDotSegmentsLoop (removeLastSegment output) (input.drop 3)
  else if _ : input = ['/', '.', '.'] then removeDotSegmentsLoop (removeLastSegment output) ['/']
  else if input = ['.'] ∨ input = ['.', '.'] then removeDotSegmentsLoop output []
  else removeDotSegmentsLoop (output ++ firstSegment input) (input.drop (firstSegment input).length)
termination_by input.length
decreasing_by
  all_goals have := List.length_pos_of_ne_nil ‹¬ input = []›
  · rw [List.length_drop]; omega
  · rw [List.length_drop]; omega
  · rw [List.length_drop]; omega
  · rw [‹input = ['/', '.']›]; decide
  · rw [List.length_drop]; omega
  · rw [‹input = ['/', '.', '.']›]; decide
  · exact this
  · rw [List.length_drop]
    obtain ⟨c, rest, rfl⟩ := List.exists_cons_of_ne_nil ‹¬ input = []›
    rw [firstSegment, List.length_cons, List.length_cons]
    omega

def removeDotSegments (path : List Char) : List Char := removeDotSegmentsLoop [] path

end Procedure

section Segments

/-- The path with these segments. -/
def joined (segments : List (List Char)) : List Char := segments.flatMap ('/' :: ·)

theorem joined_cons (segment : List Char) (segments : List (List Char)) :
    joined (segment :: segments) = '/' :: (segment ++ joined segments) := List.flatMap_cons

theorem exists_segments (rest : List Char) :
    ∃ segments, segments ≠ [] ∧ (∀ segment ∈ segments, '/' ∉ segment) ∧ '/' :: rest = joined segments := by
  induction rest with
  | nil => exact ⟨[[]], by simp, by simp, rfl⟩
  | cons c rest ih =>
    obtain ⟨segments, nonempty, plain, joins⟩ := ih
    by_cases slash : c = '/'
    · exact ⟨[] :: segments, by simp, by simpa using plain, by rw [joined_cons, slash, joins]; rfl⟩
    · obtain ⟨first, others, rfl⟩ := List.exists_cons_of_ne_nil nonempty
      rw [joined_cons, List.cons.injEq] at joins
      refine ⟨(c :: first) :: others, by simp, ?_, by rw [joined_cons, joins.2]; rfl⟩
      simpa [Ne.symm slash] using plain

/-- The path of the segments behind the stack, with `.` and `..` resolved. The stack has the last segment first. -/
def resolve (stack : List (List Char)) : List (List Char) → List (List Char)
  | [] => stack
  | segment :: rest =>
    if segment = ['.'] then if rest = [] then [] :: stack else resolve stack rest
    else if segment = ['.', '.'] then if rest = [] then [] :: stack.tail else resolve stack.tail rest
    else resolve (segment :: stack) rest

/-- A segment of a path, as `.` and `..` may not be. -/
def Resolved (segments : List (List Char)) : Prop :=
  ∀ segment ∈ segments, '/' ∉ segment ∧ segment ≠ ['.'] ∧ segment ≠ ['.', '.']

theorem Resolved.nil_cons {stack : List (List Char)} (resolved : Resolved stack) : Resolved ([] :: stack) :=
  List.forall_mem_cons.mpr ⟨by simp, resolved⟩

theorem Resolved.tail {stack : List (List Char)} (resolved : Resolved stack) : Resolved stack.tail :=
  fun segment member => resolved segment (List.mem_of_mem_tail member)

theorem resolved_resolve {stack segments : List (List Char)} (resolved : Resolved stack)
    (plain : ∀ segment ∈ segments, '/' ∉ segment) : Resolved (resolve stack segments) := by
  induction segments generalizing stack with
  | nil => exact resolved
  | cons segment rest ih =>
    obtain ⟨first, others⟩ := List.forall_mem_cons.mp plain
    unfold resolve
    split_ifs with single last double last
    · exact resolved.nil_cons
    · exact ih resolved others
    · exact resolved.tail.nil_cons
    · exact ih resolved.tail others
    · exact ih (List.forall_mem_cons.mpr ⟨⟨first, single, double⟩, resolved⟩) others

theorem resolve_of_resolved {stack segments : List (List Char)} (resolved : Resolved segments) :
    resolve stack segments = segments.reverse ++ stack := by
  induction segments generalizing stack with
  | nil => rfl
  | cons segment rest ih =>
    obtain ⟨⟨_, single, double⟩, others⟩ := List.forall_mem_cons.mp resolved
    rw [resolve, if_neg single, if_neg double, ih others]
    simp

variable {segment text : List Char} {rest stack : List (List Char)}

/-- A text without a slash is followed by one just if it is the first segment and not the last. -/
theorem slash_after_iff (plain : '/' ∉ segment) (textPlain : '/' ∉ text) :
    text ++ ['/'] <+: segment ++ joined rest ↔ segment = text ∧ rest ≠ [] := by
  induction text generalizing segment with
  | nil =>
    cases segment with
    | nil => cases rest <;> simp [joined]
    | cons c others =>
      obtain ⟨differ, _⟩ : '/' ≠ c ∧ '/' ∉ others := by simpa using plain
      simp [differ]
  | cons a text ih =>
    obtain ⟨differ, textPlain⟩ : '/' ≠ a ∧ '/' ∉ text := by simpa using textPlain
    cases segment with
    | nil => cases rest <;> simp [joined, Ne.symm differ]
    | cons c others =>
      obtain ⟨_, othersPlain⟩ : '/' ≠ c ∧ '/' ∉ others := by simpa using plain
      have step := ih othersPlain textPlain
      simp only [List.cons_append, List.cons_prefix_cons, step, List.cons.injEq]
      grind

theorem segment_eq_iff (textPlain : '/' ∉ text) : segment ++ joined rest = text ↔ segment = text ∧ rest = [] := by
  constructor
  · rintro rfl
    cases rest with
    | nil => simp [joined]
    | cons next others => simp [joined] at textPlain
  · rintro ⟨rfl, rfl⟩
    simp [joined]

theorem takeWhile_segment (plain : '/' ∉ segment) : (segment ++ joined rest).takeWhile (· ≠ '/') = segment := by
  have stops : (joined rest).takeWhile (· ≠ '/') = [] := by cases rest <;> simp [joined]
  rw [List.takeWhile_append_of_pos, stops, List.append_nil]
  intro c member
  exact decide_eq_true fun slash => plain (slash ▸ member)

end Segments

section Agreement

variable {segment output : List Char} {segments rest stack : List (List Char)}

/-- One step of the procedure is one segment. -/
theorem removeDotSegmentsLoop_cons (plain : '/' ∉ segment) : removeDotSegmentsLoop output (joined (segment :: rest)) =
    if segment = ['.'] then
      if rest = [] then removeDotSegmentsLoop output ['/'] else removeDotSegmentsLoop output (joined rest)
    else if segment = ['.', '.'] then
      if rest = [] then removeDotSegmentsLoop (removeLastSegment output) ['/']
      else removeDotSegmentsLoop (removeLastSegment output) (joined rest)
    else removeDotSegmentsLoop (output ++ '/' :: segment) (joined rest) := by
  have single := @slash_after_iff segment ['.'] rest plain (by decide)
  have double := @slash_after_iff segment ['.', '.'] rest plain (by decide)
  have singleLast := @segment_eq_iff segment ['.'] rest (by decide)
  have doubleLast := @segment_eq_iff segment ['.', '.'] rest (by decide)
  have first : firstSegment ('/' :: (segment ++ joined rest)) = '/' :: segment := by
    rw [firstSegment, takeWhile_segment plain]
  simp only [List.cons_append, List.nil_append] at single double
  rw [joined_cons, removeDotSegmentsLoop]
  simp only [first, List.cons_prefix_cons, List.cons.injEq, single, double, singleLast, doubleLast, true_and,
    reduceCtorEq, Char.reduceEq, false_and, if_false, dite_eq_ite, or_self, List.drop_succ_cons, List.length_cons,
      List.drop_left]
  by_cases last : rest = []
  · simp [last]
  · by_cases isSingle : segment = ['.']
    · simp [isSingle, last]
    · by_cases isDouble : segment = ['.', '.'] <;> simp [isSingle, isDouble, last]

theorem removeDotSegmentsLoop_nil : removeDotSegmentsLoop output [] = output := by
  rw [removeDotSegmentsLoop, dif_pos rfl]

theorem removeDotSegmentsLoop_slash : removeDotSegmentsLoop output ['/'] = output ++ ['/'] := by
  have step := @removeDotSegmentsLoop_cons [] output [] (by simp)
  simpa [joined, removeDotSegmentsLoop_nil] using step

theorem joined_append (front back : List (List Char)) : joined (front ++ back) = joined front ++ joined back :=
  List.flatMap_append

theorem joined_reverse_cons : joined (segment :: stack).reverse = joined stack.reverse ++ '/' :: segment := by
  rw [List.reverse_cons, joined_append]
  simp [joined]

theorem dropWhile_segment {before : List Char} (plain : '/' ∉ segment) :
    (segment.reverse ++ '/' :: before).dropWhile (· ≠ '/') = '/' :: before := by
  rw [List.dropWhile_append_of_pos]
  · simp
  · intro c member
    exact decide_eq_true fun slash => plain (slash ▸ List.mem_reverse.mp member)

theorem removeLastSegment_joined (plain : ∀ segment ∈ stack, '/' ∉ segment) :
    removeLastSegment (joined stack.reverse) = joined stack.tail.reverse := by
  cases stack with
  | nil => rfl
  | cons segment others =>
    rw [joined_reverse_cons, removeLastSegment, List.reverse_append, List.reverse_cons, List.append_assoc,
      List.singleton_append,
        dropWhile_segment (plain segment (by simp)), List.tail_cons, List.reverse_reverse, List.tail_cons]

/-- The procedure resolves the segments. -/
theorem removeDotSegmentsLoop_joined (stackPlain : ∀ segment ∈ stack, '/' ∉ segment)
    (plain : ∀ segment ∈ segments, '/' ∉ segment) :
    removeDotSegmentsLoop (joined stack.reverse) (joined segments) = joined (resolve stack segments).reverse := by
  induction segments generalizing stack with
  | nil => exact removeDotSegmentsLoop_nil
  | cons segment rest ih =>
    obtain ⟨first, others⟩ := List.forall_mem_cons.mp plain
    have tailPlain : ∀ segment ∈ stack.tail, '/' ∉ segment := fun segment member =>
      stackPlain segment (List.mem_of_mem_tail member)
    rw [removeDotSegmentsLoop_cons first, removeLastSegment_joined stackPlain, resolve, removeDotSegmentsLoop_slash,
      removeDotSegmentsLoop_slash]
    split_ifs
    · rw [joined_reverse_cons]
    · exact ih stackPlain others
    · rw [joined_reverse_cons]
    · exact ih tailPlain others
    · rw [← joined_reverse_cons]
      exact ih (List.forall_mem_cons.mpr ⟨first, stackPlain⟩) others

/-- Inside a segment characters are copied. -/
theorem strip_inside {out rest : List Char} (plain : '/' ∉ segment) (inside : out.head? ≠ some '/') :
    strip out (segment ++ rest) = strip (segment.reverse ++ out) rest := by
  induction segment generalizing out with
  | nil => rfl
  | cons c segment ih =>
    obtain ⟨differ, others⟩ : '/' ≠ c ∧ '/' ∉ segment := by simpa using plain
    have copies : dotsOf out (c :: (segment ++ rest)) = .other := by
      unfold dotsOf
      split
      · rw [if_neg inside]
      · rfl
    rw [List.cons_append, strip, copies]
    simpa using ih others (by simpa using differ.symm)

theorem strip_nil {out : List Char} : strip out [] = out := by rw [strip]

theorem strip_slash {out rest : List Char} : strip out ('/' :: rest) = strip ('/' :: out) rest := by
  rw [strip]
  rfl

theorem stepBack_joined (plain : ∀ segment ∈ stack, '/' ∉ segment) :
    stepBack ('/' :: (joined stack.reverse).reverse) = '/' :: (joined stack.tail.reverse).reverse := by
  cases stack with
  | nil => rfl
  | cons segment others =>
    rw [joined_reverse_cons, List.reverse_append, List.reverse_cons, List.append_assoc, List.singleton_append, stepBack,
      if_pos (by rw [List.length_cons, List.length_append, List.length_cons]; omega), List.tail_cons,
        dropWhile_segment (plain segment (by simp)), List.tail_cons]

/-- At the start of a segment the look-ahead tells whether it is `.` or `..`. -/
theorem dotsOf_segment {out : List Char} (plain : '/' ∉ segment) : dotsOf ('/' :: out) (segment ++ joined rest) =
    if segment = ['.'] then .single else if segment = ['.', '.'] then .double else .other := by
  rcases segment with _ | ⟨a, _ | ⟨b, _ | ⟨c, others⟩⟩⟩
  · cases rest <;> simp [joined, dotsOf]
  · by_cases dot : a = '.'
    · cases rest <;> simp [joined, dotsOf, dot]
    · simp [dotsOf, dot]
  · by_cases dot : a = '.'
    · subst dot
      obtain ⟨_, differ⟩ : ¬ '/' = '.' ∧ ¬ '/' = b := by simpa using plain
      by_cases double : b = '.'
      · cases rest <;> simp [joined, dotsOf, double]
      · simp [dotsOf, double, Ne.symm differ]
    · simp [dotsOf, dot]
  · by_cases dot : a = '.'
    · subst dot
      simp only [List.mem_cons, not_or] at plain
      obtain ⟨_, differ, other, _⟩ := plain
      simp [dotsOf, Ne.symm differ, Ne.symm other]
    · simp [dotsOf, dot]

theorem strip_eq {out input : List Char} : strip out input =
    match dotsOf out input with
    | .single => strip out (input.drop 2)
    | .double => strip (stepBack out) (input.drop 3)
    | .other => match input with
      | [] => out
      | c :: rest => strip (c :: out) rest := by
  cases input with
  | nil => rw [strip]; rfl
  | cons c rest => rw [strip]; rfl

/-- A segment that is not resolved is copied with the slash before it. -/
theorem strip_segment {rest : List Char} (plain : '/' ∉ segment)
    (copies : dotsOf ('/' :: (joined stack.reverse).reverse) (segment ++ rest) = .other) :
    strip ('/' :: (joined stack.reverse).reverse)
    (segment ++ rest) = strip (joined (segment :: stack).reverse).reverse rest := by
  rw [joined_reverse_cons, List.reverse_append, List.reverse_cons, List.append_assoc, List.singleton_append]
  cases segment with
  | nil => rfl
  | cons c segment =>
    obtain ⟨differ, others⟩ : '/' ≠ c ∧ '/' ∉ segment := by simpa using plain
    rw [strip_eq, copies]
    simpa using strip_inside others (by simpa using differ.symm)

/-- The loop of the code resolves the segments too. -/
theorem strip_joined (stackPlain : ∀ segment ∈ stack, '/' ∉ segment) (plain : ∀ segment ∈ segments, '/' ∉ segment)
    (nonempty : segments ≠ []) :
    strip ('/' :: (joined stack.reverse).reverse)
    (joined segments).tail = (joined (resolve stack segments).reverse).reverse := by
  induction segments generalizing stack with
  | nil => exact absurd rfl nonempty
  | cons segment rest ih =>
    obtain ⟨first, others⟩ := List.forall_mem_cons.mp plain
    have tailPlain : ∀ segment ∈ stack.tail, '/' ∉ segment := fun segment member =>
      stackPlain segment (List.mem_of_mem_tail member)
    have nothing : ∀ stack :
        List (List Char), (joined ([] :: stack).reverse).reverse = '/' :: (joined stack.reverse).reverse :=
      fun stack => by rw [joined_reverse_cons]; simp
    rw [joined_cons, List.tail_cons, resolve]
    split_ifs with single last double last
    · rw [strip_eq, dotsOf_segment first, if_pos single, single, last, nothing]
      exact strip_nil
    · rw [strip_eq, dotsOf_segment first, if_pos single, single]
      simpa using ih stackPlain others last
    · rw [strip_eq, dotsOf_segment first, if_neg single, if_pos double, double, last, nothing]
      exact strip_nil.trans (stepBack_joined stackPlain)
    · rw [strip_eq, dotsOf_segment first, if_neg single, if_pos double, double]
      simp only [stepBack_joined stackPlain]
      simpa using ih tailPlain others last
    · rw [strip_segment first (by rw [dotsOf_segment first, if_neg single, if_neg double])]
      cases rest with
      | nil => exact strip_nil
      | cons next later =>
        rw [← ih (List.forall_mem_cons.mpr ⟨first,
          stackPlain⟩) others (by simp), joined_cons, strip_slash, List.tail_cons]

/-- What the code writes for a path is what the procedure gives. -/
theorem strip_eq_removeDotSegments (rest : List Char) :
    (strip ['/'] rest).reverse = removeDotSegments ('/' :: rest) := by
  obtain ⟨segments, nonempty, plain, joins⟩ := exists_segments rest
  have stripped := @strip_joined segments [] (by simp) plain nonempty
  have removed := @removeDotSegmentsLoop_joined segments [] (by simp) plain
  rw [← joins] at stripped removed
  rw [removeDotSegments]
  refine Eq.trans ?_ removed.symm
  rw [← List.reverse_reverse (joined _), ← stripped]
  rfl

end Agreement

section Results

/-- Some segment of the path is `.` or `..`. -/
def HasDotSegment (path : List Char) : Prop :=
  ∃ before segment after, path = before ++ '/' :: (segment ++ after) ∧ (segment = ['.'] ∨ segment = ['.', '.']) ∧
    (after = [] ∨ after.head? = some '/')

theorem Resolved.not_hasDotSegment {segments : List (List Char)} (resolved : Resolved segments) :
    ¬ HasDotSegment (joined segments) := by
  rintro ⟨before, segment, after, same, dots, ends⟩
  have dotsPlain : '/' ∉ segment := by rcases dots with rfl | rfl <;> decide
  induction segments generalizing before with
  | nil => simp [joined] at same
  | cons first rest ih =>
    obtain ⟨⟨plain, single, double⟩, others⟩ := List.forall_mem_cons.mp resolved
    rw [joined_cons] at same
    cases before with
    | nil =>
      rw [List.nil_append, List.cons.injEq] at same
      have equal : first = segment := by
        rcases ends with rfl | next
        · exact ((segment_eq_iff dotsPlain).mp (by simpa using same.2)).1
        · obtain ⟨c, more, rfl⟩ : ∃ c more, after = c :: more := by cases after <;> simp at next ⊢
          obtain rfl : c = '/' := by simpa using next
          exact ((slash_after_iff plain dotsPlain).mp ⟨more, by rw [same.2]; simp⟩).1
      rcases dots with rfl | rfl
      · exact single equal
      · exact double equal
    | cons c before =>
      rw [List.cons_append, List.cons.injEq] at same
      rcases List.append_eq_append_iff.mp same.2 with ⟨more, rfl, later⟩ | ⟨more, split, later⟩
      · exact ih others more later
      · cases more with
        | nil => exact ih others [] (by simpa using later.symm)
        | cons d more =>
          rw [List.cons_append, List.cons.injEq] at later
          exact plain (by rw [split, ← later.1]; simp)

/-- The scan finds every dot behind a slash that is not behind the end of the text. -/
theorem scanPairs_eq_true {pc : Char} {text before after : List Char}
    (found : pc :: text = before ++ '/' :: '.' :: after) (noEnd : '\x00' ∉ before) : scanPairs pc text = true := by
  induction before generalizing pc text with
  | nil =>
    obtain ⟨rfl, rfl⟩ := List.cons.inj found
    rw [scanPairs, if_neg (by decide), if_pos ⟨rfl, .inl rfl⟩]
  | cons first before ih =>
    rw [List.cons_append] at found
    obtain ⟨rfl, rfl⟩ := List.cons.inj found
    have laterEnd : '\x00' ∉ before := fun member => noEnd (by simp [member])
    obtain ⟨c, rest, more⟩ : ∃ c rest, before ++ '/' :: '.' :: after = c :: rest := by cases before <;> simp
    have notEnd : c ≠ '\x00' := by
      rintro rfl
      cases before with
      | nil => simp at more
      | cons next others => exact laterEnd (by simp_all)
    rw [more, scanPairs, if_neg notEnd]
    split
    · rfl
    · exact ih more.symm laterEnd

/-- Without a dot behind a slash no segment is resolved. -/
theorem removeDotSegments_of_scan {rest before after : List Char} (noEnd : '\x00' ∉ before ++ '/' :: rest)
    (plainCopy : hasSlashDotOrDotDot (before ++ '/' :: rest ++ after) = false) :
    removeDotSegments ('/' :: rest) = '/' :: rest := by
  obtain ⟨segments, nonempty, plain, joins⟩ := exists_segments rest
  obtain ⟨pc, text, begins⟩ : ∃ pc text, before ++ '/' :: rest = pc :: text := by cases before <;> simp
  have pcEnd : pc ≠ '\x00' := fun same => noEnd (by rw [begins, same]; simp)
  rw [begins, List.cons_append, hasSlashDotOrDotDot, if_neg pcEnd] at plainCopy
  have resolved : Resolved segments := by
    intro segment member
    have noDot : segment.head? ≠ some '.' := by
      intro dot
      obtain ⟨others, rfl⟩ : ∃ others, segment = '.' :: others := by cases segment <;> simp_all
      obtain ⟨front, back, rfl⟩ := List.append_of_mem member
      rw [joined_append, joined_cons] at joins
      have found :
          pc :: (text ++ after) = (before ++ joined front) ++ '/' :: '.' :: (others ++ joined back ++ after) := by
        rw [← List.cons_append, ← begins, joins]
        simp
      have frontEnd : '\x00' ∉ before ++ joined front := by
        rw [joins] at noEnd
        simp only [List.mem_append, not_or] at noEnd ⊢
        exact ⟨noEnd.1, noEnd.2.1⟩
      rw [scanPairs_eq_true found frontEnd] at plainCopy
      cases plainCopy
    refine ⟨plain segment member, ?_, ?_⟩ <;> rintro rfl <;> exact noDot rfl
  have removed := @removeDotSegmentsLoop_joined segments [] (by simp) plain
  rw [resolve_of_resolved resolved, List.append_nil, List.reverse_reverse, ← joins] at removed
  exact removed

theorem removeDotSegments_resolved (rest : List Char) :
    ∃ segments, Resolved segments ∧ removeDotSegments ('/' :: rest) = joined segments := by
  obtain ⟨segments, nonempty, plain, joins⟩ := exists_segments rest
  refine ⟨(resolve [] segments).reverse, ?_, ?_⟩
  · intro segment member
    exact resolved_resolve (by simp [Resolved]) plain segment (List.mem_reverse.mp member)
  · rw [joins]
    exact @removeDotSegmentsLoop_joined segments [] (by simp) plain

/-- The copy is what the procedure of the RFC gives. It stays within the length of the path, has no dot segment and is
not changed by another removal, and is the path itself where the quick test finds nothing. -/
theorem copyPathRemovingDots_spec {rest before after buffer : List Char} (terminated : after ≠ [])
    (room : rest.length + 1 < buffer.length) :
    ∃ final length, copyPathRemovingDots buffer (before ++ '/' :: rest ++ after) before.length
        (before.length + ('/' :: rest).length) = some (final, length) ∧
      final.take length = removeDotSegments ('/' :: rest) ∧ final[length]? = some '\x00' ∧
      length ≤ ('/' :: rest).length ∧ final.drop (('/' :: rest).length + 1) = buffer.drop (('/' :: rest).length + 1) ∧
      ¬ HasDotSegment (removeDotSegments ('/' :: rest)) ∧
      removeDotSegments (removeDotSegments ('/' :: rest)) = removeDotSegments ('/' :: rest) ∧
      ('\x00' ∉ before ++ '/' :: rest → hasSlashDotOrDotDot (before ++ '/' :: rest ++ after) = false →
        final.take length = '/' :: rest) := by
  obtain ⟨final, copies, front, ends, short, _, behind⟩ :=
    @copyPathRemovingDots_eq buffer rest before after terminated room
  rw [strip_eq_removeDotSegments] at front
  obtain ⟨segments, resolved, joins⟩ := removeDotSegments_resolved rest
  have removed := @removeDotSegmentsLoop_joined segments [] (by simp) fun segment member => (resolved segment member).1
  rw [resolve_of_resolved resolved, List.append_nil, List.reverse_reverse] at removed
  refine ⟨final, _, copies, front, ends, short, behind, ?_, ?_, fun noEnd plainCopy => ?_⟩
  · rw [joins]
    exact resolved.not_hasDotSegment
  · rw [joins]
    exact removed
  · rw [front, removeDotSegments_of_scan noEnd plainCopy]

/-- The example of the RFC, in a URL. -/
theorem copyPathRemovingDots_example : ∃ final length,
    copyPathRemovingDots (List.replicate 17 'x') "http:/a/b/c/./../../g?".toList 5 21 = some (final, length) ∧
      final.take length = removeDotSegments "/a/b/c/./../../g".toList := by
  obtain ⟨final, length, copies, front, _⟩ :=
    @copyPathRemovingDots_spec "a/b/c/./../../g".toList "http:".toList "?".toList
    (List.replicate 17 'x') (by decide) (by decide)
  exact ⟨final, length, copies, front⟩

end Results

end WebNode.Platform.UrlPath
