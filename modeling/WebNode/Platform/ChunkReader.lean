import Mathlib.Data.List.ReduceOption

/-!
# Reading chunks of a shared buffer

`SharedBufferChunkReader` cuts the bytes of a buffer, which lie in segments,
    at a separator. It keeps only how much of the
separator it has seen, so that a failed match is not searched again.
-/

namespace WebNode.Platform.ChunkReader

variable {α : Type} [DecidableEq α]

/-- `SharedBuffer::getSomeData`: the rest of the segment of a position. -/
def getSomeData : List (List α) → Nat → List α
  | [], _ => []
  | segment :: rest, position =>
    if position < segment.length then segment.drop position else getSomeData rest (position - segment.length)

structure Reader (α : Type) where
  bufferPosition : Nat
  segment : List α
  segmentIndex : Nat
  reachedEndOfFile : Bool
  separatorIndex : Nat
  deriving DecidableEq, Repr

namespace Reader

def init : Reader α := ⟨0, [], 0, false, 0⟩

/-- What the loop over a segment ends with: the end of a chunk and the rest of the segment, or the end of the
segment. -/
inductive Scanned (α : Type) where
  | found (chunk rest : List α)
  | exhausted (chunk : List α) (separatorIndex : Nat)

section Code

variable (separator : List α) (includeSeparator : Bool)

/-- The loop over the characters of a segment. -/
def scan : List α → Nat → List α → Scanned α
  | [], separatorIndex, chunk => .exhausted chunk separatorIndex
  | currentCharacter :: rest, separatorIndex, chunk =>
    if separator[separatorIndex]? ≠ some currentCharacter then
      scan rest 0 (chunk ++ separator.take separatorIndex ++ [currentCharacter])
    else if separatorIndex + 1 = separator.length then
      .found (chunk ++ if includeSeparator then separator else []) rest
    else scan rest (separatorIndex + 1) chunk

variable (segments : List (List α))

/-- The loop over the segments; a round that goes on has read a segment. -/
def readChunk : Nat → List α → Reader α → Option (List α) × Reader α
  | 0, _, reader => (none, reader)
  | fuel + 1, chunk, reader =>
    match scan separator includeSeparator (reader.segment.drop reader.segmentIndex) reader.separatorIndex chunk with
    | .found chunk rest =>
      (some chunk, { reader with segmentIndex := reader.segment.length - rest.length, separatorIndex := 0 })
    | .exhausted chunk separatorIndex =>
      let bufferPosition := reader.bufferPosition + reader.segment.length
      match getSomeData segments bufferPosition with
      | [] =>
        let chunk := chunk ++ separator.take separatorIndex
        (if chunk.isEmpty then none else some chunk, ⟨bufferPosition, [], 0, true, separatorIndex⟩)
      | segment => readChunk fuel chunk ⟨bufferPosition, segment, 0, false, separatorIndex⟩

/-- `nextChunk`: a chunk, or `none` where it returns false. -/
def nextChunk (reader : Reader α) : Option (List α) × Reader α :=
  if reader.reachedEndOfFile then (none, reader)
  else readChunk separator includeSeparator segments (segments.flatten.length + 2) [] reader

/-- The loop of `peek` over the segments behind the current one. -/
def peekSegments : Nat → Nat → Nat → List α
  | 0, _, _ => []
  | fuel + 1, bufferPosition, requestedSize =>
    match getSomeData segments bufferPosition with
    | [] => []
    | segment =>
      if requestedSize ≤ segment.length then segment.take requestedSize
      else segment ++ peekSegments fuel (bufferPosition + segment.length) (requestedSize - segment.length)

def peek (requestedSize : Nat) (reader : Reader α) : List α :=
  let here := reader.segment.drop reader.segmentIndex
  if requestedSize ≤ here.length then here.take requestedSize
  else here ++ peekSegments segments (segments.flatten.length + 1) (reader.bufferPosition + reader.segment.length)
    (requestedSize - here.length)

end Code

end Reader

/-- A call, with its result. -/
inductive Operation where
  | nextChunk (includeSeparator : Bool)
  | peek (requestedSize : Nat)
  deriving DecidableEq, Repr

def run (separator : List α) (segments : List (List α)) : List Operation → Reader α → List (Option (List α))
  | [], _ => []
  | .nextChunk includeSeparator :: rest, reader =>
    let (chunk, reader) := reader.nextChunk separator includeSeparator segments
    chunk :: run separator segments rest reader
  | .peek requestedSize :: rest, reader =>
    some (reader.peek segments requestedSize) :: run separator segments rest reader

/-! ### The purpose -/

/-- What stands before and behind the leftmost occurrence of the separator. -/
def cut (separator : List α) : List α → Option (List α × List α)
  | [] => if separator = [] then some ([], []) else none
  | x :: rest =>
    if separator.isPrefixOf (x :: rest) then some ([], (x :: rest).drop separator.length)
    else (cut separator rest).map fun (before, behind) => (x :: before, behind)

/-- The next piece of what is left; the last one ends with the string, and is not empty. -/
def nextPiece (separator : List α) (includeSeparator : Bool) (remaining : List α) : Option (List α) × List α :=
  match cut separator remaining with
  | some (before, behind) => (some (before ++ if includeSeparator then separator else []), behind)
  | none => (if remaining.isEmpty then none else some remaining, [])

def pieces (separator : List α) : List Operation → List α → List (Option (List α))
  | [], _ => []
  | .nextChunk includeSeparator :: rest, remaining =>
    (nextPiece separator includeSeparator remaining).1 ::
      pieces separator rest (nextPiece separator includeSeparator remaining).2
  | .peek requestedSize :: rest, remaining => some (remaining.take requestedSize) :: pieces separator rest remaining

/-- The property: the calls return what cutting the string gives, whatever its segments are; the chunks that keep their
separators make up the string, and the reader comes to an end. -/
structure Splits (separator : List α) : Prop where
  cuts : ∀ segments operations,
    run separator segments operations Reader.init = pieces separator operations segments.flatten
  whole : ∀ segments : List (List α), (run separator segments
    (List.replicate (segments.flatten.length + 1) (.nextChunk true)) Reader.init).reduceOption.flatten =
      segments.flatten
  ends : ∀ (segments : List (List α)) (includes : List Bool), segments.flatten.length < includes.length →
    none ∈ run separator segments (includes.map .nextChunk) Reader.init

/-! ### Segments -/

section Segments

omit [DecidableEq α]

theorem getSomeData_spec (segments : List (List α)) (position : Nat) :
    segments.flatten.drop position =
        getSomeData segments position ++ segments.flatten.drop (position + (getSomeData segments position).length) ∧
      (getSomeData segments position = [] → segments.flatten.length ≤ position) := by
  induction segments generalizing position with
  | nil => simp [getSomeData]
  | cons segment rest ih =>
    rw [getSomeData]
    split
    · next inside =>
      have reached : position + (segment.drop position).length = segment.length := by
        rw [List.length_drop]
        omega
      rw [reached, List.flatten_cons, List.drop_append_of_le_length (Nat.le_of_lt inside), List.drop_left]
      refine ⟨rfl, fun empty => ?_⟩
      rw [List.drop_eq_nil_iff] at empty
      omega
    · next beyond =>
      obtain ⟨more, rfl⟩ : ∃ more, position = segment.length + more := ⟨position - segment.length, by omega⟩
      obtain ⟨split, ends⟩ := ih more
      rw [Nat.add_sub_cancel_left, List.flatten_cons, Nat.add_assoc, List.drop_length_add_append,
        List.drop_length_add_append, List.length_append]
      exact ⟨split, fun empty => Nat.add_le_add_left (ends empty) _⟩

theorem drop_of_getSomeData_nil {segments : List (List α)} {position : Nat}
    (empty : getSomeData segments position = []) :
    segments.flatten.drop position = [] :=
  List.drop_eq_nil_of_le ((getSomeData_spec segments position).2 empty)

end Segments

/-! ### The loops -/

namespace Reader

variable {separator : List α} {includeSeparator : Bool}

/-- A match goes on over the end of a segment. -/
theorem scan_append (first second : List α) (separatorIndex : Nat) (chunk : List α) :
    scan separator includeSeparator (first ++ second) separatorIndex chunk =
      match scan separator includeSeparator first separatorIndex chunk with
      | .found chunk rest => .found chunk (rest ++ second)
      | .exhausted chunk separatorIndex => scan separator includeSeparator second separatorIndex chunk := by
  induction first generalizing separatorIndex chunk with
  | nil => rfl
  | cons currentCharacter rest ih =>
    simp only [List.cons_append, scan]
    split
    · exact ih ..
    · split
      · rfl
      · exact ih ..

theorem scan_found_suffix {data chunk found rest : List α} {separatorIndex : Nat}
    (scanned : scan separator includeSeparator data separatorIndex chunk = .found found rest) : rest <:+ data := by
  induction data generalizing separatorIndex chunk with
  | nil => cases scanned
  | cons currentCharacter data ih =>
    rw [scan] at scanned
    split at scanned
    · exact (ih scanned).trans (List.suffix_cons ..)
    · split at scanned
      · injection scanned with _ rest_eq
        exact rest_eq ▸ List.suffix_cons ..
      · exact (ih scanned).trans (List.suffix_cons ..)

/-- What the reader has not consumed, the matched part of the separator aside. -/
def unread (segments : List (List α)) (reader : Reader α) : List α :=
  reader.segment.drop reader.segmentIndex ++ segments.flatten.drop (reader.bufferPosition + reader.segment.length)

/-- How the reader stands between two calls. -/
structure Between (segments : List (List α)) (reader : Reader α) (remaining : List α) : Prop where
  unread_eq : reader.unread segments = remaining
  ended : reader.reachedEndOfFile = true → remaining = []
  unmatched : reader.reachedEndOfFile = false → reader.separatorIndex = 0

omit [DecidableEq α] in
theorem between_init (segments : List (List α)) : Between segments init segments.flatten :=
  ⟨by simp [unread, init], by simp [init], fun _ => rfl⟩

/-- The loop over the segments does what one scan of all that is left does. -/
theorem readChunk_eq (segments : List (List α)) {fuel : Nat} {chunk : List α} {reader : Reader α}
    (open_ : reader.reachedEndOfFile = false)
    (enough : (segments.flatten.drop (reader.bufferPosition + reader.segment.length)).length < fuel) :
    match scan separator includeSeparator (reader.unread segments) reader.separatorIndex chunk with
    | .found found rest => ∃ after, readChunk separator includeSeparator segments fuel chunk reader =
        (some found, after) ∧ Between segments after rest
    | .exhausted found separatorIndex => ∃ after,
        readChunk separator includeSeparator segments fuel chunk reader =
          (if (found ++ separator.take separatorIndex).isEmpty then none else some (found ++
            separator.take separatorIndex), after) ∧ Between segments after [] := by
  induction fuel generalizing chunk reader with
  | zero => exact absurd enough (Nat.not_lt_zero _)
  | succ fuel ih =>
    rw [unread, scan_append, readChunk]
    cases scanned :
      scan separator includeSeparator (reader.segment.drop reader.segmentIndex) reader.separatorIndex chunk with
    | found found rest =>
      obtain ⟨before, consumed⟩ := (scan_found_suffix scanned).trans (List.drop_suffix _ _)
      refine ⟨_, rfl, ?_, fun ended => absurd (open_.symm.trans ended) Bool.false_ne_true, fun _ => rfl⟩
      simp only [unread]
      congr 1
      rw [← consumed, List.length_append, Nat.add_sub_cancel, List.drop_left]
    | exhausted found separatorIndex =>
      obtain ⟨split, _⟩ := getSomeData_spec segments (reader.bufferPosition + reader.segment.length)
      dsimp only
      cases data : getSomeData segments (reader.bufferPosition + reader.segment.length) with
      | nil =>
        have nothing := drop_of_getSomeData_nil data
        rw [nothing, scan]
        exact ⟨_, rfl, by simpa [unread] using nothing, fun _ => rfl, fun ended => Bool.noConfusion ended⟩
      | cons first more =>
        -- The next round starts with a segment of its own: what is left behind it is shorter.
        rw [data] at split
        have shorter := congrArg List.length split
        rw [List.length_append, List.length_cons] at shorter
        rw [split]
        refine @ih found ⟨_, first :: more, 0, false, separatorIndex⟩ rfl ?_
        simp only [List.length_cons] at enough shorter ⊢
        omega

omit [DecidableEq α] in
theorem peekSegments_eq (segments : List (List α)) {fuel bufferPosition requestedSize : Nat}
    (enough : (segments.flatten.drop bufferPosition).length < fuel) :
    peekSegments segments fuel bufferPosition requestedSize =
      (segments.flatten.drop bufferPosition).take requestedSize := by
  induction fuel generalizing bufferPosition requestedSize with
  | zero => exact absurd enough (Nat.not_lt_zero _)
  | succ fuel ih =>
    rw [peekSegments]
    obtain ⟨split, _⟩ := getSomeData_spec segments bufferPosition
    cases data : getSomeData segments bufferPosition with
    | nil => rw [drop_of_getSomeData_nil data, List.take_nil]
    | cons first more =>
      rw [data] at split
      have shorter := congrArg List.length split
      rw [List.length_append] at shorter
      dsimp only
      rw [split]
      split
      · next fits => rw [List.take_append_of_le_length fits]
      · next longer =>
        rw [ih (by simp only [List.length_cons] at shorter ⊢; omega), List.take_append,
          List.take_of_length_le (Nat.le_of_not_le longer)]

omit [DecidableEq α] in
theorem peek_eq {segments : List (List α)} {reader : Reader α} {remaining : List α}
    (between : Between segments reader remaining) (requestedSize : Nat) :
    reader.peek segments requestedSize = remaining.take requestedSize := by
  rw [← between.unread_eq, unread, peek]
  split
  · next fits => rw [List.take_append_of_le_length fits]
  · next longer =>
    rw [peekSegments_eq segments (by rw [List.length_drop]; omega), List.take_append,
      List.take_of_length_le (Nat.le_of_not_le longer)]

/-- A call returns what one scan of the remaining bytes gives. -/
theorem nextChunk_eq {segments : List (List α)} {reader : Reader α} {remaining : List α}
    (between : Between segments reader remaining) :
    match scan separator includeSeparator remaining 0 [] with
    | .found found rest => ∃ after, reader.nextChunk separator includeSeparator segments = (some found, after) ∧
        Between segments after rest
    | .exhausted found separatorIndex => ∃ after, reader.nextChunk separator includeSeparator segments =
          (if (found ++ separator.take separatorIndex).isEmpty then none else some (found ++
            separator.take separatorIndex), after) ∧ Between segments after [] := by
  rw [nextChunk]
  cases ended : reader.reachedEndOfFile with
  | true =>
    have nothing := between.ended ended
    subst nothing
    exact ⟨reader, by simp, between⟩
  | false =>
    have started := between.unmatched ended
    have read := @readChunk_eq _ _ separator includeSeparator segments (segments.flatten.length + 2) [] reader ended
      (by rw [List.length_drop]; omega)
    rwa [between.unread_eq, started] at read

end Reader

/-! ### Strings without lost occurrences -/

theorem cut_eq_some {separator text before behind : List α} (found : cut separator text = some (before, behind)) :
    before ++ separator ++ behind = text := by
  induction text generalizing before with
  | nil =>
    rw [cut] at found
    split at found <;> simp_all
  | cons x rest ih =>
    rw [cut] at found
    split at found
    · next here =>
      obtain ⟨tail, whole⟩ := List.isPrefixOf_iff_prefix.1 here
      rw [← whole, List.drop_left] at found
      cases found
      exact whole
    · obtain ⟨⟨inner, _⟩, foundRest, same⟩ := Option.map_eq_some_iff.1 found
      cases same
      exact congrArg (x :: ·) (ih foundRest)

theorem cut_of_isPrefixOf {separator text : List α} (nonempty : separator ≠ []) (here : separator.isPrefixOf text) :
    cut separator text = some ([], text.drop separator.length) := by
  cases text with
  | nil => exact absurd (List.isPrefixOf_iff_prefix.1 here) (by simpa using nonempty)
  | cons x rest => rw [cut, if_pos here]

theorem cut_of_short {separator text : List α} (short : text.length < separator.length) :
    cut separator text = none := by
  refine Option.eq_none_iff_forall_ne_some.mpr fun parts found => ?_
  have whole := congrArg List.length (cut_eq_some found)
  simp only [List.length_append] at whole
  omega

/-- A front in which no occurrence starts belongs to the first piece. -/
theorem cut_append {separator front : List α} (back : List α)
    (none : ∀ offset < front.length, ¬ separator <+: (front ++ back).drop offset) :
    cut separator (front ++ back) = (cut separator back).map fun (before, behind) => (front ++ before, behind) := by
  induction front with
  | nil => simp
  | cons x front ih =>
    have notHere : ¬ separator.isPrefixOf (x :: (front ++ back)) = true := by
      rw [List.isPrefixOf_iff_prefix]
      exact none 0 (Nat.zero_lt_succ _)
    rw [List.cons_append, cut, if_neg notHere, ih fun offset less => none (offset + 1) (Nat.succ_lt_succ less),
      Option.map_map]
    rfl

/-- Wherever a match fails, no occurrence starts behind its first byte, up to the byte at which it fails. For `\r\n`
this means that nowhere stands `\r\r\n`. -/
def Recovers (separator text : List α) : Prop :=
  ∀ before matched x rest, text = before ++ (separator.take matched ++ x :: rest) → matched < separator.length →
    separator[matched]? ≠ some x →
    ∀ offset, 0 < offset → offset ≤ matched → ¬ separator <+: (separator.take matched ++ x :: rest).drop offset

omit [DecidableEq α] in
theorem Recovers.of_suffix {separator text rest : List α} (recovers : Recovers separator text)
    (suffix : rest <:+ text) :
    Recovers separator rest := by
  obtain ⟨front, rfl⟩ := suffix
  intro before matched x behind shape
  exact recovers (front ++ before) matched x behind (by rw [shape, List.append_assoc])

/-- The index into the separator is then all a restart has to know. -/
theorem scan_of_recovers {separator : List α} (includeSeparator : Bool) (data chunk : List α) {matched : Nat}
    (isShort : matched < separator.length) (recovers : Recovers separator (separator.take matched ++ data)) :
    match cut separator (separator.take matched ++ data) with
    | some (before, behind) => Reader.scan separator includeSeparator data matched chunk =
        .found (chunk ++ before ++ if includeSeparator then separator else []) behind
    | none => ∃ found separatorIndex,
        Reader.scan separator includeSeparator data matched chunk = .exhausted found separatorIndex ∧
          found ++ separator.take separatorIndex = chunk ++ (separator.take matched ++ data) := by
  induction data generalizing chunk matched with
  | nil =>
    rw [List.append_nil, cut_of_short (by rw [List.length_take]; omega)]
    exact ⟨chunk, matched, rfl, rfl⟩
  | cons x rest ih =>
    rw [Reader.scan]
    by_cases same : separator[matched]? = some x
    · have moved : separator.take matched ++ x :: rest = separator.take (matched + 1) ++ rest := by
        rw [List.take_add_one, same, List.append_assoc]
        rfl
      rw [if_neg (not_not_intro same), moved]
      by_cases complete : matched + 1 = separator.length
      · have nonempty : separator ≠ [] := List.ne_nil_of_length_pos (by omega)
        rw [complete, List.take_length,
          cut_of_isPrefixOf nonempty (List.isPrefixOf_iff_prefix.2 (List.prefix_append ..)), List.drop_left]
        simp
      · rw [if_neg complete]
        exact ih chunk (by omega) (moved ▸ recovers)
    · have front : separator.take matched ++ x :: rest = separator.take matched ++ [x] ++ rest := by simp
      have later : Recovers separator rest := recovers.of_suffix ⟨separator.take matched ++ [x], front.symm⟩
      have nowhere : ∀ offset < (separator.take matched ++ [x]).length,
          ¬ separator <+: (separator.take matched ++ [x] ++ rest).drop offset := by
        intro offset less
        rw [List.length_append, List.length_take_of_le (Nat.le_of_lt isShort), List.length_singleton] at less
        rw [← front]
        rcases Nat.eq_zero_or_pos offset with rfl | positive
        · rintro ⟨behind, whole⟩
          have there := congrArg (·[matched]?) whole
          rw [List.getElem?_append_left isShort, List.drop_zero,
            List.getElem?_append_right (List.length_take_le ..)] at there
          exact same (by simpa [Nat.le_of_lt isShort] using there)
        · exact recovers [] matched x rest rfl isShort same offset positive (by omega)
      have restart := ih (chunk ++ separator.take matched ++ [x]) (Nat.zero_lt_of_lt isShort) (by simpa using later)
      rw [if_pos same, front, cut_append rest nowhere]
      rw [List.take_zero, List.nil_append] at restart
      cases found : cut separator rest with
      | some parts => simpa [found] using restart
      | none => simpa [found] using restart

theorem nextPiece_suffix (separator remaining : List α) (includeSeparator : Bool) :
    (nextPiece separator includeSeparator remaining).2 <:+ remaining := by
  rw [nextPiece]
  cases found : cut separator remaining with
  | some parts => exact cut_eq_some found ▸ List.suffix_append ..
  | none => exact List.nil_suffix

theorem nextChunk_of_recovers {separator : List α} (nonempty : separator ≠ []) (includeSeparator : Bool)
    {segments : List (List α)} {reader : Reader α} {remaining : List α} (between : reader.Between segments remaining)
    (recovers : Recovers separator remaining) :
    ∃ after, reader.nextChunk separator includeSeparator segments =
        ((nextPiece separator includeSeparator remaining).1, after) ∧
      after.Between segments (nextPiece separator includeSeparator remaining).2 := by
  have called := @Reader.nextChunk_eq _ _ separator includeSeparator _ _ _ between
  have scanned :=
    scan_of_recovers includeSeparator remaining [] (List.length_pos_of_ne_nil nonempty) (by simpa using recovers)
  rw [List.take_zero, List.nil_append] at scanned
  rw [nextPiece]
  cases parts : cut separator remaining with
  | some parts =>
    rw [parts] at scanned
    rwa [scanned] at called
  | none =>
    rw [parts] at scanned
    obtain ⟨found, separatorIndex, exhausted, whole⟩ := scanned
    rw [exhausted] at called
    simpa only [whole, List.nil_append] using called

/-- The calls return the pieces of such a string, for every separator and every segmentation. -/
theorem run_of_recovers {separator : List α} (nonempty : separator ≠ []) {segments : List (List α)}
    (operations : List Operation) {reader : Reader α} {remaining : List α} (between : reader.Between segments remaining)
    (recovers : Recovers separator remaining) :
    run separator segments operations reader = pieces separator operations remaining := by
  induction operations generalizing reader remaining with
  | nil => rfl
  | cons operation rest ih =>
    cases operation with
    | nextChunk includeSeparator =>
      obtain ⟨after, called, related⟩ := nextChunk_of_recovers nonempty includeSeparator between recovers
      rw [run, called, pieces]
      exact congrArg _ (ih related (recovers.of_suffix (nextPiece_suffix ..)))
    | peek requestedSize =>
      rw [run, pieces, Reader.peek_eq between, ih between recovers]

omit [DecidableEq α] in
/-- A run of one byte that is too short, and stops at another byte, holds no part of a longer run. -/
theorem recovers_replicate (size : Nat) (a : α) (text : List α) : Recovers (List.replicate size a) text := by
  rintro before matched x rest - isShort differs offset positive inside ⟨behind, whole⟩
  rw [List.length_replicate] at isShort
  rw [List.getElem?_replicate_of_lt isShort] at differs
  have there := congrArg (·[matched - offset]?) whole
  rw [List.getElem?_append_left (by rw [List.length_replicate]; omega), List.getElem?_replicate_of_lt (by omega),
    List.getElem?_drop, Nat.add_sub_cancel' inside, List.take_replicate, Nat.min_eq_left (Nat.le_of_lt isShort),
    List.getElem?_append_right (by simp)] at there
  exact differs (by simpa using there)

/-! ### The pieces of a string -/

/-- A piece is missing only at the end of the string, and takes some of it otherwise. -/
theorem nextPiece_spec {separator : List α} (nonempty : separator ≠ []) (remaining : List α) (includeSeparator : Bool) :
    ((nextPiece separator includeSeparator remaining).1 = none ∧ remaining = []) ∨
      (nextPiece separator includeSeparator remaining).2.length < remaining.length := by
  rw [nextPiece]
  cases found : cut separator remaining with
  | some parts =>
    right
    have whole := congrArg List.length (cut_eq_some found)
    have := List.length_pos_of_ne_nil nonempty
    simp only [List.length_append] at whole
    dsimp only
    omega
  | none =>
    cases remaining with
    | nil => exact .inl ⟨rfl, rfl⟩
    | cons x rest => exact .inr (Nat.zero_lt_succ _)

theorem nextPiece_include (separator remaining : List α) :
    (nextPiece separator true remaining).1.toList.flatten ++ (nextPiece separator true remaining).2 = remaining := by
  rw [nextPiece]
  cases found : cut separator remaining with
  | some parts => simpa using cut_eq_some found
  | none => cases remaining <;> simp

theorem pieces_include {separator : List α} (nonempty : separator ≠ []) (calls : Nat) {remaining : List α}
    (enough : remaining.length ≤ calls) :
    (pieces separator (List.replicate calls (.nextChunk true)) remaining).reduceOption.flatten = remaining := by
  induction calls generalizing remaining with
  | zero => simpa [pieces] using (List.length_eq_zero_iff.1 (Nat.le_zero.1 enough)).symm
  | succ calls ih =>
    have shorter : (nextPiece separator true remaining).2.length ≤ calls := by
      rcases nextPiece_spec nonempty remaining true with ⟨_, nothing⟩ | less
      · have whole := congrArg List.length (nextPiece_include separator remaining)
        simp only [nothing, List.length_append, List.length_nil] at whole ⊢
        omega
      · omega
    rw [List.replicate_succ, pieces]
    have rest := ih shorter
    have whole := nextPiece_include separator remaining
    cases piece : (nextPiece separator true remaining).1 with
    | none => simpa [piece, rest] using whole
    | some chunk => simpa [piece, rest] using whole

theorem none_mem_pieces {separator : List α} (nonempty : separator ≠ []) (includes : List Bool) {remaining : List α}
    (enough : remaining.length < includes.length) :
    none ∈ pieces separator (includes.map .nextChunk) remaining := by
  induction includes generalizing remaining with
  | nil => exact absurd enough (Nat.not_lt_zero _)
  | cons includeSeparator rest ih =>
    rw [List.map_cons, pieces]
    rcases nextPiece_spec nonempty remaining includeSeparator with ⟨missing, _⟩ | less
    · exact missing ▸ List.mem_cons_self
    · exact List.mem_cons_of_mem _ (ih (by rw [List.length_cons] at enough; omega))

omit [DecidableEq α] in
theorem replicate_ne_nil {size : Nat} (a : α) (positive : 0 < size) : List.replicate size a ≠ [] :=
  List.ne_nil_of_length_pos (by rwa [List.length_replicate])

theorem splits_replicate {size : Nat} (a : α) (positive : 0 < size) : Splits (List.replicate size a) where
  cuts segments operations :=
    run_of_recovers (replicate_ne_nil a positive) operations (Reader.between_init segments) (recovers_replicate _ _ _)
  whole segments := by
    rw [run_of_recovers (replicate_ne_nil a positive) _ (Reader.between_init segments) (recovers_replicate _ _ _)]
    exact pieces_include (replicate_ne_nil a positive) _ (Nat.le_succ _)
  ends segments includes enough := by
    rw [run_of_recovers (replicate_ne_nil a positive) _ (Reader.between_init segments) (recovers_replicate _ _ _)]
    exact none_mem_pieces (replicate_ne_nil a positive) includes enough

/-! ### Other separators -/

/-- Too few characters for the rest of the separator are kept. -/
theorem scan_short {separator : List α} (includeSeparator : Bool) (data chunk : List α) {matched : Nat}
    (short : matched + data.length < separator.length) :
    ∃ found separatorIndex, Reader.scan separator includeSeparator data matched chunk =
      .exhausted found separatorIndex ∧ chunk <+: found := by
  induction data generalizing chunk matched with
  | nil => exact ⟨chunk, matched, rfl, List.prefix_rfl⟩
  | cons x rest ih =>
    rw [List.length_cons] at short
    rw [Reader.scan]
    split
    · obtain ⟨found, index, scanned, kept⟩ := @ih (chunk ++ separator.take matched ++ [x]) 0 (by omega)
      rw [List.append_assoc] at kept
      exact ⟨found, index, by rwa [List.append_assoc] at scanned ⊢, (List.prefix_append ..).trans kept⟩
    · rw [if_neg (by omega)]
      exact ih chunk (by omega)

theorem scan_run {separator : List α} {a : α} {run : Nat} (starts : List.replicate run a <+: separator)
    (longer : run < separator.length) (includeSeparator : Bool) (data chunk : List α) (matched : Nat) {left : Nat}
    (total : matched + left = run) :
    Reader.scan separator includeSeparator (List.replicate left a ++ data) matched chunk =
      Reader.scan separator includeSeparator data run chunk := by
  induction left generalizing matched with
  | zero => rw [← total]; rfl
  | succ left ih =>
    have there : separator[matched]? = some a := by
      obtain ⟨tail, whole⟩ := starts
      rw [← whole, List.getElem?_append_left (by rw [List.length_replicate]; omega),
        List.getElem?_replicate_of_lt (by omega)]
    rw [List.replicate_succ, List.cons_append, Reader.scan, there, if_neg (not_not_intro rfl), if_neg (by omega)]
    exact ih (matched + 1) (by omega)

/-- The separator's first byte before the separator: the run of that byte is one too long, and the match that is given
up takes the first byte of the occurrence with it. -/
theorem not_splits {a b : α} (differs : a ≠ b) {run : Nat} (positive : 0 < run) (tail : List α) :
    ¬ Splits (List.replicate run a ++ b :: tail) := by
  intro splits
  have claimed := splits.cuts [a :: (List.replicate run a ++ b :: tail)] [.nextChunk false]
  generalize known : List.replicate run a ++ b :: tail = separator at claimed
  have starts : List.replicate run a <+: separator := known ▸ List.prefix_append ..
  have size : separator.length = run + (tail.length + 1) := by simp [← known]
  have after : separator[run]? = some b := by simp [← known]
  have first : separator[0]? = some a := by
    rw [← known, List.getElem?_append_left (by simpa using positive), List.getElem?_replicate_of_lt positive]
  -- The abstract side cuts after the one byte in front.
  have missing : ¬ separator.isPrefixOf (a :: separator) = true := by
    rw [List.isPrefixOf_iff_prefix]
    intro ⟨behind, whole⟩
    have there := congrArg (·[run]?) whole
    obtain ⟨before, rfl⟩ : ∃ before, run = before + 1 := ⟨run - 1, by omega⟩
    rw [List.getElem?_append_left (by omega), after, List.getElem?_cons_succ, ← known,
      List.getElem?_append_left (by simp), List.getElem?_replicate_of_lt (Nat.lt_succ_self _)] at there
    exact differs (Option.some.inj there).symm
  have nonempty : separator ≠ [] := List.ne_nil_of_length_pos (by omega)
  have expected : (nextPiece separator false (a :: separator)).1 = some [a] := by
    rw [nextPiece, cut, if_neg missing, cut_of_isPrefixOf nonempty (List.isPrefixOf_iff_prefix.2 List.prefix_rfl)]
    rfl
  -- The reader gives up the run at its last byte, and then `b` does not start the separator.
  have shape : a :: separator = List.replicate run a ++ a :: b :: tail := by
    rw [← known, ← List.cons_append, ← List.replicate_succ, List.replicate_succ', List.append_assoc,
      List.singleton_append]
  obtain ⟨found, index, scanned, kept⟩ := @scan_short _ _ separator false tail
    (separator.take run ++ [a] ++ [b]) 0 (by omega)
  have read : Reader.scan separator false (a :: separator) 0 [] = .exhausted found index := by
    rw [shape, scan_run starts (by omega) false _ [] 0 (Nat.zero_add run), Reader.scan, after,
      if_pos (by simpa using differs.symm), Reader.scan, first, if_pos (by simpa using differs)]
    simpa using scanned
  have called := @Reader.nextChunk_eq _ _ separator false _ _ _ (Reader.between_init [a :: separator])
  rw [List.flatten_singleton, read] at called
  obtain ⟨_, returned, _⟩ := called
  rw [ChunkReader.run, returned, List.flatten_singleton, pieces, expected] at claimed
  have longer := kept.length_le
  simp only [List.cons.injEq] at claimed
  split at claimed
  · exact absurd claimed.1 (by simp)
  · have same := congrArg List.length (Option.some.inj claimed.1)
    simp only [List.length_append, List.length_singleton, List.length_take] at same longer
    omega

/-- All bytes of the separator are the same. -/
def Uniform (separator : List α) : Prop :=
  ∀ x ∈ separator, ∀ y ∈ separator, x = y

instance (separator : List α) : Decidable (Uniform separator) :=
  inferInstanceAs (Decidable (∀ x ∈ separator, ∀ y ∈ separator, x = y))

/-- A list starts with a run of its first byte, and the run ends where another byte stands. -/
theorem uniform_or_run (a : α) (rest : List α) :
    a :: rest = List.replicate (rest.length + 1) a ∨
      ∃ run b tail, a ≠ b ∧ a :: rest = List.replicate (run + 1) a ++ b :: tail := by
  induction rest with
  | nil => exact .inl rfl
  | cons x rest ih =>
    by_cases same : a = x
    · subst same
      rcases ih with all | ⟨run, b, tail, differs, shape⟩
      · exact .inl (congrArg (a :: ·) all)
      · exact .inr ⟨run + 1, b, tail, differs, congrArg (a :: ·) shape⟩
    · exact .inr ⟨0, x, rest, same, rfl⟩

/-- The reader splits every string, in every segmentation, at the leftmost occurrences of the separator exactly when the
separator repeats one byte. -/
theorem splits_iff_uniform (separator : List α) (nonempty : separator ≠ []) : Splits separator ↔ Uniform separator := by
  obtain ⟨a, rest, rfl⟩ := List.exists_cons_of_ne_nil nonempty
  rcases uniform_or_run a rest with all | ⟨run, b, tail, differs, shape⟩
  · rw [all]
    refine iff_of_true (splits_replicate a (Nat.succ_pos _)) fun x xIn y yIn => ?_
    rw [List.eq_of_mem_replicate xIn, List.eq_of_mem_replicate yIn]
  · rw [shape]
    refine iff_of_false (not_splits differs (Nat.succ_pos _) tail) fun uniform => differs ?_
    exact uniform a (by simp [List.replicate_succ]) b (by simp)

/-- Segments that end inside a separator. -/
theorem splits_dashes :
    run "--".toList ["a-".toList, "-b-".toList, "c".toList]
    [.nextChunk false, .peek 2, .nextChunk true, .nextChunk true]
        Reader.init = [some "a".toList, some "b-".toList, some "b-c".toList, none] ∧ Splits "--".toList :=
  ⟨by decide, (splits_iff_uniform _ (by decide)).2 (by decide)⟩

/-- Cutting `\r\r\n` at `\r\n` leaves `\r`; the reader returns all of it. -/
theorem lineEnd_lost :
    run "\r\n".toList ["\r\r\n".toList] [.nextChunk false] Reader.init = [some "\r\r\n".toList] ∧
      pieces "\r\n".toList [.nextChunk false] "\r\r\n".toList = [some "\r".toList] ∧ ¬ Splits "\r\n".toList :=
  ⟨by decide, by decide, fun splits => absurd (splits.cuts ["\r\r\n".toList] [.nextChunk false]) (by decide)⟩

end WebNode.Platform.ChunkReader
