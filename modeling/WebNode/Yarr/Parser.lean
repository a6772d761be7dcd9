import Mathlib.Data.Nat.Init
import Mathlib.Algebra.Order.Ring.Int

/-!
# The parser of regular expressions

`YarrParser.h`. The parser asks its delegate for nothing, so that parsing is the list of calls it makes and the error it
ends with. A position in the pattern is the list of the code units from there on.
-/

namespace WebNode.Yarr

/-- `UINT_MAX`. -/
def quantifyInfinite : Nat := 2 ^ 32 - 1

inductive BuiltInCharacterClassID where
  | digitClassID
  | spaceClassID
  | wordClassID
  | newlineClassID
  deriving DecidableEq, Repr

namespace Parser

inductive ErrorCode where
  | patternTooLarge
  | quantifierOutOfOrder
  | quantifierWithoutAtom
  | quantifierTooLarge
  | missingParentheses
  | parenthesesUnmatched
  | parenthesesTypeInvalid
  | characterClassUnmatched
  | characterClassOutOfOrder
  | escapeUnterminated
  deriving DecidableEq, Repr

inductive DelegateCall where
  | assertionBOL
  | assertionEOL
  | assertionWordBoundary (invert : Bool)
  | atomPatternCharacter (ch : Nat)
  | atomBuiltInCharacterClass (classID : BuiltInCharacterClassID) (invert : Bool)
  | atomCharacterClassBegin (invert : Bool)
  | atomCharacterClassAtom (ch : Nat)
  | atomCharacterClassRange (lo hi : Nat)
  | atomCharacterClassBuiltIn (classID : BuiltInCharacterClassID) (invert : Bool)
  | atomCharacterClassEnd
  | atomParenthesesSubpatternBegin (capture : Bool)
  | atomParentheticalAssertionBegin (invert : Bool)
  | atomParenthesesEnd
  | atomBackReference (subpatternId : Nat)
  | quantifyAtom (min max : Nat) (greedy : Bool)
  | disjunction
  | releaseAssertNotReached
  deriving DecidableEq, Repr

section Characters

def code (character : Char) : Nat := character.toNat

def isASCIIDigit (c : Nat) : Bool := code '0' ≤ c && c ≤ code '9'

def isASCIIOctalDigit (c : Nat) : Bool := code '0' ≤ c && c ≤ code '7'

def isASCIIUpper (c : Nat) : Bool := code 'A' ≤ c && c ≤ code 'Z'

def isASCIILower (c : Nat) : Bool := code 'a' ≤ c && c ≤ code 'z'

def isASCIIAlpha (c : Nat) : Bool := isASCIIUpper c || isASCIILower c

/-- The value of a hexadecimal digit. -/
def hexValue (c : Nat) : Option Nat :=
  if isASCIIDigit c then some (c - code '0')
  else if code 'A' ≤ c ∧ c ≤ code 'F' then some (c - code 'A' + 10)
  else if code 'a' ≤ c ∧ c ≤ code 'f' then some (c - code 'a' + 10)
  else none

/-- The loop of `consumeNumber`, which stops where the value would become smaller. -/
def consumeDigits (n : Nat) : List Nat → Nat × List Nat
  | [] => (n, [])
  | c :: rest =>
    let newValue := (n * 10 + (c - code '0')) % 2 ^ 32
    if isASCIIDigit c && newValue ≥ n then consumeDigits newValue rest else (n, c :: rest)

def consumeNumber (digit : Nat) (rest : List Nat) : Nat × List Nat := consumeDigits (digit - code '0') rest

/-- The loop of `consumeOctal`. -/
def consumeOctalDigits (n : Nat) : List Nat → Nat × List Nat
  | [] => (n, [])
  | c :: rest =>
    if n < 32 && isASCIIOctalDigit c then consumeOctalDigits (n * 8 + (c - code '0')) rest else (n, c :: rest)

def tryConsumeHex : Nat → Nat → List Nat → Option (Nat × List Nat)
  | 0, n, rest => some (n, rest)
  | _ + 1, _, [] => none
  | count + 1, n, c :: rest => do tryConsumeHex count (n * 16 + (← hexValue c)) rest

end Characters

section Escapes

/-- The call that `parseEscape` makes of the delegate it is given. -/
inductive Escape where
  | character (ch : Nat)
  | builtIn (classID : BuiltInCharacterClassID) (invert : Bool)
  | wordBoundary (invert : Bool)
  | backReference (subpatternId : Nat)
  deriving DecidableEq

/-- The escapes of one letter with a meaning of its own. -/
def letterEscapes (inCharacterClass : Bool) : List (Nat × Escape) :=
  [(code 'b', if inCharacterClass then .character 0x08 else .wordBoundary false),
    (code 'B', if inCharacterClass then .character (code 'B') else .wordBoundary true),
    (code 'd', .builtIn .digitClassID false), (code 's', .builtIn .spaceClassID false),
      (code 'w', .builtIn .wordClassID false),
    (code 'D', .builtIn .digitClassID true), (code 'S', .builtIn .spaceClassID true),
      (code 'W', .builtIn .wordClassID true),
    (code 'f', .character 0x0C), (code 'n', .character 0x0A), (code 'r', .character 0x0D), (code 't', .character 0x09),
    (code 'v', .character 0x0B)]

def octalEscape (c : Nat) (rest : List Nat) : Escape × List Nat :=
  let (n, later) := consumeOctalDigits (c - code '0') rest
  (.character n, later)

/-- A number is a back reference if it is within the limit, otherwise an octal escape if it can be one. -/
def decimalEscape (inCharacterClass : Bool) (backReferenceLimit : Nat) (c : Nat) (rest : List Nat) :
    Escape × List Nat :=
  let (backReference, later) := consumeNumber c rest
  if !inCharacterClass && backReference ≤ backReferenceLimit then (.backReference backReference, later)
  else if c ≥ code '8' then (.character (code '\\'), c :: rest)
  else octalEscape c rest

def controlEscape (inCharacterClass : Bool) (rest : List Nat) : Escape × List Nat :=
  match rest with
  | [] => (.character (code '\\'), code 'c' :: rest)
  | control :: later =>
    if isASCIIAlpha control || inCharacterClass && (isASCIIDigit control || control = code '_') then
      (.character (control % 0x20), later)
    else (.character (code '\\'), code 'c' :: rest)

def hexEscape (count : Nat) (c : Nat) (rest : List Nat) : Escape × List Nat :=
  match tryConsumeHex count 0 rest with
  | some (value, later) => (.character value, later)
  | none => (.character c, rest)

/-- `parseEscape`, behind the backslash. -/
def parseEscape (inCharacterClass : Bool) (backReferenceLimit : Nat) : List Nat → Except ErrorCode (Escape × List Nat)
  | [] => .error .escapeUnterminated
  | c :: rest =>
    match (letterEscapes inCharacterClass).lookup c with
    | some escape => .ok (escape, rest)
    | none =>
      if code '1' ≤ c ∧ c ≤ code '9' then .ok (decimalEscape inCharacterClass backReferenceLimit c rest)
      else if c = code '0' then .ok (octalEscape c rest)
      else if c = code 'c' then .ok (controlEscape inCharacterClass rest)
      else if c = code 'x' then .ok (hexEscape 2 c rest)
      else if c = code 'u' then .ok (hexEscape 4 c rest)
      else .ok (.character c, rest)

end Escapes

/-- The calls made so far, and either an error or what the parser goes on with. -/
structure Progress (α : Type) where
  calls : List DelegateCall
  outcome : Except ErrorCode α

def Progress.after {α : Type} (calls : List DelegateCall) (progress : Progress α) : Progress α :=
  { progress with calls := calls ++ progress.calls }

section Classes

/-- `CharacterClassConstructionState`, with `m_character` where it is read. -/
inductive ClassState where
  | empty
  | cachedCharacter (character : Nat)
  | cachedCharacterHyphen (character : Nat)
  | afterCharacterClass
  | afterCharacterClassHyphen

namespace ClassState

def atomPatternCharacter (ch : Nat) (hyphenIsRange : Bool) :
    ClassState → Except ErrorCode (ClassState × List DelegateCall)
  | afterCharacterClass =>
    if hyphenIsRange && ch = code '-' then .ok (afterCharacterClassHyphen, [.atomCharacterClassAtom (code '-')])
    else .ok (cachedCharacter ch, [])
  | empty => .ok (cachedCharacter ch, [])
  | cachedCharacter character =>
    if hyphenIsRange && ch = code '-' then .ok (cachedCharacterHyphen character, [])
    else .ok (cachedCharacter ch, [.atomCharacterClassAtom character])
  | cachedCharacterHyphen character =>
    if ch < character then .error .characterClassOutOfOrder else .ok (empty, [.atomCharacterClassRange character ch])
  | afterCharacterClassHyphen => .ok (empty, [.atomCharacterClassAtom ch])

def atomBuiltInCharacterClass (classID : BuiltInCharacterClassID) (invert : Bool) :
    ClassState → ClassState × List DelegateCall
  | cachedCharacter character =>
    (afterCharacterClass, [.atomCharacterClassAtom character, .atomCharacterClassBuiltIn classID invert])
  | empty | afterCharacterClass => (afterCharacterClass, [.atomCharacterClassBuiltIn classID invert])
  | cachedCharacterHyphen character =>
    (empty, [.atomCharacterClassAtom character, .atomCharacterClassAtom (code '-'),
      .atomCharacterClassBuiltIn classID invert])
  | afterCharacterClassHyphen => (empty, [.atomCharacterClassBuiltIn classID invert])

/-- `end`. -/
def finish : ClassState → List DelegateCall
  | cachedCharacter character => [.atomCharacterClassAtom character, .atomCharacterClassEnd]
  | cachedCharacterHyphen character =>
    [.atomCharacterClassAtom character, .atomCharacterClassAtom (code '-'), .atomCharacterClassEnd]
  | empty | afterCharacterClass | afterCharacterClassHyphen => [.atomCharacterClassEnd]

def escape : Escape → ClassState → Except ErrorCode (ClassState × List DelegateCall)
  | .character ch, state => state.atomPatternCharacter ch false
  | .builtIn classID invert, state => .ok (state.atomBuiltInCharacterClass classID invert)
  | .wordBoundary _, state | .backReference _, state => .ok (state, [.releaseAssertNotReached])

/-- One round of the loop of `parseCharacterClass`, on a character that does not close the class. -/
def next (backReferenceLimit : Nat) (c : Nat) (rest : List Nat) (state : ClassState) :
    Except ErrorCode (ClassState × List DelegateCall × List Nat) :=
  if c = code '\\' then do
    let (read, later) ← parseEscape true backReferenceLimit rest
    let (state, calls) ← state.escape read
    .ok (state, calls, later)
  else do
    let (state, calls) ← state.atomPatternCharacter c true
    .ok (state, calls, rest)

end ClassState

/-- The loop of `parseCharacterClass`; a round takes at least one of the characters that are left. -/
def parseClassAtoms (backReferenceLimit : Nat) : Nat → ClassState → List Nat → Progress (List Nat)
  | 0, _, _ | _, _, [] => ⟨[], .error .characterClassUnmatched⟩
  | fuel + 1, state, c :: rest =>
    if c = code ']' then ⟨state.finish, .ok rest⟩
    else
      match state.next backReferenceLimit c rest with
      | .error error => ⟨[], .error error⟩
      | .ok (state, calls, later) => .after calls (parseClassAtoms backReferenceLimit fuel state later)

/-- `parseCharacterClass`, behind the bracket. -/
def parseCharacterClass (backReferenceLimit : Nat) (rest : List Nat) : Progress (List Nat) :=
  if rest.head? = some (code '^') then
    .after [.atomCharacterClassBegin true] (parseClassAtoms backReferenceLimit rest.tail.length .empty rest.tail)
  else .after [.atomCharacterClassBegin false] (parseClassAtoms backReferenceLimit rest.length .empty rest)

end Classes

section Tokens

structure State where
  rest : List Nat
  lastTokenWasAnAtom : Bool
  parenthesesNestingDepth : Nat

/-- `parseParenthesesBegin`, behind the parenthesis. -/
def parseParenthesesBegin (rest : List Nat) (depth : Nat) : Progress State :=
  if rest.head? = some (code '?') then
    match rest.tail with
    | [] => ⟨[], .error .parenthesesTypeInvalid⟩
    | kind :: body =>
      if kind = code ':' then ⟨[.atomParenthesesSubpatternBegin false], .ok ⟨body, false, depth + 1⟩⟩
      else if kind = code '=' then ⟨[.atomParentheticalAssertionBegin false], .ok ⟨body, false, depth + 1⟩⟩
      else if kind = code '!' then ⟨[.atomParentheticalAssertionBegin true], .ok ⟨body, false, depth + 1⟩⟩
      else ⟨[], .error .parenthesesTypeInvalid⟩
  else ⟨[.atomParenthesesSubpatternBegin true], .ok ⟨rest, false, depth + 1⟩⟩

def parseParenthesesEnd (rest : List Nat) (depth : Nat) : Progress State :=
  if depth > 0 then ⟨[.atomParenthesesEnd], .ok ⟨rest, true, depth - 1⟩⟩ else ⟨[], .error .parenthesesUnmatched⟩

def parseQuantifier (lastTokenWasAnAtom : Bool) (min max : Nat) (rest : List Nat) (depth : Nat) : Progress State :=
  if min = quantifyInfinite then ⟨[], .error .quantifierTooLarge⟩
  else if lastTokenWasAnAtom then
    if rest.head? = some (code '?') then ⟨[.quantifyAtom min max false], .ok ⟨rest.tail, false, depth⟩⟩
    else ⟨[.quantifyAtom min max true], .ok ⟨rest, false, depth⟩⟩
  else ⟨[], .error .quantifierWithoutAtom⟩

/-- The maximum of a quantifier in braces, behind the minimum. -/
def parseMaximum (min : Nat) (rest : List Nat) : Nat × List Nat :=
  if rest.head? = some (code ',') then
    match rest.tail with
    | [] => (quantifyInfinite, [])
    | digit :: later => if isASCIIDigit digit then consumeNumber digit later else (quantifyInfinite, digit :: later)
  else (min, rest)

/-- A quantifier in braces, behind the opening one; without a result, the position is restored. -/
def parseBraces : List Nat → Option (Nat × Nat × List Nat)
  | [] => none
  | digit :: following =>
    if isASCIIDigit digit then
      let (min, rest) := consumeNumber digit following
      let (max, rest) := parseMaximum min rest
      if rest.head? = some (code '}') then some (min, max, rest.tail) else none
    else none

def parseAtomEscape (backReferenceLimit : Nat) (rest : List Nat) (depth : Nat) : Progress State :=
  match parseEscape false backReferenceLimit rest with
  | .error error => ⟨[], .error error⟩
  | .ok (.character ch, later) => ⟨[.atomPatternCharacter ch], .ok ⟨later, true, depth⟩⟩
  | .ok (.builtIn classID invert, later) => ⟨[.atomBuiltInCharacterClass classID invert], .ok ⟨later, true, depth⟩⟩
  | .ok (.wordBoundary invert, later) => ⟨[.assertionWordBoundary invert], .ok ⟨later, false, depth⟩⟩
  | .ok (.backReference subpatternId, later) => ⟨[.atomBackReference subpatternId], .ok ⟨later, true, depth⟩⟩

/-- One round of the loop of `parseTokens`, on the character at the front. -/
def parseToken (backReferenceLimit : Nat) (lastTokenWasAnAtom : Bool) (depth : Nat) (c : Nat) (rest : List Nat) :
    Progress State :=
  if c = code '|' then ⟨[.disjunction], .ok ⟨rest, false, depth⟩⟩
  else if c = code '(' then parseParenthesesBegin rest depth
  else if c = code ')' then parseParenthesesEnd rest depth
  else if c = code '^' then ⟨[.assertionBOL], .ok ⟨rest, false, depth⟩⟩
  else if c = code '$' then ⟨[.assertionEOL], .ok ⟨rest, false, depth⟩⟩
  else if c = code '.' then ⟨[.atomBuiltInCharacterClass .newlineClassID true], .ok ⟨rest, true, depth⟩⟩
  else if c = code '[' then
    let progress := parseCharacterClass backReferenceLimit rest
    ⟨progress.calls, progress.outcome.map fun later => ⟨later, true, depth⟩⟩
  else if c = code '\\' then parseAtomEscape backReferenceLimit rest depth
  else if c = code '*' then parseQuantifier lastTokenWasAnAtom 0 quantifyInfinite rest depth
  else if c = code '+' then parseQuantifier lastTokenWasAnAtom 1 quantifyInfinite rest depth
  else if c = code '?' then parseQuantifier lastTokenWasAnAtom 0 1 rest depth
  else
    match if c = code '{' then parseBraces rest else none with
    | some (min, max, later) =>
      if min ≤ max then parseQuantifier lastTokenWasAnAtom min max later depth else ⟨[], .error .quantifierOutOfOrder⟩
    | none => ⟨[.atomPatternCharacter c], .ok ⟨rest, true, depth⟩⟩

/-- `parseTokens`; a round takes at least one of the characters that are left. -/
def parseTokens (backReferenceLimit : Nat) : Nat → State → Progress Unit
  | _, ⟨[], _, depth⟩ => ⟨[], if depth > 0 then .error .missingParentheses else .ok ()⟩
  | 0, _ => ⟨[], .ok ()⟩
  | fuel + 1, ⟨c :: rest, lastTokenWasAnAtom, depth⟩ =>
    match parseToken backReferenceLimit lastTokenWasAnAtom depth c rest with
    | ⟨calls, .error error⟩ => ⟨calls, .error error⟩
    | ⟨calls, .ok state⟩ => .after calls (parseTokens backReferenceLimit fuel state)

end Tokens

end Parser

end WebNode.Yarr
