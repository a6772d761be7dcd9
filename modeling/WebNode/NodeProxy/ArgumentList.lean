import WebNode.NodeProxy.Literal

/-!
# The shape of an argument list

`convertJscArgs2String` writes a comma before an argument only if an earlier one has set `pa`, which
functions and proxied objects do not, and it writes nothing for arrays, booleans, null and undefined. All
functions are written as `nodeproxyCb`, which stands for the last one.
-/

namespace WebNode.NodeProxy

open Wtf V8

variable {value : JSValue} {values : List JSValue} {text : List UInt8} {texts : List (List UInt8)}
  {arguments : Arguments} {callback : Option Nat}

/-- The text is an expression for the value, while the callback data holds this function. For the values
that nothing is written for, any text would do that is one at all. -/
def Expresses (callback : Option Nat) : JSValue → List UInt8 → Prop
  | .string string, text => text = argumentText string ∧ LiteralOf text string.units
  | .number _ asDouble, text => text = asDouble.streamText ∧ IsNumericLiteral text
  | .function identity, text => text = bytesOf "nodeproxyCb" ∧ callback = some identity
  | .object _ true (some moduleName), text => text = moduleName
  | .object json false _, text =>
    if json.startsWith 0x7B then
      text = bytesOf "JSON.parse(" ++ propertyText json ++ bytesOf ")" ∧ LiteralOf (propertyText json) json.units
    else text ≠ []
  | _, text => text ≠ []

/-- An expression is written for the value. -/
def Speaks : JSValue → Prop
  | .string _ | .function _ | .object _ true (some _) => True
  | .number _ asDouble => asDouble.isFinite = true
  | .object json false _ => json.startsWith 0x7B = true ∧ PropertySafe json
  | _ => False

/-- A comma is written before what follows the value. -/
def separates : JSValue → Bool
  | .string _ | .number _ _ => true
  | .object json false _ => json.startsWith 0x7B
  | _ => false

/-- The function that the value puts into the callback data. -/
def JSValue.functionIdentity : JSValue → Option Nat
  | .function identity => some identity
  | _ => none

/-! ### What the loop writes -/

/-- The text for one value, if there is one. -/
def emits : JSValue → Option (List UInt8)
  | .string string => some (argumentText string)
  | .number _ asDouble => some asDouble.streamText
  | .function _ => some (bytesOf "nodeproxyCb")
  | .object _ true (some moduleName) => some moduleName
  | .object json false _ =>
    if json.startsWith 0x7B then some (bytesOf "JSON.parse(" ++ propertyText json ++ bytesOf ")") else none
  | _ => none

/-- What is written for the value, if anything, is an expression. -/
def Usable : JSValue → Prop
  | .number _ asDouble => asDouble.isFinite = true
  | .object _ true none => False
  | .object json false _ => json.startsWith 0x7B = true → PropertySafe json
  | _ => True

theorem utf8_data_of_safe {json : StringImpl} (safe : PropertySafe json) : ∃ data, json.utf8.data = some data := by
  cases found : json.utf8.data with
  | some data => exact ⟨data, rfl⟩
  | none =>
    have literal := (propertyText_literal json).mpr safe
    rw [propertyText, found] at literal
    exact absurd literal (not_literalOf_null _)

theorem put_put {ostr : OStream} (first second : List UInt8) :
    (ostr.put first).put second = ostr.put (first ++ second) := by
  cases bad : ostr.bad <;> simp [OStream.put, bad]

/-- One round appends the text of the value, behind a comma if `pa` is set. -/
theorem convert_eq (usable : Usable value) : ∃ next, arguments.convert value = some next ∧
    next.ostr = arguments.ostr.put ((emits value).elim [] (arguments.separator ++ ·)) ∧
    next.pa = (arguments.pa || separates value) ∧ next.callback = value.functionIdentity.or arguments.callback := by
  have nothing : arguments.ostr.put [] = arguments.ostr := by simp [OStream.put]
  cases value with
  | string string => simp [convert_string, emits, separates, JSValue.functionIdentity]
  | number asInt32 asDouble => simp [Arguments.convert, put_put, emits, separates, JSValue.functionIdentity]
  | function identity => simp [Arguments.convert, put_put, emits, separates, JSValue.functionIdentity]
  | undefined | null | boolean | other => simp [Arguments.convert, emits, separates, nothing, JSValue.functionIdentity]
  | object json isNodeProxyObj impl =>
    cases isNodeProxyObj with
    | true =>
      cases impl with
      | some moduleName => simp [Arguments.convert, put_put, emits, separates, JSValue.functionIdentity]
      | none => cases usable
    | false =>
      by_cases starts : json.startsWith 0x7B = true
      · have other : json.startsWith 0x5B = false := by
          rw [StringImpl.startsWith, beq_iff_eq] at starts
          rw [StringImpl.startsWith, starts]
          decide
        have opens : bytesOf "JSON.parse('" = bytesOf "JSON.parse(" ++ [0x27] := by decide
        have closes : bytesOf "')" = 0x27 :: bytesOf ")" := by decide
        obtain ⟨data, same⟩ := utf8_data_of_safe (usable starts)
        simp [Arguments.convert, emits, separates, starts, other, same, propertyText, quoted, OStream.putData, put_put,
          opens, closes, JSValue.functionIdentity]
      · by_cases array : json.startsWith 0x5B = true
        · simp [Arguments.convert, emits, separates, starts, array, nothing, JSValue.functionIdentity]
        · simp [Arguments.convert, emits, separates, starts, array, nothing, JSValue.functionIdentity]

/-- What an expression of a value is. -/
theorem Expresses.cases (expresses : Expresses callback value text) :
    emits value = some text ∨ emits value = none ∧ text ≠ [] := by
  cases value with
  | string string | number asInt32 asDouble | function identity => exact .inl (by rw [emits, expresses.1])
  | undefined | null | boolean | other => exact .inr ⟨rfl, expresses⟩
  | object json isNodeProxyObj impl =>
    cases isNodeProxyObj with
    | true =>
      cases impl with
      | some moduleName => exact .inl (by rw [emits, show text = moduleName from expresses])
      | none => exact .inr ⟨rfl, expresses⟩
    | false =>
      rw [Expresses] at expresses
      rw [emits]
      split at expresses
      · next starts => exact .inl (by rw [if_pos starts, expresses.1])
      · next starts => exact .inr ⟨if_neg starts, expresses⟩

theorem Expresses.usable (expresses : Expresses callback value text) (proper : ∀ json, value ≠ .object json true none) :
    Usable value := by
  cases value with
  | number asInt32 asDouble => exact (asDouble.streamText_numeric_iff).mp (expresses.1 ▸ expresses.2)
  | object json isNodeProxyObj impl =>
    cases isNodeProxyObj with
    | true =>
      cases impl with
      | some moduleName => trivial
      | none => exact absurd rfl (proper json)
    | false =>
      intro starts
      rw [Expresses, if_pos starts] at expresses
      exact (propertyText_literal json).mp expresses.2
  | _ => trivial

/-- What is written for a value that speaks is an expression of it. -/
theorem Speaks.expresses (speaks : Speaks value) (ordinary : ∀ string, value = .string string → ArgumentSafe string)
    (held : ∀ identity, value = .function identity → callback = some identity) :
    ∃ text, emits value = some text ∧ Expresses callback value text := by
  cases value with
  | string string => exact ⟨_, rfl, rfl, (argumentText_literal string).mpr (ordinary string rfl)⟩
  | number asInt32 asDouble => exact ⟨_, rfl, rfl, asDouble.streamText_numeric_iff.mpr speaks⟩
  | function identity => exact ⟨_, rfl, rfl, held identity rfl⟩
  | undefined | null | boolean | other => cases speaks
  | object json isNodeProxyObj impl =>
    cases isNodeProxyObj with
    | true =>
      cases impl with
      | some moduleName => exact ⟨_, rfl, rfl⟩
      | none => cases speaks
    | false =>
      exact ⟨_, if_pos speaks.1,
        by rw [Expresses, if_pos speaks.1]; exact ⟨rfl, (propertyText_literal json).mpr speaks.2⟩⟩

/-- The string `a`. -/
def letter : StringImpl := ⟨[0x61], true, by simp⟩

end WebNode.NodeProxy
