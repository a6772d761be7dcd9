import WebNode.NodeProxy.NumberText
import WebNode.Wtf.Text

/-! The scripts that `dom/NodeProxy.cpp` writes for V8: `setProperty` and
`convertJscArgs2String`. -/
namespace WebNode.NodeProxy

open Wtf

/-- An output string stream; once bad it takes no more. -/
structure OStream where
  text : List UInt8
  bad : Bool
  deriving DecidableEq, Repr

namespace OStream

def empty : OStream := ⟨[], false⟩

def put (ostr : OStream) (bytes : List UInt8) : OStream :=
  if ostr.bad then ostr else { ostr with text := ostr.text ++ bytes }

/-- `operator<<` of a C string, which turns the stream bad for a null pointer. -/
def putData (ostr : OStream) : Option (List UInt8) → OStream
  | none => { ostr with bad := true }
  | some bytes => ostr.put bytes

end OStream

/-- The bytes of an ASCII text. -/
def bytesOf (text : String) : List UInt8 := text.toList.map fun c => UInt8.ofNat c.toNat

/-- The values of the web engine, as far as the bridge tells them apart. A number
may be an int beside its double value; a function has its identity; an object has what
`JSONStringify` makes of it, whether its property `isNodeProxyObj` is true and, if it is a
`JSNodeProxy`, the name of its module. -/
inductive JSValue where
  | undefined
  | null
  | boolean (value : Bool)
  | number (asInt32 : Option Int) (asDouble : Double)
  | string (value : StringImpl)
  | function (identity : Nat)
  | object (json : StringImpl) (isNodeProxyObj : Bool) (impl : Option (List UInt8))
  | other (asString : StringImpl)

/-- `setProperty`: the stream whose text V8 runs. The branches for unsigned and
other numbers are never reached behind those for int32 and double. -/
def setProperty (moduleName prop : List UInt8) (value : JSValue) : OStream :=
  let target := ((OStream.empty.put moduleName).put (bytesOf ".")).put prop
  match value with
  | .function _ => OStream.empty
  | .string value => (((target.put (bytesOf "=")).put (bytesOf "'")).putData value.utf8.data).put (bytesOf "'")
  | .number (some int32) _ => (target.put (bytesOf "=")).put (bytesOf (toString int32))
  | .number none asDouble => (target.put (bytesOf "=")).put asDouble.streamText
  | .boolean true => target.put (bytesOf "=true")
  | .boolean false => target.put (bytesOf "=false")
  | .undefined | .null => target.put (bytesOf "=null")
  | .object json _ _ =>
    if json.startsWith 0x5B then OStream.empty
    else if json.startsWith 0x7B then
      ((target.put (bytesOf "=JSON.parse('")).putData json.utf8.data).put (bytesOf "')")
    else OStream.empty
  | .other asString =>
    (((target.put (bytesOf "=")).put (bytesOf "'")).putData asString.utf8.data).put (bytesOf "'")

/-- The state of the loop over the arguments: the stream, whether a parameter was
written, and the function that the callback data holds. -/
structure Arguments where
  ostr : OStream
  pa : Bool
  callback : Option Nat
  deriving DecidableEq, Repr

namespace Arguments

def separator (arguments : Arguments) : List UInt8 := if arguments.pa then bytesOf "," else []

/-- One round of the loop. A function and a proxied object leave `pa` as it was; arrays
and other values write nothing. There is no result if an object that is no `JSNodeProxy` is
cast to one, which `jsCast` does not check. -/
def convert (arguments : Arguments) : JSValue → Option Arguments
  | .string value =>
    some { arguments with
      ostr := ((arguments.ostr.put (arguments.separator ++ bytesOf "'")).putData value.ascii.data).put
        (bytesOf "'")
      pa := true }
  | .number _ asDouble =>
    some { arguments with ostr := (arguments.ostr.put arguments.separator).put asDouble.streamText, pa := true }
  | .function identity =>
    some { arguments with
      ostr := (arguments.ostr.put arguments.separator).put (bytesOf "nodeproxyCb")
      callback := some identity }
  | .object _ true (some moduleName) =>
    some { arguments with ostr := (arguments.ostr.put arguments.separator).put moduleName }
  | .object _ true none => none
  | .object json false _ =>
    if json.startsWith 0x5B then some arguments
    else if json.startsWith 0x7B then
      some { arguments with
        ostr := (((arguments.ostr.put arguments.separator).put (bytesOf "JSON.parse('")).putData
          json.utf8.data).put (bytesOf "')")
        pa := true }
    else some arguments
  | _ => some arguments

end Arguments

end WebNode.NodeProxy
