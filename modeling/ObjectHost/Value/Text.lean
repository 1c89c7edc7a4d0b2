-- SUMMARY: How values are named and printed.
import ObjectHost.Decimal.Layout
import ObjectHost.Failure.ObjectError
import ObjectHost.Value.Basic

/-!
# The text of a value
-/

namespace ObjectHost

/-- Numbers from `0.0001` up to `10 ^ 16` are written out, always with a point. -/
def floatLayout : Decimal.Layout where
  leastPositional := -4
  greatestPositional := 15
  wholeTail := ".0"
  exponentMark := "e"
  nan := "NaN"
  infinity := "inf"

def floatText (bits : UInt64) : String := floatLayout.write (.ofBits bits)

/-- A module without a class counts as a plain object. -/
def Value.typeName : Value → String
  | .none => "NoneType"
  | .bool _ => "bool"
  | .int _ => "int"
  | .float _ => "float"
  | .str _ => "str"
  | .cls _ => "type"
  | .inst i => i.cls.name
  | .exception _ c _ _ => c.name
  | .function _ => "function"
  | .method .. => "instancemethod"
  | .module m => (m.cls.map Class.name).getD Class.rootName

/-- What a bound method is called; its receiver needs a class for that. -/
def Method.describe (m : Method) : Except ObjectError String :=
  match m.receiver.carriedClass? with
  | some cls => .ok ("<bound method " ++ m.callable.name ++ " of class " ++ cls.name ++ ">")
  | none => .error (.missingClass m.receiver.typeName)

/-- An exception reads as its payload. -/
def Value.text : Value → String
  | .none => "None"
  | .bool true => "True"
  | .bool false => "False"
  | .int n => toString n.toInt
  | .float bits => floatText bits
  | .str text => text
  | .cls c => "<class '" ++ c.name ++ "'>"
  | .inst i => "<" ++ i.cls.name ++ " object>"
  | .exception _ _ message _ => message.text
  | .function f => "<function " ++ f.name ++ ">"
  | .method id receiver callable =>
    match Method.describe ⟨id, receiver, callable⟩ with
    | .ok label => label
    | .error _ => "<bound method " ++ callable.name ++ ">"
  | .module m => "<module '" ++ m.fqName ++ "'>"

def Exception.text (e : Exception) : String := e.message.text

/-- The qualifier and the class in front of the payload. -/
def Exception.fullText (e : Exception) : String :=
  e.qualifier ++ ": " ++ e.cls.name ++ ": " ++ e.text

def Exception.isInstanceOf (e : Exception) (cls : Class) : Bool := e.cls.isSubclassOf cls

end ObjectHost
