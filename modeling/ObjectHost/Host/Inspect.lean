-- SUMMARY: Values spelled out with their parts, for inspection.
import ObjectHost.Host.Basic
import ObjectHost.Text.Quoted

/-!
# Inspection

An inspected value shows its form and its parts; names appear between quotes.
-/

namespace ObjectHost

namespace Text

/-- A form's name and its fields in braces. -/
def braced (name : String) (fields : List (String × String)) (tail : List String) : String :=
  let parts := fields.map (fun f => f.1 ++ ": " ++ f.2) ++ tail
  name ++ " \x7b " ++ joinWith ", " parts ++ " \x7d"

def parenthesised (name part : String) : String := name ++ "(" ++ part ++ ")"

def optional : Option String → String
  | none => "None"
  | some part => parenthesised "Some" part

def quotedList (names : List String) : String := "[" ++ joinWith ", " (names.map quote) ++ "]"

end Text

open Text

def Function.inspect (f : Function) : String :=
  braced "Function" [("name", quote f.name), ("arity", optional (f.arity.map toString))] [".."]

namespace Host

def inspectClass (h : Host) (c : Class) : String :=
  braced "ClassObject" [
    ("id", toString c.index),
    ("name", quote c.name),
    ("parent", optional (c.parent?.map fun p => quote p.name)),
    ("members", quotedList ((h.realm c.home).classes.members c).sortedKeys)] []

def inspect (h : Host) : Value → String
  | .none => "None"
  | .bool b => parenthesised "Bool" (if b then "true" else "false")
  | .int n => parenthesised "Int" (toString n.toInt)
  | .float bits => parenthesised "Float" (floatText bits)
  | .str text => parenthesised "Str" (quote text)
  | .cls c => parenthesised "Class" (h.inspectClass c)
  | .inst i =>
    parenthesised "Instance" (braced "Instance" [
      ("class", quote i.cls.name),
      ("attrs", quotedList (h.heap.attributes i.id).sortedKeys)] [])
  | .exception _ cls message _ =>
    parenthesised "Exception" (braced "ExceptionObject" [
      ("class", quote cls.name),
      ("message", h.inspect message)] [])
  | .function f => parenthesised "Function" f.inspect
  | .method _ receiver callable =>
    parenthesised "BoundMethod" (braced "BoundMethod" [
      ("receiver", h.inspect receiver),
      ("callable", callable.inspect)] [])
  | .module m =>
    parenthesised "Module" (braced "ModuleObject" [
      ("fq_name", quote m.fqName),
      ("declared_name", quote m.declaredName),
      ("file", optional (m.file.map quote)),
      ("attrs", quotedList (h.heap.attributes m.id).sortedKeys)] [])

end Host

end ObjectHost
