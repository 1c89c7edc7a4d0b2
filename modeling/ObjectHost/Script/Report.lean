-- SUMMARY: What steps report, and how reports are shown with numbered identities.
import ObjectHost.Data.Failure
import ObjectHost.Script.Syntax

/-!
# Reports

A step reports values among other data. Showing a report turns it into plain
data: an object is then numbered by the order in which objects are first shown,
so that two reports tell whether they speak of the same object.
-/

namespace ObjectHost.Script

inductive Report where
  /-- Data that no object occurs in. -/
  | plain (d : Datum)
  | value (v : Value)
  | list (items : List Report)
  | record (fields : List (String × Report))

namespace Report

def null : Report := .plain .null

def bool (b : Bool) : Report := .plain (.bool b)

def number (n : Nat) : Report := .plain (.count n)

def text (s : String) : Report := .plain (.text s)

def text? (s : Option String) : Report := .plain (.ofText? s)

def texts (l : List String) : Report := .plain (.texts l)

def value? : Option Value → Report
  | some v => .value v
  | none => null

def class? (c : Option Class) : Report := value? (c.map .cls)

/-- What a variable holds after a step stored its report there. -/
def toValue : Report → Value
  | .value v => v
  | .plain (.bool b) => .bool b
  | .plain (.text s) => .str s
  | .plain (.number n) => .int (Int64.ofInt n)
  | .plain _ | .list _ | .record _ => .none

end Report

/-! ## Failures -/

/-- How a step fails: by itself being faulty, by a fault in the bookkeeping, or with a raised failure. -/
inductive Failure where
  | fault (fault : Fault)
  | object (e : ObjectError)
  | raised (r : Raised)

def Failure.fields : Failure → List (String × Report)
  | .fault f => [("error", .text "BadStep"), ("message", .text f.message)]
  | .object e => e.fields.map fun f => (f.1, .plain f.2)
  | .raised (.exception e) => [
      ("error", .text "Exception"),
      ("message", .text e.fullText),
      ("class", .text e.cls.name),
      ("exception", .value e.toValue)]
  | .raised (.host failure) => [("error", .text failure.label), ("message", .text failure.message)]

/-! ## Showing -/

/-- The objects shown so far, in the order they were first shown. -/
abbrev Shown := List Value

/-- The number of an object, the next one if it was not shown before. -/
def identify (v : Value) : StateM Shown Nat := do
  let shown ← get
  match shown.findIdx? (Value.is v) with
  | some n => return n
  | none =>
    set (shown ++ [v])
    return shown.length

def showValue (v : Value) : StateM Shown Datum := do
  let fields := [
    ("kind", .text v.kind.label),
    ("type", .text v.typeName),
    ("str", .text v.text)]
  if v.kind.hasIdentity then
    return .record (fields ++ [("id", .count (← identify v))])
  else return .record fields

mutual

/-- Shows the parts of a report from left to right. -/
def Report.render : Report → StateM Shown Datum
  | .plain d => return d
  | .value v => showValue v
  | .list items => return .list (← renderItems items)
  | .record fields => return .record (← renderFields fields)

def renderItems : List Report → StateM Shown (List Datum)
  | [] => return []
  | item :: items => do
    let first ← item.render
    return first :: (← renderItems items)

def renderFields : List (String × Report) → StateM Shown (List (String × Datum))
  | [] => return []
  | (name, field) :: fields => do
    let first ← field.render
    return (name, first) :: (← renderFields fields)

end

end ObjectHost.Script
