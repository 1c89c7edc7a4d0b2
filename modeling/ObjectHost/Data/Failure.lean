-- SUMMARY: Failures as data: how they are read from records and written to them.
import ObjectHost.Data.Datum
import ObjectHost.Failure.Raised
import ObjectHost.Host.Realm

/-!
# Failures as data
-/

namespace ObjectHost

/-! ## Faults in the bookkeeping -/

def ObjectError.label : ObjectError → String
  | .duplicateDefinition _ => "DuplicateDefinition"
  | .unknownClass _ => "UnknownClass"
  | .missingClass _ => "MissingClass"
  | .notAnException _ => "NotAnException"

def ObjectError.fields (e : ObjectError) : List (String × Datum) := [
  ("error", .text e.label),
  ("message", .text e.message),
  ("code", .text e.code),
  ("help", .ofText? e.help?)]

namespace Datum

def objectError (d : Datum) : Reading ObjectError := do
  let name ← d.textField "name"
  match ← d.textField "kind" with
  | "DuplicateDefinition" => return .duplicateDefinition name
  | "UnknownClass" => return .unknownClass name
  | "MissingClass" => return .missingClass name
  | "NotAnException" => return .notAnException name
  | _ => throw (.bad "kind")

def hostFailure (d : Datum) : Reading HostFailure := do
  match ← d.textField "kind" with
  | "Reference" => return .reference (← d.textField "message")
  | "Arity" =>
    let function ← d.textField "function"
    let expected ← d.countField "expected"
    let got ← d.countField "got"
    return .arity function expected got
  | "Other" => return .other (← d.textField "message")
  | _ => throw (.bad "kind")

/-! ## Configurations -/

def cycles? (d : Datum) : Reading (Option CyclePolicy) := do
  match ← d.textField? "cycles" with
  | none => return none
  | some label =>
    match CyclePolicy.ofLabel? label with
    | some policy => return some policy
    | none => throw (.bad "cycles")

end Datum

end ObjectHost
