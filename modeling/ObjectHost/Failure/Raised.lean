-- SUMMARY: What running code can fail with: a managed exception or a failure of the host.
import ObjectHost.Value.Text

/-!
# Raised failures

A managed exception can be caught by class. A failure of the host cannot,
unless it is a bad reference, which the exception taxonomy turns into a managed
exception first.
-/

namespace ObjectHost

inductive HostFailure where
  | reference (message : String)
  | arity (function : String) (expected got : Nat)
  | other (message : String)
deriving DecidableEq

namespace HostFailure

def message : HostFailure → String
  | .reference message => "ReferenceError: " ++ message
  | .arity function expected got =>
    function ++ "() takes exactly " ++ toString expected ++ " arguments (" ++ toString got ++ " given)"
  | .other message => message

def label : HostFailure → String
  | .reference _ => "Host.Reference"
  | .arity .. => "Host.Arity"
  | .other _ => "Host.Other"

end HostFailure

inductive Raised where
  | exception (e : Exception)
  | host (failure : HostFailure)
deriving DecidableEq

namespace Raised

def text : Raised → String
  | .exception e => e.fullText
  | .host failure => failure.message

def label : Raised → String
  | .exception _ => "Exception"
  | .host failure => failure.label

def exception? : Raised → Option Exception
  | .exception e => some e
  | .host _ => none

/-- A host failure is an instance of no class. -/
def isInstanceOf (r : Raised) (cls : Class) : Bool :=
  match r with
  | .exception e => e.isInstanceOf cls
  | .host _ => false

end Raised

end ObjectHost
