-- SUMMARY: The steps of scripts, with the faults their fields may hide.
import ObjectHost.Data.Datum
import ObjectHost.Failure.Raised
import ObjectHost.Host.Realm

/-!
# Script syntax

A script is a sequence of steps and a table of bodies that its functions and
module factories run. A step is read as far as it makes sense: a field that
makes none is kept as its fault, and shows only when the step comes to it.
-/

namespace ObjectHost.Script

/-! ## Faults -/

/-- A kind of object that a field may have to hold. -/
inductive Role where
  | cls
  | module
  | exception
  | function
  | method
deriving DecidableEq

def Role.phrase : Role → String
  | .cls => "a class"
  | .module => "a module"
  | .exception => "an exception"
  | .function => "a function"
  | .method => "a method"

/-- What is wrong with a step itself. -/
inductive Fault where
  | field (fault : FieldFault)
  | unknownStep (name : String)
  | badNumber
  | badFloat
  | badValue
  | badMember
  | wrongKind (field : String) (found : Value.Kind) (expected : Role)
  | notSettable (kind : Value.Kind)
  | noAttributeTable (kind : Value.Kind)
  | notCallable (kind : Value.Kind)
  | noContext
  | noRealm (name : String)
deriving DecidableEq

def Fault.message : Fault → String
  | .field fault => fault.message
  | .unknownStep name => "unknown step " ++ name
  | .badNumber => "bad number"
  | .badFloat => "bad float"
  | .badValue => "bad value"
  | .badMember => "bad member"
  | .wrongKind name found expected => name ++ " is a " ++ found.label ++ ", not " ++ expected.phrase
  | .notSettable kind => "a " ++ kind.label ++ " has no settable attributes"
  | .noAttributeTable kind => "a " ++ kind.label ++ " has no attribute table"
  | .notCallable kind => "a " ++ kind.label ++ " is not callable"
  | .noContext => "no context"
  | .noRealm name => "no runtime " ++ name

/-- A field as it was read: its content, or what is wrong with it. -/
abbrev Field (α : Type) := Except Fault α

/-! ## Expressions -/

/-- The position of a body in the script's table. -/
abbrev BodyId := Nat

inductive Expr where
  | scalar (v : Value)
  | var (name : String)
  | arg (index : Nat)
  | classNamed (name : String)
  | builtin (name : String)
  | function (name : String) (body : BodyId) (arity : Option Nat)
  | malformed (fault : Fault)

/-- The elements are evaluated one by one, so each has its own chance to be faulty. -/
abbrev Arguments := Field (List Expr)

/-! ## Steps by what they are about -/

inductive ClassStep where
  | define (parent : Option Expr) (members : Field (List (Field (String × Expr)))) (name : Field String)
  | info (cls : Expr)
  | member (cls : Expr) (name : Field String)
  | lookup (cls : Expr) (name : Field String)
  | isSubclass (cls other : Expr)
  | children (cls : Expr)
  | tree (cls : Expr)
  | get (name : Field String)
  | require (name : Field String)
  | contains (name : Field String)
  | owns (cls : Expr)
  | all
  | core

inductive ObjectStep where
  | eval (value : Expr)
  | inspect (value : Expr)
  | same (a b : Expr)
  | classOf (value : Expr)
  | carriedClass (value : Expr)
  | accessors (value : Expr)
  | new (cls : Expr) (args : Arguments)
  | getAttribute (obj : Expr) (name : Field String)
  | setAttribute (obj : Expr) (name : Field String) (value : Expr)
  | ownAttribute (obj : Expr) (name : Field String)
  | attributes (obj : Expr)
  | functionInfo (fn : Expr)
  | bind (receiver fn : Expr)
  | call (fn : Expr) (args : Arguments)
  | describe (method : Expr)
  | describeRaw (method : Expr)
  | methodParts (method : Expr)

inductive ExceptionStep where
  | new (name : Field String) (message : Expr)
  | make (cls : Expr) (args : Arguments)
  | info (value : Expr)
  | isInstance (value cls : Expr)
  | classNamed (name : Field String)
  | isExceptionClass (cls : Expr)
  | raise (name : Field String) (message : Expr)
  | throw (value : Expr)
  | host (failure : Field HostFailure)
  | importError (name : Field String)
  | raiseError (error : Field ObjectError)

inductive ModuleStep where
  | register (body : Field BodyId) (name : Field String)
  | resolve (name : Field String) (caller : Field (Option String))
  | importModule (caller : Field (Option String)) (name : Field String)
  | load (name : Field String)
  | getOrCreate (name declared : Field String)
  | run (name : Field String) (display : Field (Option String))
  | importFrom (module : Expr) (name : Field String)
  | cache
  | factories
  | cached (name : Field String)
  | isCached (name : Field String)
  | isLoading (name : Field String)
  | isRegistered (name : Field String)
  | make (fqName declared : Field String) (file : Field (Option String)) (cls : Option Expr)
  | info (module : Expr)
  | new
  | context (fqName : Field (Option String)) (declared : Field String)

inductive RealmStep where
  | boot (qualifier : Field (Option String)) (cycles : Field (Option CyclePolicy)) (name : Field String)
  | config
  | builtins
  | builtin (name : Field String)

inductive DataStep where
  | log (value : Expr)
  | count (name : Field String)
  | join (args : Arguments) (sep : Field (Option String))
  | joinArguments
  | sum (args : Arguments)

/-! ## Steps and blocks -/

mutual

inductive Action where
  | cls (step : ClassStep)
  | object (step : ObjectStep)
  | exception (step : ExceptionStep)
  | module (step : ModuleStep)
  | realm (step : RealmStep)
  | data (step : DataStep)
  /-- Runs a block and fails with its failure normalised. -/
  | exceptionify (body : Block)
  /-- Runs a block and tells whether it failed with an instance of the class. -/
  | raisedIs (cls : Expr) (body : Block)
  /-- Runs a block and, if its failure is caught by the class, the handler. -/
  | attempt (cls : Expr) (body : Block) (binder : Field (Option String)) (handler : Block)
  /-- Runs a step and logs what came of it. -/
  | trace (step : Step)
  | branch (a b : Expr) (same different : Block)
  /-- Ends the body that is running. -/
  | yield (value : Expr)
  | malformed (fault : Fault)

inductive Block where
  | steps (list : List Step)
  | malformed (fault : Fault)

/-- A step may name the realm it works in and the variable its result goes to. -/
inductive Step where
  | mk (realm : Field (Option String)) (target : Field (Option String)) (action : Action)

end

end ObjectHost.Script

namespace ObjectHost

/-- The steps to run, and the table of bodies that they refer to. -/
structure Script where
  bodies : Array (List Script.Step)
  steps : List Script.Step

end ObjectHost
