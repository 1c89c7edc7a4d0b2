-- SUMMARY: Factories that make a fixed list of imports and then end in a fixed way, and the guest made of them.
import ObjectHost.Program.Import

/-!
# Recipes

A recipe is a factory without a will of its own: it imports what its list says,
one after another, and then makes its module or fails. A failed import ends it,
unless the recipe goes on after failures of that kind. What can be seen of a
failure is its class and message; which exception object carries them is not.
-/

namespace ObjectHost

variable {σ : Type}

/-! ## Failures -/

/-- What a recipe fails with: a new exception of a builtin class, or a given failure. -/
inductive Fault where
  | raise (name : String) (message : Value)
  | throw (r : Raised)

namespace Fault

def task {α : Type} (realm : RealmId) : Fault → Task σ α
  | .raise name message => Task.raise realm name message
  | .throw r => Task.fail r

/-- No registered name is meant by `requested`. -/
def notFound (requested : String) : Fault :=
  .raise Builtin.importError (.str ("Could not import \"" ++ requested ++ "\"."))

/-- The module `name` is asked for while its factory runs. -/
def cyclic (name : String) : Fault :=
  .raise Builtin.importError (.str ("Cyclic import of \"" ++ name ++ "\" while it is still initializing."))

end Fault

/-- What can be seen of a failure. -/
inductive Symptom where
  | exception (cls : Class) (message : Value)
  | host (failure : HostFailure)
deriving DecidableEq

def Raised.symptom : Raised → Symptom
  | .exception e => .exception e.cls e.message
  | .host failure => .host failure

def Fault.symptom (t : Taxonomy) : Fault → Symptom
  | .raise name message => .exception (t.classFor name) message
  | .throw r => r.symptom

/-- What can be seen of an import: the name of the module, or the symptom of the failure. -/
def outcome (r : Except Raised Module) : Except Symptom String :=
  (r.map Module.fqName).mapError Raised.symptom

/-! ## Factories -/

structure ImportStep where
  requested : String
  /-- The failures that the factory goes on after. -/
  swallows : Raised → Bool := fun _ => false

structure Recipe where
  imports : List ImportStep
  /-- What the factory fails with after its imports, if it fails. -/
  fault? : Option Fault

namespace Recipe

/-- Every failed import ends the factory. -/
def Propagates (r : Recipe) : Prop := ∀ step ∈ r.imports, ∀ e, step.swallows e = false

def importAll (ctx : Context) : List ImportStep → Task σ Unit
  | [] => pure ()
  | step :: steps => do
    match ← (ExceptT.lift (ctx.importModule step.requested).run : Task σ (Except Raised Module)) with
    | .ok _ => importAll ctx steps
    | .error e => if step.swallows e then importAll ctx steps else Task.fail e

def body (r : Recipe) (ctx : Context) : Task σ Module := do
  importAll ctx r.imports
  match r.fault? with
  | some fault => fault.task ctx.realm
  | none => (ctx.newModule : Program σ Module)

end Recipe

/-- The guest whose factories follow the recipes of `plan`. It has no functions. -/
def recipeGuest (plan : Code → Recipe) : Guest σ where
  call _ _ := Task.fail (.host (.other "no functions"))
  load code ctx := (plan code).body ctx

/-- Imports each of the requested names on behalf of its caller, and goes on after failures. -/
def importEach (realm : RealmId) : List (String × String) → Program σ (List (Except Raised Module))
  | [] => .done []
  | (requested, caller) :: rest => do
    let first ← (importModule realm requested caller).run
    let others ← importEach realm rest
    return first :: others

end ObjectHost
