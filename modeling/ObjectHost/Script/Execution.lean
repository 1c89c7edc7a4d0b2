-- SUMMARY: Sessions, frames and the monad in which steps are carried out.
import ObjectHost.Program.Import
import ObjectHost.Script.Report

/-!
# Execution

A session is what all code of a script shares. Each body runs in a frame of its
own: the realm it belongs to, the arguments or the module context it was given,
and its local variables. Local variables outlive a failure inside a block.
-/

namespace ObjectHost.Script

structure Session where
  globals : Table Value
  counters : Table Int64
  /-- What was logged during the current step of the script, oldest first. -/
  log : List Datum
  shown : Shown
  /-- The realms of the script by name. -/
  realms : Table RealmId

def Session.initial : Session := ⟨∅, ∅, [], [], ∅⟩

structure Frame where
  realm : RealmId
  args : List Value
  context : Option Context
  /-- The script itself has no local variables. -/
  outermost : Bool

/-- Where a step works: its frame, and its realm if it names one. -/
structure Place where
  frame : Frame
  realm : RealmId

abbrev Exec := ExceptT Failure (StateT (Table Value) (Program Session))

namespace Exec

def program {α : Type} (p : Program Session α) : Exec α := liftM p

def task {α : Type} (t : Task Session α) : Exec α := do
  match ← program t.run with
  | .ok a => return a
  | .error r => throw (.raised r)

def field {α : Type} : Field α → Exec α
  | .ok a => pure a
  | .error fault => throw (.fault fault)

def checked {α : Type} : Except ObjectError α → Exec α
  | .ok a => pure a
  | .error e => throw (.object e)

def fault {α : Type} (f : Fault) : Exec α := throw (.fault f)

def undefined {α : Type} (name : String) : Exec α :=
  throw (.raised (.host (.reference (name ++ " is not defined"))))

/-- What became of `x`, its failure included. -/
def outcome {α : Type} (x : Exec α) : Exec (Except Failure α) := ExceptT.lift x.run

def host : Exec Host := program Program.observe

def session : Exec Session := program (.send (.guest id))

def modifySession (f : Session → Session) : Exec Unit := do
  let _ ← program (.send (.guest f))

def realmOf (p : Place) : Exec Realm := return (← host).realm p.realm

end Exec

/-! ## Variables -/

/-- Binds a variable of the frame; at the outermost level it is global. -/
def store (frame : Frame) (name : String) (v : Value) : Exec Unit :=
  if frame.outermost then
    Exec.modifySession fun s => { s with globals := s.globals.insert name v }
  else modify fun locals => locals.insert name v

/-- Locals come before globals. -/
def lookupVariable (name : String) : Exec (Option Value) := do
  match (← get).get? name with
  | some v => return some v
  | none => return (← Exec.session).globals.get? name

/-! ## Evaluation -/

def eval (p : Place) : Expr → Exec Value
  | .scalar v => return v
  | .var name => do
    match ← lookupVariable name with
    | some v => return v
    | none => Exec.undefined name
  | .arg index =>
    match p.frame.args[index]? with
    | some v => return v
    | none => Exec.undefined ("argument " ++ toString index)
  | .classNamed name => do
    match (← Exec.realmOf p).classes.require name with
    | .ok c => return .cls c
    | .error e => throw (.raised (← Exec.program (raisedOf p.realm e)))
  | .builtin name => do
    match (← Exec.realmOf p).builtins.get? name with
    | some v => return v
    | none => Exec.undefined name
  | .function name body arity => do
    return .function (← Exec.program (.send (.newFunction name arity ⟨body, p.realm⟩)))
  | .malformed fault => Exec.fault fault

def evalAll (p : Place) : List Expr → Exec (List Value)
  | [] => return []
  | e :: es => do
    let v ← eval p e
    return v :: (← evalAll p es)

def evalArguments (p : Place) (args : Arguments) : Exec (List Value) := do
  evalAll p (← Exec.field args)

/-- Evaluates a field that must hold an object of the given role. -/
def evalAs {α : Type} (p : Place) (field : String) (role : Role) (view : Value → Option α) (e : Expr) :
    Exec α := do
  let v ← eval p e
  match view v with
  | some a => return a
  | none => Exec.fault (.wrongKind field v.kind role)

def evalClass (p : Place) (field : String) (e : Expr) : Exec Class := evalAs p field .cls Value.class? e

def evalOptionalClass (p : Place) (field : String) : Option Expr → Exec (Option Class)
  | none => return none
  | some e => do return some (← evalClass p field e)

def evalFunction (p : Place) (field : String) (e : Expr) : Exec Function :=
  evalAs p field .function Value.function? e

def evalMethod (p : Place) (field : String) (e : Expr) : Exec Method :=
  evalAs p field .method Value.method? e

def evalException (p : Place) (field : String) (e : Expr) : Exec Exception :=
  evalAs p field .exception Value.exception? e

def evalModule (p : Place) (field : String) (e : Expr) : Exec Module :=
  evalAs p field .module Value.module? e

/-! ## Reporting -/

/-- Shows a report in the session. -/
def showReport (r : Report) : Exec Datum := do
  let s ← Exec.session
  let (d, shown) := Id.run (r.render.run s.shown)
  Exec.modifySession fun s => { s with shown := shown }
  return d

def log (r : Report) : Exec Unit := do
  let d ← showReport r
  Exec.modifySession fun s => { s with log := s.log ++ [d] }

/-- The raised form of a failure, as blocks pass it on. -/
def Failure.raise (realm : RealmId) : Failure → Program Session Raised
  | .fault f => pure (.host (.other ("bad step: " ++ f.message)))
  | .object e => raisedOf realm e
  | .raised r => pure r

end ObjectHost.Script
