-- SUMMARY: Exceptions, attributes and instantiation, as programs.
import ObjectHost.Program.Basic

/-!
# Objects at work

The operations of the hosted language on objects: raising and catching,
attribute access, making instances, calling. Each is a program over the
requests of the host.
-/

namespace ObjectHost

variable {σ : Type}

namespace Program

def observe : Program σ Host := .send .observe

/-- What the observed host answers. -/
def query {α : Type} (f : Host → α) : Program σ α := .ask .observe fun h => .done (f h)

end Program

namespace Task

def fail {α : Type} (r : Raised) : Task σ α := throw r

/-- Fails with a new exception of the named builtin class. -/
def raise {α : Type} (realm : RealmId) (name : String) (message : Value) : Task σ α := do
  let e ← (Program.send (.newException realm name message) : Program σ Exception)
  fail (.exception e)

end Task

/-! ## Failures -/

/-- The raised form of a fault in the bookkeeping. A repeated definition is no exception of the hosted language. -/
def raisedOf (realm : RealmId) (e : ObjectError) : Program σ Raised :=
  match e with
  | .missingClass _ => managed Builtin.attributeError
  | .notAnException _ => managed Builtin.typeError
  | .unknownClass _ => managed Builtin.nameError
  | .duplicateDefinition _ => pure (.host (.other e.message))
where
  managed (name : String) : Program σ Raised := do
    return .exception (← Program.send (.newException realm name (.str e.message)))

/-- Turns a bad reference into a managed exception and leaves everything else as it is. -/
def exceptionify (realm : RealmId) (r : Raised) : Program σ Raised :=
  match r with
  | .host (.reference message) => do
    let text := (HostFailure.reference message).message
    return .exception (← Program.send (.newException realm Builtin.nameError (.str text)))
  | r => pure r

/-- Catches what is, once normalised, an instance of `cls`; otherwise gives back the normalised failure. -/
def catchAs (realm : RealmId) (r : Raised) (cls : Class) : Program σ (Except Raised Exception) := do
  match ← exceptionify realm r with
  | .exception e => return if e.isInstanceOf cls then .ok e else .error (.exception e)
  | .host failure => return .error (.host failure)

/-! ## Methods -/

def bindMethod (receiver : Value) (callable : Function) : Program σ Method :=
  .send (.newMethod receiver callable)

def callFunction (f : Function) (args : List Value) : Task σ Value :=
  (.send (.call f args) : Program σ (Except Raised Value))

/-- The receiver becomes the first argument. -/
def invoke (m : Method) (args : List Value) : Task σ Value := callFunction m.callable (m.receiver :: args)

/-- The description of a method, its fault raised in `realm`. -/
def describe (realm : RealmId) (m : Method) : Task σ String :=
  match m.describe with
  | .ok text => pure text
  | .error e => do Task.fail (← (raisedOf realm e : Program σ Raised))

/-! ## Attributes -/

/-- A member read off an object: functions are bound to it. -/
def bindMember (receiver member : Value) : Program σ Value :=
  match member with
  | .function f => do return (← bindMethod receiver f).toValue
  | member => pure member

/-- What `obj` answers to `name`, by its own attributes and then by its class. -/
def attribute? (obj : Value) (name : String) : Program σ (Option Value) := do
  let h ← Program.observe
  match obj with
  | .inst i =>
    match (h.heap.attributes i.id).get? name with
    | some v => return some v
    | none => inherited h i.cls
  | .exception _ cls message _ =>
    if name = Builtin.messageAttribute then return some message else inherited h cls
  | .module m => return h.moduleAttribute? m name
  | .cls c => return h.lookup? c name
  | _ => return none
where
  inherited (h : Host) (cls : Class) : Program σ (Option Value) :=
    match h.lookup? cls name with
    | some member => do return some (← bindMember obj member)
    | none => return none

def noAttribute (obj : Value) (name : String) : String :=
  match obj with
  | .cls c => "type object '" ++ c.name ++ "' has no attribute '" ++ name ++ "'"
  | obj => "'" ++ obj.typeName ++ "' object has no attribute '" ++ name ++ "'"

def getAttribute (realm : RealmId) (obj : Value) (name : String) : Task σ Value := do
  match ← (attribute? obj name : Program σ (Option Value)) with
  | some v => return v
  | none => Task.raise realm Builtin.attributeError (.str (noAttribute obj name))

/-! ## Instances -/

/-- A new object of class `cls`. An exception takes its payload from the arguments; any other object hands them
    to its initialiser, and takes none if it has no initialiser. -/
def instantiate (realm : RealmId) (cls : Class) (args : List Value) : Task σ Value := do
  let h ← (Program.observe : Program σ Host)
  if (h.realm realm).taxonomy.isExceptionClass cls then
    match ← (Program.send (.makeException realm cls args) : Program σ (Except ObjectError Exception)) with
    | .ok e => return e.toValue
    | .error e => Task.fail (← (raisedOf realm e : Program σ Raised))
  else
    let i ← (Program.send (.newInstance cls) : Program σ Instance)
    match h.lookup? cls Builtin.initMember with
    | some (.function init) =>
      let m ← (bindMethod (.inst i) init : Program σ Method)
      let _ ← invoke m args
      return .inst i
    | _ =>
      if args.isEmpty then return .inst i
      else
        Task.raise realm Builtin.typeError
          (.str (cls.name ++ "() takes no arguments (" ++ toString args.length ++ " given)"))

end ObjectHost
