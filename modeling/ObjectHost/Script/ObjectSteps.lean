-- SUMMARY: Steps on values, attributes, functions and methods.
import ObjectHost.Host.Inspect
import ObjectHost.Script.Execution

/-!
# Object steps
-/

namespace ObjectHost.Script

/-- The number under which an object's attributes are kept; only instances and modules have any. -/
def holder? : Value → Option ObjectId
  | .inst i => some i.id
  | .module m => some m.id
  | _ => none

/-- Evaluates a field that must hold an object with attributes. -/
def evalHolder (p : Place) (fault : Value.Kind → Fault) (e : Expr) : Exec ObjectId := do
  let v ← eval p e
  match holder? v with
  | some id => return id
  | none => Exec.fault (fault v.kind)

/-- How an object answers for its own attributes. -/
def ownAttribute? : Value → Option (Host → String → Option Value)
  | .inst i => some fun h name => (h.heap.attributes i.id).get? name
  | .module m => some fun h name => h.moduleAttribute? m name
  | _ => none

/-- What calling a value means; only functions and methods can be called. -/
def applicable? : Value → Option (List Value → Task Session Value)
  | .function f => some (callFunction f)
  | .method id receiver callable => some (invoke ⟨id, receiver, callable⟩)
  | _ => none

def runObjectStep (p : Place) : ObjectStep → Exec Report
  | .eval value => do return .value (← eval p value)
  | .inspect value => do
    let v ← eval p value
    return .text ((← Exec.host).inspect v)
  | .same a b => do
    let a ← eval p a
    let b ← eval p b
    return .bool (a.is b)
  | .classOf value => do
    let v ← eval p value
    return .class? ((← Exec.realmOf p).classOf? v)
  | .carriedClass value => do return .class? (← eval p value).carriedClass?
  | .accessors value => do
    let v ← eval p value
    return .record [
      ("as_str", .text? v.text?),
      ("as_int", .text? (v.int?.map fun n => toString n.toInt)),
      ("as_function", .bool v.function?.isSome),
      ("as_module", .bool v.module?.isSome),
      ("as_instance", .bool v.inst?.isSome),
      ("as_exception", .bool v.exception?.isSome)]
  | .new cls args => do
    let c ← evalClass p "class" cls
    let args ← evalArguments p args
    return .value (← Exec.task (instantiate p.realm c args))
  | .getAttribute obj name => do
    let v ← eval p obj
    let name ← Exec.field name
    return .value (← Exec.task (getAttribute p.realm v name))
  | .setAttribute obj name value => do
    let id ← evalHolder p Fault.notSettable obj
    let name ← Exec.field name
    let value ← eval p value
    Exec.program (.send (.setAttribute id name value))
    return .null
  | .ownAttribute obj name => do
    let v ← eval p obj
    let own ← match ownAttribute? v with
      | some own => pure own
      | none => Exec.fault (.noAttributeTable v.kind)
    let name ← Exec.field name
    return .value? (own (← Exec.host) name)
  | .attributes obj => do
    let id ← evalHolder p Fault.noAttributeTable obj
    return .texts ((← Exec.host).heap.attributes id).sortedKeys
  | .functionInfo fn => do
    let f ← evalFunction p "fn" fn
    return .record [
      ("name", .text f.name),
      ("arity", match f.arity with
        | some n => .number n
        | none => .null)]
  | .bind receiver fn => do
    let receiver ← eval p receiver
    let f ← evalFunction p "fn" fn
    return .value (← Exec.program (bindMethod receiver f)).toValue
  | .call fn args => do
    let v ← eval p fn
    let apply ← match applicable? v with
      | some apply => pure apply
      | none => Exec.fault (.notCallable v.kind)
    let args ← evalArguments p args
    return .value (← Exec.task (apply args))
  | .describe method => do
    let m ← evalMethod p "method" method
    return .text (← Exec.task (describe p.realm m))
  | .describeRaw method => do
    let m ← evalMethod p "method" method
    return .text (← Exec.checked m.describe)
  | .methodParts method => do
    let m ← evalMethod p "method" method
    return .list [.value m.receiver, .value (.function m.callable)]

end ObjectHost.Script
