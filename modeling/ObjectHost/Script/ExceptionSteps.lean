-- SUMMARY: Steps that make, examine and raise exceptions.
import ObjectHost.Script.Execution

/-!
# Exception steps
-/

namespace ObjectHost.Script

def runExceptionStep (p : Place) : ExceptionStep → Exec Report
  | .new name message => do
    let name ← Exec.field name
    let message ← eval p message
    return .value (← Exec.program (.send (.newException p.realm name message))).toValue
  | .make cls args => do
    let c ← evalClass p "class" cls
    let args ← evalArguments p args
    let made ← Exec.program (.send (.makeException p.realm c args))
    return .value (← Exec.checked made).toValue
  | .info value => do
    let e ← evalException p "value" value
    return .record [
      ("class", .value (.cls e.cls)),
      ("message", .value e.message),
      ("text", .text e.text),
      ("full", .text e.fullText)]
  | .isInstance value cls => do
    let e ← evalException p "value" value
    let c ← evalClass p "class" cls
    return .bool (e.isInstanceOf c)
  | .classNamed name => do
    let name ← Exec.field name
    return .class? ((← Exec.realmOf p).taxonomy.class? name)
  | .isExceptionClass cls => do
    let c ← evalClass p "class" cls
    return .bool ((← Exec.realmOf p).taxonomy.isExceptionClass c)
  | .raise name message => do
    let name ← Exec.field name
    let message ← eval p message
    Exec.task (Task.raise p.realm name message)
  | .throw value => do
    let e ← evalException p "value" value
    Exec.task (Task.fail (.exception e))
  | .host failure => do
    let failure ← Exec.field failure
    Exec.task (Task.fail (.host failure))
  | .importError name => do
    let name ← Exec.field name
    Exec.task (raiseImportError p.realm name)
  | .raiseError error => do
    let e ← Exec.field error
    throw (.raised (← Exec.program (raisedOf p.realm e)))

end ObjectHost.Script
