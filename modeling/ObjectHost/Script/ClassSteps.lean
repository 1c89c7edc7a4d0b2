-- SUMMARY: Steps that define classes and ask about them.
import ObjectHost.Script.Execution

/-!
# Class steps
-/

namespace ObjectHost.Script

def evalMembers (p : Place) : List (Field (String × Expr)) → Exec (List (String × Value))
  | [] => return []
  | member :: members => do
    let (name, e) ← Exec.field member
    let v ← eval p e
    return (name, v) :: (← evalMembers p members)

def runClassStep (p : Place) : ClassStep → Exec Report
  | .define parent members name => do
    let parent ← evalOptionalClass p "parent" parent
    let members ← evalMembers p (← Exec.field members)
    let name ← Exec.field name
    let defined ← Exec.program (.send (.define p.realm name parent members))
    return .value (.cls (← Exec.checked defined))
  | .info cls => do
    let c ← evalClass p "class" cls
    let members := ((← Exec.host).realm c.home).classes.members c
    return .record [
      ("name", .text c.name),
      ("index", .number c.index),
      ("parent", .class? c.parent?),
      ("members", .texts members.sortedKeys),
      ("ancestry", .texts c.ancestryNames)]
  | .member cls name => do
    let c ← evalClass p "class" cls
    let name ← Exec.field name
    return .value? ((← Exec.host).member? c name)
  | .lookup cls name => do
    let c ← evalClass p "class" cls
    let name ← Exec.field name
    return .value? ((← Exec.host).lookup? c name)
  | .isSubclass cls other => do
    let c ← evalClass p "class" cls
    let d ← evalClass p "of" other
    return .bool (c.isSubclassOf d)
  | .children cls => do
    let c ← evalClass p "class" cls
    return .list (((← Exec.realmOf p).classes.children c).map fun d => .value (.cls d))
  | .tree cls => do
    let c ← evalClass p "class" cls
    return .text ((← Exec.realmOf p).classes.renderTree c)
  | .get name => do
    let name ← Exec.field name
    return .class? ((← Exec.realmOf p).classes.get? name)
  | .require name => do
    let name ← Exec.field name
    return .value (.cls (← Exec.checked ((← Exec.realmOf p).classes.require name)))
  | .contains name => do
    let name ← Exec.field name
    return .bool ((← Exec.realmOf p).classes.contains name)
  | .owns cls => do
    let c ← evalClass p "class" cls
    return .bool ((← Exec.realmOf p).classes.owns c)
  | .all => do
    let classes := (← Exec.realmOf p).classes
    return .record [("len", .number classes.size), ("names", .texts classes.names)]
  | .core => do
    let r ← Exec.realmOf p
    let classes :=
      [r.classes.root, r.core.object, r.core.function, r.core.method, r.core.module, r.taxonomy.base]
    return .list (classes.map fun c => .value (.cls c))

end ObjectHost.Script
