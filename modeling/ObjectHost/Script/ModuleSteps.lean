-- SUMMARY: Steps on modules, their tables and the realms that hold them.
import ObjectHost.Script.Execution

/-!
# Module and realm steps
-/

namespace ObjectHost.Script

/-- The context of the factory that is running. -/
def ownContext (p : Place) : Exec Context :=
  match p.frame.context with
  | some ctx => return ctx
  | none => Exec.fault .noContext

def contextReport (h : Host) (ctx : Context) : Report :=
  let r := h.realm ctx.realm
  .record [
    ("fq_name", .text ctx.fqName),
    ("declared_name", .text ctx.declaredName),
    ("is_main", .bool ctx.isMain),
    ("builtins", .number r.builtins.size),
    ("classes", .number r.classes.size),
    ("qualifier", .text r.taxonomy.qualifier),
    ("cached", .texts r.loader.cache.sortedKeys),
    ("loading", .bool (r.loader.isLoading ctx.fqName))]

/-- The size and the sorted names of a table; the field of the names has a name of its own. -/
def tableReport {α : Type} (namesField : String) (t : Table α) : Report :=
  .record [("len", .number t.size), ("empty", .bool t.isEmpty), (namesField, .texts t.sortedKeys)]

def moduleReport (m : Module) : Report := .value (.module m)

def runModuleStep (p : Place) : ModuleStep → Exec Report
  | .register body name => do
    let body ← Exec.field body
    let name ← Exec.field name
    return .bool (← Exec.program (.send (.register p.realm name ⟨body, p.realm⟩)))
  | .resolve name caller => do
    let name ← Exec.field name
    let caller ← Exec.field caller
    match (← Exec.realmOf p).resolve? name (caller.getD "") with
    | some r => return .record [("fq_name", .text r.name), ("tier", .text r.tier.label)]
    | none => return .null
  | .importModule caller name => do
    let caller ← Exec.field caller
    let name ← Exec.field name
    match p.frame.context, caller with
    | some ctx, none => return moduleReport (← Exec.task (ctx.importModule name))
    | _, caller => return moduleReport (← Exec.task (importModule p.realm name (caller.getD "")))
  | .load name => do
    let name ← Exec.field name
    return moduleReport (← Exec.task (loadResolved p.realm name))
  | .getOrCreate name declared => do
    let name ← Exec.field name
    let declared ← Exec.field declared
    return moduleReport (← Exec.task (loadModule ⟨p.realm, name, declared⟩))
  | .run name display => do
    let name ← Exec.field name
    let display ← Exec.field display
    return moduleReport (← Exec.task (runModule p.realm name display))
  | .importFrom module name => do
    let m ← evalModule p "module" module
    let name ← Exec.field name
    return .value (← Exec.task (importFrom p.realm m name))
  | .cache => do return tableReport "names" (← Exec.realmOf p).loader.cache
  | .factories => do return tableReport "names" (← Exec.realmOf p).factories
  | .cached name => do
    let name ← Exec.field name
    return .value? (((← Exec.realmOf p).loader.cache.get? name).map .module)
  | .isCached name => do
    let name ← Exec.field name
    return .bool ((← Exec.realmOf p).loader.cache.contains name)
  | .isLoading name => do
    let name ← Exec.field name
    return .bool ((← Exec.realmOf p).loader.isLoading name)
  | .isRegistered name => do
    let name ← Exec.field name
    return .bool ((← Exec.realmOf p).factories.contains name)
  | .make fqName declared file cls => do
    let fqName ← Exec.field fqName
    let declared ← Exec.field declared
    let file ← Exec.field file
    let cls ← evalOptionalClass p "class" cls
    return moduleReport (← Exec.program (.send (.newModule fqName declared file cls)))
  | .info module => do
    let m ← evalModule p "module" module
    return .record [
      ("fq_name", .text m.fqName),
      ("declared_name", .text m.declaredName),
      ("file", .text? m.file),
      ("class", .class? m.cls),
      ("attrs", .texts ((← Exec.host).heap.attributes m.id).sortedKeys)]
  | .new => do return moduleReport (← Exec.program (← ownContext p).newModule)
  | .context fqName declared => do
    let fqName ← Exec.field fqName
    let ctx ← match fqName with
      | some fqName => do pure (⟨p.realm, fqName, ← Exec.field declared⟩ : Context)
      | none => ownContext p
    return contextReport (← Exec.host) ctx

def runRealmStep (p : Place) : RealmStep → Exec Report
  | .boot qualifier cycles name => do
    let qualifier ← Exec.field qualifier
    let cycles ← Exec.field cycles
    let name ← Exec.field name
    let config : Config :=
      ⟨qualifier.getD Builtin.defaultQualifier, cycles.getD .reenter⟩
    let id ← Exec.checked (← Exec.program (.send (.boot config)))
    Exec.modifySession fun s => { s with realms := s.realms.insert name id }
    return .null
  | .config => do
    let config := (← Exec.realmOf p).config
    return .record [("qualifier", .text config.qualifier), ("cycles", .text config.cycles.label)]
  | .builtins => do return tableReport "keys" (← Exec.realmOf p).builtins
  | .builtin name => do
    let name ← Exec.field name
    let builtins := (← Exec.realmOf p).builtins
    return .record [("contains", .bool (builtins.contains name)), ("class", .class? (Builtins.class? builtins name))]

end ObjectHost.Script
