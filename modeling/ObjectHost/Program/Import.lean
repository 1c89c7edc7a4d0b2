-- SUMMARY: Importing, loading and running modules, as programs.
import ObjectHost.Program.Object

/-!
# Modules at work
-/

namespace ObjectHost

variable {σ : Type}

def loadModule (ctx : Context) : Task σ Module := (.send (.load ctx) : Program σ (Except Raised Module))

def raiseImportError {α : Type} (realm : RealmId) (name : String) : Task σ α :=
  Task.raise realm Builtin.importError (.str ("Could not import \"" ++ name ++ "\"."))

/-- The module a name resolves to is loaded under that name. -/
def loadResolved (realm : RealmId) (name : String) : Task σ Module := loadModule ⟨realm, name, name⟩

/-- Imports what `requested` means to `caller`. -/
def importModule (realm : RealmId) (requested caller : String) : Task σ Module := do
  let resolution ← (Program.query fun h => (h.realm realm).resolve? requested caller :
    Program σ (Option Name.Resolution))
  match resolution with
  | some r => loadResolved realm r.name
  | none => raiseImportError realm requested

/-- Runs a registered module, shown under another name if one is given. -/
def runModule (realm : RealmId) (target : String) (displayName : Option String) : Task σ Module :=
  (.send (.enter ⟨realm, target, displayName.getD target⟩) : Program σ (Except Raised Module))

def importFrom (realm : RealmId) (m : Module) (name : String) : Task σ Value := do
  match ← (Program.query fun h => h.moduleAttribute? m name : Program σ (Option Value)) with
  | some v => return v
  | none =>
    Task.raise realm Builtin.attributeError (.str ("'module' object has no attribute '" ++ name ++ "'"))

namespace Context

/-- Imports on behalf of the module being made. -/
def importModule (c : Context) (requested : String) : Task σ Module :=
  ObjectHost.importModule c.realm requested c.fqName

/-- A new module with the names of the context and the module class of its realm. -/
def newModule (c : Context) : Program σ Module := do
  let cls ← Program.query fun h => (h.realm c.realm).core.module
  Program.send (.newModule c.fqName c.declaredName none (some cls))

end Context

end ObjectHost
