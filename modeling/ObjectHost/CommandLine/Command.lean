-- SUMMARY: The commands of the inspection tool and what they answer.
import ObjectHost.Path.ModuleName
import ObjectHost.Program.Import

/-!
# Commands

Each command starts a fresh realm, if it needs one, and answers with a text.
-/

namespace ObjectHost.CommandLine

inductive Command where
  /-- The class tree beneath a class. -/
  | taxonomy (root : String)
  /-- The names from a class up to the root. -/
  | ancestry (cls : String)
  /-- What an import means when exactly the given modules are registered. -/
  | resolve (name caller : String) (modules : List String)
  /-- The module name of a file. -/
  | moduleName (path base : String)
deriving DecidableEq

inductive CommandError where
  | unknownClass (name : String)
  | notAModule (path base : String)
  | raised (r : Raised)
  | bootstrap (e : ObjectError)
deriving DecidableEq

namespace CommandError

def message : CommandError → String
  | .unknownClass name => "unknown class `" ++ name ++ "`"
  | .notAModule path base => "`" ++ path ++ "` is not a module beneath `" ++ base ++ "`"
  | .raised r => r.text
  | .bootstrap e => e.message

/-- What the tool prints; a realm that cannot be started is shown with its diagnostic. -/
def report : CommandError → String
  | .bootstrap e => e.diagnostic
  | e => "error: " ++ e.message

end CommandError

/-! ## Classes -/

def startRealm (config : Config) : Except CommandError (RealmId × Host) :=
  match Host.empty.boot config with
  | (.ok id, host) => .ok (id, host)
  | (.error e, _) => .error (.bootstrap e)

def classNamed (realm : Realm) (name : String) : Except CommandError Class :=
  match realm.classes.get? name with
  | some c => .ok c
  | none => .error (.unknownClass name)

def taxonomy (config : Config) (root : String) : Except CommandError String := do
  let (id, host) ← startRealm config
  let realm := host.realm id
  return realm.classes.renderTree (← classNamed realm root)

def ancestry (config : Config) (cls : String) : Except CommandError String := do
  let (id, host) ← startRealm config
  let c ← classNamed (host.realm id) cls
  return Text.joinWith " -> " c.ancestryNames ++ "\n"

/-! ## Modules -/

/-- The guest of stub modules: every factory makes an empty module. -/
def stubs : Guest Unit where
  call _ _ := return .none
  load _ ctx := (ctx.newModule : Program Unit Module)

/-- Registers a stub under each name. -/
def registerStubs (realm : RealmId) : List String → Program Unit Unit
  | [] => return ()
  | name :: names => do
    let _ ← Program.send (.register realm name ⟨0, realm⟩)
    registerStubs realm names

/-- Resolves a name among stubs and loads what it means. -/
def resolveStub (realm : RealmId) (requested caller : String) : Task Unit (Module × Name.Resolution) := do
  let found ← (Program.query fun h => (h.realm realm).resolve? requested caller :
    Program Unit (Option Name.Resolution))
  match found with
  | some r => return (← loadResolved realm r.name, r)
  | none => raiseImportError realm requested

def resolve (config : Config) (requested caller : String) (modules : List String) :
    Except CommandError String := do
  let (id, host) ← startRealm config
  let program : Task Unit (Module × Name.Resolution) := do
    (registerStubs id modules : Program Unit Unit)
    resolveStub id requested caller
  match (program.run.run (stubs.runner 1) ⟨host, ()⟩).1 with
  | .ok (m, r) => return m.fqName ++ " (" ++ r.tier.label ++ ")\n"
  | .error r => throw (.raised r)

/-- A base that stands for the current directory opens no relative path; the empty base opens them all. -/
def effectiveBase (base : String) : String := if Path.parse base = [.here] then "" else base

def moduleName (path base : String) : Except CommandError String :=
  let base := effectiveBase base
  match Path.moduleName? (Path.parse path) (Path.parse base) with
  | some name => .ok (name ++ "\n")
  | none => .error (.notAModule path base)

def Command.run (config : Config) : Command → Except CommandError String
  | .taxonomy root => CommandLine.taxonomy config root
  | .ancestry cls => CommandLine.ancestry config cls
  | .resolve name caller modules => CommandLine.resolve config name caller modules
  | .moduleName path base => CommandLine.moduleName path base

end ObjectHost.CommandLine
