-- SUMMARY: Realms: the classes, builtins, exception taxonomy and module tables of one running system.
import ObjectHost.Class.Taxonomy
import ObjectHost.Module.Loader
import ObjectHost.Name.Resolution

/-!
# Realms

A realm is started from a configuration. It then has the core classes and the
builtin exception classes, each of them one object in its registry, in its
builtin namespace and, for exceptions, in its taxonomy; its module tables are
empty.
-/

namespace ObjectHost

/-- What becomes of an import of a module whose factory is still running. -/
inductive CyclePolicy where
  | reenter
  | failFast
deriving DecidableEq

def CyclePolicy.label : CyclePolicy → String
  | .reenter => "reenter"
  | .failFast => "fail-fast"

def CyclePolicy.ofLabel? (label : String) : Option CyclePolicy :=
  if label = "reenter" then some .reenter
  else if label = "fail-fast" then some .failFast
  else none

structure Config where
  qualifier : String := Builtin.defaultQualifier
  cycles : CyclePolicy := .reenter
deriving DecidableEq

structure CoreClasses where
  object : Class
  function : Class
  method : Class
  module : Class
deriving DecidableEq

structure Realm where
  config : Config
  classes : Registry
  core : CoreClasses
  builtins : Builtins
  taxonomy : Taxonomy
  factories : Table Code
  loader : Loader
deriving DecidableEq

namespace Realm

/-- Installs the core classes and the builtin exceptions beneath `root`, with the base of the exceptions and all
    classes beneath it. -/
def installBuiltins (root : Class) : Install (CoreClasses × Class × List Class) := do
  let function ← Installation.define Builtin.functionClass root
  let method ← Installation.define Builtin.methodClass root
  let module ← Installation.define Builtin.moduleClass root
  let base ← Installation.define Builtin.baseException root
  let exceptions ← Builtin.exceptions.install base
  return (⟨root, function, method, module⟩, base, exceptions)

def bootstrap (id : RealmId) (config : Config) : Except ObjectError Realm :=
  let root := Class.root id
  let start : Installation := ⟨.new id, Table.empty.insert root.name (.cls root)⟩
  match (installBuiltins root).run start with
  | (.error e, _) => .error e
  | (.ok (core, base, exceptions), installed) =>
    .ok {
      config := config
      classes := installed.classes
      core := core
      builtins := installed.builtins
      taxonomy := .new base config.qualifier exceptions
      factories := ∅
      loader := .empty }

/-- A realm that was never started knows its root and nothing else. -/
def vacant (id : RealmId) : Realm :=
  let root := Class.root id
  { config := {}
    classes := .new id
    core := ⟨root, root, root, root⟩
    builtins := ∅
    taxonomy := .new root Builtin.defaultQualifier []
    factories := ∅
    loader := .empty }

def resolve? (r : Realm) (requested caller : String) : Option Name.Resolution :=
  Name.resolve? r.factories.contains requested caller

/-- The class of a value; functions and methods take theirs from the realm. -/
def classOf? (r : Realm) (v : Value) : Option Class :=
  match v with
  | .function _ => some r.core.function
  | .method .. => some r.core.method
  | v => v.carriedClass?

end Realm

end ObjectHost
