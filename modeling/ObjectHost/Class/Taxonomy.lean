-- SUMMARY: Building a declared forest into a registry, and the exception classes that result.
import ObjectHost.Class.Builtin
import ObjectHost.Class.Registry
import ObjectHost.Failure.Raised

/-!
# Taxonomies

A forest is installed class by class in pre-order: each class is defined in the
registry and entered into the builtin namespace under its own name. The first
refused definition ends the installation; what was installed before stays.
-/

namespace ObjectHost

/-- The builtin namespace. -/
abbrev Builtins := Table Value

def Builtins.class? (b : Builtins) (name : String) : Option Class := (b.get? name).bind Value.class?

/-- Where classes are installed. -/
structure Installation where
  classes : Registry
  builtins : Builtins
deriving DecidableEq

/-- An installation step keeps its effects when it fails. -/
abbrev Install := ExceptT ObjectError (StateM Installation)

namespace Installation

/-- Defines a class and enters it into the builtin namespace. -/
def define (name : String) (parent : Class) : Install Class := fun i =>
  match i.classes.define name (some parent) [] with
  | .ok (cls, classes) => (.ok cls, ⟨classes, i.builtins.insert name (.cls cls)⟩)
  | .error e => (.error e, i)

end Installation

namespace ClassNode

mutual

/-- Installs a tree beneath `parent` and lists the new classes in pre-order. -/
def install (parent : Class) : ClassNode → Install (List Class)
  | .node name children => do
    let cls ← Installation.define name parent
    let below ← installForest cls children
    return cls :: below

def installForest (parent : Class) : List ClassNode → Install (List Class)
  | [] => return []
  | tree :: trees => do
    let first ← tree.install parent
    let rest ← installForest parent trees
    return first ++ rest

end

end ClassNode

def Forest.install (forest : Forest) (base : Class) : Install (List Class) :=
  ClassNode.installForest base forest

/-! ## Exception classes -/

/-- The exception classes of a realm by name, and what its exceptions are prefaced with. -/
structure Taxonomy where
  base : Class
  qualifier : String
  byName : Table Class
deriving DecidableEq

namespace Taxonomy

def new (base : Class) (qualifier : String) (classes : List Class) : Taxonomy where
  base := base
  qualifier := qualifier
  byName := (Table.ofList (classes.map fun c => (c.name, c))).insert base.name base

def class? (t : Taxonomy) (name : String) : Option Class := t.byName.get? name

/-- A name that no exception class has stands for the base. -/
def classFor (t : Taxonomy) (name : String) : Class := (t.class? name).getD t.base

def isExceptionClass (t : Taxonomy) (c : Class) : Bool := c.isSubclassOf t.base

/-- The exception of class `cls` made as object `id`. -/
def exception (t : Taxonomy) (id : ObjectId) (cls : Class) (message : Value) : Exception :=
  ⟨id, cls, message, t.qualifier⟩

/-- The payload is the first argument; without arguments it is the empty text. -/
def payload (args : List Value) : Value := args.head?.getD (.str "")

end Taxonomy

end ObjectHost
