-- SUMMARY: Registries of classes: definition, look-up and the tree beneath a class.
import ObjectHost.Failure.ObjectError
import ObjectHost.Table
import ObjectHost.Value.Basic

/-!
# Class registries

A registry holds the classes defined in it, oldest first, beginning with its
root, and finds them by name in a table of its own. Names are used once, a
parent is one of the registry's own classes, and neither a class nor its members
change once defined.
-/

namespace ObjectHost

structure ClassEntry where
  cls : Class
  members : Table Value
deriving DecidableEq

structure Registry where
  home : RealmId
  entries : List ClassEntry
  /-- The same classes by name. -/
  byName : Table Class
deriving DecidableEq

namespace Registry

def root (r : Registry) : Class := .root r.home

/-- A registry with nothing but its root. -/
def new (home : RealmId) : Registry :=
  ⟨home, [⟨.root home, ∅⟩], Table.empty.insert Class.rootName (.root home)⟩

def classes (r : Registry) : List Class := r.entries.map ClassEntry.cls

def size (r : Registry) : Nat := r.entries.length

def names (r : Registry) : List String := r.classes.map Class.name

def get? (r : Registry) (name : String) : Option Class := r.byName.get? name

def contains (r : Registry) (name : String) : Bool := (r.get? name).isSome

def require (r : Registry) (name : String) : Except ObjectError Class :=
  match r.get? name with
  | some c => .ok c
  | none => .error (.unknownClass name)

/-- Whether `c` itself, and not another class of its name, was defined here. -/
def owns (r : Registry) (c : Class) : Bool := decide (r.get? c.name = some c)

/-- Appends a class beneath `parent`, which defaults to the root. A name in use is the first thing refused. -/
def define (r : Registry) (name : String) (parent : Option Class) (members : List (String × Value)) :
    Except ObjectError (Class × Registry) :=
  let parent := parent.getD r.root
  if r.contains name then .error (.duplicateDefinition name)
  else if r.owns parent then
    let cls := .sub r.size name parent
    .ok (cls, { r with
      entries := r.entries ++ [⟨cls, .ofList members⟩]
      byName := r.byName.insert name cls })
  else .error (.unknownClass parent.name)

/-! ## Members -/

def members (r : Registry) (c : Class) : Table Value :=
  match r.entries.find? fun e => decide (e.cls = c) with
  | some e => e.members
  | none => ∅

/-- The member that `c` itself defines. -/
def member? (r : Registry) (c : Class) (name : String) : Option Value := (r.members c).get? name

/-- The member of the nearest class in the ancestry that defines it. -/
def lookup? (r : Registry) (c : Class) (name : String) : Option Value :=
  c.ancestors.findSome? fun a => r.member? a name

/-! ## The tree beneath a class -/

def children (r : Registry) (c : Class) : List Class :=
  r.classes.filter fun d => decide (d.parent? = some c)

/-- The descendants of `c` among `later`, each with its depth, a class before its children. What descends from a
    class is defined after it, so each child finds its own descendants behind it. -/
def descendants (c : Class) (depth : Nat) : (later : List Class) → List (Nat × Class)
  | [] => []
  | d :: later =>
    if d.parent? = some c then (depth, d) :: descendants d (depth + 1) later ++ descendants c depth later
    else descendants c depth later

/-- The class and its descendants in pre-order, each with its depth. -/
def subtree (r : Registry) (c : Class) : List (Nat × Class) := (0, c) :: descendants c 1 r.classes

def treeLine (depth : Nat) (c : Class) : String :=
  String.ofList (List.replicate (2 * depth) ' ') ++ c.name ++ "\n"

def renderTree (r : Registry) (c : Class) : String :=
  (r.subtree c).foldl (fun text line => text ++ treeLine line.1 line.2) ""

end Registry

end ObjectHost
