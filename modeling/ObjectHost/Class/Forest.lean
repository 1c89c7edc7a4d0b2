-- SUMMARY: Declarative class forests and the table questions they answer.

/-!
# Class forests

A forest names classes and nests each beneath its parent. It is read in
pre-order: a node before its children, siblings from left to right. Where a
name occurs more than once, its first visit counts.
-/

namespace ObjectHost

inductive ClassNode where
  | node (name : String) (children : List ClassNode)

abbrev Forest := List ClassNode

namespace ClassNode

/-- A node as it is met in pre-order: its name, the name it hangs beneath, and how many children it has. -/
structure Visit where
  name : String
  parent : String
  children : Nat
deriving DecidableEq

mutual

def visits (parent : String) : ClassNode → List Visit
  | .node name children => ⟨name, parent, children.length⟩ :: forestVisits name children

def forestVisits (parent : String) : List ClassNode → List Visit
  | [] => []
  | tree :: trees => tree.visits parent ++ forestVisits parent trees

end

mutual

/-- How many classes the tree declares. -/
def count : ClassNode → Nat
  | .node _ children => forestCount children + 1

def forestCount : List ClassNode → Nat
  | [] => 0
  | tree :: trees => tree.count + forestCount trees

end

end ClassNode

namespace Forest

open ClassNode (Visit)

/-- The pre-order of the forest beneath `base`. -/
def visits (base : String) (forest : Forest) : List Visit := ClassNode.forestVisits base forest

def parent? (base : String) (forest : Forest) (name : String) : Option String :=
  ((forest.visits base).find? fun visit => decide (visit.name = name)).map Visit.parent

def contains (base : String) (forest : Forest) (name : String) : Bool :=
  decide (name = base) || (forest.parent? base name).isSome

/-- The names from `name` up to a child of `base`, read off visits listed latest first: a name's first visit
    names its parent, and that parent was visited before. -/
def chain (base : String) : List Visit → String → List String
  | [], _ => []
  | visit :: earlier, name =>
    if visit.name = name ∧ name ∉ earlier.map Visit.name then
      name :: if visit.parent = base then [] else chain base earlier visit.parent
    else chain base earlier name

/-- The names from `name` up to a child of `base`; none if the forest does not declare `name`. -/
def ancestry (base : String) (forest : Forest) (name : String) : List String :=
  chain base (forest.visits base).reverse name

end Forest

end ObjectHost
