-- SUMMARY: Classes as handles that carry their whole ancestry.

/-!
# Classes

A class is either the root of its home or was defined beneath a parent. The
handle carries the chain of definitions up to the root, so ancestry is
recursion on the class; what a class holds besides is kept by the registry
that defined it.

Two handles are equal exactly when they stand for the same definition: the
home tells registries apart, the index tells the definitions of one registry
apart.
-/

namespace ObjectHost

/-- Realms, and the class registries they own, are numbered. -/
abbrev RealmId := Nat

inductive Class where
  | root (home : RealmId)
  | sub (index : Nat) (name : String) (parent : Class)
deriving DecidableEq

namespace Class

def rootName : String := "object"

def name : Class → String
  | .root _ => rootName
  | .sub _ name _ => name

/-- The position in the order of definition; the root is first. -/
def index : Class → Nat
  | .root _ => 0
  | .sub index _ _ => index

def parent? : Class → Option Class
  | .root _ => none
  | .sub _ _ parent => some parent

def home : Class → RealmId
  | .root home => home
  | .sub _ _ parent => parent.home

/-- Whether two handles are of one definition, which the registry and the position there tell. -/
def is (c d : Class) : Bool := decide (c.home = d.home ∧ c.index = d.index)

/-- The class itself, its parent and so on to the root. -/
def ancestors : Class → List Class
  | .root home => [.root home]
  | .sub index name parent => .sub index name parent :: parent.ancestors

def ancestryNames (c : Class) : List String := c.ancestors.map name

/-- Every class is a subclass of itself. -/
def isSubclassOf (c d : Class) : Bool := decide (d ∈ c.ancestors)

/-! ## Ancestry -/

theorem self_mem_ancestors (c : Class) : c ∈ c.ancestors := by
  cases c <;> simp [ancestors]

theorem home_of_mem_ancestors {c d : Class} (h : d ∈ c.ancestors) : d.home = c.home := by
  induction c with
  | root home => simp [ancestors] at h; simp [h]
  | sub index name parent ih =>
    simp only [ancestors, List.mem_cons] at h
    cases h with
    | inl h => rw [h]
    | inr h => exact ih h

theorem root_mem_ancestors (c : Class) : .root c.home ∈ c.ancestors := by
  induction c with
  | root home => simp [ancestors, Class.home]
  | sub index name parent ih => simp [ancestors, Class.home, ih]

@[simp] theorem isSubclassOf_iff {c d : Class} : c.isSubclassOf d = true ↔ d ∈ c.ancestors := by
  simp [isSubclassOf]

end Class

end ObjectHost
