-- SUMMARY: Dotted module names: enclosing package, child and sibling.
import ObjectHost.Text.Split

/-!
# Dotted names

A fully qualified module name is a sequence of segments joined by dots. The
operations here are purely textual: they hold for every string, also one with
leading, doubled or trailing dots, and never ask whether a module exists.
-/

namespace ObjectHost.Name

def separator : Char := '.'

/-- The enclosing package: what stands before the last dot. -/
def parent? (name : String) : Option String :=
  (Text.splitLast separator name.toList).map fun parts => String.ofList parts.1

def child (parent requested : String) : String := parent ++ "." ++ requested

/-- `requested` in the package that encloses `caller`. -/
def sibling? (caller requested : String) : Option String :=
  (parent? caller).map fun package => child package requested

theorem toList_child (parent requested : String) :
    (child parent requested).toList = parent.toList ++ separator :: requested.toList := by
  simp [child, separator]

theorem parent?_eq_none_iff {name : String} : parent? name = none ↔ separator ∉ name.toList := by
  simp [parent?, Text.splitLast_eq_none_iff]

/-- The last segment of a child is its own, so what stands before it is the parent. -/
theorem parent?_child (parent : String) {leaf : String} (h : separator ∉ leaf.toList) :
    parent? (child parent leaf) = some parent := by
  rw [parent?, toList_child, Text.splitLast_append h, Option.map_some, String.ofList_toList]

/-- A name inside of a package is a child of that package. -/
theorem eq_child_of_parent? {name parent : String} (h : parent? name = some parent) :
    ∃ leaf, separator ∉ leaf.toList ∧ name = child parent leaf := by
  obtain ⟨⟨front, back⟩, hsplit, rfl⟩ := Option.map_eq_some_iff.1 h
  obtain ⟨hname, hback⟩ := Text.splitLast_eq_some_iff.1 hsplit
  refine ⟨String.ofList back, by rwa [String.toList_ofList], ?_⟩
  rw [← String.toList_inj, toList_child, String.toList_ofList, String.toList_ofList, hname]

end ObjectHost.Name
