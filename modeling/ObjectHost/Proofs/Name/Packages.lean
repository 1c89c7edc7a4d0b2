-- SUMMARY: The laws of dotted names: parents, children and siblings, and the packages around a name.
import Mathlib.Logic.Function.Iterate
import ObjectHost.Name.Dotted

/-!
# Packages

A child is taken apart at its last dot and nowhere else, so the last segment of
a name is the only one that its parent lacks. Everything about the packages
around a name follows from that, also where segments are empty.
-/

namespace ObjectHost.Name

/-- How many dots a name has. -/
def dots (name : String) : Nat := name.toList.count separator

/-- The package that is `k` steps out from a name. -/
def enclosing? (name : String) (k : Nat) : Option String :=
  (fun outer : Option String => outer.bind parent?)^[k] (some name)

theorem child_assoc (a b c : String) : child (child a b) c = child a (child b c) := by
  rw [← String.toList_inj]
  simp only [toList_child, List.append_assoc, List.cons_append]

theorem dots_child (parent requested : String) : dots (child parent requested) = dots parent + dots requested + 1 := by
  rw [dots, toList_child, List.count_append, List.count_cons_self, ← Nat.add_assoc]
  rfl

theorem dots_eq_zero_iff {name : String} : dots name = 0 ↔ parent? name = none :=
  List.count_eq_zero.trans parent?_eq_none_iff.symm

/-- Putting a name into a package puts its parent there. -/
theorem parent?_child_of_parent? (package : String) {name parent : String} (h : parent? name = some parent) :
    parent? (child package name) = some (child package parent) := by
  obtain ⟨leaf, hleaf, rfl⟩ := eq_child_of_parent? h
  rw [← child_assoc, parent?_child _ hleaf]

theorem sibling?_child (package : String) {leaf : String} (h : separator ∉ leaf.toList) (requested : String) :
    sibling? (child package leaf) requested = some (child package requested) := by
  rw [sibling?, parent?_child _ h, Option.map_some]

theorem enclosing?_succ (name : String) (k : Nat) :
    enclosing? name (k + 1) = (parent? name).bind fun parent => enclosing? parent k := by
  rw [enclosing?, Function.iterate_succ_apply, Option.bind_some]
  cases parent? name with
  | some parent => rfl
  | none => exact Function.iterate_fixed rfl k

/-- Every step out takes one dot off, and there is one as long as a dot is left. -/
theorem enclosing?_isSome_iff {name : String} {k : Nat} : (enclosing? name k).isSome = true ↔ k ≤ dots name := by
  induction k generalizing name with
  | zero => exact iff_of_true rfl (Nat.zero_le _)
  | succ k ih =>
    rw [enclosing?_succ]
    cases hparent : parent? name with
    | none =>
      rw [dots_eq_zero_iff.2 hparent]
      exact iff_of_false Bool.false_ne_true (Nat.not_succ_le_zero k)
    | some parent =>
      obtain ⟨leaf, hleaf, rfl⟩ := eq_child_of_parent? hparent
      rw [Option.bind_some, ih, dots_child, dots_eq_zero_iff.2 (parent?_eq_none_iff.2 hleaf), Nat.add_zero,
        Nat.add_le_add_iff_right]

/-- For all texts, with leading, doubled and trailing dots or none at all: a child has the parent that it was put
    into if its own name has one segment, and else the child of that parent that its own parent makes. Its siblings are
    the children of its parent. A name without dots has no parent, and any other is the child of its parent under
    exactly one name of one segment. Going from parent to parent is possible as many times as there are dots, and no
    more. Putting into a package what was put into another is putting it into the other one there. -/
theorem dotted_names_nest :
    (∀ p r, separator ∉ r.toList → parent? (child p r) = some p) ∧
    (∀ p r s, parent? r = some s → parent? (child p r) = some (child p s)) ∧
    (∀ p a r, separator ∉ a.toList → sibling? (child p a) r = some (child p r)) ∧
    (∀ n, (parent? n = none ↔ separator ∉ n.toList) ∧
      (separator ∈ n.toList → ∃ p, parent? n = some p ∧ ∃! leaf, separator ∉ leaf.toList ∧ n = child p leaf)) ∧
    (∀ n k, (enclosing? n k).isSome = true ↔ k ≤ dots n) ∧
    ∀ a b c, child (child a b) c = child a (child b c) := by
  refine ⟨fun p r => parent?_child p, fun p r s => parent?_child_of_parent? p, fun p a r h => sibling?_child p h r,
    fun n => ⟨parent?_eq_none_iff, fun hdot => ?_⟩, fun n k => enclosing?_isSome_iff, child_assoc⟩
  cases hparent : parent? n with
  | none => exact absurd hdot (parent?_eq_none_iff.1 hparent)
  | some p =>
    obtain ⟨leaf, hleaf, rfl⟩ := eq_child_of_parent? hparent
    exact ⟨p, rfl, leaf, ⟨hleaf, rfl⟩, fun other h => (String.append_right_inj _).1 h.2.symm⟩

/-- Empty segments count like any others: `.` is an empty name in an empty package, and `...a` is three steps from the
    outermost one. -/
theorem dotted_names_nest_emptySegments :
    (separator ∉ "".toList ∧ parent? (child "" "") = some "") ∧
    (parent? "..a" = some "." ∧ parent? (child "" "..a") = some (child "" ".")) ∧
    (separator ∉ "".toList ∧ sibling? (child "pkg" "") "b.c" = some (child "pkg" "b.c")) ∧
    (separator ∈ "a..".toList ∧ ∃ p, parent? "a.." = some p ∧ ∃! leaf, separator ∉ leaf.toList ∧ "a.." = child p leaf) ∧
    (3 ≤ dots "...a" ∧ (enclosing? "...a" 3).isSome = true) := by
  obtain ⟨hleaf, hnested, hsibling, hparent, hsteps, -⟩ := dotted_names_nest
  have hempty : separator ∉ "".toList := by decide
  have hname : parent? "..a" = some "." := by decide
  have hdot : separator ∈ "a..".toList := by decide
  have hthree : 3 ≤ dots "...a" := by decide
  exact ⟨⟨hempty, hleaf "" "" hempty⟩, ⟨hname, hnested "" "..a" "." hname⟩, ⟨hempty, hsibling "pkg" "" "b.c" hempty⟩,
    ⟨hdot, (hparent "a..").2 hdot⟩, hthree, (hsteps "...a" 3).2 hthree⟩

end ObjectHost.Name
