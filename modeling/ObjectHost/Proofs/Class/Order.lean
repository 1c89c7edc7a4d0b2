-- SUMMARY: The classes of a registry in their order, by identity along the way up and by name.
import ObjectHost.Proofs.Class.Ownership

/-!
# The order of classes

One class is beneath another if the way up from it comes by the other. Classes
are told apart there by what they are, and a user sees names only. In a registry
the two views agree: names are used once, and what is met on the way up was
defined before.
-/

namespace ObjectHost

namespace Class

variable {c d e : Class}

/-- What a class has for ancestors, its ancestors have in common with it. -/
theorem ancestors_suffix_of_mem (h : c ∈ d.ancestors) : c.ancestors <:+ d.ancestors := by
  induction d with
  | root home =>
    cases List.mem_singleton.1 h
    exact List.suffix_refl _
  | sub index name parent ih =>
    rcases List.mem_cons.1 h with rfl | h
    · exact List.suffix_refl _
    · exact (ih h).trans (List.suffix_cons _ _)

theorem ancestors_trans (hcd : d ∈ c.ancestors) (hde : e ∈ d.ancestors) : e ∈ c.ancestors :=
  (ancestors_suffix_of_mem hcd).subset hde

/-- Of two classes on one way up, the one that is met later is on the way up from the other. -/
theorem mem_ancestors_or_mem_ancestors (hd : d ∈ c.ancestors) (he : e ∈ c.ancestors) :
    e ∈ d.ancestors ∨ d ∈ e.ancestors := by
  rcases List.suffix_or_suffix_of_suffix (ancestors_suffix_of_mem hd) (ancestors_suffix_of_mem he) with h | h
  · exact .inr (h.subset d.self_mem_ancestors)
  · exact .inl (h.subset e.self_mem_ancestors)

/-- The way up is by parents. -/
theorem mem_ancestors_iff_iterate :
    d ∈ c.ancestors ↔ ∃ i, (fun a : Option Class => a.bind parent?)^[i] (some c) = some d := by
  rw [List.mem_iff_getElem?]
  exact exists_congr fun i => by rw [getElem?_ancestors]

theorem name_mem_ancestryNames (c : Class) : c.name ∈ c.ancestryNames := List.mem_map_of_mem c.self_mem_ancestors

theorem ancestryNames_suffix_of_mem (h : d ∈ c.ancestors) : d.ancestryNames <:+ c.ancestryNames :=
  (ancestors_suffix_of_mem h).map name

end Class

namespace Registry.WellFormed

variable {r : Registry} {c d : Class}

theorem eq_of_name_eq (h : r.WellFormed) (hc : c ∈ r.classes) (hd : d ∈ r.classes) (hname : c.name = d.name) :
    c = d := by
  have hget := h.get?_of_mem hc
  rw [hname, h.get?_of_mem hd] at hget
  exact (Option.some.inj hget).symm

theorem eq_of_index_eq (h : r.WellFormed) (hc : c ∈ r.classes) (hd : d ∈ r.classes) (hindex : c.index = d.index) :
    c = d := by
  have hget := h.getElem?_index hc
  rw [hindex, h.getElem?_index hd] at hget
  exact (Option.some.inj hget).symm

/-- Ancestors are defined before, so of two classes only one can be an ancestor of the other. -/
theorem eq_of_mem_ancestors (h : r.WellFormed) (hc : c ∈ r.classes) (hd : d ∈ r.classes) (hcd : d ∈ c.ancestors)
    (hdc : c ∈ d.ancestors) : c = d := by
  have hle := (h.pairwise_ancestors hc).1 d hcd
  have hge := (h.pairwise_ancestors hd).1 c hdc
  exact h.eq_of_index_eq hc hd (Nat.le_antisymm hge hle)

/-- An ancestor is a class of the registry, and there is no other of its name. -/
theorem mem_ancestors_of_name_mem (h : r.WellFormed) (hc : c ∈ r.classes) (hd : d ∈ r.classes)
    (hname : d.name ∈ c.ancestryNames) : d ∈ c.ancestors := by
  obtain ⟨a, ha, hsame⟩ := List.mem_map.1 hname
  rw [← h.eq_of_name_eq (h.ancestors_subset hc a ha) hd hsame]
  exact ha

theorem root_mem_ancestors (h : r.WellFormed) (hc : c ∈ r.classes) : r.root ∈ c.ancestors :=
  List.mem_of_getLast? (h.getLast?_ancestors hc)

end Registry.WellFormed

/-- Whatever definitions a registry went through, its classes are partially ordered by being a subclass: every class is
    a subclass of itself, a subclass of a subclass is one too, and two classes are not subclasses of each other. The
    root, `object`, is above all of them, and of two classes above a third one is above the other. To be a subclass is
    to come to the other class by going from parent to parent. It can be read off the names alone, in two ways: the
    names on the way up from the superclass end those on the way up from the subclass, and the name of the superclass
    is among them. -/
theorem subclass_order_shows_in_names (home : RealmId) (calls : List Definition) :
    let r := Registry.after home calls
    (∀ c ∈ r.classes, c.isSubclassOf c = true) ∧
    (∀ c ∈ r.classes, ∀ d e, c.isSubclassOf d = true → d.isSubclassOf e = true → c.isSubclassOf e = true) ∧
    (∀ c ∈ r.classes, ∀ d ∈ r.classes, c.isSubclassOf d = true → d.isSubclassOf c = true → c = d) ∧
    (∃ object ∈ r.classes, object.name = "object" ∧ ∀ c ∈ r.classes, c.isSubclassOf object = true) ∧
    (∀ c ∈ r.classes, ∀ d e, c.isSubclassOf d = true → c.isSubclassOf e = true →
      d ∈ r.classes ∧ e ∈ r.classes ∧ (d.isSubclassOf e = true ∨ e.isSubclassOf d = true)) ∧
    ∀ c ∈ r.classes, ∀ d ∈ r.classes,
      (c.isSubclassOf d = true ↔ ∃ i, (fun a : Option Class => a.bind Class.parent?)^[i] (some c) = some d) ∧
      (c.isSubclassOf d = true ↔ d.ancestryNames <:+ c.ancestryNames) ∧
      (c.isSubclassOf d = true ↔ d.name ∈ c.ancestryNames) := by
  intro r
  have h : r.WellFormed := .after home calls
  simp only [Class.isSubclassOf_iff]
  refine ⟨fun c _ => c.self_mem_ancestors, fun c _ d e => Class.ancestors_trans,
    fun c hc d hd => h.eq_of_mem_ancestors hc hd,
    ⟨r.root, h.root_mem, rfl, fun c hc => h.root_mem_ancestors hc⟩, ?_, ?_⟩
  · intro c hc d e hd he
    exact ⟨h.ancestors_subset hc d hd, h.ancestors_subset hc e he, Class.mem_ancestors_or_mem_ancestors hd he⟩
  · intro c hc d hd
    refine ⟨Class.mem_ancestors_iff_iterate, ⟨Class.ancestryNames_suffix_of_mem, fun hsuffix => ?_⟩,
      ⟨fun hmem => List.mem_map_of_mem hmem, h.mem_ancestors_of_name_mem hc hd⟩⟩
    exact h.mem_ancestors_of_name_mem hc hd (hsuffix.subset d.name_mem_ancestryNames)

/-- `A` with two classes beneath it, of which `X` has one too. The second `A` is refused. -/
def branching : List Definition :=
  let a := Class.sub 1 "A" (.root 0)
  [⟨"A", none, []⟩, ⟨"X", some a, []⟩, ⟨"Z", some a, []⟩, ⟨"A", none, []⟩, ⟨"B", some (.sub 2 "X" a), []⟩]

/-- The names tell that `B` is beneath `A` and `X` and not beneath `Z`, and of `A` and `X` which is above the other. -/
theorem subclass_order_shows_in_names_branching :
    let r := Registry.after 0 branching
    let a := Class.sub 1 "A" (.root 0)
    let x := Class.sub 2 "X" a
    let z := Class.sub 3 "Z" a
    let b := Class.sub 4 "B" x
    (a ∈ r.classes ∧ x ∈ r.classes ∧ z ∈ r.classes ∧ b ∈ r.classes) ∧ b.ancestryNames = ["B", "X", "A", "object"] ∧
      b.isSubclassOf a = true ∧ b.isSubclassOf x = true ∧ b.isSubclassOf z = false ∧
      a.ancestryNames <:+ b.ancestryNames ∧ x.isSubclassOf a = true := by
  intro r a x z b
  have hmem : a ∈ r.classes ∧ x ∈ r.classes ∧ z ∈ r.classes ∧ b ∈ r.classes := by decide
  obtain ⟨ha, hx, hz, hb⟩ := hmem
  obtain ⟨-, -, -, -, htotal, hnames⟩ := subclass_order_shows_in_names 0 branching
  have hba : b.isSubclassOf a = true := (hnames b hb a ha).2.2.2 (by decide)
  have hbx : b.isSubclassOf x = true := (hnames b hb x hx).2.2.2 (by decide)
  have hbz : b.isSubclassOf z = false :=
    Bool.eq_false_iff.2 fun hsub => absurd ((hnames b hb z hz).2.2.1 hsub) (by decide)
  have hxa : x.isSubclassOf a = true := (htotal b hb a x hba hbx).2.2.resolve_left (by decide)
  exact ⟨⟨ha, hx, hz, hb⟩, rfl, hba, hbx, hbz, (hnames b hb a ha).2.1.1 hba, hxa⟩

end ObjectHost
