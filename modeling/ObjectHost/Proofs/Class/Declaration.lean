-- SUMMARY: A declared forest and the classes built from it tell the same about names, parents and ancestry.
import Mathlib.Data.List.Nodup
import ObjectHost.Proofs.Class.Installation

/-!
# Declared and defined

A forest can be asked about its names without any class being made: whether a
name is declared, what it is declared beneath, and what one meets on the way up.
The answers come from searching the visits by name, over and over, where the
classes know their parents. The two agree wherever the names are distinct, and
the search comes to an end in any case, since a node is visited after the one it
hangs beneath.
-/

namespace ObjectHost

open ClassNode (Visit)

/-! ## The way up through a table -/

namespace Forest

/-- Every visit is of a child of `base` or of a node that was visited before. The visits are listed latest first. -/
def Rooted (base : String) : List Visit → Prop
  | [] => True
  | visit :: earlier => (visit.parent = base ∨ visit.parent ∈ earlier.map Visit.name) ∧ Rooted base earlier

end Forest

theorem ClassNode.forestVisits_cons (parent name : String) (children trees : List ClassNode) :
    forestVisits parent (.node name children :: trees) =
      ⟨name, parent, children.length⟩ :: (forestVisits name children ++ forestVisits parent trees) :=
  rfl

theorem ClassNode.rooted_forestVisits {base : String} (forest : List ClassNode) {parent : String}
    {before : List Visit} (hbefore : Forest.Rooted base before)
    (hparent : parent = base ∨ parent ∈ before.map Visit.name) :
    Forest.Rooted base ((forestVisits parent forest).reverse ++ before) := by
  induction forest using forest_induction generalizing parent before with
  | nil => exact hbefore
  | cons name children trees ihc iht =>
    rw [forestVisits_cons, List.reverse_cons, List.reverse_append, List.append_assoc, List.append_assoc,
      List.singleton_append]
    have hnode : Forest.Rooted base (⟨name, parent, children.length⟩ :: before) := ⟨hparent, hbefore⟩
    apply iht (ihc hnode (.inr List.mem_cons_self))
    refine hparent.imp_right fun hmem => ?_
    rw [List.map_append]
    exact List.mem_append_right _ (List.mem_cons_of_mem _ hmem)

namespace Forest

variable {base name : String} {visits : List Visit}

/-- The parent that the first visit of `name` tells, the visits being listed latest first. -/
def firstParent? (visits : List Visit) (name : String) : Option String :=
  (visits.reverse.find? fun visit => decide (visit.name = name)).map Visit.parent

theorem firstParent?_cons (visit : Visit) (earlier : List Visit) (name : String) :
    firstParent? (visit :: earlier) name =
      (firstParent? earlier name).or (if visit.name = name then some visit.parent else none) := by
  unfold firstParent?
  rw [List.reverse_cons, List.find?_append, Option.map_or, List.find?_singleton]
  by_cases h : visit.name = name <;> simp [h]

theorem firstParent?_eq_none_iff : firstParent? visits name = none ↔ name ∉ visits.map Visit.name := by
  unfold firstParent?
  rw [Option.map_eq_none_iff, List.find?_eq_none]
  simp

theorem chain_of_not_mem (h : name ∉ visits.map Visit.name) : chain base visits name = [] := by
  induction visits with
  | nil => rfl
  | cons visit earlier ih =>
    obtain ⟨hne, hrest⟩ := not_or.1 fun hmem => h (List.mem_cons.2 hmem)
    unfold chain
    rw [if_neg fun hc => hne hc.1.symm]
    exact ih hrest

/-- Later visits of a name do not count. -/
theorem chain_cons_of_mem {visit : Visit} (h : name ∈ visits.map Visit.name) :
    chain base (visit :: visits) name = chain base visits name := by
  rw [chain, if_neg fun hc => hc.2 h]

/-- The chain goes on from the parent that the first visit tells, and stops beneath `base`. That parent is among the
    visits itself. -/
theorem chain_eq_cons (hrooted : Rooted base visits) {parent : String}
    (hparent : firstParent? visits name = some parent) :
    chain base visits name = name :: (if parent = base then [] else chain base visits parent) ∧
      (parent = base ∨ parent ∈ visits.map Visit.name) := by
  induction visits with
  | nil => cases hparent
  | cons visit earlier ih =>
    obtain ⟨hvisit, hearlier⟩ := hrooted
    rw [firstParent?_cons] at hparent
    cases hfirst : firstParent? earlier name with
    | some first =>
      -- The name was visited before, and so was its parent.
      have hmem : name ∈ earlier.map Visit.name := by
        by_contra hnot
        rw [firstParent?_eq_none_iff.2 hnot] at hfirst
        cases hfirst
      rw [hfirst] at hparent
      cases hparent
      obtain ⟨hchain, hknown⟩ := ih hearlier hfirst
      refine ⟨?_, hknown.imp_right (List.mem_cons_of_mem _)⟩
      rw [chain_cons_of_mem hmem, hchain]
      split
      next => rfl
      next hne => rw [chain_cons_of_mem (hknown.resolve_left hne)]
    | none =>
      have hnot := firstParent?_eq_none_iff.1 hfirst
      rw [hfirst, Option.none_or] at hparent
      split at hparent
      next hname =>
        cases hparent
        refine ⟨?_, hvisit.imp_right (List.mem_cons_of_mem _)⟩
        rw [chain, if_pos ⟨hname, hnot⟩]
        split
        next => rfl
        next hne => rw [chain_cons_of_mem (hvisit.resolve_left hne)]
      next => cases hparent

theorem length_chain_le (base : String) (visits : List Visit) (name : String) :
    (chain base visits name).length ≤ visits.length := by
  induction visits generalizing name with
  | nil => exact Nat.le_refl 0
  | cons visit earlier ih =>
    unfold chain
    split
    next =>
      split
      next => exact Nat.succ_le_succ (Nat.zero_le _)
      next => exact Nat.succ_le_succ (ih _)
    next => exact Nat.le_succ_of_le (ih _)

/-! ## The way up through a forest -/

variable {forest : Forest}

theorem rooted_visits (base : String) (forest : Forest) : Rooted base (forest.visits base).reverse := by
  have hrooted : Rooted base ((forest.visits base).reverse ++ []) :=
    ClassNode.rooted_forestVisits forest trivial (.inl rfl)
  rwa [List.append_nil] at hrooted

theorem firstParent?_visits (base : String) (forest : Forest) (name : String) :
    firstParent? (forest.visits base).reverse name = forest.parent? base name := by
  unfold firstParent?
  rw [List.reverse_reverse]
  rfl

theorem parent?_eq_none_iff :
    forest.parent? base name = none ↔ name ∉ (forest.visits base).map Visit.name := by
  rw [← firstParent?_visits, firstParent?_eq_none_iff, List.map_reverse, List.mem_reverse]

theorem ancestry_of_parent?_eq_none (h : forest.parent? base name = none) : forest.ancestry base name = [] := by
  rw [← firstParent?_visits, firstParent?_eq_none_iff] at h
  exact chain_of_not_mem h

/-- The ancestry goes on from the parent, which is declared too, and stops beneath `base`. -/
theorem ancestry_of_parent? {parent : String} (h : forest.parent? base name = some parent) :
    forest.ancestry base name = name :: (if parent = base then [] else forest.ancestry base parent) ∧
      (parent = base ∨ parent ∈ (forest.visits base).map Visit.name) := by
  rw [← firstParent?_visits] at h
  obtain ⟨hchain, hknown⟩ := chain_eq_cons (forest.rooted_visits base) h
  refine ⟨hchain, ?_⟩
  rwa [List.map_reverse, List.mem_reverse] at hknown

/-- The next name on the way up, as far as it stays beneath `base`. -/
def up (base : String) (forest : Forest) (name : String) : Option String :=
  (forest.parent? base name).filter fun parent => decide (parent ≠ base)

/-- Where the way up begins. -/
def declared? (base : String) (forest : Forest) (name : String) : Option String :=
  ((forest.visits base).map Visit.name).find? fun other => decide (other = name)

theorem declared?_eq_none_iff : forest.declared? base name = none ↔ forest.parent? base name = none := by
  unfold declared?
  rw [parent?_eq_none_iff, List.find?_eq_none]
  constructor
  · intro hall hmem
    exact hall name hmem (decide_eq_true rfl)
  · intro hnot other hmem heq
    exact hnot (of_decide_eq_true heq ▸ hmem)

theorem declared?_of_parent? {parent : String} (h : forest.parent? base name = some parent) :
    forest.declared? base name = some name := by
  cases hdeclared : forest.declared? base name with
  | none =>
    rw [declared?_eq_none_iff.1 hdeclared] at h
    cases h
  | some other =>
    have heq := List.find?_some hdeclared
    rw [of_decide_eq_true heq]

/-- The ancestry is met by going up again and again. -/
theorem getElem?_ancestry (base : String) (forest : Forest) (name : String) (i : Nat) :
    (forest.ancestry base name)[i]? =
      (fun n : Option String => n.bind (forest.up base))^[i] (forest.declared? base name) := by
  have hnone : (fun n : Option String => n.bind (forest.up base)) none = none := rfl
  induction i generalizing name with
  | zero =>
    cases hparent : forest.parent? base name with
    | none =>
      rw [ancestry_of_parent?_eq_none hparent, declared?_eq_none_iff.2 hparent]
      rfl
    | some parent =>
      rw [(ancestry_of_parent? hparent).1, declared?_of_parent? hparent]
      rfl
  | succ i ih =>
    rw [Function.iterate_succ_apply]
    cases hparent : forest.parent? base name with
    | none =>
      rw [ancestry_of_parent?_eq_none hparent, declared?_eq_none_iff.2 hparent, Option.bind_none,
        Function.iterate_fixed hnone]
      rfl
    | some parent =>
      obtain ⟨hancestry, hknown⟩ := ancestry_of_parent? hparent
      rw [hancestry, declared?_of_parent? hparent, List.getElem?_cons_succ, Option.bind_some]
      by_cases hbase : parent = base
      · have hup : forest.up base name = none := by simp [up, hparent, hbase]
        rw [if_pos hbase, hup, Function.iterate_fixed hnone]
        rfl
      · have hup : forest.up base name = some parent := by simp [up, hparent, hbase]
        obtain ⟨next, hnext⟩ := Option.ne_none_iff_exists'.1
          fun h => parent?_eq_none_iff.1 h (hknown.resolve_left hbase)
        rw [if_neg hbase, hup, ih, declared?_of_parent? hnext]

theorem length_ancestry_le (base : String) (forest : Forest) (name : String) :
    (forest.ancestry base name).length ≤ (forest.visits base).length := by
  have hlength := length_chain_le base (forest.visits base).reverse name
  rwa [List.length_reverse] at hlength

end Forest

/-! ## Classes of a forest -/

namespace ClassNode

/-- The classes of a forest are its visits. -/
theorem visits_forestClasses (parent : Class) (index : Nat) (forest : List ClassNode) :
    (forestClasses parent index forest).map (fun c => (c.name, c.parent?.map Class.name)) =
      (forestVisits parent.name forest).map fun visit => (visit.name, some visit.parent) := by
  induction forest using forest_induction generalizing parent index with
  | nil => rfl
  | cons name children trees ihc iht =>
    rw [forestClasses_cons, forestVisits_cons, List.map_cons, List.map_append, List.map_cons, List.map_append, ihc,
      iht]
    rfl

theorem parent_of_mem_forestClasses {parent : Class} {index : Nat} {forest : List ClassNode} {c : Class}
    (hc : c ∈ forestClasses parent index forest) :
    ∃ p, c.parent? = some p ∧ (p = parent ∨ p ∈ forestClasses parent index forest) := by
  induction forest using forest_induction generalizing parent index with
  | nil => cases hc
  | cons name children trees ihc iht =>
    rw [forestClasses_cons, List.mem_cons, List.mem_append] at hc
    rw [forestClasses_cons]
    rcases hc with rfl | hbelow | hrest
    · exact ⟨parent, rfl, .inl rfl⟩
    · obtain ⟨p, hp, rfl | hmem⟩ := ihc hbelow
      · exact ⟨_, hp, .inr List.mem_cons_self⟩
      · exact ⟨p, hp, .inr (List.mem_cons_of_mem _ (List.mem_append_left _ hmem))⟩
    · obtain ⟨p, hp, hp'⟩ := iht hrest
      exact ⟨p, hp, hp'.imp_right fun hmem => List.mem_cons_of_mem _ (List.mem_append_right _ hmem)⟩

end ClassNode

namespace Forest

variable {forest : Forest} {base : Class} {index : Nat} {c : Class}

theorem names_visits (forest : Forest) (base : Class) (index : Nat) :
    (forest.visits base.name).map Visit.name = (ClassNode.forestClasses base index forest).map Class.name := by
  have hvisits := congrArg (List.map Prod.fst) (ClassNode.visits_forestClasses base index forest)
  rw [List.map_map, List.map_map] at hvisits
  exact hvisits.symm

/-- With distinct names, the table tells the parent of every class. -/
theorem parent?_of_mem_classes (hdistinct : ((forest.visits base.name).map Visit.name).Nodup)
    (hc : c ∈ ClassNode.forestClasses base index forest) :
    forest.parent? base.name c.name = c.parent?.map Class.name := by
  have hpair := List.mem_map_of_mem (f := fun c : Class => (c.name, c.parent?.map Class.name)) hc
  rw [ClassNode.visits_forestClasses] at hpair
  obtain ⟨visit, hvisit, heq⟩ := List.mem_map.1 hpair
  obtain ⟨hname, hparent⟩ := Prod.mk.inj heq
  unfold parent?
  cases hfind : (forest.visits base.name).find? fun visit => decide (visit.name = c.name) with
  | none => exact absurd (decide_eq_true hname) (List.find?_eq_none.1 hfind visit hvisit)
  | some found =>
    have hfound : found.name = c.name := by simpa using List.find?_some hfind
    rw [List.inj_on_of_nodup_map hdistinct (List.mem_of_find?_eq_some hfind) hvisit (hfound.trans hname.symm)]
    exact hparent

/-- With distinct names, the way up through the table is the way up from the class. -/
theorem ancestry_of_mem_classes (hdistinct : ((forest.visits base.name).map Visit.name).Nodup)
    (hbase : base.name ∉ (forest.visits base.name).map Visit.name)
    (hc : c ∈ ClassNode.forestClasses base index forest) :
    forest.ancestry base.name c.name ++ base.ancestryNames = c.ancestryNames := by
  induction c with
  | root home =>
    obtain ⟨p, hp, -⟩ := ClassNode.parent_of_mem_forestClasses hc
    cases hp
  | sub i name parent ih =>
    have hparent := parent?_of_mem_classes hdistinct hc
    obtain ⟨p, ⟨⟩, hp⟩ := ClassNode.parent_of_mem_forestClasses hc
    rw [(ancestry_of_parent? hparent).1]
    rcases hp with rfl | hmem
    · rw [if_pos rfl]
      rfl
    · have hne : parent.name ≠ base.name := by
        intro heq
        apply hbase
        rw [names_visits forest base index, ← heq]
        exact List.mem_map_of_mem hmem
      rw [if_neg hne, List.cons_append, ih hmem]
      rfl

end Forest

theorem Registry.contains_new {home : RealmId} {name : String} :
    (Registry.new home).contains name = true ↔ name = Class.rootName := by
  rw [← (WellFormed.new home).mem_names_iff]
  exact List.mem_singleton

/-- A first class in a new registry, right beneath the root. -/
theorem Registry.define_first (home : RealmId) {name : String} (h : name ≠ Class.rootName) :
    ∃ c r, (Registry.new home).define name none [] = .ok (c, r) ∧ r.WellFormed ∧ c ∈ r.classes ∧ c.name = name ∧
      c.ancestryNames = [name, Class.rootName] ∧
      ∀ other, r.contains other = true ↔ other = name ∨ other = Class.rootName := by
  have hnew : (Registry.new home).WellFormed := .new home
  have hname : (Registry.new home).contains name = false :=
    Bool.eq_false_iff.2 fun hused => h (Registry.contains_new.1 hused)
  have howned : (Registry.new home).owns (Option.getD none (Registry.new home).root) = true :=
    hnew.owns_iff.2 hnew.root_mem
  have hdefine := Registry.define_of_owned [] hname howned
  have hattempt := hnew.attempt ⟨name, none, []⟩
  rw [Registry.attempt, hdefine] at hattempt
  refine ⟨_, _, hdefine, hattempt, ?_, rfl, rfl, fun other => ?_⟩
  · rw [Registry.classes_append]
    exact List.mem_append_right _ List.mem_cons_self
  · rw [Registry.contains_append, Registry.contains_new]
    rfl

/-- The way up through the table of any forest, names repeated or not, ends after at most as many steps as there are
    visits. If the names of the forest are distinct and neither the root's nor that of the class it is installed
    beneath, which is new itself, then the installed classes are the visits in their order, each with the name of its
    parent. The table knows their names and that of the class above them and no others, tells their parents, and on the
    way up meets what their ancestry meets before that class and the root. -/
theorem declared_as_defined (home : RealmId) (base : String) (forest : Forest) (builtins : Builtins) :
    (∀ name,
      (∀ i, (forest.ancestry base name)[i]? =
        (fun n : Option String => n.bind (forest.up base))^[i] (forest.declared? base name)) ∧
      ∃ i ≤ (forest.visits base).length,
        (fun n : Option String => n.bind (forest.up base))^[i] (forest.declared? base name) = none) ∧
    (base ≠ "object" → ((forest.visits base).map Visit.name).Nodup →
      base ∉ (forest.visits base).map Visit.name → "object" ∉ (forest.visits base).map Visit.name →
      ∃ b r made j, (Registry.new home).define base none [] = .ok (b, r) ∧
        (forest.install b).run ⟨r, builtins⟩ = (.ok made, j) ∧
        made.map (fun c => (c.name, c.parent?.map Class.name)) =
          (forest.visits base).map (fun visit => (visit.name, some visit.parent)) ∧
        (∀ name, forest.contains base name = true ↔ name = base ∨ ∃ c ∈ made, c.name = name) ∧
        (∀ c ∈ made, forest.parent? base c.name = c.parent?.map Class.name ∧
          forest.ancestry base c.name ++ [base, "object"] = c.ancestryNames) ∧
        ∀ name, (∀ c ∈ made, c.name ≠ name) →
          forest.parent? base name = none ∧ forest.ancestry base name = []) := by
  refine ⟨fun name => ⟨forest.getElem?_ancestry base name, ?_⟩, ?_⟩
  · refine ⟨_, forest.length_ancestry_le base name, ?_⟩
    rw [← forest.getElem?_ancestry, List.getElem?_eq_none (Nat.le_refl _)]
  · intro hroot hdistinct hbase hobject
    obtain ⟨b, r, hdefine, hwf, hmem, hbname, hbup, hcontains⟩ := Registry.define_first home hroot
    have hnames : forest.names = (forest.visits base).map Visit.name := by
      rw [← hbname, forest.names_visits b 0, forest.names_classes]
    have hfree : ∀ k, ¬ r.Clashes forest.names k := by
      rw [hnames]
      refine Registry.not_clashes hdistinct fun name hdeclared => Bool.eq_false_iff.2 fun hused => ?_
      rcases (hcontains name).1 hused with rfl | rfl
      · exact hbase hdeclared
      · exact hobject hdeclared
    obtain ⟨hrun, -⟩ := Forest.run_install_of_free (i := ⟨r, builtins⟩) hwf hmem hfree
    have hmade := forest.names_visits b r.size
    have hcreated : ∀ name, name ∈ (forest.visits base).map Visit.name ↔
        ∃ c ∈ ClassNode.forestClasses b r.size forest, c.name = name := by
      intro name
      rw [← hbname, hmade, List.mem_map]
    subst hbname
    refine ⟨b, r, _, _, hdefine, hrun, ClassNode.visits_forestClasses b _ forest, ?_, ?_, ?_⟩
    · intro name
      rw [← hcreated, Forest.contains, Bool.or_eq_true, decide_eq_true_iff, Option.isSome_iff_ne_none, ne_eq,
        Forest.parent?_eq_none_iff, not_not]
    · intro c hc
      refine ⟨Forest.parent?_of_mem_classes hdistinct hc, ?_⟩
      exact hbup ▸ Forest.ancestry_of_mem_classes hdistinct hbase hc
    · intro name hnone
      have hparent : forest.parent? b.name name = none := by
        rw [Forest.parent?_eq_none_iff, hcreated]
        rintro ⟨c, hc, heq⟩
        exact hnone c hc heq
      exact ⟨hparent, Forest.ancestry_of_parent?_eq_none hparent⟩

/-- The builtin exceptions have distinct names, and the class of a `TabError` has the ancestry that the table tells. -/
theorem declared_as_defined_exceptions :
    ∃ b r made j, (Registry.new 0).define "BaseException" none [] = .ok (b, r) ∧
      (Builtin.exceptions.install b).run ⟨r, ∅⟩ = (.ok made, j) ∧
      ∃ c ∈ made, c.name = "TabError" ∧ c.ancestryNames =
        ["TabError", "IndentationError", "SyntaxError", "StandardError", "Exception", "BaseException", "object"] := by
  obtain ⟨-, hagree⟩ := declared_as_defined 0 "BaseException" Builtin.exceptions ∅
  obtain ⟨b, r, made, j, hdefine, hrun, -, hcontains, hclasses, -⟩ :=
    hagree (by decide) (by decide +kernel) (by decide +kernel) (by decide +kernel)
  have hdeclared : Builtin.exceptions.contains "BaseException" "TabError" = true := by decide +kernel
  obtain ⟨c, hc, hname⟩ := ((hcontains "TabError").1 hdeclared).resolve_left (by decide)
  have hup : Builtin.exceptions.ancestry "BaseException" "TabError" =
      ["TabError", "IndentationError", "SyntaxError", "StandardError", "Exception"] := by decide +kernel
  have hancestry := (hclasses c hc).2
  rw [hname, hup] at hancestry
  exact ⟨b, r, made, j, hdefine, hrun, c, hc, hname, hancestry.symm⟩

end ObjectHost
