-- SUMMARY: What installing a forest of classes leaves behind, whether it goes through or stops at a name in use.
import Mathlib.Algebra.GroupWithZero.Nat
import ObjectHost.Class.Taxonomy
import ObjectHost.Proofs.Class.Ownership

/-!
# Installing forests

Installing a forest goes down the trees and stops wherever a definition is
refused. All the same it is a walk along one list: the classes that the forest
stands for, in pre-order, each beneath the class of the node above it. The
installation enters them one by one, up to the first name that is in use by
then.
-/

namespace ObjectHost

namespace ClassNode

/-! ## Forests in pre-order -/

/-- What holds of no trees, and of a tree in front of others if it holds of what is beneath it and of the others,
    holds of every forest. -/
@[elab_as_elim]
theorem forest_induction {P : List ClassNode → Prop} (nil : P [])
    (cons : ∀ name children trees, P children → P trees → P (.node name children :: trees)) :
    ∀ forest, P forest
  | [] => nil
  | .node name children :: trees =>
    cons name children trees (forest_induction nil cons children) (forest_induction nil cons trees)

/-- A node by its place in pre-order: its name, and the place of the node it hangs beneath if there is one. -/
structure Row where
  name : String
  above : Option Nat
deriving DecidableEq

mutual

/-- The rows of a tree, its own node at `place`. -/
def rows (above : Option Nat) (place : Nat) : ClassNode → List Row
  | .node name children => ⟨name, above⟩ :: forestRows (some place) (place + 1) children

def forestRows (above : Option Nat) (place : Nat) : List ClassNode → List Row
  | [] => []
  | tree :: trees => tree.rows above place ++ forestRows above (place + tree.count) trees

end

mutual

/-- The classes of a tree beneath `parent`, numbered from `index` on. -/
def classes (parent : Class) (index : Nat) : ClassNode → List Class
  | .node name children => .sub index name parent :: forestClasses (.sub index name parent) (index + 1) children

def forestClasses (parent : Class) (index : Nat) : List ClassNode → List Class
  | [] => []
  | tree :: trees => tree.classes parent index ++ forestClasses parent (index + tree.count) trees

end

theorem forestRows_cons (above : Option Nat) (place : Nat) (name : String) (children trees : List ClassNode) :
    forestRows above place (.node name children :: trees) =
      ⟨name, above⟩ :: (forestRows (some place) (place + 1) children ++
        forestRows above (place + (forestCount children + 1)) trees) :=
  rfl

theorem forestClasses_cons (parent : Class) (index : Nat) (name : String) (children trees : List ClassNode) :
    forestClasses parent index (.node name children :: trees) =
      .sub index name parent :: (forestClasses (.sub index name parent) (index + 1) children ++
        forestClasses parent (index + (forestCount children + 1)) trees) :=
  rfl

theorem forestCount_cons (name : String) (children trees : List ClassNode) :
    forestCount (.node name children :: trees) = forestCount children + 1 + forestCount trees :=
  rfl

theorem forestCount_eq_sum (forest : List ClassNode) : forestCount forest = (forest.map count).sum := by
  induction forest with
  | nil => rfl
  | cons tree trees ih => simp only [forestCount, List.map_cons, List.sum_cons, ih]

theorem length_forestRows (above : Option Nat) (place : Nat) (forest : List ClassNode) :
    (forestRows above place forest).length = forestCount forest := by
  induction forest using forest_induction generalizing above place with
  | nil => rfl
  | cons name children trees ihc iht =>
    simp only [forestRows_cons, forestCount_cons, List.length_cons, List.length_append, ihc, iht]
    omega

theorem length_forestClasses (parent : Class) (index : Nat) (forest : List ClassNode) :
    (forestClasses parent index forest).length = forestCount forest := by
  induction forest using forest_induction generalizing parent index with
  | nil => rfl
  | cons name children trees ihc iht =>
    simp only [forestClasses_cons, forestCount_cons, List.length_cons, List.length_append, ihc, iht]
    omega

/-- The classes are named as the rows say. -/
theorem names_forestClasses (parent : Class) (index : Nat) (above : Option Nat) (place : Nat)
    (forest : List ClassNode) :
    (forestClasses parent index forest).map Class.name = (forestRows above place forest).map Row.name := by
  induction forest using forest_induction generalizing parent index above place with
  | nil => rfl
  | cons name children trees ihc iht =>
    rw [forestClasses_cons, forestRows_cons, List.map_cons, List.map_cons, List.map_append, List.map_append,
      ihc _ _ (some place) (place + 1), iht _ _ above (place + (forestCount children + 1))]
    rfl

theorem index_forestClasses (parent : Class) (index : Nat) (forest : List ClassNode) :
    (forestClasses parent index forest).map Class.index = List.range' index (forestCount forest) := by
  induction forest using forest_induction generalizing parent index with
  | nil => rfl
  | cons name children trees ihc iht =>
    have hsplit : List.range' index (forestCount children + 1 + forestCount trees) =
        index :: (List.range' (index + 1) (forestCount children) ++
          List.range' (index + (forestCount children + 1)) (forestCount trees)) := by
      have hnext : index + (forestCount children + 1) = index + 1 + 1 * forestCount children := by omega
      rw [hnext, List.range'_append, ← List.range'_succ]
      congr 1
      omega
    rw [forestClasses_cons, forestCount_cons, hsplit, List.map_cons, List.map_append, ihc, iht]
    rfl

theorem index_of_getElem? {parent : Class} {index : Nat} {forest : List ClassNode} {k : Nat} {c : Class}
    (h : (forestClasses parent index forest)[k]? = some c) : c.index = index + k := by
  have hindex : ((forestClasses parent index forest).map Class.index)[k]? = some c.index := by
    rw [List.getElem?_map, h]
    rfl
  have hlt := (List.getElem?_eq_some_iff.1 h).1
  rw [length_forestClasses] at hlt
  rw [index_forestClasses, List.getElem?_range' hlt, Option.some.injEq] at hindex
  omega

/-- The parent of a class is the class of the row above its own, or the one that all trees hang beneath. The classes
    of the forest are a part of `whole`, which is where rows find those above them. -/
theorem parent?_forestClasses {base : Class} {whole : List Class} (forest : List ClassNode) (above : Option Nat)
    (parent : Class) (index : Nat) (before behind : List Class)
    (hwhole : whole = before ++ (forestClasses parent index forest ++ behind))
    (habove : above.elim (some base) (whole[·]?) = some parent) :
    ∀ p ∈ (forestClasses parent index forest).zip (forestRows above before.length forest),
      p.1.parent? = p.2.above.elim (some base) (whole[·]?) := by
  induction forest using forest_induction generalizing above parent index before behind with
  | nil => exact fun p hp => by cases hp
  | cons name children trees ihc iht =>
    intro p hp
    rw [forestClasses_cons] at hwhole hp
    generalize hcls : Class.sub index name parent = cls at hwhole hp
    generalize hbelow : forestClasses cls (index + 1) children = below at hwhole hp
    generalize hrest : forestClasses parent (index + (forestCount children + 1)) trees = rest at hwhole hp
    have hlength : below.length = forestCount children := by
      rw [← hbelow]
      exact length_forestClasses cls (index + 1) children
    rw [forestRows_cons, List.zip_cons_cons,
      List.zip_append (by rw [hlength, length_forestRows]), List.mem_cons, List.mem_append] at hp
    rcases hp with rfl | hp | hp
    · rw [habove, ← hcls]
      rfl
    · -- Beneath the node, its own class is the one above.
      have hcase := ihc (some before.length) cls (index + 1) (before ++ [cls]) (rest ++ behind)
      rw [hbelow, List.length_append, List.length_singleton] at hcase
      refine hcase ?_ ?_ p hp
      · rw [hwhole]
        simp only [List.append_assoc, List.cons_append, List.nil_append]
      · rw [hwhole]
        simp only [Option.elim_some, List.getElem?_append_right (Nat.le_refl _), Nat.sub_self, List.cons_append,
          List.getElem?_cons_zero]
    · have hcase := iht above parent (index + (forestCount children + 1)) (before ++ cls :: below) behind
      rw [hrest, List.length_append, List.length_cons, hlength] at hcase
      refine hcase ?_ habove p hp
      rw [hwhole]
      simp only [List.append_assoc, List.cons_append]

end ClassNode

/-! ## Entering classes one by one -/

namespace Installation

/-- Enters a class into the registry and into the builtin namespace. -/
def enter (i : Installation) (c : Class) : Installation :=
  ⟨i.classes.append c ∅, i.builtins.insert c.name (.cls c)⟩

/-- Enters classes one after another, up to the first whose name is in use, and gives that name. -/
def enterAll (i : Installation) : List Class → Option String × Installation
  | [] => (none, i)
  | c :: cs => if i.classes.contains c.name then (some c.name, i) else (i.enter c).enterAll cs

theorem enterAll_cons_used {i : Installation} {c : Class} (h : i.classes.contains c.name = true) (cs : List Class) :
    i.enterAll (c :: cs) = (some c.name, i) :=
  if_pos h

theorem enterAll_cons_new {i : Installation} {c : Class} (h : i.classes.contains c.name = false) (cs : List Class) :
    i.enterAll (c :: cs) = (i.enter c).enterAll cs :=
  if_neg (ne_true_of_eq_false h)

theorem enterAll_append (i : Installation) (cs ds : List Class) :
    i.enterAll (cs ++ ds) =
      (i.enterAll cs).1.elim ((i.enterAll cs).2.enterAll ds) fun name => (some name, (i.enterAll cs).2) := by
  induction cs generalizing i with
  | nil => rfl
  | cons c cs ih =>
    simp only [List.cons_append, enterAll]
    split
    next => rfl
    next => exact ih _

/-- The installation with all the classes, whatever their names. -/
def including (i : Installation) (made : List Class) : Installation := made.foldl enter i

theorem entries_including (i : Installation) (made : List Class) :
    (i.including made).classes.entries = i.classes.entries ++ made.map fun c => ⟨c, ∅⟩ := by
  induction made generalizing i with
  | nil => exact (List.append_nil _).symm
  | cons c made ih =>
    refine (ih (i.enter c)).trans ?_
    simp [enter, Registry.append]

theorem mem_including (i : Installation) {made : List Class} {c : Class} (hc : c ∈ made) :
    c ∈ (i.including made).classes.classes := by
  unfold Registry.classes
  rw [entries_including, List.map_append, List.mem_append]
  exact .inr (List.mem_map.2 ⟨_, List.mem_map_of_mem hc, rfl⟩)

theorem get?_including {i : Installation} {made : List Class} {name : String} (h : name ∉ made.map Class.name) :
    (i.including made).classes.get? name = i.classes.get? name ∧
      (i.including made).builtins.get? name = i.builtins.get? name := by
  induction made generalizing i with
  | nil => exact ⟨rfl, rfl⟩
  | cons c made ih =>
    obtain ⟨hne, hrest⟩ := not_or.1 fun hmem => h (List.mem_cons.2 hmem)
    obtain ⟨hclass, hbuiltin⟩ := ih (i := i.enter c) hrest
    refine ⟨hclass.trans ?_, hbuiltin.trans ?_⟩
    · exact (Registry.get?_append _ _ _ _).trans (if_neg hne)
    · exact (Table.get?_insert _ _ _ _).trans (if_neg hne)

/-- What was entered is in the builtin namespace as it is in the registry. -/
theorem builtins_including {i : Installation} {made : List Class} {name : String} (h : name ∈ made.map Class.name) :
    (i.including made).builtins.get? name = ((i.including made).classes.get? name).map Value.cls := by
  induction made generalizing i with
  | nil => cases h
  | cons c made ih =>
    by_cases hlater : name ∈ made.map Class.name
    · exact ih (i := i.enter c) hlater
    · -- The class is the last one of its name, so both tables still have it.
      have hname : name = c.name := (List.mem_cons.1 h).resolve_right hlater
      obtain ⟨hclass, hbuiltin⟩ := get?_including (i := i.enter c) hlater
      have hentered : (i.enter c).builtins.get? name = ((i.enter c).classes.get? name).map Value.cls := by
        simp only [enter, Registry.get?_append, Table.get?_insert, hname, if_true, Option.map_some]
      exact hbuiltin.trans (hentered.trans (congrArg _ hclass.symm))

end Installation

/-! ## The first name in use -/

/-- The name at place `k` is registered, or stands at an earlier place too. -/
def Registry.Clashes (r : Registry) (names : List String) (k : Nat) : Prop :=
  ∃ name, names[k]? = some name ∧ (r.contains name = true ∨ name ∈ names.take k)

theorem Registry.Clashes.lt_length {r : Registry} {names : List String} {k : Nat} (h : r.Clashes names k) :
    k < names.length := by
  obtain ⟨name, hname, -⟩ := h
  exact (List.getElem?_eq_some_iff.1 hname).1

instance (r : Registry) (names : List String) (k : Nat) : Decidable (r.Clashes names k) :=
  decidable_of_iff (∃ name ∈ names[k]?, r.contains name = true ∨ name ∈ names.take k) Iff.rfl

/-- Distinct names that are all new clash nowhere. -/
theorem Registry.not_clashes {r : Registry} {names : List String} (hdistinct : names.Nodup)
    (hnew : ∀ name ∈ names, r.contains name = false) (k : Nat) : ¬ r.Clashes names k := by
  rintro ⟨name, hname, hused | hearlier⟩
  · exact absurd hused (ne_true_of_eq_false (hnew name (List.mem_of_getElem? hname)))
  · obtain ⟨j, hj⟩ := List.mem_iff_getElem?.1 hearlier
    rw [List.getElem?_take] at hj
    split at hj
    next hlt =>
      have hjk := (List.getElem?_inj (List.getElem?_eq_some_iff.1 hj).1 hdistinct).1 (hj.trans hname.symm)
      omega
    next => cases hj

theorem Registry.contains_append {r : Registry} {c : Class} {members : Table Value} {name : String} :
    (r.append c members).contains name = true ↔ name = c.name ∨ r.contains name = true := by
  unfold contains
  rw [get?_append]
  split
  next h => simp [h]
  next h => simp [h]

/-- Once a class is entered, its name stands with the registered ones. -/
theorem Registry.clashes_append {r : Registry} {c : Class} {members : Table Value} {names : List String} {k : Nat} :
    (r.append c members).Clashes names k ↔ r.Clashes (c.name :: names) (k + 1) := by
  unfold Clashes
  refine exists_congr fun name => ?_
  rw [contains_append, List.getElem?_cons_succ, List.take_succ_cons, List.mem_cons, or_left_comm, or_assoc]

theorem Registry.not_contains_of_not_clashes {r : Registry} {name : String} {names : List String}
    (h : ¬ r.Clashes (name :: names) 0) : r.contains name = false :=
  Bool.eq_false_iff.2 fun hused => h ⟨name, rfl, .inl hused⟩

namespace Installation

theorem enterAll_of_free {i : Installation} {cs : List Class} (h : ∀ k, ¬ i.classes.Clashes (cs.map Class.name) k) :
    i.enterAll cs = (none, i.including cs) := by
  induction cs generalizing i with
  | nil => rfl
  | cons c cs ih =>
    rw [enterAll_cons_new (Registry.not_contains_of_not_clashes (h 0))]
    exact ih fun k hk => h (k + 1) (Registry.clashes_append.1 hk)

theorem enterAll_of_clash {i : Installation} {cs : List Class} {k : Nat} {name : String}
    (hname : (cs.map Class.name)[k]? = some name)
    (hused : i.classes.contains name = true ∨ name ∈ (cs.map Class.name).take k)
    (hfirst : ∀ j < k, ¬ i.classes.Clashes (cs.map Class.name) j) :
    i.enterAll cs = (some name, i.including (cs.take k)) := by
  induction cs generalizing i k with
  | nil => cases hname
  | cons c cs ih =>
    cases k with
    | zero =>
      cases hname
      exact enterAll_cons_used (hused.resolve_right List.not_mem_nil) cs
    | succ k =>
      rw [enterAll_cons_new (Registry.not_contains_of_not_clashes (hfirst 0 (Nat.zero_lt_succ k)))]
      refine ih (i := i.enter c) hname ?_ fun j hj hclash =>
        hfirst (j + 1) (Nat.succ_lt_succ hj) (Registry.clashes_append.1 hclash)
      rw [List.map_cons, List.take_succ_cons, List.mem_cons] at hused
      exact (or_left_comm.1 hused).elim (fun h => .inl (Registry.contains_append.2 (.inl h)))
        (fun h => h.imp_left fun h => Registry.contains_append.2 (.inr h))

end Installation

/-! ## Installing -/

namespace Install

variable {α β : Type}

theorem run_bind_ok {x : Install α} {i j : Installation} {a : α} (h : x.run i = (.ok a, j)) (f : α → Install β) :
    (x >>= f).run i = (f a).run j := by
  change ExceptT.bindCont f (x.run i).1 (x.run i).2 = _
  rw [h]
  rfl

theorem run_bind_error {x : Install α} {i j : Installation} {e : ObjectError} (h : x.run i = (.error e, j))
    (f : α → Install β) : (x >>= f).run i = (.error e, j) := by
  change ExceptT.bindCont f (x.run i).1 (x.run i).2 = _
  rw [h]
  rfl

end Install

namespace Installation

variable {i : Installation} {name : String} {parent : Class}

theorem define_of_contains (parent : Class) (h : i.classes.contains name = true) :
    (define name parent).run i = (.error (.duplicateDefinition name), i) := by
  simp only [ExceptT.run, define, Registry.define_of_contains _ _ h]

theorem define_of_owned (hname : i.classes.contains name = false) (hparent : i.classes.owns parent = true) :
    (define name parent).run i =
      (.ok (.sub i.classes.size name parent), i.enter (.sub i.classes.size name parent)) := by
  have hdefine : i.classes.define name (some parent) [] = .ok (.sub i.classes.size name parent, _) :=
    Registry.define_of_owned [] hname hparent
  simp only [ExceptT.run, define, hdefine]
  rfl

theorem define_of_foreign (hname : i.classes.contains name = false) (hparent : i.classes.owns parent = false) :
    (define name parent).run i = (.error (.unknownClass parent.name), i) := by
  have hdefine : i.classes.define name (some parent) [] = .error (.unknownClass parent.name) :=
    Registry.define_of_foreign [] hname hparent
  simp only [ExceptT.run, define, hdefine]

theorem size_enter (i : Installation) (c : Class) : (i.enter c).classes.size = i.classes.size + 1 :=
  List.length_append

theorem mem_classes_enter (i : Installation) (c : Class) : c ∈ (i.enter c).classes.classes := by
  simp [enter, Registry.classes_append]

theorem mem_enter_of_mem {c : Class} (h : c ∈ i.classes.classes) (d : Class) : c ∈ (i.enter d).classes.classes := by
  simp [enter, Registry.classes_append, h]

theorem size_enterAll {j : Installation} {cs : List Class} (h : i.enterAll cs = (none, j)) :
    j.classes.size = i.classes.size + cs.length := by
  induction cs generalizing i with
  | nil =>
    cases h
    rfl
  | cons c cs ih =>
    unfold enterAll at h
    split at h
    next => cases h
    next =>
      rw [ih h, size_enter, List.length_cons]
      omega

theorem mem_classes_enterAll {c : Class} (h : c ∈ i.classes.classes) (cs : List Class) :
    c ∈ (i.enterAll cs).2.classes.classes := by
  induction cs generalizing i with
  | nil => exact h
  | cons d cs ih =>
    unfold enterAll
    split
    next => exact h
    next =>
      apply ih
      exact mem_enter_of_mem h d

end Installation

theorem Registry.WellFormed.enter {i : Installation} {name : String} {parent : Class} (h : i.classes.WellFormed)
    (hname : i.classes.contains name = false) (hparent : parent ∈ i.classes.classes) :
    (i.enter (.sub i.classes.size name parent)).classes.WellFormed := by
  refine h.append ?_ hparent ∅
  rwa [Registry.contains, Option.isSome_eq_false_iff, Option.isNone_iff_eq_none] at hname

namespace ClassNode

section Cons

variable {parent cls : Class} {name : String} {children trees : List ClassNode} {i i₁ i₂ j : Installation}
  {below rest : List Class} {e : ObjectError}

theorem run_installForest_cons_refused (hdefine : (Installation.define name parent).run i = (.error e, i₁)) :
    (installForest parent (.node name children :: trees)).run i = (.error e, i₁) := by
  unfold installForest install
  exact Install.run_bind_error (Install.run_bind_error hdefine _) _

theorem run_installForest_cons_below (hdefine : (Installation.define name parent).run i = (.ok cls, i₁))
    (hbelow : (installForest cls children).run i₁ = (.error e, i₂)) :
    (installForest parent (.node name children :: trees)).run i = (.error e, i₂) := by
  unfold installForest install
  exact Install.run_bind_error ((Install.run_bind_ok hdefine _).trans (Install.run_bind_error hbelow _)) _

/-- Once a tree is installed, the others decide. -/
theorem run_installForest_cons_rest (hdefine : (Installation.define name parent).run i = (.ok cls, i₁))
    (hbelow : (installForest cls children).run i₁ = (.ok below, i₂)) {refused : Option ObjectError}
    (hrest : (installForest parent trees).run i₂ = (refused.elim (.ok rest) .error, j)) :
    (installForest parent (.node name children :: trees)).run i =
      (refused.elim (.ok (cls :: (below ++ rest))) .error, j) := by
  have htree : (install parent (.node name children)).run i = (.ok (cls :: below), i₂) := by
    unfold install
    exact (Install.run_bind_ok hdefine _).trans (Install.run_bind_ok hbelow _)
  unfold installForest
  refine (Install.run_bind_ok htree _).trans ?_
  cases refused with
  | none => exact Install.run_bind_ok hrest _
  | some e => exact Install.run_bind_error hrest _

end Cons

/-- Beneath a class that is there, installing a forest enters its classes one by one. -/
theorem run_installForest (forest : List ClassNode) {parent : Class} {i j : Installation} {used : Option String}
    (hwf : i.classes.WellFormed) (hparent : parent ∈ i.classes.classes)
    (henter : i.enterAll (forestClasses parent i.classes.size forest) = (used, j)) :
    (installForest parent forest).run i =
        ((used.map ObjectError.duplicateDefinition).elim (.ok (forestClasses parent i.classes.size forest)) .error,
          j) ∧
      j.classes.WellFormed := by
  induction forest using forest_induction generalizing parent i j used with
  | nil =>
    cases henter
    exact ⟨rfl, hwf⟩
  | cons name children trees ihc iht =>
    rw [forestClasses_cons] at henter ⊢
    cases hname : i.classes.contains name with
    | true =>
      rw [Installation.enterAll_cons_used hname] at henter
      cases henter
      exact ⟨run_installForest_cons_refused (Installation.define_of_contains parent hname), hwf⟩
    | false =>
      rw [Installation.enterAll_cons_new hname, Installation.enterAll_append] at henter
      have hdefine := Installation.define_of_owned hname (hwf.owns_iff.2 hparent)
      have hwf₁ := hwf.enter hname hparent
      generalize Class.sub i.classes.size name parent = cls at henter hdefine hwf₁ ⊢
      rw [← i.size_enter cls] at henter ⊢
      obtain ⟨first, k, hbelow⟩ : ∃ first k,
        (i.enter cls).enterAll (forestClasses cls (i.enter cls).classes.size children) = (first, k) := ⟨_, _, rfl⟩
      obtain ⟨hrun, hwf₂⟩ := ihc hwf₁ (i.mem_classes_enter cls) hbelow
      rw [hbelow] at henter
      cases first with
      | some clash =>
        cases henter
        exact ⟨run_installForest_cons_below hdefine hrun, hwf₂⟩
      | none =>
        -- What is installed beneath the node has left the parent where it was.
        have hstill : parent ∈ k.classes.classes := by
          have hmem := Installation.mem_classes_enterAll (Installation.mem_enter_of_mem hparent cls)
            (forestClasses cls (i.enter cls).classes.size children)
          rwa [hbelow] at hmem
        have hsize : k.classes.size = i.classes.size + (forestCount children + 1) := by
          rw [Installation.size_enterAll hbelow, length_forestClasses, i.size_enter cls]
          omega
        rw [← hsize] at henter ⊢
        obtain ⟨hrest, hwf₃⟩ := iht hwf₂ hstill henter
        exact ⟨run_installForest_cons_rest hdefine hrun hrest, hwf₃⟩

end ClassNode

/-! ## What an installation leaves behind -/

namespace Forest

/-- The forest in pre-order. -/
def rows (forest : Forest) : List ClassNode.Row := ClassNode.forestRows none 0 forest

/-- The names of the forest in pre-order. -/
def names (forest : Forest) : List String := forest.rows.map ClassNode.Row.name

/-- From `i` to `j`, the classes `made` are new. They are those of the first rows of the forest, numbered on from the
    classes before, each beneath the class of the row above its own. Registry and builtin namespace have them under
    their names, and are otherwise as they were. -/
structure Adds (forest : Forest) (base : Class) (made : List Class) (i j : Installation) : Prop where
  row : ∀ (k : Nat) (c : Class), made[k]? = some c → ∃ row, forest.rows[k]? = some row ∧ c.name = row.name ∧
    c.index = i.classes.size + k ∧ c.parent? = row.above.elim (some base) (made[·]?)
  entries : j.classes.entries = i.classes.entries ++ made.map fun c => ⟨c, ∅⟩
  found : ∀ c ∈ made, j.classes.get? c.name = some c ∧ j.builtins.get? c.name = some (.cls c)
  others : ∀ name, name ∉ made.map Class.name →
    j.classes.get? name = i.classes.get? name ∧ j.builtins.get? name = i.builtins.get? name

variable {forest : Forest} {base : Class} {i : Installation}

theorem names_classes (forest : Forest) (base : Class) (index : Nat) :
    (ClassNode.forestClasses base index forest).map Class.name = forest.names :=
  ClassNode.names_forestClasses base index none 0 forest

/-- A forest without clashes is installed whole. -/
theorem run_install_of_free (hwf : i.classes.WellFormed) (hbase : base ∈ i.classes.classes)
    (hfree : ∀ k, ¬ i.classes.Clashes forest.names k) :
    let made := ClassNode.forestClasses base i.classes.size forest
    (forest.install base).run i = (.ok made, i.including made) ∧ (i.including made).classes.WellFormed := by
  rw [← forest.names_classes base i.classes.size] at hfree
  exact ClassNode.run_installForest forest hwf hbase (Installation.enterAll_of_free hfree)

/-- The first classes of a forest, once entered, are as its rows say. -/
theorem adds_including (hwf : i.classes.WellFormed) {n : Nat} {made : List Class}
    (hmade : made = (ClassNode.forestClasses base i.classes.size forest).take n)
    (hwf' : (i.including made).classes.WellFormed) : forest.Adds base made i (i.including made) := by
  refine ⟨?_, i.entries_including made, ?_, fun name hname => Installation.get?_including hname⟩
  · intro k c hk
    have hc := i.mem_including (List.mem_of_getElem? hk)
    rw [hmade, List.getElem?_take] at hk
    split at hk
    case isFalse => cases hk
    case isTrue hkn =>
      have hlength := (List.getElem?_eq_some_iff.1 hk).1
      rw [ClassNode.length_forestClasses, ← ClassNode.length_forestRows none 0] at hlength
      obtain ⟨row, hrow⟩ : ∃ row, forest.rows[k]? = some row := ⟨_, List.getElem?_eq_getElem hlength⟩
      have hname : c.name = row.name := by
        have hnames := congrArg (·[k]?) (forest.names_classes base i.classes.size)
        simpa only [names, List.getElem?_map, hk, hrow, Option.map_some, Option.some.injEq] using hnames
      have hindex := ClassNode.index_of_getElem? hk
      have hmem : (c, row) ∈ (ClassNode.forestClasses base i.classes.size forest).zip forest.rows :=
        List.mem_of_getElem? (List.getElem?_zip_eq_some.2 ⟨hk, hrow⟩)
      have hparent := ClassNode.parent?_forestClasses forest none base i.classes.size [] []
        (List.append_nil _).symm rfl (c, row) hmem
      refine ⟨row, hrow, hname, hindex, hparent.trans ?_⟩
      cases habove : row.above with
      | none => rfl
      | some l =>
        -- The row above comes earlier, since a parent stands before its children.
        rw [habove, Option.elim_some] at hparent
        cases hp : (ClassNode.forestClasses base i.classes.size forest)[l]? with
        | none =>
          rw [hp] at hparent
          rw [(hwf'.parent?_eq_none_iff hc).1 hparent] at hindex
          have hpos : i.classes.root.index < i.classes.size := hwf.index_lt hwf.root_mem
          simp only [Registry.root, Class.index] at hindex hpos
          omega
        | some p =>
          have hlt := (hwf'.parent_lt hc (hparent.trans hp)).2
          rw [hindex, ClassNode.index_of_getElem? hp] at hlt
          rw [Option.elim_some, Option.elim_some, hmade, List.getElem?_take, if_pos (by omega)]
  · intro c hc
    have hget := hwf'.get?_of_mem (i.mem_including hc)
    refine ⟨hget, ?_⟩
    rw [Installation.builtins_including (List.mem_map_of_mem hc), hget]
    rfl

end Forest

/-- In any registry that calls can make, beneath a class of that registry, a forest is installed in pre-order up to
    the first name that is registered or stands earlier in the forest. That name is what the failure tells, and the
    classes before it, and nothing else, are new in the registry and in the builtin namespace. If there is no such
    name, the classes of all the nodes are given back in this order. Beneath a class that is not the registry's own,
    the first node is refused and nothing changes. -/
theorem forest_installed_in_pre_order (home : RealmId) (calls : List Definition) (base : Class) (forest : Forest)
    (builtins : Builtins) :
    let r := Registry.after home calls
    let i : Installation := ⟨r, builtins⟩
    (r.owns base = true →
      (∀ (k : Nat) (name : String), forest.names[k]? = some name →
        (r.contains name = true ∨ name ∈ forest.names.take k) → (∀ j < k, ¬ r.Clashes forest.names j) →
        ∃ made j, (forest.install base).run i = (.error (.duplicateDefinition name), j) ∧
          made.map Class.name = forest.names.take k ∧ forest.Adds base made i j) ∧
      ((∀ k < forest.names.length, ¬ r.Clashes forest.names k) →
        ∃ made j, (forest.install base).run i = (.ok made, j) ∧
          made.map Class.name = forest.names ∧ made.length = (forest.map ClassNode.count).sum ∧
          forest.Adds base made i j)) ∧
    (r.owns base = false → ∀ name, forest.names.head? = some name →
      (forest.install base).run i =
        (.error (if r.contains name then .duplicateDefinition name else .unknownClass base.name), i)) := by
  intro r i
  have hwf : r.WellFormed := .after home calls
  refine ⟨fun howned => ?_, ?_⟩
  · have hbase : base ∈ r.classes := hwf.owns_iff.1 howned
    have hnames := forest.names_classes base i.classes.size
    refine ⟨?_, ?_⟩
    · intro k name hname hused hfirst
      rw [← hnames] at hname hused hfirst
      have henter : i.enterAll _ = _ := Installation.enterAll_of_clash hname hused hfirst
      obtain ⟨hrun, hwf'⟩ := ClassNode.run_installForest forest hwf hbase henter
      refine ⟨_, _, hrun, ?_, Forest.adds_including hwf rfl hwf'⟩
      rw [List.map_take, hnames]
    · intro hfree
      obtain ⟨hrun, hwf'⟩ := Forest.run_install_of_free (i := i) hwf hbase fun k hk => hfree k hk.lt_length hk
      refine ⟨_, _, hrun, hnames, ?_, Forest.adds_including hwf (List.take_length).symm hwf'⟩
      rw [ClassNode.length_forestClasses, ClassNode.forestCount_eq_sum]
  · intro hforeign name hhead
    cases forest with
    | nil => cases hhead
    | cons tree trees =>
      cases tree with
      | node first children =>
        cases hhead
        cases hname : r.contains first with
        | true => exact ClassNode.run_installForest_cons_refused (Installation.define_of_contains base hname)
        | false => exact ClassNode.run_installForest_cons_refused (Installation.define_of_foreign hname hforeign)

/-- A tree of `A` and `B`, and a second `A`. -/
def repeatedName : Forest := [.node "A" [.node "B" []], .node "A" []]

/-- The first tree is installed when the second `A` is met. By itself it is installed whole. Beneath a root from
    elsewhere nothing is. -/
theorem forest_installed_in_pre_order_repeatedName :
    let r := Registry.after 0 []
    let i : Installation := ⟨r, ∅⟩
    (∃ made j, (repeatedName.install r.root).run i = (.error (.duplicateDefinition "A"), j) ∧
      made.map Class.name = ["A", "B"] ∧ repeatedName.Adds r.root made i j) ∧
    (∃ made j, (Forest.install [.node "A" [.node "B" []]] r.root).run i = (.ok made, j) ∧
      made.map Class.name = ["A", "B"] ∧ made.length = 2) ∧
    (repeatedName.install (.root 1)).run i = (.error (.unknownClass "object"), i) := by
  intro r i
  have howned : r.owns r.root = true := by decide
  obtain ⟨hown, -⟩ := forest_installed_in_pre_order 0 [] r.root repeatedName ∅
  obtain ⟨hclash, -⟩ := hown howned
  obtain ⟨hown', -⟩ := forest_installed_in_pre_order 0 [] r.root [.node "A" [.node "B" []]] ∅
  obtain ⟨-, hfree⟩ := hown' howned
  obtain ⟨-, hforeign⟩ := forest_installed_in_pre_order 0 [] (.root 1) repeatedName ∅
  obtain ⟨made, j, hrun, hnames, hlength, -⟩ := hfree (by decide)
  exact ⟨hclash 2 "A" rfl (.inr (by decide)) (by decide), ⟨made, j, hrun, hnames, hlength⟩,
    hforeign (by decide) "A" rfl⟩

end ObjectHost
