-- SUMMARY: What every sequence of definitions keeps true of a class registry, and of the ancestry of its classes.
import Mathlib.Logic.Function.Iterate
import ObjectHost.Class.Registry

/-!
# Well-formed registries

A registry keeps each class three times over: in the list of classes, in the
table of names, and as the parent of other classes. Definitions keep the three
in step, whether they succeed or are refused and whatever parent they are given.
Parents stand before their children in the list, so every way up ends at the
root.
-/

namespace ObjectHost

/-! ## The way up from a class -/

namespace Class

/-- The ancestors are met by going from parent to parent. -/
theorem getElem?_ancestors (c : Class) (i : Nat) :
    c.ancestors[i]? = (fun d : Option Class => d.bind parent?)^[i] (some c) := by
  induction c generalizing i with
  | root home =>
    cases i with
    | zero => rfl
    | succ i =>
      have hnone : (fun d : Option Class => d.bind parent?) none = none := rfl
      rw [Function.iterate_succ_apply]
      change none = (fun d : Option Class => d.bind parent?)^[i] none
      rw [Function.iterate_fixed hnone]
  | sub index name parent ih =>
    cases i with
    | zero => rfl
    | succ i =>
      rw [Function.iterate_succ_apply]
      exact ih i

theorem getLast?_ancestors (c : Class) : c.ancestors.getLast? = some (.root c.home) := by
  induction c with
  | root home => rfl
  | sub index name parent ih => simp only [ancestors, home, List.getLast?_cons, ih, Option.getD_some]

end Class

/-! ## Registries -/

/-- What a call asks to be defined. -/
structure Definition where
  name : String
  parent : Option Class
  members : List (String × Value)

namespace Registry

/-- The registry after a call, which leaves it as it is where it is refused. -/
def attempt (r : Registry) (d : Definition) : Registry :=
  match r.define d.name d.parent d.members with
  | .ok (_, r') => r'
  | .error _ => r

/-- The registry that a sequence of calls makes of a new one. -/
def after (home : RealmId) (calls : List Definition) : Registry := calls.foldl attempt (.new home)

/-- The registry with one more class. -/
def append (r : Registry) (cls : Class) (members : Table Value) : Registry :=
  { r with entries := r.entries ++ [⟨cls, members⟩], byName := r.byName.insert cls.name cls }

theorem classes_append (r : Registry) (cls : Class) (members : Table Value) :
    (r.append cls members).classes = r.classes ++ [cls] := by
  simp [classes, append]

theorem get?_append (r : Registry) (cls : Class) (members : Table Value) (name : String) :
    (r.append cls members).get? name = if name = cls.name then some cls else r.get? name :=
  Table.get?_insert r.byName cls.name cls name

theorem length_classes (r : Registry) : r.classes.length = r.size := by
  simp [classes, size]

/-- A call adds its class if its name is new and its parent is the registry's own, and changes nothing otherwise. -/
theorem attempt_eq (r : Registry) (d : Definition) :
    r.attempt d =
      if r.get? d.name = none ∧ r.get? (d.parent.getD r.root).name = some (d.parent.getD r.root) then
        r.append (.sub r.size d.name (d.parent.getD r.root)) (.ofList d.members)
      else r := by
  unfold attempt define
  by_cases hname : r.get? d.name = none
  · by_cases howned : r.get? (d.parent.getD r.root).name = some (d.parent.getD r.root)
    · simp only [contains, owns, hname, howned, Option.isSome_none, Bool.false_eq_true, if_false, decide_true,
        if_true, and_self]
      rfl
    · simp [contains, owns, hname, howned]
  · simp [contains, hname, Option.isSome_iff_ne_none]

/-- The list of classes, the table of names and the parents of the classes are in step. -/
structure WellFormed (r : Registry) : Prop where
  index : ∀ (i : Nat) (c : Class), r.classes[i]? = some c → c.index = i
  named : ∀ (name : String) (c : Class), r.get? name = some c ↔ c ∈ r.classes ∧ c.name = name
  root : r.classes[0]? = some r.root
  parent : ∀ c ∈ r.classes, c = r.root ∨ ∃ p, c.parent? = some p ∧ p ∈ r.classes ∧ p.index < c.index

namespace WellFormed

variable {r : Registry}

theorem new (home : RealmId) : (Registry.new home).WellFormed := by
  refine ⟨?_, ?_, rfl, ?_⟩
  · intro i c hc
    cases i with
    | zero => cases hc; rfl
    | succ i => cases hc
  · intro name c
    change (Table.empty.insert Class.rootName (Class.root home)).get? name = some c ↔ c ∈ [Class.root home] ∧ _
    rw [Table.get?_insert, List.mem_singleton]
    constructor
    · intro h
      split at h
      next hname => cases h; exact ⟨rfl, hname.symm⟩
      next => cases h
    · rintro ⟨rfl, hname⟩
      exact if_pos hname.symm
  · intro c hc
    exact .inl (List.mem_singleton.1 hc)

theorem root_mem (h : r.WellFormed) : r.root ∈ r.classes := List.mem_of_getElem? h.root

theorem getElem?_index (h : r.WellFormed) {c : Class} (hc : c ∈ r.classes) : r.classes[c.index]? = some c := by
  obtain ⟨i, hi⟩ := List.mem_iff_getElem?.1 hc
  rw [h.index i c hi]
  exact hi

theorem index_lt (h : r.WellFormed) {c : Class} (hc : c ∈ r.classes) : c.index < r.size := by
  rw [← length_classes]
  exact (List.getElem?_eq_some_iff.1 (h.getElem?_index hc)).1

/-- A class with a new name and a parent that is there can be added. -/
theorem append (h : r.WellFormed) {name : String} {p : Class} (hname : r.get? name = none) (hp : p ∈ r.classes)
    (members : Table Value) : (r.append (.sub r.size name p) members).WellFormed := by
  refine ⟨?_, ?_, ?_, ?_⟩
  · intro i c hc
    rw [classes_append, List.getElem?_append] at hc
    split at hc
    next => exact h.index i c hc
    next hi =>
      -- The new class is the only one behind the others, and its index is their number.
      have hlast : i - r.classes.length = 0 := by
        by_contra hne
        rw [List.getElem?_eq_none (by simp only [List.length_singleton]; omega)] at hc
        cases hc
      rw [hlast] at hc
      cases hc
      rw [length_classes] at hi hlast
      simp only [Class.index]
      omega
  · intro other c
    rw [get?_append, classes_append, List.mem_append, List.mem_singleton]
    constructor
    · intro hc
      split at hc
      next hother => cases hc; exact ⟨.inr rfl, hother.symm⟩
      next =>
        obtain ⟨hmem, hcname⟩ := (h.named other c).1 hc
        exact ⟨.inl hmem, hcname⟩
    · rintro ⟨hmem | rfl, hcname⟩
      · have hget := (h.named other c).2 ⟨hmem, hcname⟩
        have hother : other ≠ name := by
          rintro rfl
          rw [hname] at hget
          cases hget
        exact (if_neg hother).trans hget
      · exact if_pos hcname.symm
  · rw [classes_append, List.getElem?_append_left (List.getElem?_eq_some_iff.1 h.root).1]
    exact h.root
  · intro c hc
    rw [classes_append, List.mem_append, List.mem_singleton] at hc
    rw [classes_append]
    rcases hc with hold | rfl
    · refine (h.parent c hold).imp_right ?_
      rintro ⟨q, hq, hmem, hlt⟩
      exact ⟨q, hq, List.mem_append_left _ hmem, hlt⟩
    · exact .inr ⟨p, rfl, List.mem_append_left _ hp, h.index_lt hp⟩

/-- A call keeps a registry well-formed, whether it is refused or not. -/
theorem attempt (h : r.WellFormed) (d : Definition) : (r.attempt d).WellFormed := by
  rw [attempt_eq]
  split
  next hnew =>
    obtain ⟨hname, hparent⟩ := hnew
    exact h.append hname ((h.named _ _).1 hparent).1 _
  next => exact h

theorem after (home : RealmId) (calls : List Definition) : (Registry.after home calls).WellFormed := by
  have hrun : ∀ r : Registry, r.WellFormed → (calls.foldl Registry.attempt r).WellFormed := by
    induction calls with
    | nil => exact fun r h => h
    | cons d calls ih => exact fun r h => ih _ (h.attempt d)
  exact hrun _ (new home)

/-! ## Names -/

/-- A class is found under its name, so no other class has the same. -/
theorem nodup_names (h : r.WellFormed) : r.names.Nodup := by
  rw [names, List.Nodup, List.pairwise_map, List.pairwise_iff_getElem]
  intro i j hi hj hij heq
  have hfound : ∀ k (hk : k < r.classes.length), r.get? r.classes[k].name = some r.classes[k] :=
    fun k hk => (h.named _ _).2 ⟨List.getElem_mem hk, rfl⟩
  have hsame : r.classes[i] = r.classes[j] := by
    have hget := hfound i hi
    rw [heq, hfound j hj] at hget
    exact (Option.some.inj hget).symm
  have hindex := h.index i _ (List.getElem?_eq_getElem hi)
  rw [hsame, h.index j _ (List.getElem?_eq_getElem hj)] at hindex
  omega

/-! ## Ancestry -/

theorem parent?_eq_none_iff (h : r.WellFormed) {c : Class} (hc : c ∈ r.classes) : c.parent? = none ↔ c = r.root := by
  constructor
  · intro hnone
    rcases h.parent c hc with hroot | ⟨p, hp, -, -⟩
    · exact hroot
    · rw [hnone] at hp
      cases hp
  · rintro rfl
    rfl

/-- The parent of a class is there too, and stands before it. -/
theorem parent_lt (h : r.WellFormed) {c p : Class} (hc : c ∈ r.classes) (hp : c.parent? = some p) :
    p ∈ r.classes ∧ p.index < c.index := by
  rcases h.parent c hc with rfl | ⟨q, hq, hmem, hlt⟩
  · cases hp
  · rw [hp] at hq
    cases hq
    exact ⟨hmem, hlt⟩

theorem ancestors_subset (h : r.WellFormed) {c : Class} (hc : c ∈ r.classes) : ∀ a ∈ c.ancestors, a ∈ r.classes := by
  induction c with
  | root home =>
    intro a ha
    rw [List.mem_singleton.1 ha]
    exact hc
  | sub index name p ih =>
    intro a ha
    rcases List.mem_cons.1 ha with rfl | ha
    · exact hc
    · exact ih (h.parent_lt hc rfl).1 a ha

/-- On the way up, every class stands before the one it is met from. -/
theorem pairwise_ancestors (h : r.WellFormed) {c : Class} (hc : c ∈ r.classes) :
    (∀ a ∈ c.ancestors, a.index ≤ c.index) ∧ c.ancestors.Pairwise fun a b => b.index < a.index := by
  induction c with
  | root home =>
    refine ⟨fun a ha => ?_, List.pairwise_singleton _ _⟩
    cases List.mem_singleton.1 ha
    exact Nat.le_refl _
  | sub index name p ih =>
    obtain ⟨hp, hlt⟩ := h.parent_lt hc rfl
    obtain ⟨hle, hpairwise⟩ := ih hp
    have hbelow : ∀ a ∈ p.ancestors, a.index < (Class.sub index name p).index :=
      fun a ha => Nat.lt_of_le_of_lt (hle a ha) hlt
    refine ⟨fun a ha => ?_, List.pairwise_cons.2 ⟨hbelow, hpairwise⟩⟩
    rcases List.mem_cons.1 ha with rfl | ha
    · exact Nat.le_refl _
    · exact Nat.le_of_lt (hbelow a ha)

theorem length_ancestors_le (h : r.WellFormed) {c : Class} (hc : c ∈ r.classes) :
    c.ancestors.length ≤ c.index + 1 := by
  induction c with
  | root home => exact Nat.le_refl 1
  | sub index name p ih =>
    obtain ⟨hp, hlt⟩ := h.parent_lt hc rfl
    have hlength := ih hp
    simp only [Class.ancestors, List.length_cons]
    omega

/-- The last class on the way up has no parent, so it is the root. -/
theorem getLast?_ancestors (h : r.WellFormed) {c : Class} (hc : c ∈ r.classes) :
    c.ancestors.getLast? = some r.root := by
  have hmem := h.ancestors_subset hc _ c.root_mem_ancestors
  rw [c.getLast?_ancestors, (h.parent?_eq_none_iff hmem).1 rfl]

end WellFormed

end Registry

/-- Whatever sequence of calls a new registry went through, with any parents or none, its classes are numbered in the
    order they were defined, no two have the same name, and each is found under its own. The root is the first of
    them and the only one without a parent; all other parents stand before their children. So the way up from a class
    is no longer than its index says, goes through classes of ever smaller index, meets none twice and ends at the
    root. A call with a new name and no parent, or one of the registry's own, is never refused. -/
theorem registry_in_step (home : RealmId) (calls : List Definition) :
    let r := Registry.after home calls
    (∀ (i : Nat) (c : Class), r.classes[i]? = some c → c.index = i) ∧
    r.names.Nodup ∧
    (∀ (name : String) (c : Class), r.get? name = some c ↔ c ∈ r.classes ∧ c.name = name) ∧
    (r.classes[0]? = some r.root ∧ r.root.name = "object" ∧ ∀ c ∈ r.classes, c.parent? = none ↔ c = r.root) ∧
    (∀ (j : Nat) (c p : Class), r.classes[j]? = some c → c.parent? = some p → ∃ i, i < j ∧ r.classes[i]? = some p) ∧
    (∀ c ∈ r.classes,
      (∀ i : Nat, c.ancestors[i]? = (fun d : Option Class => d.bind Class.parent?)^[i] (some c)) ∧
      c.ancestors.length ≤ c.index + 1 ∧ c.ancestors.Pairwise (fun a b => b.index < a.index) ∧
      c.ancestors.Nodup ∧ (∀ a ∈ c.ancestors, a ∈ r.classes) ∧ c.ancestors.getLast? = some r.root) ∧
    (∀ d : Definition, r.get? d.name = none → (∀ p, d.parent = some p → p ∈ r.classes) →
      (r.attempt d).classes = r.classes ++ [.sub r.size d.name (d.parent.getD r.root)]) := by
  intro r
  have h : r.WellFormed := .after home calls
  refine ⟨h.index, h.nodup_names, h.named, ⟨h.root, rfl, fun c hc => h.parent?_eq_none_iff hc⟩, ?_, ?_, ?_⟩
  · intro j c p hj hp
    obtain ⟨hmem, hlt⟩ := h.parent_lt (List.mem_of_getElem? hj) hp
    exact ⟨p.index, h.index j c hj ▸ hlt, h.getElem?_index hmem⟩
  · intro c hc
    obtain ⟨-, hpairwise⟩ := h.pairwise_ancestors hc
    refine ⟨c.getElem?_ancestors, h.length_ancestors_le hc, hpairwise, ?_, h.ancestors_subset hc,
      h.getLast?_ancestors hc⟩
    refine hpairwise.imp ?_
    rintro a b hlt rfl
    exact Nat.lt_irrefl _ hlt
  · intro d hname hparent
    have hmem : d.parent.getD r.root ∈ r.classes := by
      cases hd : d.parent with
      | none => exact h.root_mem
      | some p => exact hparent p hd
    rw [Registry.attempt_eq, if_pos ⟨hname, (h.named _ _).2 ⟨hmem, rfl⟩⟩, Registry.classes_append]

/-- Calls that define `A` and `B` beneath it, with a repeated name and a parent from elsewhere in between. -/
def mixedCalls : List Definition :=
  [⟨"A", none, []⟩, ⟨"A", none, []⟩, ⟨"B", some (.root 1), []⟩, ⟨"B", some (.sub 1 "A" (.root 0)), []⟩]

/-- The calls that are refused leave no trace, and the way up from `B` is the one through `A`. -/
theorem registry_in_step_mixedCalls :
    let r := Registry.after 0 mixedCalls
    let b := Class.sub 2 "B" (.sub 1 "A" (.root 0))
    b ∈ r.classes ∧ r.get? "B" = some b ∧ b.ancestors.Pairwise (fun c d => d.index < c.index) ∧
      b.ancestors.getLast? = some r.root := by
  intro r b
  obtain ⟨-, -, hget, -, -, hup, -⟩ := registry_in_step 0 mixedCalls
  have hb : b ∈ r.classes := by decide
  obtain ⟨-, -, hdecreasing, -, -, hlast⟩ := hup b hb
  exact ⟨hb, (hget "B" b).2 ⟨hb, rfl⟩, hdecreasing, hlast⟩

end ObjectHost
