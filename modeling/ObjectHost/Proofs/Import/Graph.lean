-- SUMMARY: Import graphs, the modules that can be loaded, and the visit that loads them without a cache.
import Mathlib.Logic.Relation
import ObjectHost.Proofs.Import.Recipe

/-!
# Import graphs

A module can be loaded if nothing that it imports, directly or not, lacks a
module that it asks for, fails, or imports itself. The visit of a name goes
through its imports in order, with the names on the way to it as the path, and
stops at the first fault. A visit succeeds exactly if the module can be loaded
without coming across the path, and all that it completes can be loaded.
-/

namespace ObjectHost

open Relation

/-- The registered factories, and the recipes they follow. -/
structure ImportGraph where
  factories : Table Code
  plan : Code → Recipe

namespace ImportGraph

variable {G : ImportGraph}

def recipe? (G : ImportGraph) (name : String) : Option Recipe := (G.factories.get? name).map G.plan

/-- The module that `requested` means to `caller`. -/
def target? (G : ImportGraph) (caller requested : String) : Option String :=
  (Name.resolve? G.factories.contains requested caller).map Name.Resolution.name

/-! ## Modules that can be loaded -/

/-- The factory of `a` imports `b`. -/
def Imports (G : ImportGraph) (a b : String) : Prop :=
  ∃ recipe, G.recipe? a = some recipe ∧ ∃ step ∈ recipe.imports, G.target? a step.requested = some b

/-- The module `b` is `a` or among its imports, their imports, and so on. -/
abbrev Reaches (G : ImportGraph) : String → String → Prop := ReflTransGen G.Imports

/-- The module is registered, its factory does not fail by itself, and all it imports is registered. -/
def Faultless (G : ImportGraph) (name : String) : Prop :=
  ∃ recipe, G.recipe? name = some recipe ∧ recipe.fault? = none ∧
    ∀ step ∈ recipe.imports, (G.target? name step.requested).isSome = true

/-- No faults and no cycles can be reached. -/
def Loadable (G : ImportGraph) (name : String) : Prop :=
  ∀ other, G.Reaches name other → G.Faultless other ∧ ¬ TransGen G.Imports other other

theorem Loadable.of_reaches {a b : String} (h : G.Loadable a) (hab : G.Reaches a b) : G.Loadable b :=
  fun other hother => h other (hab.trans hother)

/-- A module can be loaded if what it imports can, without coming across the module itself. -/
theorem loadable_of_imports {path : List String} {name : String} {recipe : Recipe}
    (hrecipe : G.recipe? name = some recipe) (hpath : name ∉ path) (hfault : recipe.fault? = none)
    (hsteps : ∀ step ∈ recipe.imports, ∃ child, G.target? name step.requested = some child ∧
      G.Loadable child ∧ ∀ x, G.Reaches child x → x ∉ name :: path) :
    G.Loadable name ∧ ∀ x, G.Reaches name x → x ∉ path := by
  have hchild : ∀ {child}, G.Imports name child →
      G.Loadable child ∧ ∀ x, G.Reaches child x → x ∉ name :: path := by
    rintro child ⟨recipe', hsome, step, hstep, htarget⟩
    rw [hrecipe] at hsome
    cases hsome
    obtain ⟨child', htarget', h⟩ := hsteps step hstep
    rw [htarget] at htarget'
    cases htarget'
    exact h
  refine ⟨fun x hx => ?_, fun x hx => ?_⟩
  · rcases hx.cases_head with rfl | ⟨child, himports, hrest⟩
    · refine ⟨⟨recipe, hrecipe, hfault, fun step hstep => ?_⟩, fun hcycle => ?_⟩
      · obtain ⟨child, htarget, -⟩ := hsteps step hstep
        simp [htarget]
      · obtain ⟨child, himports, hback⟩ := TransGen.head'_iff.1 hcycle
        exact (hchild himports).2 _ hback List.mem_cons_self
    · exact (hchild himports).1 x hrest
  · rcases hx.cases_head with rfl | ⟨child, himports, hrest⟩
    · exact hpath
    · exact fun hmem => (hchild himports).2 x hrest (List.mem_cons_of_mem _ hmem)

/-! ## Visits -/

/-- The number of registered names that are not on the path. -/
def free (G : ImportGraph) (path : List String) : Nat := (G.factories.keys.filter (· ∉ path)).length

theorem free_cons_lt {path : List String} {name : String} {recipe : Recipe} (hrecipe : G.recipe? name = some recipe)
    (hpath : name ∉ path) : G.free (name :: path) < G.free path := by
  have hmem : name ∈ G.factories.keys := by
    refine (G.factories.mem_keys_iff name).2 ?_
    obtain ⟨code, hcode, -⟩ := Option.map_eq_some_iff.1 hrecipe
    simp [Table.contains, hcode]
  have hfilter : G.factories.keys.filter (· ∉ name :: path) =
      (G.factories.keys.filter (· ∉ path)).filter (· ≠ name) := by
    rw [List.filter_filter]
    refine List.filter_congr fun other _ => ?_
    by_cases hname : other = name <;> simp [hname]
  unfold free
  rw [hfilter]
  refine List.length_filter_lt_length_iff_exists.2 ⟨name, ?_, by simp⟩
  exact List.mem_filter.2 ⟨hmem, by simpa using hpath⟩

/-- What an import comes to, and the names completed on the way. -/
abbrev Visit := Except Fault String × List String

/-- Loads what `requested` means to `caller`. -/
def bring (G : ImportGraph) (load : String → Visit) (caller requested : String) : Visit :=
  match G.target? caller requested with
  | none => (.error (.notFound requested), [])
  | some name => load name

/-- Makes the imports of `caller` until one fails. -/
def follow (G : ImportGraph) (load : String → Visit) (caller : String) :
    List ImportStep → Option Fault × List String
  | [] => (none, [])
  | step :: steps =>
    match G.bring load caller step.requested with
    | (.error fault, made) => (some fault, made)
    | (.ok _, made) =>
      let (fault?, more) := G.follow load caller steps
      (fault?, made ++ more)

/-- Loads `name` on the way from the names of `path`, without a cache. -/
def visit (G : ImportGraph) (path : List String) (name : String) : Visit :=
  match _hrecipe : G.recipe? name with
  | none => (.error (.notFound name), [])
  | some recipe =>
    if _hpath : name ∈ path then (.error (.cyclic name), [])
    else
      let (fault?, made) := G.follow (fun other => G.visit (name :: path) other) name recipe.imports
      -- The factory gets to its own fault only if its imports have none.
      match fault?.or recipe.fault? with
      | some fault => (.error fault, made)
      | none => (.ok name, name :: made)
termination_by G.free path
decreasing_by exact free_cons_lt _hrecipe _hpath

theorem visit_of_unknown {path : List String} {name : String} (h : G.recipe? name = none) :
    G.visit path name = (.error (.notFound name), []) := by
  rw [visit]
  split
  next => rfl
  next recipe hrecipe => simp [h] at hrecipe

theorem visit_of_mem {path : List String} {name : String} {recipe : Recipe} (h : G.recipe? name = some recipe)
    (hpath : name ∈ path) : G.visit path name = (.error (.cyclic name), []) := by
  rw [visit]
  split
  next hrecipe => simp [h] at hrecipe
  next => rw [dif_pos hpath]

/-- A name that is new to the path is visited through its imports. -/
theorem visit_of_not_mem {path : List String} {name : String} {recipe : Recipe}
    (h : G.recipe? name = some recipe) (hpath : name ∉ path) :
    G.visit path name =
      match (G.follow (G.visit (name :: path)) name recipe.imports).1.or recipe.fault? with
      | some fault => (.error fault, (G.follow (G.visit (name :: path)) name recipe.imports).2)
      | none => (.ok name, name :: (G.follow (G.visit (name :: path)) name recipe.imports).2) := by
  rw [visit]
  split
  next hrecipe => simp [h] at hrecipe
  next recipe' hrecipe =>
    rw [h] at hrecipe
    cases hrecipe
    rw [dif_neg hpath]

/-! ## Following imports -/

/-- All imports are made exactly if each of them finds a module that loads. -/
theorem follow_eq_none_iff {load : String → Visit} {caller : String} {steps : List ImportStep} :
    (G.follow load caller steps).1 = none ↔
      ∀ step ∈ steps, ∃ name other, G.target? caller step.requested = some name ∧ (load name).1 = .ok other := by
  induction steps with
  | nil => simp [follow]
  | cons step steps ih =>
    rw [List.forall_mem_cons, ← ih]
    cases htarget : G.target? caller step.requested with
    | none => simp [follow, bring, htarget]
    | some name => rcases hload : load name with ⟨fault | other, made⟩ <;> simp [follow, bring, htarget, hload]

/-- What is completed is completed by one of the loads, whose completed names are all kept. -/
theorem mem_follow {load : String → Visit} {caller : String} {steps : List ImportStep} {x : String}
    (hx : x ∈ (G.follow load caller steps).2) :
    ∃ step ∈ steps, ∃ name, G.target? caller step.requested = some name ∧ x ∈ (load name).2 ∧
      ∀ y ∈ (load name).2, y ∈ (G.follow load caller steps).2 := by
  induction steps with
  | nil => cases hx
  | cons step steps ih =>
    simp only [follow, bring] at hx ⊢
    cases htarget : G.target? caller step.requested with
    | none => simp [htarget] at hx
    | some name =>
      rcases hload : load name with ⟨fault | other, made⟩
      · simp only [htarget, hload] at hx ⊢
        exact ⟨step, List.mem_cons_self, name, htarget, by rw [hload]; exact hx, by rw [hload]; exact fun y hy => hy⟩
      · simp only [htarget, hload] at hx ⊢
        rcases List.mem_append.1 hx with hx | hx
        · refine ⟨step, List.mem_cons_self, name, htarget, by rw [hload]; exact hx, ?_⟩
          rw [hload]
          exact fun y hy => List.mem_append_left _ hy
        · obtain ⟨step', hstep, name', htarget', hmem, hkept⟩ := ih hx
          exact ⟨step', List.mem_cons_of_mem _ hstep, name', htarget', hmem,
            fun y hy => List.mem_append_right _ (hkept y hy)⟩

/-- If all imports are made, everything that the loads complete is kept. -/
theorem mem_follow_of_eq_none {load : String → Visit} {caller : String} {steps : List ImportStep}
    (h : (G.follow load caller steps).1 = none) {step : ImportStep} (hstep : step ∈ steps) {name : String}
    (htarget : G.target? caller step.requested = some name) {x : String} (hx : x ∈ (load name).2) :
    x ∈ (G.follow load caller steps).2 := by
  induction steps with
  | nil => cases hstep
  | cons first steps ih =>
    simp only [follow, bring] at h ⊢
    cases hfirst : G.target? caller first.requested with
    | none => simp [hfirst] at h
    | some other =>
      rcases hload : load other with ⟨fault | loaded, made⟩
      · simp [hfirst, hload] at h
      · simp only [hfirst, hload] at h ⊢
        rcases List.mem_cons.1 hstep with rfl | hrest
        · rw [htarget] at hfirst
          cases hfirst
          rw [hload] at hx
          exact List.mem_append_left _ hx
        · exact List.mem_append_right _ (ih h hrest)

/-! ## What visits come to -/

/-- A visit succeeds exactly if the module can be loaded and the path is not come across. -/
theorem visit_eq_ok_iff {path : List String} {name other : String} :
    (G.visit path name).1 = .ok other ↔
      other = name ∧ G.Loadable name ∧ ∀ x, G.Reaches name x → x ∉ path := by
  induction hfree : G.free path using Nat.strongRecOn generalizing path name other with
  | ind n ih =>
    subst hfree
    cases hrecipe : G.recipe? name with
    | none =>
      rw [visit_of_unknown hrecipe]
      refine ⟨fun h => (by cases h), fun ⟨_, hload, _⟩ => ?_⟩
      obtain ⟨⟨recipe, hsome, -⟩, -⟩ := hload name .refl
      simp [hrecipe] at hsome
    | some recipe =>
      by_cases hpath : name ∈ path
      · rw [visit_of_mem hrecipe hpath]
        exact ⟨fun h => (by cases h), fun ⟨_, _, hout⟩ => absurd hpath (hout name .refl)⟩
      -- The induction hypothesis is about what the module imports, with the module on the path.
      have hchild : ∀ {child}, (∃ other, (G.visit (name :: path) child).1 = .ok other) ↔
          G.Loadable child ∧ ∀ x, G.Reaches child x → x ∉ name :: path := by
        intro child
        constructor
        · rintro ⟨other, h⟩
          exact ((ih _ (free_cons_lt hrecipe hpath) rfl).1 h).2
        · intro h
          exact ⟨child, (ih _ (free_cons_lt hrecipe hpath) rfl).2 ⟨rfl, h⟩⟩
      have hverdict : (G.visit path name).1 = .ok other ↔
          other = name ∧ (G.follow (G.visit (name :: path)) name recipe.imports).1 = none ∧
            recipe.fault? = none := by
        rw [visit_of_not_mem hrecipe hpath, ← Option.or_eq_none_iff]
        cases (G.follow (G.visit (name :: path)) name recipe.imports).1.or recipe.fault? <;> simp [eq_comm]
      rw [hverdict, follow_eq_none_iff]
      refine and_congr_right fun _ => ?_
      constructor
      · rintro ⟨hsteps, hfault⟩
        exact loadable_of_imports hrecipe hpath hfault fun step hstep => by
          obtain ⟨child, other, htarget, hok⟩ := hsteps step hstep
          exact ⟨child, htarget, hchild.1 ⟨other, hok⟩⟩
      · rintro ⟨hload, hout⟩
        obtain ⟨⟨recipe', hsome, hfault, hsteps⟩, hacyclic⟩ := hload name .refl
        rw [hrecipe] at hsome
        cases hsome
        refine ⟨fun step hstep => ?_, hfault⟩
        obtain ⟨child, htarget⟩ := Option.isSome_iff_exists.1 (hsteps step hstep)
        have himports : G.Imports name child := ⟨recipe, hrecipe, step, hstep, htarget⟩
        obtain ⟨other, hok⟩ := hchild.2 ⟨hload.of_reaches (.single himports), fun x hx hmem => by
          rcases List.mem_cons.1 hmem with rfl | hmem
          · exact hacyclic (TransGen.head' himports hx)
          · exact hout x (.head himports hx) hmem⟩
        exact ⟨child, other, htarget, hok⟩

theorem mapError_eq_ok_iff {ε ε' α : Type} {f : ε → ε'} {r : Except ε α} {a : α} :
    r.mapError f = .ok a ↔ r = .ok a := by
  cases r with
  | ok b => exact ⟨fun h => congrArg Except.ok (Except.ok.inj h), fun h => congrArg Except.ok (Except.ok.inj h)⟩
  | error e => exact ⟨nofun, nofun⟩

/-- With nothing on the path, an import succeeds exactly if it is resolved to a module that can be loaded. -/
theorem bring_eq_ok_iff {t : Taxonomy} {caller requested name : String} :
    (G.bring (G.visit []) caller requested).1.mapError (Fault.symptom t) = .ok name ↔
      G.target? caller requested = some name ∧ G.Loadable name := by
  rw [mapError_eq_ok_iff]
  unfold bring
  cases htarget : G.target? caller requested with
  | none => simp
  | some other =>
    rw [visit_eq_ok_iff, Option.some.injEq]
    constructor
    · rintro ⟨rfl, hload, -⟩
      exact ⟨rfl, hload⟩
    · rintro ⟨rfl, hload⟩
      exact ⟨rfl, hload, fun x _ hmem => by cases hmem⟩

/-- A name is completed by one of the imports, or it is the visited name itself after all of them. -/
theorem mem_visit {path : List String} {name x : String} (hx : x ∈ (G.visit path name).2) :
    ∃ recipe, G.recipe? name = some recipe ∧ name ∉ path ∧
      (∀ y ∈ (G.follow (G.visit (name :: path)) name recipe.imports).2, y ∈ (G.visit path name).2) ∧
      (x ∈ (G.follow (G.visit (name :: path)) name recipe.imports).2 ∨
        x = name ∧ (G.visit path name).1 = .ok name ∧
          (G.follow (G.visit (name :: path)) name recipe.imports).1 = none) := by
  cases hrecipe : G.recipe? name with
  | none =>
    rw [visit_of_unknown hrecipe] at hx
    cases hx
  | some recipe =>
    by_cases hpath : name ∈ path
    · rw [visit_of_mem hrecipe hpath] at hx
      cases hx
    refine ⟨recipe, rfl, hpath, ?_⟩
    rw [visit_of_not_mem hrecipe hpath] at hx ⊢
    cases hfault : (G.follow (G.visit (name :: path)) name recipe.imports).1.or recipe.fault? with
    | some fault =>
      rw [hfault] at hx
      exact ⟨fun y hy => hy, .inl hx⟩
    | none =>
      rw [hfault] at hx
      refine ⟨fun y hy => List.mem_cons_of_mem _ hy, ?_⟩
      rcases List.mem_cons.1 hx with rfl | hx
      · exact .inr ⟨rfl, rfl, (Option.or_eq_none_iff.1 hfault).1⟩
      · exact .inl hx

theorem self_mem_visit {path : List String} {name other : String} (h : (G.visit path name).1 = .ok other) :
    name ∈ (G.visit path name).2 := by
  cases hrecipe : G.recipe? name with
  | none =>
    rw [visit_of_unknown hrecipe] at h
    cases h
  | some recipe =>
    by_cases hpath : name ∈ path
    · rw [visit_of_mem hrecipe hpath] at h
      cases h
    rw [visit_of_not_mem hrecipe hpath] at h ⊢
    cases hfault : (G.follow (G.visit (name :: path)) name recipe.imports).1.or recipe.fault? with
    | some fault =>
      rw [hfault] at h
      cases h
    | none => exact List.mem_cons_self

/-- Only what the module reaches is completed. -/
theorem reaches_of_mem_visit {path : List String} {name x : String} (hx : x ∈ (G.visit path name).2) :
    G.Reaches name x := by
  induction hfree : G.free path using Nat.strongRecOn generalizing path name with
  | ind n ih =>
    subst hfree
    obtain ⟨recipe, hrecipe, hpath, -, hx | ⟨rfl, -, -⟩⟩ := mem_visit hx
    · obtain ⟨step, hstep, child, htarget, hmem, -⟩ := mem_follow hx
      exact .head ⟨recipe, hrecipe, step, hstep, htarget⟩ (ih _ (free_cons_lt hrecipe hpath) hmem rfl)
    · exact .refl

/-- Whatever is completed can be loaded, and all that it reaches is completed too. -/
theorem loadable_of_mem_visit {path : List String} {name x : String} (hx : x ∈ (G.visit path name).2) :
    G.Loadable x ∧ ∀ y, G.Reaches x y → y ∈ (G.visit path name).2 := by
  induction hfree : G.free path using Nat.strongRecOn generalizing path name x with
  | ind n ih =>
    subst hfree
    obtain ⟨recipe, hrecipe, hpath, hkept, hx | ⟨rfl, hok, hall⟩⟩ := mem_visit hx
    · obtain ⟨step, hstep, child, htarget, hmem, hinto⟩ := mem_follow hx
      obtain ⟨hload, hclosed⟩ := ih _ (free_cons_lt hrecipe hpath) hmem rfl
      exact ⟨hload, fun y hy => hkept y (hinto y (hclosed y hy))⟩
    · refine ⟨(visit_eq_ok_iff.1 hok).2.1, fun y hy => ?_⟩
      rcases hy.cases_head with rfl | ⟨child, ⟨recipe', hsome, step, hstep, htarget⟩, hrest⟩
      · exact hx
      -- All imports were made, so the child is completed, and with it what it reaches.
      rw [hrecipe] at hsome
      cases hsome
      obtain ⟨child', other, htarget', hchild⟩ := follow_eq_none_iff.1 hall step hstep
      rw [htarget] at htarget'
      cases htarget'
      obtain ⟨-, hclosed⟩ := ih _ (free_cons_lt hrecipe hpath) (self_mem_visit hchild) rfl
      exact hkept y (mem_follow_of_eq_none hall hstep htarget (hclosed y hrest))

end ImportGraph

end ObjectHost
