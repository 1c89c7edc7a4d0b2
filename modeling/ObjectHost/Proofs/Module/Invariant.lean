-- SUMMARY: What every run keeps true of a realm's cache, its loading table and its factory runs.
import ObjectHost.Proofs.Module.State

/-!
# Invariants of the module tables

The loading table counts the runs for the cache that are under way, modules are
only loaded or cached under registered names, and where cycles fail a name has
at most one such run, and none once it is cached. The cache holds what the last
completed run of a name returned, and keeps it once no run of the name is left.
-/

namespace ObjectHost

variable {σ α : Type}

/-! ## What the ends of a run do to the tables -/

namespace Loader

theorem cache_opened (l : Loader) (purpose : Purpose) (name : String) :
    (l.opened purpose name).cache = l.cache := by
  cases purpose <;> rfl

theorem loading_opened (l : Loader) (purpose : Purpose) (name other : String) :
    (l.opened purpose name).loading.get? other =
      if purpose = .caching ∧ other = name then some (l.depth name + 1) else l.loading.get? other := by
  cases purpose with
  | caching => simp [opened, begin, enter, record]
  | entry => simp [opened, record]

theorem cache_closed_of_ne (l : Loader) {purpose : Purpose} {name other : String}
    (result : Except Raised Module) (h : ¬ (purpose = .caching ∧ other = name)) :
    (l.closed purpose name result).cache.get? other = l.cache.get? other := by
  cases purpose with
  | entry => cases result <;> rfl
  | caching =>
    have hne : other ≠ name := fun hname => h ⟨rfl, hname⟩
    cases result with
    | error e => rfl
    | ok m => simp [closed, finish, store, leave, record, hne]

theorem cache_closed_ok (l : Loader) (name : String) (m : Module) :
    (l.closed .caching name (.ok m)).cache.get? name = some m := by
  simp [closed, finish, store, record]

theorem cache_closed_error (l : Loader) (purpose : Purpose) (name : String) (e : Raised) :
    (l.closed purpose name (.error e)).cache = l.cache := by
  cases purpose <;> rfl

theorem loading_closed (l : Loader) (purpose : Purpose) (name other : String)
    (result : Except Raised Module) :
    (l.closed purpose name result).loading.get? other =
      if purpose = .caching ∧ other = name then
        if l.depth name ≤ 1 then none else some (l.depth name - 1)
      else l.loading.get? other := by
  cases purpose with
  | entry => cases result <;> simp [closed, record]
  | caching =>
    have hleave : (l.leave name).loading.get? other =
        if other = name then (if l.depth name ≤ 1 then none else some (l.depth name - 1))
        else l.loading.get? other := by
      unfold leave
      by_cases hdepth : l.depth name ≤ 1 <;> simp [hdepth]
    cases result <;> simpa [closed, finish, abandon, store, record] using hleave

theorem isLoading_eq_isSome (l : Loader) (name : String) : l.isLoading name = (l.loading.get? name).isSome := rfl

end Loader

/-! ## One name -/

namespace ModuleState

/-- How many runs of `name` for the cache are under way. -/
def activations (s : ModuleState) (name : String) : Nat := s.runs.count (.caching, name)

theorem activations_cons {s s' : ModuleState} {purpose : Purpose} {name : String}
    (h : s'.runs = (purpose, name) :: s.runs) (other : String) :
    s'.activations other = s.activations other + if purpose = .caching ∧ other = name then 1 else 0 := by
  simp only [activations, h, List.count_cons, beq_iff_eq, Prod.mk.injEq, eq_comm (a := name)]

theorem mem_runs_iff {s : ModuleState} {name : String} :
    (Purpose.caching, name) ∈ s.runs ↔ s.activations name ≠ 0 := by
  simp [activations, List.count_eq_zero]

/-- What is always true of a name among the modules of a realm. -/
structure Sound (s : ModuleState) (name : String) : Prop where
  /-- Only factories of registered names run. -/
  registered : ∀ purpose, (purpose, name) ∈ s.runs → s.factories.contains name = true
  cached : s.loader.cache.contains name = true → s.factories.contains name = true
  /-- The loading table lists a name with the number of its runs for the cache. -/
  loading : s.loader.loading.get? name =
    if s.activations name = 0 then none else some (s.activations name)
  /-- Where cycles fail, a name runs once at a time, and only before it is cached. -/
  exclusive : s.cycles = .failFast →
    s.activations name ≤ 1 ∧ (s.activations name ≠ 0 → s.loader.cache.get? name = none)

theorem Sound.depth {s : ModuleState} {name : String} (h : s.Sound name) :
    s.loader.depth name = s.activations name := by
  simp only [Loader.depth, h.loading]
  split <;> simp_all

theorem Sound.isLoading_iff {s : ModuleState} {name : String} (h : s.Sound name) :
    s.loader.isLoading name = true ↔ s.activations name ≠ 0 := by
  simp only [Loader.isLoading_eq_isSome, h.loading]
  split <;> simp_all

theorem Sound.activations_eq_zero {s : ModuleState} {name : String} (h : s.Sound name)
    (hreg : s.factories.contains name = false) : s.activations name = 0 := by
  refine List.count_eq_zero.2 fun hmem => ?_
  rw [h.registered _ hmem] at hreg
  cases hreg

/-- Soundness before a run begins is soundness with the run on top. -/
theorem Sound.enter {s s' : ModuleState} {name entered : String} {purpose : Purpose} {factory : Code}
    (h : s.Sound name) (hreg : s.factories.get? entered = some factory)
    (hfree : purpose = .caching →
      s.loader.cache.get? entered = none ∧ (s.loader.isLoading entered = true → s.cycles ≠ .failFast))
    (hruns : s'.runs = (purpose, entered) :: s.runs) (hcycles : s'.cycles = s.cycles)
    (hfactories : s'.factories = s.factories) (hloader : s'.loader = s.loader.opened purpose entered) :
    s'.Sound name := by
  have hcount := activations_cons hruns name
  refine ⟨?_, ?_, ?_, ?_⟩
  · intro purpose' hmem
    rw [hfactories]
    rw [hruns] at hmem
    rcases List.mem_cons.1 hmem with hhead | htail
    · cases hhead
      simp [Table.contains, hreg]
    · exact h.registered purpose' htail
  · rw [hloader, hfactories, Loader.cache_opened]
    exact h.cached
  · rw [hloader, Loader.loading_opened]
    by_cases hsame : purpose = .caching ∧ name = entered
    · obtain ⟨rfl, rfl⟩ := hsame
      simp [hcount, h.depth]
    · simpa [hcount, hsame] using h.loading
  · rw [hcycles, hloader, Loader.cache_opened]
    intro hpolicy
    by_cases hsame : purpose = .caching ∧ name = entered
    · obtain ⟨rfl, rfl⟩ := hsame
      obtain ⟨huncached, hcycle⟩ := hfree rfl
      -- The policy only let the run begin because there was none.
      have hnone : s.activations name = 0 := by
        by_contra hsome
        exact hcycle (h.isLoading_iff.2 hsome) hpolicy
      simp [hcount, hnone, huncached]
    · simpa [hcount, hsame] using h.exclusive hpolicy

/-- Soundness with a run on top is soundness after its end. -/
theorem Sound.finish {s s' : ModuleState} {name left : String} {purpose : Purpose}
    {result : Except Raised Module} (h : s.Sound name)
    (hruns : s.runs = (purpose, left) :: s'.runs) (hcycles : s'.cycles = s.cycles)
    (hfactories : s'.factories = s.factories) (hloader : s'.loader = s.loader.closed purpose left result) :
    s'.Sound name := by
  have hcount := activations_cons hruns name
  have hreg : ∀ purpose', (purpose', name) ∈ s'.runs → s'.factories.contains name = true := by
    intro purpose' hmem
    rw [hfactories]
    exact h.registered purpose' (hruns ▸ List.mem_cons_of_mem _ hmem)
  by_cases hsame : purpose = .caching ∧ name = left
  · obtain ⟨rfl, rfl⟩ := hsame
    simp only [true_and, if_true] at hcount
    refine ⟨hreg, fun _ => ?_, ?_, fun hpolicy => ?_⟩
    · rw [hfactories]
      exact h.registered .caching (hruns ▸ List.mem_cons_self)
    · rw [hloader, Loader.loading_closed, h.depth, hcount]
      by_cases hlast : s'.activations name = 0 <;> simp [hlast]
    · have hone := (h.exclusive (hcycles ▸ hpolicy)).1
      have hzero : s'.activations name = 0 := by omega
      exact ⟨by omega, fun hsome => absurd hzero hsome⟩
  · have hcache := s.loader.cache_closed_of_ne result hsame
    simp only [hsame, if_false, Nat.add_zero] at hcount
    refine ⟨hreg, ?_, ?_, ?_⟩
    · rw [hloader, hfactories]
      intro hc
      exact h.cached (by simpa only [Table.contains, hcache] using hc)
    · rw [hloader, Loader.loading_closed, if_neg hsame]
      simpa only [hcount] using h.loading
    · rw [hloader, hcycles, hcache]
      simpa only [hcount] using h.exclusive

/-- Soundness is kept by every turn. -/
theorem Sound.turn {e : Option (Purpose × String × Except Raised Module)} {s s' : ModuleState} {name : String}
    (h : s.Sound name) (ht : ModuleTurn e s s') : s'.Sound name := by
  cases ht with
  | quiet => exact h
  | start _ cycles hcycles hfactories hloader =>
    -- Nothing is registered yet, so nothing runs and the new policy finds nothing to object to.
    have hnone : s.activations name = 0 := h.activations_eq_zero (by rw [hfactories]; rfl)
    refine ⟨h.registered, h.cached, h.loading, fun _ => ⟨?_, fun hsome => absurd hnone hsome⟩⟩
    change s.activations name ≤ 1
    omega
  | register _ added factory =>
    have hkeep : s.factories.contains name = true → (s.factories.insert added factory).contains name = true := by
      intro hreg
      simp only [Table.contains, Table.get?_insert] at hreg ⊢
      split
      · rfl
      · exact hreg
    exact ⟨fun purpose hmem => hkeep (h.registered purpose hmem), fun hc => hkeep (h.cached hc), h.loading,
      h.exclusive⟩
  | enter _ purpose entered factory hreg hfree => exact h.enter hreg hfree rfl rfl rfl rfl
  | finish s purpose left result => exact h.finish rfl rfl rfl rfl

/-! ## Settled names -/

/-- The module is cached, and no run is left that could replace it. -/
def Settled (s : ModuleState) (name : String) (m : Module) : Prop :=
  s.loader.cache.get? name = some m ∧ s.activations name = 0

/-- A settled name stays settled, with the same module. -/
theorem Settled.turn {e : Option (Purpose × String × Except Raised Module)} {s s' : ModuleState} {name : String}
    {m : Module} (h : s.Settled name m) (ht : ModuleTurn e s s') : s'.Settled name m := by
  obtain ⟨hcached, hnone⟩ := h
  cases ht with
  | quiet => exact ⟨hcached, hnone⟩
  | start => exact ⟨hcached, hnone⟩
  | register => exact ⟨hcached, hnone⟩
  | enter _ purpose entered factory hreg hfree =>
    have hother : ¬ (purpose = .caching ∧ name = entered) := by
      rintro ⟨rfl, rfl⟩
      rw [(hfree rfl).1] at hcached
      cases hcached
    refine ⟨?_, ?_⟩
    · rw [Loader.cache_opened]
      exact hcached
    · rw [activations_cons rfl, hnone, if_neg hother]
  | finish s purpose left result =>
    rw [activations_cons rfl] at hnone
    have hother : ¬ (purpose = .caching ∧ name = left) := fun hsame => by
      rw [if_pos hsame] at hnone
      omega
    refine ⟨?_, ?_⟩
    · rw [s.loader.cache_closed_of_ne result hother]
      exact hcached
    · rw [if_neg hother] at hnone
      exact hnone

end ModuleState

/-! ## What the cache holds -/

/-- The module that a run of `name` for the cache comes to, if it is such a run that ends. -/
def completion (name : String) : Option (Purpose × String × Except Raised Module) → Option Module
  | some (.caching, left, .ok m) => if name = left then some m else none
  | _ => none

/-- The cache changes by completions alone, and takes every one of them. -/
theorem ModuleTurn.cache {e : Option (Purpose × String × Except Raised Module)} {s s' : ModuleState}
    (ht : ModuleTurn e s s') (name : String) :
    s'.loader.cache.get? name = (completion name e).or (s.loader.cache.get? name) := by
  cases ht with
  | quiet => rfl
  | start => rfl
  | register => rfl
  | enter _ purpose entered factory hreg hfree => rw [Loader.cache_opened]; rfl
  | finish s purpose left result =>
    by_cases hsame : purpose = .caching ∧ name = left
    · obtain ⟨rfl, rfl⟩ := hsame
      cases result with
      | ok m => simp [completion, Loader.cache_closed_ok]
      | error r => simp [completion, Loader.cache_closed_error]
    · rw [s.loader.cache_closed_of_ne result hsame]
      cases purpose with
      | entry => rfl
      | caching =>
        have hne : name ≠ left := fun hname => hsame ⟨rfl, hname⟩
        cases result <;> simp [completion, hne]

/-- A run for the cache that ends was under way. -/
theorem ModuleTurn.activations_of_ending {s s' : ModuleState} {name : String} {r : Except Raised Module}
    (ht : ModuleTurn (some (.caching, name, r)) s s') : s.activations name = s'.activations name + 1 := by
  cases ht with
  | finish s =>
    rw [ModuleState.activations_cons rfl, if_pos ⟨rfl, rfl⟩]
    rfl

theorem completion_eq_some_iff {e : Option (Purpose × String × Except Raised Module)} {name : String} {m : Module} :
    completion name e = some m ↔ e = some (.caching, name, .ok m) := by
  unfold completion
  split <;> grind

/-- What completes was under way. -/
theorem ModuleTurn.activations_of_completion {e : Option (Purpose × String × Except Raised Module)}
    {s s' : ModuleState} (ht : ModuleTurn e s s') {name : String} {m : Module}
    (hm : completion name e = some m) : s.activations name = s'.activations name + 1 := by
  rw [completion_eq_some_iff] at hm
  subst hm
  exact ht.activations_of_ending

/-- The module that a run of `name` for the cache of the realm `id` comes to with the next step. -/
def Moment.completes (m : Moment σ α) (id : RealmId) (name : String) : Option Module :=
  completion name (m.ending? id)

/-! ## Whole runs -/

section Run

variable {g : Guest σ} {room : Option Nat} {p : Program σ α} {s : σ} {id : RealmId} {name : String}

theorem modules_moments_zero :
    (moments g room p s 0).modules id = ⟨[], .reenter, ∅, .empty⟩ :=
  rfl

theorem sound_moments (k : Nat) : ((moments g room p s k).modules id).Sound name := by
  refine invariant_moments (·.Sound name) (fun h ht => h.turn ht) (Nat.zero_le k) ?_
  rw [modules_moments_zero]
  exact ⟨fun _ hmem => (by cases hmem), fun hc => (by cases hc), rfl,
    fun _ => ⟨Nat.zero_le 1, fun hsome => absurd rfl hsome⟩⟩

theorem cache_moments_succ (k : Nat) :
    ((moments g room p s (k + 1)).modules id).loader.cache.get? name =
      ((moments g room p s k).completes id name).or
        (((moments g room p s k).modules id).loader.cache.get? name) :=
  (turn_moments g room p s id k).cache name

/-- As long as no run completes, the cache keeps what it has. -/
theorem cache_moments_of_none {i k : Nat} (hik : i ≤ k)
    (hnone : ∀ j, i ≤ j → j < k → (moments g room p s j).completes id name = none) :
    ((moments g room p s k).modules id).loader.cache.get? name =
      ((moments g room p s i).modules id).loader.cache.get? name := by
  induction hik with
  | refl => rfl
  | @step k hik ih =>
    rw [cache_moments_succ, hnone k hik (Nat.lt_succ_self k), Option.none_or]
    exact ih fun j hij hjk => hnone j hij (by omega)

/-- The cache holds what the last run completed since `i` returned. If none did, it holds what it held at `i`. -/
theorem cache_moments_eq_some {i k : Nat} (hik : i ≤ k) {m : Module} :
    ((moments g room p s k).modules id).loader.cache.get? name = some m ↔
      (∃ j, i ≤ j ∧ j < k ∧ (moments g room p s j).completes id name = some m ∧
        ∀ l, j < l → l < k → (moments g room p s l).completes id name = none) ∨
      (((moments g room p s i).modules id).loader.cache.get? name = some m ∧
        ∀ l, i ≤ l → l < k → (moments g room p s l).completes id name = none) := by
  constructor
  · intro h
    induction hik with
    | refl => exact .inr ⟨h, fun l hil hli => by omega⟩
    | @step k hik ih =>
      rw [cache_moments_succ] at h
      cases hlast : (moments g room p s k).completes id name with
      | some last =>
        rw [hlast, Option.some_or] at h
        exact .inl ⟨k, hik, Nat.lt_succ_self k, hlast.trans h, fun l hkl hlk => by omega⟩
      | none =>
        rw [hlast, Option.none_or] at h
        -- Nothing completes at the last moment, so what held before it still does.
        have hextend : ∀ l, (l < k → (moments g room p s l).completes id name = none) →
            l < k + 1 → (moments g room p s l).completes id name = none := by
          intro l hbefore hl
          rcases Nat.lt_or_eq_of_le (Nat.le_of_lt_succ hl) with hlt | rfl
          · exact hbefore hlt
          · exact hlast
        rcases ih h with ⟨j, hij, hjk, hcompletes, hnone⟩ | ⟨hcached, hnone⟩
        · exact .inl ⟨j, hij, by omega, hcompletes, fun l hjl => hextend l (hnone l hjl)⟩
        · exact .inr ⟨hcached, fun l hil => hextend l (hnone l hil)⟩
  · rintro (⟨j, hij, hjk, hcompletes, hnone⟩ | ⟨hcached, hnone⟩)
    · rw [cache_moments_of_none (Nat.succ_le_of_lt hjk) hnone, cache_moments_succ, hcompletes, Option.some_or]
    · rw [cache_moments_of_none hik hnone, hcached]

end Run

end ObjectHost
