-- SUMMARY: How often factories run for the cache, what the cache holds, and what a failed load leaves in it.
import ObjectHost.Proofs.Machine.Operation
import ObjectHost.Proofs.Module.Invariant

/-!
# Caching

The results here are about every moment of every run: any guest, any program,
any room for nested bodies, from a host without realms on. Where cycles fail, a
module is made at most once. Under either policy the cache holds the module of
the last completed run, and a module loaded with no run of its name left is
there for good. A failed load caches nothing itself, but runs of the same name
that completed inside of it have.
-/

namespace ObjectHost

variable {σ α : Type}

/-! ## The policy of a realm -/

/-- A realm where cycles fail stays one. -/
theorem ModuleTurn.failFast {e : Option (Purpose × String × Except Raised Module)} {s s' : ModuleState}
    (ht : ModuleTurn e s s') (h : s.cycles = .failFast) : s'.cycles = .failFast := by
  cases ht with
  | start _ cycles hcycles hfactories hloader =>
    rw [hcycles] at h
    cases h
  | _ => exact h

/-- The policy is settled by the time a factory is registered. -/
theorem ModuleTurn.cycles_of_registered {e : Option (Purpose × String × Except Raised Module)}
    {s s' : ModuleState} (ht : ModuleTurn e s s') {name : String} (h : s.factories.contains name = true) :
    s'.cycles = s.cycles ∧ s'.factories.contains name = true := by
  cases ht with
  | start _ cycles hcycles hfactories hloader =>
    rw [hfactories] at h
    cases h
  | register _ added factory =>
    refine ⟨rfl, ?_⟩
    simp only [Table.contains, Table.get?_insert] at h ⊢
    split
    · rfl
    · exact h
  | _ => exact ⟨rfl, h⟩

namespace ModuleState

/-- Where cycles fail, what is cached is settled. -/
theorem Sound.settled_of_cached {s : ModuleState} {name : String} {m : Module} (h : s.Sound name)
    (hpolicy : s.cycles = .failFast) (hcached : s.loader.cache.get? name = some m) : s.Settled name m := by
  refine ⟨hcached, ?_⟩
  by_contra hsome
  rw [(h.exclusive hpolicy).2 hsome] at hcached
  cases hcached

/-- Where cycles fail, a completed run settles its name. -/
theorem Sound.settled_of_completion {e : Option (Purpose × String × Except Raised Module)}
    {s s' : ModuleState} {name : String} {m : Module} (h : s.Sound name) (hpolicy : s.cycles = .failFast)
    (ht : ModuleTurn e s s') (hm : completion name e = some m) : s'.Settled name m := by
  have hone := (h.exclusive hpolicy).1
  have hleft := ht.activations_of_completion hm
  refine ⟨?_, by omega⟩
  rw [ht.cache name, hm, Option.some_or]

theorem Settled.not_completes {e : Option (Purpose × String × Except Raised Module)} {s s' : ModuleState}
    {name : String} {m : Module} (h : s.Settled name m) (ht : ModuleTurn e s s') : completion name e = none := by
  cases hm : completion name e with
  | none => rfl
  | some m' =>
    have hleft := ht.activations_of_completion hm
    rw [h.2] at hleft
    cases hleft

/-- Where cycles fail, cached and loading names are different registered names. -/
theorem size_cache_add_size_loading_le {s : ModuleState} (h : ∀ name, s.Sound name)
    (hpolicy : s.cycles = .failFast) : s.loader.cache.size + s.loader.loading.size ≤ s.factories.size := by
  refine Table.size_add_size_le ?_ (fun name hc => (h name).cached hc) ?_
  · intro name hc
    obtain ⟨m, hm⟩ := Option.isSome_iff_exists.1 hc
    have hzero := ((h name).settled_of_cached hpolicy hm).2
    simp [Table.contains, (h name).loading, hzero]
  · intro name hl
    exact (h name).registered .caching (mem_runs_iff.2 ((h name).isLoading_iff.1 hl))

end ModuleState

/-! ## Requests at a moment -/

section Run

variable {g : Guest σ} {room : Option Nat} {p : Program σ α} {s : σ}

/-- A request for a module enters the factory that the world says is to run. -/
theorem moments_succ_of_enters {k : Nat} {purpose : Purpose} {ctx : Context} {factory : Code}
    (hwanted : (moments g room p s k).thread.wanted? = some (purpose, ctx))
    (hstart : (moments g room p s k).world.start purpose ctx = .inr factory) :
    moments g room p s (k + 1) =
      ⟨(moments g room p s k).thread.entered g room purpose ctx factory,
        (moments g room p s k).world.opened purpose ctx⟩ := by
  rw [moments_succ, Thread.step_wanted hwanted, hstart]

theorem moments_succ_of_answered {k : Nat} {purpose : Purpose} {ctx : Context} {r : Except Raised Module}
    {w : World σ} (hwanted : (moments g room p s k).thread.wanted? = some (purpose, ctx))
    (hstart : (moments g room p s k).world.start purpose ctx = .inl (r, w)) :
    moments g room p s (k + 1) = ⟨(moments g room p s k).thread.answered r, w⟩ := by
  rw [moments_succ, Thread.step_wanted hwanted, hstart]

/-- Where cycles fail, no two runs of one name complete. -/
theorem completes_once {id : RealmId} {name : String} {k i j : Nat} {m m' : Module}
    (hpolicy : ((moments g room p s k).modules id).cycles = .failFast)
    (hi : (moments g room p s i).completes id name = some m)
    (hj : (moments g room p s j).completes id name = some m') : i ≤ j → i = j := by
  intro hij
  have hturn := turn_moments g room p s id i
  -- The name is registered when its run completes, so the policy is the one of the realm at any time.
  have hreg : ((moments g room p s i).modules id).factories.contains name = true := by
    have hleft := hturn.activations_of_completion hi
    exact (sound_moments i).registered .caching (ModuleState.mem_runs_iff.2 (by omega))
  have hthen : ((moments g room p s i).modules id).cycles = .failFast := by
    rcases Nat.le_total i k with hik | hki
    · have hkeep := invariant_moments
        (fun t => t.cycles = ((moments g room p s i).modules id).cycles ∧ t.factories.contains name = true)
        (fun h ht => ⟨(ht.cycles_of_registered h.2).1.trans h.1, (ht.cycles_of_registered h.2).2⟩) hik ⟨rfl, hreg⟩
      exact hkeep.1.symm.trans hpolicy
    · exact invariant_moments (·.cycles = .failFast) (fun h ht => ht.failFast h) hki hpolicy
  by_contra hne
  have hsettled := (sound_moments i).settled_of_completion hthen hturn hi
  have hlater := invariant_moments (·.Settled name m) (fun h ht => h.turn ht) (by omega : i + 1 ≤ j) hsettled
  have hnone := hlater.not_completes (turn_moments g room p s id j)
  cases hnone.symm.trans hj

end Run

/-! ## Where cycles fail -/

/-- Where cycles fail, a module is made at most once. A name has at most one run for the cache under way, and that
    is its loading depth; a name that is loading is registered and not cached yet; a cached module stays the same;
    and no two runs for the cache complete. Runs as an entry count for nothing in this: they do not keep a run for
    the cache from starting, and nothing keeps them from starting. To run a module is to enter its factory in the next
    step, be the module cached or loading, and that changes neither what is cached nor how often a name is loading. -/
theorem failFast_makes_modules_once (g : Guest σ) (room : Option Nat) (p : Program σ α) (s : σ) (k : Nat)
    (id : RealmId) (hpolicy : ((moments g room p s k).modules id).cycles = .failFast) :
    let m := moments g room p s k
    let now := m.modules id
    (∀ name, now.activations name ≤ 1 ∧ now.loader.depth name = now.activations name) ∧
    (∀ name, now.loader.isLoading name = true →
      now.factories.contains name = true ∧ now.loader.cache.get? name = none) ∧
    now.loader.cache.size + now.loader.loading.size ≤ now.factories.size ∧
    (∀ name module, now.loader.cache.get? name = some module →
      ∀ j, k ≤ j → ((moments g room p s j).modules id).loader.cache.get? name = some module) ∧
    (∀ name i j module module', (moments g room p s i).completes id name = some module →
      (moments g room p s j).completes id name = some module' → i = j) ∧
    (∀ ctx factory, ctx.realm = id → now.factories.get? ctx.fqName = some factory →
      (m.thread.wanted? = some (.entry, ctx) → moments g room p s (k + 1) =
        ⟨m.thread.entered g room .entry ctx factory, m.world.opened .entry ctx⟩) ∧
      (m.thread.wanted? = some (.caching, ctx) → now.loader.cache.get? ctx.fqName = none →
        now.activations ctx.fqName = 0 → moments g room p s (k + 1) =
          ⟨m.thread.entered g room .caching ctx factory, m.world.opened .caching ctx⟩)) ∧
    (∀ {β : Type} (frames : Frames σ α β) (target : String) (displayName : Option String)
      (next : Except Raised Module → Program σ β) (factory : Code),
      m.thread = frames.fill (.active ((runModule id target displayName).run.bind next)) →
      now.factories.get? target = some factory →
      let ctx : Context := ⟨id, target, displayName.getD target⟩
      let later := (moments g room p s (k + 1)).modules id
      moments g room p s (k + 1) =
          ⟨frames.fill (.running .entry ctx (.active (g.loadBody (frames.room room) factory ctx)) next),
            m.world.opened .entry ctx⟩ ∧
        (∀ name, later.activations name = now.activations name) ∧
        later.loader.cache = now.loader.cache ∧ later.loader.loading = now.loader.loading) := by
  intro m now
  have hsound : ∀ name, now.Sound name := fun name => sound_moments k
  refine ⟨?_, ?_, ?_, ?_, ?_, ?_, ?_⟩
  · intro name
    exact ⟨((hsound name).exclusive hpolicy).1, (hsound name).depth⟩
  · intro name hloading
    have hactive := (hsound name).isLoading_iff.1 hloading
    exact ⟨(hsound name).registered .caching (ModuleState.mem_runs_iff.2 hactive),
      ((hsound name).exclusive hpolicy).2 hactive⟩
  · exact ModuleState.size_cache_add_size_loading_le hsound hpolicy
  · intro name module hcached j hkj
    have hsettled := (hsound name).settled_of_cached hpolicy hcached
    exact (invariant_moments (·.Settled name module) (fun h ht => h.turn ht) hkj hsettled).1
  · intro name i j module module' hi hj
    rcases Nat.le_total i j with hij | hji
    · exact completes_once hpolicy hi hj hij
    · exact (completes_once hpolicy hj hi hji).symm
  · rintro ctx factory rfl hreg
    refine ⟨fun hwanted => moments_succ_of_enters hwanted ?_, fun hwanted huncached hnone =>
      moments_succ_of_enters hwanted ?_⟩
    · exact World.start_eq_inr.2 ⟨hreg, fun hpurpose => by cases hpurpose⟩
    · refine World.start_eq_inr.2 ⟨hreg, fun _ => ⟨huncached, fun hloading => ?_⟩⟩
      exact absurd hnone ((hsound ctx.fqName).isLoading_iff.1 hloading)
  · intro β frames target displayName next factory hthread hreg ctx later
    have hstep : Moment.step g room ⟨_, m.world⟩ = _ := frames.step_runModule_of_some displayName next hreg
    rw [← hthread] at hstep
    have hnext := (moments_succ g room p s k).trans hstep
    have hstack : m.thread.stack = frames.stack := by
      rw [hthread, frames.stack_fill]
      rfl
    have hlater : later =
        { now with runs := (.entry, target) :: now.runs, loader := now.loader.opened .entry target } := by
      simp only [later, Moment.modules, hnext, frames.stack_fill, ← hstack]
      have hctx : (m.world.host.realm ctx.realm).factories.get? ctx.fqName = some factory := hreg
      exact Host.moduleState_opened hctx .entry m.thread.stack
    refine ⟨hnext, fun name => ?_, ?_, ?_⟩
    · have hcount := ModuleState.activations_cons (congrArg ModuleState.runs hlater) name
      rwa [if_neg fun hpurpose => by cases hpurpose.1] at hcount
    · rw [hlater]
      exact now.loader.cache_opened .entry target
    · rw [hlater]
      rfl

/-- A guest whose factories make a new module, and do something else before it the first time that one of them runs. -/
def onFirstRun (first : Context → Task Nat Unit) : Guest Nat where
  call _ _ := Task.fail (.host depthLimit)
  load _ ctx := do
    let runs ← (Program.send (.guest (· + 1)) : Program Nat Nat)
    if runs = 0 then first ctx
    (ctx.newModule : Program Nat Module)

/-- The first run imports the module that it is to make, whatever comes of it, and then fails if there is a failure to
    fail with. -/
def selfImporting (failure : Option HostFailure) : Guest Nat :=
  onFirstRun fun ctx => do
    let _ ← (ExceptT.lift (ctx.importModule ctx.fqName).run : Task Nat (Except Raised Module))
    if let some failure := failure then Task.fail (.host failure)

/-- The first run runs the module that it is to make as an entry, and then imports it, whatever comes of either. -/
def selfRunning : Guest Nat :=
  onFirstRun fun ctx => do
    let _ ← (ExceptT.lift (runModule ctx.realm ctx.fqName none).run : Task Nat (Except Raised Module))
    let _ ← (ExceptT.lift (ctx.importModule ctx.fqName).run : Task Nat (Except Raised Module))

/-- Starts a realm with the module `a`, and then imports it and loads it. -/
def loadTwice (cycles : CyclePolicy) : Program Nat (Except Raised Module × Except Raised Module) := do
  let _ ← Program.send (.boot ⟨Builtin.defaultQualifier, cycles⟩)
  let _ ← Program.send (.register 0 "a" ⟨0, 0⟩)
  let first ← (importModule 0 "a" "").run
  let second ← (loadResolved 0 "a").run
  return (first, second)

/-- While `a` is being loaded, its factory runs the module: that run begins at once, and `a` is loading once as before.
    Then it imports the module in vain, and what it makes itself is cached and stays. -/
theorem failFast_makes_modules_once_selfRunning :
    let run := moments selfRunning none (loadTwice .failFast) 0
    (((run 5).modules 0).cycles = .failFast ∧ (run 5).thread.stack = [.factory .caching ⟨0, "a", "a"⟩] ∧
      (run 6).thread.stack = [.factory .entry ⟨0, "a", "a"⟩, .factory .caching ⟨0, "a", "a"⟩] ∧
      ((run 6).modules 0).activations "a" = ((run 5).modules 0).activations "a") ∧
    ((run 15).modules 0).cycles = .failFast ∧
    ∃ m, ∀ j, 15 ≤ j → ((run j).modules 0).loader.cache.get? "a" = some m := by
  intro run
  have hstate : (((run 5).modules 0).cycles = .failFast ∧ (run 5).thread.wanted? = some (.entry, ⟨0, "a", "a"⟩) ∧
      (run 5).thread.stack = [.factory .caching ⟨0, "a", "a"⟩] ∧
      ((run 5).modules 0).factories.get? "a" = some ⟨0, 0⟩) ∧
      ((run 15).modules 0).cycles = .failFast ∧ (((run 15).modules 0).loader.cache.get? "a").isSome = true := by
    decide +kernel
  obtain ⟨⟨hpolicy, hwanted, hstack, hreg⟩, hpolicy', hcached⟩ := hstate
  refine ⟨⟨hpolicy, hstack, ?_⟩, hpolicy', ?_⟩
  · obtain ⟨β, frames, next, hthread⟩ := Thread.exists_fill_of_wanted_entry hwanted
    obtain ⟨-, -, -, -, -, -, hruns⟩ :=
      failFast_makes_modules_once selfRunning none (loadTwice .failFast) 0 5 0 hpolicy
    obtain ⟨hnext, hcount, -⟩ := hruns frames "a" none next ⟨0, 0⟩ hthread hreg
    have hframes : frames.stack = [.factory .caching ⟨0, "a", "a"⟩] := by
      rw [← hstack, hthread, frames.stack_fill]
      rfl
    have hsix : run 6 = moments selfRunning none (loadTwice .failFast) 0 (5 + 1) := rfl
    rw [hsix]
    refine ⟨?_, hcount "a"⟩
    rw [hnext, frames.stack_fill, hframes]
    rfl
  · obtain ⟨m, hm⟩ := Option.isSome_iff_exists.1 hcached
    obtain ⟨-, -, -, hstays, -⟩ :=
      failFast_makes_modules_once selfRunning none (loadTwice .failFast) 0 15 0 hpolicy'
    simp only [run] at hm ⊢
    exact ⟨m, hstays "a" m hm⟩

/-! ## Loads from beginning to end -/

/-- The request for the module of `ctx` that is made at the moment `i` is answered with `r` by the step at the moment
    `k`. -/
inductive Loads (run : Nat → Moment σ α) (ctx : Context) (r : Except Raised Module) (i : Nat) : Nat → Prop where
  | atOnce {w : World σ} (hwanted : (run i).thread.wanted? = some (.caching, ctx))
      (hstart : (run i).world.start .caching ctx = .inl (r, w)) : Loads run ctx r i i
  /-- The factory runs on top of the bodies that were there, and is the only one on top of them when it ends. -/
  | ran {k : Nat} (hwanted : (run i).thread.wanted? = some (.caching, ctx)) (hik : i < k)
      (hinside : ∀ j, j ≤ k → i < j → .factory .caching ctx :: (run i).thread.stack <:+ (run j).thread.stack)
      (hend : (run k).thread.ending? = some ⟨.caching, ctx, r⟩)
      (hstack : (run k).thread.stack = .factory .caching ctx :: (run i).thread.stack) : Loads run ctx r i k

namespace Loads

variable {g : Guest σ} {room : Option Nat} {p : Program σ α} {s : σ} {ctx : Context} {i k : Nat}

theorem le {run : Nat → Moment σ α} {r : Except Raised Module} (h : Loads run ctx r i k) : i ≤ k := by
  cases h with
  | atOnce => exact Nat.le_refl i
  | ran _ hik => exact Nat.le_of_lt hik

theorem wanted {run : Nat → Moment σ α} {r : Except Raised Module} (h : Loads run ctx r i k) :
    (run i).thread.wanted? = some (.caching, ctx) := by
  cases h with
  | atOnce hwanted => exact hwanted
  | ran hwanted => exact hwanted

/-- The request itself completes nothing. -/
theorem not_completes {run : Nat → Moment σ α} {r : Except Raised Module} (h : Loads run ctx r i k) :
    (run i).completes ctx.realm ctx.fqName = none := by
  simp only [Moment.completes, Moment.ending?, Thread.ending?_eq_none_of_wanted h.wanted, Option.bind_none,
    completion]

/-- A factory was entered, so its module was not there. -/
theorem cache_of_inside {k : Nat} (hwanted : (moments g room p s i).thread.wanted? = some (.caching, ctx))
    (hik : i < k) (hinside : ∀ j, j ≤ k → i < j →
      .factory .caching ctx :: (moments g room p s i).thread.stack <:+ (moments g room p s j).thread.stack) :
    ((moments g room p s i).modules ctx.realm).loader.cache.get? ctx.fqName = none := by
  cases hstart : (moments g room p s i).world.start .caching ctx with
  | inr factory => exact ((World.start_eq_inr.1 hstart).2 rfl).1
  | inl answer =>
    have hlonger := (hinside (i + 1) hik (Nat.lt_succ_self i)).length_le
    rw [moments_succ_of_answered hwanted hstart, Thread.stack_answered, List.length_cons] at hlonger
    omega

theorem cache_of_ok {m : Module} (h : Loads (moments g room p s) ctx (.ok m) i k) :
    ((moments g room p s (k + 1)).modules ctx.realm).loader.cache.get? ctx.fqName = some m := by
  cases h with
  | atOnce hwanted hstart =>
    obtain ⟨hcached, rfl⟩ := World.start_eq_inl_ok.1 hstart
    rw [moments_succ_of_answered hwanted hstart]
    exact hcached
  | ran hwanted hik hinside hend hstack =>
    have hcompletes : (moments g room p s k).completes ctx.realm ctx.fqName = some m := by
      simp [Moment.completes, Moment.ending?, hend, Ending.of?, completion]
    rw [cache_moments_succ, hcompletes, Option.some_or]

/-- What fails was not cached when it was asked for, and nothing is cached by the failure. -/
theorem cache_of_error {e : Raised} (h : Loads (moments g room p s) ctx (.error e) i k) :
    ((moments g room p s i).modules ctx.realm).loader.cache.get? ctx.fqName = none ∧
      (moments g room p s k).completes ctx.realm ctx.fqName = none := by
  cases h with
  | atOnce hwanted hstart =>
    exact ⟨World.cache_of_start_eq_inl_error hstart, (Loads.atOnce hwanted hstart).not_completes⟩
  | ran hwanted hik hinside hend hstack =>
    refine ⟨cache_of_inside hwanted hik hinside, ?_⟩
    simp [Moment.completes, Moment.ending?, hend, Ending.of?, completion]

/-- Where cycles fail, a failed load leaves its name uncached. -/
theorem cache_of_error_failFast {e : Raised} (h : Loads (moments g room p s) ctx (.error e) i k)
    (hpolicy : ((moments g room p s k).modules ctx.realm).cycles = .failFast) :
    ((moments g room p s k).modules ctx.realm).loader.cache.get? ctx.fqName = none := by
  cases h with
  | atOnce hwanted hstart => exact World.cache_of_start_eq_inl_error hstart
  | ran hwanted hik hinside hend hstack =>
    refine ((sound_moments k).exclusive hpolicy).2 (ModuleState.mem_runs_iff.1 ?_)
    simp [Moment.modules, Host.moduleState, hstack, Activity.runOf?]

end Loads

/-! ## What the cache holds -/

/-- Under either policy, the cache holds the module of the last completed run, and none before the first. Once a load
    has returned a module and no run of the name is left, every later load is answered with the same module at once:
    the world stays as it is, and no body is entered. -/
theorem cache_holds_last_completed (g : Guest σ) (room : Option Nat) (p : Program σ α) (s : σ) (id : RealmId)
    (name : String) :
    (∀ k m, ((moments g room p s k).modules id).loader.cache.get? name = some m ↔
      ∃ j, j < k ∧ (moments g room p s j).completes id name = some m ∧
        ∀ l, j < l → l < k → (moments g room p s l).completes id name = none) ∧
    (∀ ctx i k m, ctx.realm = id → ctx.fqName = name → Loads (moments g room p s) ctx (.ok m) i k →
      ((moments g room p s (k + 1)).modules id).activations name = 0 →
      ∀ j ctx', k < j → ctx'.realm = id → ctx'.fqName = name →
        (moments g room p s j).thread.wanted? = some (.caching, ctx') →
        moments g room p s (j + 1) =
            ⟨(moments g room p s j).thread.answered (.ok m), (moments g room p s j).world⟩ ∧
          (moments g room p s (j + 1)).thread.stack = (moments g room p s j).thread.stack) := by
  refine ⟨?_, ?_⟩
  · intro k m
    rw [cache_moments_eq_some (Nat.zero_le k)]
    constructor
    · rintro (⟨j, -, hjk, hcompletes, hnone⟩ | ⟨hcached, -⟩)
      · exact ⟨j, hjk, hcompletes, hnone⟩
      · rw [modules_moments_zero] at hcached
        cases hcached
    · rintro ⟨j, hjk, hcompletes, hnone⟩
      exact .inl ⟨j, Nat.zero_le j, hjk, hcompletes, hnone⟩
  · rintro ctx i k m rfl rfl hload hleft j ctx' hkj hrealm hname hwanted
    have hsettled := invariant_moments (·.Settled ctx.fqName m) (fun h ht => h.turn ht)
      (Nat.succ_le_of_lt hkj) ⟨hload.cache_of_ok, hleft⟩
    have hcached : ((moments g room p s j).world.host.realm ctx'.realm).loader.cache.get? ctx'.fqName = some m := by
      rw [hrealm, hname]
      exact hsettled.1
    have hnext := moments_succ_of_answered hwanted (World.start_eq_inl_ok.2 ⟨hcached, rfl⟩)
    refine ⟨hnext, ?_⟩
    rw [hnext, Thread.stack_answered]

/-- The module `a` imports itself, so that two runs complete; the load afterwards gets the module of the outer one. -/
theorem cache_holds_last_completed_selfImporting :
    let run := moments (selfImporting none) none (loadTwice .reenter) 0
    ∃ m, Loads run ⟨0, "a", "a"⟩ (.ok m) 3 13 ∧ run 15 = ⟨(run 14).thread.answered (.ok m), (run 14).world⟩ := by
  intro run
  have hcached : (((run 14).modules 0).loader.cache.get? "a").isSome = true := by decide +kernel
  have hstate : (run 3).thread.wanted? = some (.caching, ⟨0, "a", "a"⟩) ∧
      (∀ j, j ≤ 13 → 3 < j →
        .factory .caching ⟨0, "a", "a"⟩ :: (run 3).thread.stack <:+ (run j).thread.stack) ∧
      (run 13).thread.stack = .factory .caching ⟨0, "a", "a"⟩ :: (run 3).thread.stack ∧
      (run 13).thread.ending? = some ⟨.caching, ⟨0, "a", "a"⟩, .ok (Option.get _ hcached)⟩ ∧
      ((run 14).modules 0).activations "a" = 0 ∧
      (run 14).thread.wanted? = some (.caching, ⟨0, "a", "a"⟩) := by
    decide +kernel +revert
  obtain ⟨hasked, hinside, hstack, hend, hleft, hwanted⟩ := hstate
  have hload := Loads.ran hasked (by decide) hinside hend hstack
  obtain ⟨-, hpermanent⟩ := cache_holds_last_completed (selfImporting none) none (loadTwice .reenter) 0 0 "a"
  exact ⟨_, hload, (hpermanent _ 3 13 _ rfl rfl hload hleft 14 _ (by decide) rfl rfl hwanted).1⟩

/-! ## What a failed load leaves behind -/

/-- After a failed load, a module is cached under the name exactly if a run of the same name completed while the load
    was under way, and then it is the module of the last one. Where cycles fail there is none. As long as no other
    run completes, the next load runs the factory registered by then if nothing was left, unless the name is still
    loading where cycles fail, and is answered with what was left otherwise. -/
theorem cache_after_failed_load (g : Guest σ) (room : Option Nat) (p : Program σ α) (s : σ) (ctx : Context)
    (e : Raised) (i k : Nat) (h : Loads (moments g room p s) ctx (.error e) i k) :
    let after := (moments g room p s (k + 1)).modules ctx.realm
    (∀ m, after.loader.cache.get? ctx.fqName = some m ↔
      ∃ j, i < j ∧ j < k ∧ (moments g room p s j).completes ctx.realm ctx.fqName = some m ∧
        ∀ l, j < l → l < k → (moments g room p s l).completes ctx.realm ctx.fqName = none) ∧
    (((moments g room p s k).modules ctx.realm).cycles = .failFast →
      after.loader.cache.get? ctx.fqName = none) ∧
    (∀ j ctx', k < j → ctx'.realm = ctx.realm → ctx'.fqName = ctx.fqName →
      (moments g room p s j).thread.wanted? = some (.caching, ctx') →
      (∀ l, k < l → l < j → (moments g room p s l).completes ctx.realm ctx.fqName = none) →
      let later := (moments g room p s j).modules ctx.realm
      (∀ factory, after.loader.cache.get? ctx.fqName = none → later.factories.get? ctx.fqName = some factory →
        (later.loader.isLoading ctx.fqName = true → later.cycles ≠ .failFast) →
        moments g room p s (j + 1) = ⟨(moments g room p s j).thread.entered g room .caching ctx' factory,
          (moments g room p s j).world.opened .caching ctx'⟩) ∧
      (∀ m, after.loader.cache.get? ctx.fqName = some m → moments g room p s (j + 1) =
        ⟨(moments g room p s j).thread.answered (.ok m), (moments g room p s j).world⟩)) := by
  intro after
  obtain ⟨huncached, hlast⟩ := h.cache_of_error
  have hafter : after.loader.cache.get? ctx.fqName =
      ((moments g room p s k).modules ctx.realm).loader.cache.get? ctx.fqName := by
    rw [cache_moments_succ, hlast, Option.none_or]
  refine ⟨?_, ?_, ?_⟩
  · intro m
    rw [hafter, cache_moments_eq_some h.le]
    constructor
    · rintro (⟨j, hij, hjk, hcompletes, hnone⟩ | ⟨hcached, -⟩)
      · have hne : i ≠ j := by
          rintro rfl
          rw [h.not_completes] at hcompletes
          cases hcompletes
        exact ⟨j, by omega, hjk, hcompletes, hnone⟩
      · rw [huncached] at hcached
        cases hcached
    · rintro ⟨j, hij, hjk, hcompletes, hnone⟩
      exact .inl ⟨j, Nat.le_of_lt hij, hjk, hcompletes, hnone⟩
  · intro hpolicy
    rw [hafter]
    exact h.cache_of_error_failFast hpolicy
  · intro j ctx' hkj hrealm hname hwanted hquiet later
    have hkept : later.loader.cache.get? ctx.fqName = after.loader.cache.get? ctx.fqName :=
      cache_moments_of_none (Nat.succ_le_of_lt hkj) fun l hkl hlj => hquiet l (Nat.lt_of_succ_le hkl) hlj
    refine ⟨fun factory hnone hreg hfree => moments_succ_of_enters hwanted ?_, fun m hsome =>
      moments_succ_of_answered hwanted ?_⟩
    · rw [World.start_eq_inr, hrealm, hname]
      exact ⟨hreg, fun _ => ⟨hkept.trans hnone, hfree⟩⟩
    · rw [World.start_eq_inl_ok, hrealm, hname]
      exact ⟨hkept.trans hsome, rfl⟩

/-- The module `a` fails after it has imported itself; the load afterwards gets what the nested run made. -/
theorem cache_after_failed_load_selfImporting :
    let run := moments (selfImporting (some (.other "boom"))) none (loadTwice .reenter) 0
    Loads run ⟨0, "a", "a"⟩ (.error (.host (.other "boom"))) 3 11 ∧
      ∃ m, (run 10).completes 0 "a" = some m ∧
        run 13 = ⟨(run 12).thread.answered (.ok m), (run 12).world⟩ := by
  intro run
  have hstate : (run 3).thread.wanted? = some (.caching, ⟨0, "a", "a"⟩) ∧
      (∀ j, j ≤ 11 → 3 < j →
        .factory .caching ⟨0, "a", "a"⟩ :: (run 3).thread.stack <:+ (run j).thread.stack) ∧
      (run 11).thread.stack = .factory .caching ⟨0, "a", "a"⟩ :: (run 3).thread.stack ∧
      (run 11).thread.ending? = some ⟨.caching, ⟨0, "a", "a"⟩, .error (.host (.other "boom"))⟩ ∧
      ((run 10).completes 0 "a").isSome = true ∧
      (run 12).thread.wanted? = some (.caching, ⟨0, "a", "a"⟩) := by
    decide +kernel +revert
  obtain ⟨hasked, hinside, hstack, hend, hcompletes, hwanted⟩ := hstate
  obtain ⟨m, hm⟩ := Option.isSome_iff_exists.1 hcompletes
  have hload := Loads.ran hasked (by decide) hinside hend hstack
  obtain ⟨hleft, -, hnext⟩ := cache_after_failed_load (selfImporting (some (.other "boom"))) none
    (loadTwice .reenter) 0 ⟨0, "a", "a"⟩ (.host (.other "boom")) 3 11 hload
  have hcached := (hleft m).2 ⟨10, by decide, by decide, hm, fun l hl hl' => by omega⟩
  exact ⟨hload, m, hm, (hnext 12 _ (by decide) rfl rfl hwanted fun l hl hl' => by omega).2 m hcached⟩

/-- A failed load can leave a module cached: the first load of `a` fails, yet the second returns a module, and the
    factory ran for the first load only, once for it and once inside of that run. -/
theorem failed_load_can_leave_module :
    let ended := (loadTwice .reenter).run ((selfImporting (some (.other "boom"))).runner 2) ⟨.empty, 0⟩
    ended.1.1 = .error (.host (.other "boom")) ∧ (ended.2.host.realm 0).loader.cache.contains "a" = true ∧
      ended.1.2.isOk = true ∧ ended.2.guest = 2 := by
  decide +kernel

end ObjectHost
