-- SUMMARY: The modules of one realm at a moment, and everything a step can do to them.
import ObjectHost.Proofs.Machine.Transition

/-!
# Module states

Most of what a step does has nothing to do with the modules of a given realm.
The module state keeps what does: the tables of the realm and those factory
runs on the stack that make its modules. A step is then one of five turns.
-/

namespace ObjectHost

variable {σ α : Type}

/-- The module tables of one realm, and the runs of its factories under way, innermost first. -/
structure ModuleState where
  runs : List (Purpose × String)
  cycles : CyclePolicy
  factories : Table Code
  loader : Loader

def Activity.runOf? (id : RealmId) : Activity → Option (Purpose × String)
  | .call => none
  | .factory purpose ctx => if ctx.realm = id then some (purpose, ctx.fqName) else none

/-- The end of a factory run of the realm `id`: why it ran, for which name, and what it came to. -/
def Ending.of? (id : RealmId) (e : Ending) : Option (Purpose × String × Except Raised Module) :=
  if e.ctx.realm = id then some (e.purpose, e.ctx.fqName, e.result) else none

def Host.moduleState (h : Host) (s : List Activity) (id : RealmId) : ModuleState where
  runs := s.filterMap (Activity.runOf? id)
  cycles := (h.realm id).config.cycles
  factories := (h.realm id).factories
  loader := (h.realm id).loader

namespace Moment

def modules (m : Moment σ α) (id : RealmId) : ModuleState := m.world.host.moduleState m.thread.stack id

def ending? (m : Moment σ α) (id : RealmId) : Option (Purpose × String × Except Raised Module) :=
  m.thread.ending?.bind (Ending.of? id)

end Moment

/-- What a step can do to the modules of one realm. -/
inductive ModuleTurn :
    Option (Purpose × String × Except Raised Module) → ModuleState → ModuleState → Prop where
  | quiet (s : ModuleState) : ModuleTurn none s s
  /-- The realm is started. Before that it has no modules, and it has none then either. -/
  | start (s : ModuleState) (cycles : CyclePolicy) (hcycles : s.cycles = .reenter) (hfactories : s.factories = ∅)
      (hloader : s.loader = .empty) : ModuleTurn none s { s with cycles := cycles }
  | register (s : ModuleState) (name : String) (factory : Code) :
      ModuleTurn none s { s with factories := s.factories.insert name factory }
  | enter (s : ModuleState) (purpose : Purpose) (name : String) (factory : Code)
      (hreg : s.factories.get? name = some factory)
      (hfree : purpose = .caching →
        s.loader.cache.get? name = none ∧ (s.loader.isLoading name = true → s.cycles ≠ .failFast)) :
      ModuleTurn none s
        { s with runs := (purpose, name) :: s.runs, loader := s.loader.opened purpose name }
  | finish (s : ModuleState) (purpose : Purpose) (name : String) (result : Except Raised Module) :
      ModuleTurn (some (purpose, name, result)) { s with runs := (purpose, name) :: s.runs }
        { s with loader := s.loader.closed purpose name result }

/-! ## Steps as turns -/

/-- Factories only run for realms that were started. -/
def Grounded (s : List Activity) (h : Host) : Prop :=
  ∀ purpose ctx, .factory purpose ctx ∈ s → ctx.realm < h.realms.length

namespace Host

theorem realm_modifyLoader (h : Host) (id : RealmId) (f : Loader → Loader) (other : RealmId) :
    (h.modifyLoader id f).realm other =
      if other = id ∧ id < h.realms.length then { h.realm id with loader := f (h.realm id).loader }
      else h.realm other :=
  realm_modifyRealm h id _ other

@[simp] theorem length_modifyRealm (h : Host) (id : RealmId) (f : Realm → Realm) :
    (h.modifyRealm id f).realms.length = h.realms.length := by
  simp [modifyRealm]

theorem lt_length_of_factory {h : Host} {id : RealmId} {name : String} {factory : Code}
    (hreg : (h.realm id).factories.get? name = some factory) : id < h.realms.length := by
  refine Nat.lt_of_not_le fun hid => ?_
  rw [realm_of_length_le hid] at hreg
  cases hreg

theorem lt_length_of_failFast {h : Host} {id : RealmId} (hpolicy : (h.realm id).config.cycles = .failFast) :
    id < h.realms.length := by
  refine Nat.lt_of_not_le fun hid => ?_
  rw [realm_of_length_le hid] at hpolicy
  cases hpolicy

/-- One more realm leaves those before it alone. -/
theorem realm_push (h : Host) (r : Realm) (id : RealmId) :
    ({ h with realms := h.realms ++ [r] } : Host).realm id = if id = h.realms.length then r else h.realm id := by
  simp only [realm, List.getD_eq_getElem?_getD, List.getElem?_append]
  grind

theorem length_boot_le (h : Host) (config : Config) : h.realms.length ≤ (h.boot config).2.realms.length := by
  simp only [boot]
  split <;> simp

theorem length_define (h : Host) (id : RealmId) (name : String) (parent : Option Class)
    (members : List (String × Value)) : (h.define id name parent members).2.realms.length = h.realms.length := by
  unfold define
  split <;> simp

end Host

/-- Realms are never given up. -/
theorem Transition.realms_le {e : Option Ending} {s s' : List Activity} {h h' : Host} (ht : Transition e s h s' h') :
    h.realms.length ≤ h'.realms.length := by
  cases ht with
  | define _ _ id name parent members => exact Nat.le_of_eq (h.length_define id name parent members).symm
  | register _ _ id name factory => exact Nat.le_of_eq (h.length_modifyRealm id _).symm
  | boot _ _ config => exact h.length_boot_le config
  | enter _ _ purpose ctx factory hreg hfree => exact Nat.le_of_eq (h.length_modifyRealm ctx.realm _).symm
  | finish _ _ e => exact Nat.le_of_eq (h.length_modifyRealm e.ctx.realm _).symm
  | _ => exact Nat.le_refl _

theorem Grounded.transition {e : Option Ending} {s s' : List Activity} {h h' : Host} (hg : Grounded s h)
    (ht : Transition e s h s' h') : Grounded s' h' := by
  have hlength := ht.realms_le
  intro purpose ctx hmem
  refine Nat.lt_of_lt_of_le ?_ hlength
  cases ht with
  | call =>
    rcases List.mem_cons.1 hmem with hhead | htail
    · cases hhead
    · exact hg purpose ctx htail
  | leave => exact hg purpose ctx (List.mem_cons_of_mem _ hmem)
  | enter _ _ purpose' ctx' factory hreg hfree =>
    rcases List.mem_cons.1 hmem with hhead | htail
    · cases hhead
      exact Host.lt_length_of_factory hreg
    · exact hg purpose ctx htail
  | finish _ _ e => exact hg purpose ctx (List.mem_cons_of_mem _ hmem)
  | _ => exact hg purpose ctx hmem

namespace Host

theorem moduleState_define (h : Host) (s : List Activity) (id : RealmId) (realm : RealmId) (name : String)
    (parent : Option Class) (members : List (String × Value)) :
    (h.define realm name parent members).2.moduleState s id = h.moduleState s id := by
  unfold define
  split
  next cls classes hdefine =>
    have hrealm := h.realm_modifyRealm realm (fun r => { r with classes := classes }) id
    by_cases hid : id = realm ∧ realm < h.realms.length
    · rw [if_pos hid] at hrealm
      obtain ⟨rfl, -⟩ := hid
      simp only [moduleState, hrealm]
    · rw [if_neg hid] at hrealm
      simp only [moduleState, hrealm]
  next e hdefine => rfl

/-- Entering a registered factory adds the run, and the loader learns of it. -/
theorem moduleState_opened {h : Host} {ctx : Context} {factory : Code}
    (hreg : (h.realm ctx.realm).factories.get? ctx.fqName = some factory) (purpose : Purpose) (s : List Activity) :
    (h.modifyLoader ctx.realm fun l => l.opened purpose ctx.fqName).moduleState (.factory purpose ctx :: s) ctx.realm =
      { h.moduleState s ctx.realm with
        runs := (purpose, ctx.fqName) :: (h.moduleState s ctx.realm).runs,
        loader := (h.moduleState s ctx.realm).loader.opened purpose ctx.fqName } := by
  have hrealm := h.realm_modifyLoader ctx.realm (fun l => l.opened purpose ctx.fqName) ctx.realm
  rw [if_pos ⟨rfl, lt_length_of_factory hreg⟩] at hrealm
  simp only [moduleState, hrealm, List.filterMap_cons, Activity.runOf?, if_true]

end Host

theorem Realm.of_bootstrap_eq_ok {id : RealmId} {config : Config} {r : Realm}
    (h : Realm.bootstrap id config = .ok r) : r.config = config ∧ r.factories = ∅ ∧ r.loader = .empty := by
  simp only [Realm.bootstrap] at h
  split at h
  · cases h
  · cases h
    exact ⟨rfl, rfl, rfl⟩

namespace ModuleTurn

theorem register_turn (h : Host) (s : List Activity) (id realm : RealmId) (name : String) (factory : Code) :
    ModuleTurn none (h.moduleState s id) ((h.register realm name factory).2.moduleState s id) := by
  have hrealm := h.realm_modifyRealm realm (fun r => { r with factories := r.factories.insert name factory }) id
  by_cases hid : id = realm ∧ realm < h.realms.length
  · rw [if_pos hid] at hrealm
    obtain ⟨rfl, -⟩ := hid
    simp only [Host.moduleState, Host.register, hrealm]
    exact .register _ name factory
  · rw [if_neg hid] at hrealm
    simp only [Host.moduleState, Host.register, hrealm]
    exact .quiet _

theorem boot_turn (h : Host) (s : List Activity) (id : RealmId) (config : Config) :
    ModuleTurn none (h.moduleState s id) ((h.boot config).2.moduleState s id) := by
  simp only [Host.boot]
  split
  next r hboot =>
    obtain ⟨hconfig, hfactories, hloader⟩ := Realm.of_bootstrap_eq_ok hboot
    by_cases hid : id = h.realms.length
    · have hold : h.realm id = .vacant id := Host.realm_of_length_le (Nat.le_of_eq hid.symm)
      simp only [Host.moduleState, Host.realm_push, if_pos hid, hold, hfactories, hloader]
      exact .start _ _ rfl rfl rfl
    · simp only [Host.moduleState, Host.realm_push, if_neg hid]
      exact .quiet _
  next e hboot => exact .quiet _

end ModuleTurn

/-- To the modules of a realm, every transition is a turn. -/
theorem Transition.turn {e : Option Ending} {s s' : List Activity} {h h' : Host} (ht : Transition e s h s' h')
    (hg : Grounded s h) (id : RealmId) :
    ModuleTurn (e.bind (Ending.of? id)) (h.moduleState s id) (h'.moduleState s' id) := by
  cases ht with
  | idle => exact .quiet _
  | grow => exact .quiet _
  | setAttribute => exact .quiet _
  | define _ _ realm name parent members =>
    rw [Host.moduleState_define]
    exact .quiet _
  | register _ _ realm name factory => exact .register_turn h s id realm name factory
  | boot _ _ config => exact .boot_turn h s id config
  | call => exact .quiet _
  | leave => exact .quiet _
  | enter _ _ purpose ctx factory hreg hfree =>
    by_cases hid : id = ctx.realm
    · subst hid
      rw [Host.moduleState_opened hreg]
      exact .enter (h.moduleState s ctx.realm) purpose ctx.fqName factory hreg hfree
    · have hrealm := h.realm_modifyLoader ctx.realm (fun l => l.opened purpose ctx.fqName) id
      rw [if_neg fun hc => hid hc.1] at hrealm
      simp only [Host.moduleState, hrealm, List.filterMap_cons, Activity.runOf?, if_neg (Ne.symm hid)]
      exact .quiet _
  | finish _ _ e =>
    have hrealm := h.realm_modifyLoader e.ctx.realm (fun l => l.closed e.purpose e.ctx.fqName e.result) id
    by_cases hid : id = e.ctx.realm
    · subst hid
      rw [if_pos ⟨rfl, hg e.purpose e.ctx List.mem_cons_self⟩] at hrealm
      simp only [Host.moduleState, hrealm, List.filterMap_cons, Activity.runOf?, if_true, Option.bind_some,
        Ending.of?]
      exact .finish (h.moduleState s' e.ctx.realm) e.purpose e.ctx.fqName e.result
    · rw [if_neg fun hc => hid hc.1] at hrealm
      simp only [Host.moduleState, hrealm, List.filterMap_cons, Activity.runOf?, if_neg (Ne.symm hid),
        Option.bind_some, Ending.of?]
      exact .quiet _

/-! ## Runs -/

namespace Moment

variable {g : Guest σ} {room : Option Nat} {m : Moment σ α}

theorem grounded_iterate (hg : Grounded m.thread.stack m.world.host) (k : Nat) :
    Grounded ((Moment.step g room)^[k] m).thread.stack ((Moment.step g room)^[k] m).world.host := by
  induction k with
  | zero => exact hg
  | succ k ih =>
    rw [Function.iterate_succ_apply']
    exact ih.transition (Thread.transition_step g room _ _)

end Moment

section Run

variable (g : Guest σ) (room : Option Nat) (p : Program σ α) (s : σ)

theorem moments_succ (k : Nat) :
    moments g room p s (k + 1) =
      (moments g room p s k).thread.step g room (moments g room p s k).world :=
  Function.iterate_succ_apply' _ _ _

theorem transition_moments (k : Nat) :
    Transition (moments g room p s k).thread.ending? (moments g room p s k).thread.stack
      (moments g room p s k).world.host (moments g room p s (k + 1)).thread.stack
      (moments g room p s (k + 1)).world.host := by
  rw [moments_succ]
  exact Thread.transition_step g room _ _

/-- Step by step, the modules of a realm go through turns. -/
theorem turn_moments (id : RealmId) (k : Nat) :
    ModuleTurn ((moments g room p s k).ending? id) ((moments g room p s k).modules id)
      ((moments g room p s (k + 1)).modules id) := by
  have hempty : Grounded (Thread.active p).stack Host.empty := fun purpose ctx hmem => by cases hmem
  have hg : Grounded (moments g room p s k).thread.stack (moments g room p s k).world.host :=
    Moment.grounded_iterate (m := ⟨.active p, ⟨.empty, s⟩⟩) hempty k
  exact (transition_moments g room p s k).turn hg id

variable {g room p s}

/-- What every turn keeps is kept from any moment on. -/
theorem invariant_moments (P : ModuleState → Prop) (hturn : ∀ {e s s'}, P s → ModuleTurn e s s' → P s')
    {id : RealmId} {i k : Nat} (hik : i ≤ k) (h : P ((moments g room p s i).modules id)) :
    P ((moments g room p s k).modules id) := by
  induction hik with
  | refl => exact h
  | step _ ih => exact hturn ih (turn_moments g room p s id _)

end Run

end ObjectHost
