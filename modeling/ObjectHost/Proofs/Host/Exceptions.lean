-- SUMMARY: That realms keep their builtin classes along every run, and of which classes the host makes exceptions.
import ObjectHost.Program.Object
import ObjectHost.Proofs.Host.Bootstrap
import ObjectHost.Proofs.Module.State

/-!
# Exceptions along a run

Of the classes, a step can only define one more, so that a realm that has its
builtin classes keeps them. Every exception that the host makes for a realm is
then of a class of that realm, beneath the base of its exceptions.
-/

namespace ObjectHost

variable {σ α : Type}

/-! ## Growing realms -/

/-- From `r` to `r'`, definitions were asked of the registry, and the builtin namespace and the exceptions were left
    alone. -/
structure Realm.Grows (r r' : Realm) : Prop where
  classes : ∃ calls : List Definition, r'.classes = calls.foldl Registry.attempt r.classes
  builtins : r'.builtins = r.builtins
  taxonomy : r'.taxonomy = r.taxonomy

namespace Registry

variable {r : Registry}

theorem WellFormed.attempts (h : r.WellFormed) (calls : List Definition) :
    (calls.foldl Registry.attempt r).WellFormed ∧ (calls.foldl Registry.attempt r).home = r.home := by
  induction calls generalizing r with
  | nil => exact ⟨h, rfl⟩
  | cons d calls ih =>
    obtain ⟨hwf, hhome⟩ := ih (h.attempt d)
    exact ⟨hwf, hhome.trans (h.attempt_extends d).home⟩

/-- A name that is bound stays bound to its class. -/
theorem WellFormed.get?_attempts (h : r.WellFormed) (calls : List Definition) {name : String} {c : Class}
    (hget : r.get? name = some c) : (calls.foldl Registry.attempt r).get? name = some c := by
  induction calls generalizing r with
  | nil => exact hget
  | cons d calls ih =>
    refine ih (h.attempt d) ?_
    obtain ⟨hc, rfl⟩ := (h.named name c).1 hget
    exact ((h.attempt_extends d).get c hc).trans hget

end Registry

namespace Realm

variable {id : RealmId} {r r' r'' : Realm}

theorem Grows.refl (r : Realm) : r.Grows r := ⟨⟨[], rfl⟩, rfl, rfl⟩

theorem Grows.trans (h : r.Grows r') (h' : r'.Grows r'') : r.Grows r'' := by
  obtain ⟨calls, hcalls⟩ := h.classes
  obtain ⟨calls', hcalls'⟩ := h'.classes
  refine ⟨⟨calls ++ calls', ?_⟩, h'.builtins.trans h.builtins, h'.taxonomy.trans h.taxonomy⟩
  rw [List.foldl_append, ← hcalls, hcalls']

theorem Sound.exists_class (h : r.Sound id) {name : String} (hname : name ∈ Builtin.names) :
    ∃ c, r.classes.get? name = some c :=
  Option.isSome_iff_exists.1 (h.defined name hname)

theorem Sound.get?_grows (h : r.Sound id) (hg : r.Grows r') {name : String} {c : Class}
    (hget : r.classes.get? name = some c) : r'.classes.get? name = some c := by
  obtain ⟨calls, hcalls⟩ := hg.classes
  rw [hcalls]
  exact h.wellFormed.get?_attempts calls hget

/-- Builtin names are in use, so further definitions do not touch them. -/
theorem Sound.get?_grows_builtin (h : r.Sound id) (hg : r.Grows r') {name : String} (hname : name ∈ Builtin.names) :
    r'.classes.get? name = r.classes.get? name := by
  obtain ⟨c, hget⟩ := h.exists_class hname
  rw [hget, h.get?_grows hg hget]

theorem Sound.grows (h : r.Sound id) (hg : r.Grows r') : r'.Sound id := by
  have hsame : ∀ {name}, name ∈ Builtin.names → r'.classes.get? name = r.classes.get? name := h.get?_grows_builtin hg
  obtain ⟨hwf, hhome⟩ : r'.classes.WellFormed ∧ r'.classes.home = r.classes.home := by
    obtain ⟨calls, hcalls⟩ := hg.classes
    rw [hcalls]
    exact h.wellFormed.attempts calls
  refine ⟨hwf, hhome.trans h.home, ?_, ?_, ?_, ?_, ?_⟩
  · intro name hname
    unfold Registry.contains
    rw [hsame hname]
    exact h.defined name hname
  · intro name
    rw [hg.builtins, h.builtins]
    split
    next hname => rw [hsame hname]
    next => rfl
  · intro name
    rw [hg.taxonomy, h.taxonomy]
    split
    next hname => rw [hsame (Builtin.mem_names_of_mem_exceptionNames hname)]
    next => rfl
  · rw [hg.taxonomy]
    exact h.get?_grows hg h.base
  · intro name hname c hget
    rw [hsame (Builtin.mem_names_of_mem_exceptionNames hname)] at hget
    rw [hg.taxonomy]
    exact h.descend name hname c hget

end Realm

/-! ## Steps -/

namespace Host

theorem realm_define (h : Host) (id : RealmId) (name : String) (parent : Option Class)
    (members : List (String × Value)) (other : RealmId) :
    (h.define id name parent members).2.realm other =
      if other = id ∧ id < h.realms.length
      then { h.realm id with classes := (h.realm id).classes.attempt ⟨name, parent, members⟩ }
      else h.realm other := by
  unfold define Registry.attempt
  cases (h.realm id).classes.define name parent members with
  | ok made => exact h.realm_modifyRealm id _ other
  | error e =>
    by_cases hid : other = id ∧ id < h.realms.length
    · rw [if_pos hid, hid.1]
    · rw [if_neg hid]

theorem grows_modifyRealm (h : Host) (id : RealmId) {f : Realm → Realm} (hf : ∀ r : Realm, r.Grows (f r))
    (other : RealmId) : (h.realm other).Grows ((h.modifyRealm id f).realm other) := by
  rw [realm_modifyRealm]
  split
  next hid =>
    rw [hid.1]
    exact hf _
  next => exact .refl _

/-- The module tables of a realm have nothing to do with its classes. -/
theorem grows_modifyLoader (h : Host) (id : RealmId) (f : Loader → Loader) (other : RealmId) :
    (h.realm other).Grows ((h.modifyLoader id f).realm other) := by
  refine h.grows_modifyRealm id ?_ other
  exact fun r => ⟨⟨[], rfl⟩, rfl, rfl⟩

theorem grows_register (h : Host) (id : RealmId) (name : String) (factory : Code) (other : RealmId) :
    (h.realm other).Grows ((h.register id name factory).2.realm other) := by
  refine h.grows_modifyRealm id ?_ other
  exact fun r => ⟨⟨[], rfl⟩, rfl, rfl⟩

theorem grows_define (h : Host) (id : RealmId) (name : String) (parent : Option Class)
    (members : List (String × Value)) (other : RealmId) :
    (h.realm other).Grows ((h.define id name parent members).2.realm other) := by
  rw [realm_define]
  split
  next hid =>
    rw [hid.1]
    exact ⟨⟨[⟨name, parent, members⟩], rfl⟩, rfl, rfl⟩
  next => exact .refl _

theorem boot_of_bootstrap {h : Host} {config : Config} {r : Realm}
    (hboot : Realm.bootstrap h.realms.length config = .ok r) :
    h.boot config = (.ok h.realms.length, { h with realms := h.realms ++ [r] }) := by
  simp only [boot, hboot]

/-- A realm can be started at any time. -/
theorem boot_eq (h : Host) (config : Config) :
    ∃ r : Realm, h.boot config = (.ok h.realms.length, { h with realms := h.realms ++ [r] }) ∧
      r.Sound h.realms.length := by
  obtain ⟨r, hboot, hsound⟩ := Realm.sound_bootstrap h.realms.length config
  exact ⟨r, boot_of_bootstrap hboot, hsound⟩

/-- Every realm that was started has its builtin classes. -/
def Sound (h : Host) : Prop := ∀ id < h.realms.length, (h.realm id).Sound id

end Host

/-- A step leaves what a realm has and may define one more class. -/
theorem Transition.grows {e : Option Ending} {s s' : List Activity} {h h' : Host} (ht : Transition e s h s' h')
    {id : RealmId} (hid : id < h.realms.length) : (h.realm id).Grows (h'.realm id) := by
  cases ht with
  | define _ _ realm name parent members => exact h.grows_define realm name parent members id
  | register _ _ realm name factory => exact h.grows_register realm name factory id
  | boot _ _ config =>
    obtain ⟨r, hboot, -⟩ := h.boot_eq config
    rw [hboot, Host.realm_push, if_neg (Nat.ne_of_lt hid)]
    exact .refl _
  | enter _ _ purpose ctx factory hreg hfree => exact h.grows_modifyLoader ctx.realm _ id
  | finish _ _ e => exact h.grows_modifyLoader e.ctx.realm _ id
  | _ => exact .refl _

/-- A realm that a step adds is one that was just started. -/
theorem Transition.sound_of_new {e : Option Ending} {s s' : List Activity} {h h' : Host}
    (ht : Transition e s h s' h') {id : RealmId} (hold : ¬ id < h.realms.length) (hnew : id < h'.realms.length) :
    (h'.realm id).Sound id := by
  cases ht with
  | define _ _ realm name parent members => exact absurd (h.length_define realm name parent members ▸ hnew) hold
  | register _ _ realm name factory => exact absurd (h.length_modifyRealm realm _ ▸ hnew) hold
  | boot _ _ config =>
    obtain ⟨r, hboot, hsound⟩ := h.boot_eq config
    rw [hboot] at hnew ⊢
    have hid : id = h.realms.length := by
      rw [List.length_append, List.length_singleton] at hnew
      exact Nat.le_antisymm (Nat.le_of_lt_succ hnew) (Nat.le_of_not_lt hold)
    rw [Host.realm_push, if_pos hid, hid]
    exact hsound
  | enter _ _ purpose ctx factory hreg hfree => exact absurd (h.length_modifyRealm ctx.realm _ ▸ hnew) hold
  | finish _ _ e => exact absurd (h.length_modifyRealm e.ctx.realm _ ▸ hnew) hold
  | _ => exact absurd hnew hold

theorem Host.Sound.transition {e : Option Ending} {s s' : List Activity} {h h' : Host} (hsound : h.Sound)
    (ht : Transition e s h s' h') : h'.Sound := by
  intro id hid
  by_cases hold : id < h.realms.length
  · exact (hsound id hold).grows (ht.grows hold)
  · exact ht.sound_of_new hold hid

/-! ## Runs -/

section Run

variable (g : Guest σ) (room : Option Nat) (p : Program σ α) (s : σ)

theorem host_sound_moments (k : Nat) : (moments g room p s k).world.host.Sound := by
  induction k with
  | zero => exact fun id hid => absurd hid (Nat.not_lt_zero id)
  | succ k ih => exact ih.transition (transition_moments g room p s k)

variable {g room p s}

theorem started_moments {id : RealmId} {i k : Nat} (hik : i ≤ k)
    (hid : id < (moments g room p s i).world.host.realms.length) :
    id < (moments g room p s k).world.host.realms.length := by
  induction hik with
  | refl => exact hid
  | step _ ih => exact Nat.lt_of_lt_of_le ih (transition_moments g room p s _).realms_le

theorem grows_moments {id : RealmId} {i k : Nat} (hik : i ≤ k)
    (hid : id < (moments g room p s i).world.host.realms.length) :
    ((moments g room p s i).world.host.realm id).Grows ((moments g room p s k).world.host.realm id) := by
  induction hik with
  | refl => exact .refl _
  | step hik ih => exact ih.trans ((transition_moments g room p s _).grows (started_moments hik hid))

end Run

/-! ## Exceptions the host makes -/

/-- The world with one more object, that has no attributes, and nothing else changed. -/
def World.grown (w : World σ) : World σ := { w with host := ⟨w.host.realms, w.host.heap.grow⟩ }

theorem Task.run_raise (runner : Runner σ) (realm : RealmId) (name : String) (message : Value) (w : World σ) :
    (Task.raise realm name message : Task σ α).run.run runner w =
      (.error (.exception (w.host.newException realm name message).1), w.grown) :=
  rfl

/-- The exception that answers a request for a module before any factory runs, if one does. -/
def World.refusal? (w : World σ) (purpose : Purpose) (ctx : Context) : Option Exception :=
  match w.start purpose ctx with
  | .inl (.error (.exception e), _) => some e
  | _ => none

namespace Request

/-- The exception that the host makes in answer to a request, and the realm it makes it for. -/
def makes? (w : World σ) : Request σ → Option (RealmId × Exception)
  | .newException realm name message => some (realm, (w.host.newException realm name message).1)
  | .makeException realm cls args => (w.host.makeException realm cls args).1.toOption.map (realm, ·)
  | .load ctx => (w.refusal? .caching ctx).map (ctx.realm, ·)
  | .enter ctx => (w.refusal? .entry ctx).map (ctx.realm, ·)
  | _ => none

/-- The class that an exception is asked of is registered where it is at home. Classes only come from registries, but
    nothing in a request says so. -/
def isRegistered (h : Host) : Request σ → Bool
  | .makeException _ cls _ => (h.realm cls.home).classes.owns cls
  | _ => true

end Request

namespace Realm.Sound

variable {id : RealmId} {r : Realm}

theorem base_mem (h : r.Sound id) : r.taxonomy.base ∈ r.classes.classes := ((h.wellFormed.named _ _).1 h.base).1

/-- Whatever the name, the exceptions of it are of a class of the realm, beneath the base. -/
theorem classFor (h : r.Sound id) (name : String) :
    r.classes.owns (r.taxonomy.classFor name) = true ∧ r.taxonomy.base ∈ (r.taxonomy.classFor name).ancestors := by
  have htable := h.taxonomy name
  unfold Taxonomy.classFor
  split at htable
  next hname =>
    obtain ⟨c, hget⟩ := h.exists_class (Builtin.mem_names_of_mem_exceptionNames hname)
    rw [htable, hget, Option.getD_some]
    exact ⟨h.wellFormed.owns_iff.2 ((h.wellFormed.named _ _).1 hget).1, h.descend name hname c hget⟩
  next =>
    rw [htable, Option.getD_none]
    exact ⟨h.wellFormed.owns_iff.2 h.base_mem, Class.self_mem_ancestors _⟩

/-- The class of a name among the builtin exceptions is the one that the registry has. -/
theorem get?_classFor (h : r.Sound id) {name : String} (hname : name ∈ Builtin.exceptionNames) :
    r.classes.get? name = some (r.taxonomy.classFor name) := by
  obtain ⟨c, hget⟩ := h.exists_class (Builtin.mem_names_of_mem_exceptionNames hname)
  rw [Taxonomy.classFor, h.taxonomy name, if_pos hname, hget, Option.getD_some]

/-- An exception of a name among the builtin ones is of the class that the registry has. -/
theorem get?_newException {h : Host} (hsound : (h.realm id).Sound id) {name : String}
    (hname : name ∈ Builtin.exceptionNames) (message : Value) :
    (h.realm id).classes.get? name = some (h.newException id name message).1.cls :=
  hsound.get?_classFor hname

/-- What descends from the base of the exceptions is at home in the realm. -/
theorem home_of_base_mem (h : r.Sound id) {cls : Class} (hcls : r.taxonomy.base ∈ cls.ancestors) : cls.home = id := by
  rw [← Class.home_of_mem_ancestors hcls, h.wellFormed.home_of_mem h.base_mem, h.home]

end Realm.Sound

theorem World.start_of_refusal? {w : World σ} {purpose : Purpose} {ctx : Context} {e : Exception}
    (h : w.refusal? purpose ctx = some e) : ∃ w', w.start purpose ctx = .inl (.error (.exception e), w') := by
  unfold refusal? at h
  split at h
  next hstart =>
    cases h
    exact ⟨_, hstart⟩
  next => cases h

theorem World.cls_of_refusal? {w : World σ} {purpose : Purpose} {ctx : Context} {e : Exception}
    (h : w.refusal? purpose ctx = some e) :
    e.cls = (w.host.realm ctx.realm).taxonomy.classFor Builtin.importError := by
  obtain ⟨w', hstart⟩ := start_of_refusal? h
  simp only [start] at hstart
  split at hstart
  · cases hstart
  · cases hstart
    rfl
  · split at hstart
    · cases hstart
      rfl
    · cases hstart
  · cases hstart

/-- An exception that the host makes for a realm is of a class of that realm, beneath the base. A class that an
    exception can be made of descends from the base, which puts it at home in the realm. -/
theorem Request.descends_of_makes? {w : World σ} {id : RealmId} (hsound : (w.host.realm id).Sound id)
    {request : Request σ} (hregistered : request.isRegistered w.host = true) {e : Exception}
    (hmakes : request.makes? w = some (id, e)) :
    (w.host.realm id).classes.owns e.cls = true ∧ (w.host.realm id).taxonomy.base ∈ e.cls.ancestors := by
  have hrefusal : ∀ purpose ctx, (w.refusal? purpose ctx).map (ctx.realm, ·) = some (id, e) →
      (w.host.realm id).classes.owns e.cls = true ∧ (w.host.realm id).taxonomy.base ∈ e.cls.ancestors := by
    intro purpose ctx h
    obtain ⟨e', hrefused, heq⟩ := Option.map_eq_some_iff.1 h
    cases heq
    rw [World.cls_of_refusal? hrefused]
    exact hsound.classFor _
  cases request with
  | newException realm name message =>
    cases hmakes
    exact hsound.classFor name
  | makeException realm cls args =>
    simp only [makes?, Host.makeException] at hmakes
    split at hmakes
    next hbase =>
      cases hmakes
      have hancestor := Class.isSubclassOf_iff.1 hbase
      have hhome : (w.host.realm cls.home).classes.owns cls = true := hregistered
      rw [hsound.home_of_base_mem hancestor] at hhome
      exact ⟨hhome, hancestor⟩
    next => cases hmakes
  | load ctx => exact hrefusal .caching ctx hmakes
  | enter ctx => exact hrefusal .entry ctx hmakes
  | _ => cases hmakes

/-! ## Catching -/

section Catch

variable (realm : RealmId) (cls : Class) (runner : Runner σ) (w : World σ)

theorem run_catchAs_exception {e : Exception} (h : e.cls.isSubclassOf cls = true) :
    (catchAs realm (.exception e) cls).run runner w = (.ok e, w) :=
  congrArg (·, w) (if_pos h)

/-- A bad reference is caught as the exception that it is turned into. -/
theorem run_catchAs_reference (message : String) :
    let made := w.host.newException realm Builtin.nameError (.str (HostFailure.reference message).message)
    (catchAs realm (.host (.reference message)) cls).run runner w =
      (catchAs realm (.exception made.1) cls).run runner { w with host := made.2 } :=
  rfl

theorem run_catchAs_host {failure : HostFailure} (hfailure : ∀ message, failure ≠ .reference message) :
    (catchAs realm (.host failure) cls).run runner w = (.error (.host failure), w) := by
  cases failure with
  | reference message => exact absurd rfl (hfailure message)
  | arity function expected got => rfl
  | other message => rfl

end Catch

/-- A guest that has no bodies. -/
def bodiless : Guest Unit where
  call _ _ := Task.fail (.host depthLimit)
  load _ _ := Task.fail (.host depthLimit)

/-- Starts a realm and defines an exception class there, beneath one of the builtin ones. -/
def defineAppError : Program Unit (Except ObjectError (RealmId × Class)) := do
  match ← Program.send (.boot {}) with
  | .error e => return .error e
  | .ok id =>
    let h ← Program.observe
    match ← Program.send (.define id "AppError" ((h.realm id).taxonomy.class? "ValueError") []) with
    | .error e => return .error e
    | .ok c => return .ok (id, c)

end ObjectHost
