-- SUMMARY: Under either policy a run goes through the same moments, until a module is asked for while it is made.
import ObjectHost.Proofs.Import.Termination

/-!
# The two policies

The policy of a realm matters in one place only: where a module is asked for
that is not cached and whose factory is running. Until then, a program that does
not look at the policy itself goes through the same moments under either.
-/

namespace ObjectHost

variable {σ α β : Type}

/-! ## Another policy -/

def Realm.withCycles (r : Realm) (policy : CyclePolicy) : Realm :=
  { r with config := { r.config with cycles := policy } }

namespace Host

/-- The host with another policy in the realm `id`. -/
def withCycles (h : Host) (id : RealmId) (policy : CyclePolicy) : Host := h.modifyRealm id (·.withCycles policy)

variable (h : Host) (id : RealmId) (policy : CyclePolicy)

theorem realm_withCycles (other : RealmId) :
    (h.withCycles id policy).realm other =
      if other = id ∧ id < h.realms.length then (h.realm id).withCycles policy else h.realm other :=
  h.realm_modifyRealm id _ other

/-- What has nothing to do with the configuration stays the same in every realm. -/
theorem of_realm_withCycles {γ : Type} (f : Realm → γ) (hf : ∀ r, f (r.withCycles policy) = f r)
    (other : RealmId) : f ((h.withCycles id policy).realm other) = f (h.realm other) := by
  rw [realm_withCycles]
  split
  next hother => rw [hf, hother.1]
  next => rfl

theorem realm_withCycles_of_ne {other : RealmId} (hother : other ≠ id) :
    (h.withCycles id policy).realm other = h.realm other := by
  rw [realm_withCycles, if_neg fun hc => hother hc.1]

@[simp] theorem loader_withCycles (other : RealmId) :
    ((h.withCycles id policy).realm other).loader = (h.realm other).loader :=
  h.of_realm_withCycles id policy Realm.loader (fun _ => rfl) other

@[simp] theorem factories_withCycles (other : RealmId) :
    ((h.withCycles id policy).realm other).factories = (h.realm other).factories :=
  h.of_realm_withCycles id policy Realm.factories (fun _ => rfl) other

@[simp] theorem taxonomy_withCycles (other : RealmId) :
    ((h.withCycles id policy).realm other).taxonomy = (h.realm other).taxonomy :=
  h.of_realm_withCycles id policy Realm.taxonomy (fun _ => rfl) other

@[simp] theorem classes_withCycles (other : RealmId) :
    ((h.withCycles id policy).realm other).classes = (h.realm other).classes :=
  h.of_realm_withCycles id policy Realm.classes (fun _ => rfl) other

@[simp] theorem core_withCycles (other : RealmId) :
    ((h.withCycles id policy).realm other).core = (h.realm other).core :=
  h.of_realm_withCycles id policy Realm.core (fun _ => rfl) other

@[simp] theorem heap_withCycles : (h.withCycles id policy).heap = h.heap := rfl

@[simp] theorem lookup?_withCycles (c : Class) (name : String) :
    (h.withCycles id policy).lookup? c name = h.lookup? c name := by
  rw [lookup?, classes_withCycles, lookup?]

theorem reading_withCycles (obj : Value) (name : String) :
    (h.withCycles id policy).reading obj name = h.reading obj name := by
  cases obj <;> simp only [reading, moduleAttribute?, heap_withCycles, lookup?_withCycles]

@[simp] theorem length_withCycles : (h.withCycles id policy).realms.length = h.realms.length :=
  h.length_modifyRealm id _

theorem cycles_withCycles {h : Host} (hstarted : id < h.realms.length) :
    ((h.withCycles id policy).realm id).config.cycles = policy := by
  rw [realm_withCycles, if_pos ⟨rfl, hstarted⟩]
  rfl

/-- A change that has nothing to do with the policy can be made before or after. -/
theorem modifyRealm_withCycles (other : RealmId) {f : Realm → Realm}
    (hf : ∀ r, f (r.withCycles policy) = (f r).withCycles policy) :
    (h.withCycles id policy).modifyRealm other f = (h.modifyRealm other f).withCycles id policy := by
  simp only [withCycles, modifyRealm, Host.mk.injEq, and_true]
  apply List.ext_getElem?
  intro i
  simp only [List.getElem?_modify]
  cases h.realms[i]? with
  | none => rfl
  | some r => by_cases hother : other = i <;> by_cases hid : id = i <;> simp [hother, hid, hf]

theorem withCycles_withCycles (policy' : CyclePolicy) :
    (h.withCycles id policy).withCycles id policy' = h.withCycles id policy' := by
  simp only [withCycles, modifyRealm, Host.mk.injEq, and_true, List.modify_modify_eq]
  rfl

end Host

/-- The world with another policy in the realm `id`. -/
def World.withCycles (w : World σ) (id : RealmId) (policy : CyclePolicy) : World σ :=
  { w with host := w.host.withCycles id policy }

/-- The moment with another policy in the realm `id`: the same thread, and the same guest, heap, classes, factories
    and loaders. -/
def Moment.withCycles (m : Moment σ α) (id : RealmId) (policy : CyclePolicy) : Moment σ α :=
  ⟨m.thread, m.world.withCycles id policy⟩

theorem Moment.withCycles_withCycles (m : Moment σ α) (id : RealmId) (policy policy' : CyclePolicy) :
    (m.withCycles id policy).withCycles id policy' = m.withCycles id policy' := by
  simp only [Moment.withCycles, World.withCycles, Host.withCycles_withCycles]

/-! ## Requests under another policy -/

section Requests

variable {id : RealmId} {policy : CyclePolicy}

theorem World.modifyLoader_withCycles (w : World σ) (other : RealmId) (f : Loader → Loader) :
    (w.withCycles id policy).modifyLoader other f = (w.modifyLoader other f).withCycles id policy := by
  simp only [withCycles, modifyLoader, Host.modifyLoader]
  rw [Host.modifyRealm_withCycles]
  intro r
  rfl

theorem World.raise_withCycles (w : World σ) (other : RealmId) (name message : String) :
    (w.withCycles id policy).raise other name message =
      ((w.raise other name message : Except Raised α × World σ).1,
        (w.raise other name message : Except Raised α × World σ).2.withCycles id policy) := by
  simp only [raise, withCycles, Host.newException, Host.taxonomy_withCycles]
  rfl

theorem Host.define_withCycles (h : Host) (other : RealmId) (name : String) (parent : Option Class)
    (members : List (String × Value)) :
    (h.withCycles id policy).define other name parent members =
      ((h.define other name parent members).1, (h.define other name parent members).2.withCycles id policy) := by
  simp only [define, classes_withCycles]
  split
  · rw [modifyRealm_withCycles]
    intro r
    rfl
  · rfl

theorem Host.makeException_withCycles (h : Host) (other : RealmId) (cls : Class) (args : List Value) :
    (h.withCycles id policy).makeException other cls args =
      ((h.makeException other cls args).1, (h.makeException other cls args).2.withCycles id policy) := by
  simp only [makeException, taxonomy_withCycles]
  split <;> rfl

theorem Host.register_withCycles (h : Host) (other : RealmId) (name : String) (factory : Code) :
    (h.withCycles id policy).register other name factory =
      ((h.register other name factory).1, (h.register other name factory).2.withCycles id policy) := by
  simp only [register, factories_withCycles]
  rw [modifyRealm_withCycles]
  intro r
  rfl

/-- The realm that is started next is not the one whose policy is another. -/
theorem Host.boot_withCycles {h : Host} (hstarted : id < h.realms.length) (config : Config) :
    (h.withCycles id policy).boot config =
      ((h.boot config).1, (h.boot config).2.withCycles id policy) := by
  simp only [boot, length_withCycles]
  split
  next r hboot =>
    simp only [withCycles, modifyRealm, Prod.mk.injEq, Host.mk.injEq, and_true, true_and]
    apply List.ext_getElem?
    intro i
    simp only [List.getElem?_modify, List.getElem?_append, List.length_modify]
    by_cases hi : i < h.realms.length
    · simp [hi]
    · have hid : id ≠ i := fun hid => hi (hid ▸ hstarted)
      simp [hi, hid]
  next => rfl

end Requests

/-! ## Where the policy matters -/

/-- The module is not cached, and its factory is running. -/
def World.unfinished (w : World σ) (ctx : Context) : Bool :=
  let loader := (w.host.realm ctx.realm).loader
  !loader.cache.contains ctx.fqName && loader.isLoading ctx.fqName

/-- The module is refused because its factory is running. -/
def World.refusesCycle (w : World σ) (ctx : Context) : Bool :=
  match w.start .caching ctx with
  | .inl (.error e, _) =>
    decide (e.symptom = (Fault.cyclic ctx.fqName).symptom (w.host.realm ctx.realm).taxonomy)
  | _ => false

namespace Moment

/-- A module of the realm `id` is asked for next that is not finished. -/
def reenters (m : Moment σ α) (id : RealmId) : Bool :=
  match m.thread.wanted? with
  | some (.caching, ctx) => decide (ctx.realm = id) && m.world.unfinished ctx
  | _ => false

/-- The next step fails to give a module of the realm `id` because its factory is running. -/
def failsOnCycle (m : Moment σ α) (id : RealmId) : Bool :=
  match m.thread.wanted? with
  | some (.caching, ctx) => decide (ctx.realm = id) && m.world.refusesCycle ctx
  | _ => false

end Moment

/-- The policy of the realm `id` makes no difference to the request. -/
def World.Indifferent (w : World σ) (id : RealmId) (purpose : Purpose) (ctx : Context) : Prop :=
  purpose = .caching → ctx.realm = id → w.unfinished ctx = true →
    (w.host.realm ctx.realm).factories.get? ctx.fqName = none

section Start

variable {id : RealmId} {policy : CyclePolicy} {w : World σ} {purpose : Purpose} {ctx : Context}

/-- Whether a factory that is registered is refused does not depend on the policy of the realm `id`. -/
theorem World.Indifferent.refused_eq (h : w.Indifferent id .caching ctx) {factory : Code}
    (hcache : (w.host.realm ctx.realm).loader.cache.get? ctx.fqName = none)
    (hfactory : (w.host.realm ctx.realm).factories.get? ctx.fqName = some factory) :
    ((w.host.realm ctx.realm).loader.isLoading ctx.fqName &&
        decide (((w.withCycles id policy).host.realm ctx.realm).config.cycles = .failFast)) =
      ((w.host.realm ctx.realm).loader.isLoading ctx.fqName &&
        decide ((w.host.realm ctx.realm).config.cycles = .failFast)) := by
  by_cases hid : ctx.realm = id
  · cases hloading : (w.host.realm ctx.realm).loader.isLoading ctx.fqName with
    | false => rfl
    | true =>
      have hunfinished : w.unfinished ctx = true := by
        simp [unfinished, Table.contains, hcache, hloading]
      rw [h rfl hid hunfinished] at hfactory
      cases hfactory
  · have hrealm : (w.withCycles id policy).host.realm ctx.realm = w.host.realm ctx.realm :=
      w.host.realm_withCycles_of_ne id policy hid
    rw [hrealm]

theorem World.start_withCycles (h : w.Indifferent id purpose ctx) :
    (w.withCycles id policy).start purpose ctx =
      (w.start purpose ctx).map (fun answer => (answer.1, answer.2.withCycles id policy)) (fun factory => factory) := by
  have hloader : ((w.withCycles id policy).host.realm ctx.realm).loader = (w.host.realm ctx.realm).loader :=
    w.host.loader_withCycles id policy ctx.realm
  have hfactories : ((w.withCycles id policy).host.realm ctx.realm).factories =
      (w.host.realm ctx.realm).factories :=
    w.host.factories_withCycles id policy ctx.realm
  simp only [start, hloader, hfactories]
  split
  next => rfl
  next => exact congrArg Sum.inl (w.raise_withCycles _ _ _)
  next factory hcache hfactory =>
    rw [h.refused_eq hcache hfactory]
    split
    · exact congrArg Sum.inl (w.raise_withCycles _ _ _)
    · rfl
  next => rfl

/-- Where cycles fail, the policy makes no difference to a request that is not refused for a cycle. -/
theorem World.indifferent_of_refusesCycle (hpolicy : (w.host.realm id).config.cycles = .failFast)
    (h : ctx.realm = id → w.refusesCycle ctx = false) : w.Indifferent id purpose ctx := by
  rintro - rfl hunfinished
  simp only [unfinished, Bool.and_eq_true, Bool.not_eq_true', Table.contains, Option.isSome_eq_false_iff,
    Option.isNone_iff_eq_none] at hunfinished
  obtain ⟨hcache, hloading⟩ := hunfinished
  cases hfactory : (w.host.realm ctx.realm).factories.get? ctx.fqName with
  | none => rfl
  | some factory =>
    have hrefused : w.refusesCycle ctx = true := by
      simp only [refusesCycle, start, hcache, hfactory, hloading, hpolicy]
      exact decide_eq_true rfl
    rw [h rfl] at hrefused
    cases hrefused

end Start

/-! ## Programs that do not look at the policy -/

/-- What the request is followed by does not depend on the policy of the realm `id`. Only a look at the host shows
    that policy. -/
def Request.Hides {γ : Type} (id : RealmId) : (request : Request σ) → (request.Reply → γ) → Prop
  | .observe, next => ∀ h policy, next (h.withCycles id policy) = next h
  | _, _ => True

/-- The program does not look at the policy of the realm `id`. -/
def Program.Blind (id : RealmId) : Program σ α → Prop
  | .done _ => True
  | .ask request next => request.Hides id next ∧ ∀ reply, (next reply).Blind id

/-- No body of the guest looks at the policy of the realm `id`. -/
structure Guest.Blind (id : RealmId) (g : Guest σ) : Prop where
  call : ∀ code args, (g.call code args).run.Blind id
  load : ∀ code ctx, (g.load code ctx).run.Blind id

/-- Nothing that the thread is still to do looks at the policy of the realm `id`. -/
def Thread.Blind (id : RealmId) : {α : Type} → Thread σ α → Prop
  | _, .active p => p.Blind id
  | _, .calling body next => body.Blind id ∧ ∀ r, (next r).Blind id
  | _, .running _ _ body next => body.Blind id ∧ ∀ r, (next r).Blind id

section Blind

variable {id : RealmId} {policy : CyclePolicy} {g : Guest σ} {room : Option Nat}

theorem Program.Blind.bind {p : Program σ α} {f : α → Program σ β} (hp : p.Blind id) (hf : ∀ a, (f a).Blind id) :
    (p.bind f).Blind id := by
  induction p with
  | done a => exact hf a
  | ask request next ih =>
    refine ⟨?_, fun reply => ih reply (hp.2 reply)⟩
    cases request with
    | observe => exact fun h policy => congrArg (·.bind f) (hp.1 h policy)
    | _ => trivial

theorem Guest.Blind.callBody (hg : g.Blind id) (code : Code) (args : List Value) :
    (g.callBody room code args).Blind id := by
  unfold Guest.callBody
  split
  · trivial
  · exact hg.call code args

theorem Guest.Blind.loadBody (hg : g.Blind id) (factory : Code) (ctx : Context) :
    (g.loadBody room factory ctx).Blind id := by
  unfold Guest.loadBody
  split
  · trivial
  · exact hg.load factory ctx

namespace Thread

theorem blind_obtain (hg : g.Blind id) (purpose : Purpose) (ctx : Context)
    {next : Except Raised Module → Program σ α} (hnext : ∀ r, (next r).Blind id) (w : World σ) :
    (obtain g room purpose ctx next w).thread.Blind id := by
  unfold obtain
  split
  next r w' hstart => exact hnext r
  next factory hstart => exact ⟨hg.loadBody factory ctx, hnext⟩

theorem blind_request (hg : g.Blind id) (w : World σ) {request : Request σ}
    {next : request.Reply → Program σ α} (hnext : ∀ reply, (next reply).Blind id) :
    (Thread.request g room w request next).thread.Blind id := by
  cases request with
  | call f args =>
    simp only [Thread.request]
    split
    · exact hnext _
    · exact ⟨hg.callBody f.code args, hnext⟩
  | load ctx => exact blind_obtain hg .caching ctx hnext w
  | enter ctx => exact blind_obtain hg .entry ctx hnext w
  | _ => exact hnext _

theorem Blind.step (hg : g.Blind id) {t : Thread σ α} (ht : t.Blind id) (w : World σ) :
    (t.step g room w).thread.Blind id := by
  induction t generalizing room w with
  | active p =>
    cases p with
    | done a => trivial
    | ask request next => exact blind_request hg w ht.2
  | calling body next ih =>
    cases hr : body.result? with
    | some r =>
      simp only [Thread.step, hr]
      exact ht.2 r
    | none =>
      simp only [Thread.step, hr]
      exact ⟨ih ht.1 w, ht.2⟩
  | running purpose ctx body next ih =>
    cases hr : body.result? with
    | some r =>
      simp only [Thread.step, hr]
      exact ht.2 r
    | none =>
      simp only [Thread.step, hr]
      exact ⟨ih ht.1 w, ht.2⟩

/-! ## Steps under another policy -/

theorem obtain_withCycles {w : World σ} {purpose : Purpose} {ctx : Context} (h : w.Indifferent id purpose ctx)
    (next : Except Raised Module → Program σ α) :
    obtain g room purpose ctx next (w.withCycles id policy) =
      (obtain g room purpose ctx next w).withCycles id policy := by
  unfold obtain
  rw [World.start_withCycles h]
  cases w.start purpose ctx with
  | inl answer => rfl
  | inr factory =>
    simp only [Sum.map_inr, World.opened, World.modifyLoader_withCycles]
    rfl

theorem request_withCycles {w : World σ} (hstarted : id < w.host.realms.length) {request : Request σ}
    {next : request.Reply → Program σ α} (hhides : request.Hides id next)
    (h : ∀ purpose ctx, (Thread.active (.ask request next)).wanted? = some (purpose, ctx) →
      w.Indifferent id purpose ctx) :
    Thread.request g room (w.withCycles id policy) request next =
      (Thread.request g room w request next).withCycles id policy := by
  cases request with
  | observe => exact congrArg (fun p => Moment.mk (.active p) (w.withCycles id policy)) (hhides w.host policy)
  | define realm name parent members =>
    simp only [Thread.request, Request.answer, World.onHost, World.withCycles, Host.define_withCycles]
    rfl
  | newException realm name message =>
    simp only [Thread.request, Request.answer, World.onHost, World.withCycles, Host.newException,
      Host.taxonomy_withCycles]
    rfl
  | makeException realm cls args =>
    simp only [Thread.request, Request.answer, World.onHost, World.withCycles, Host.makeException_withCycles]
    rfl
  | register realm name factory =>
    simp only [Thread.request, Request.answer, World.onHost, World.withCycles, Host.register_withCycles]
    rfl
  | boot config =>
    simp only [Thread.request, Request.answer, World.onHost, World.withCycles, Host.boot_withCycles hstarted]
    rfl
  | call f args =>
    simp only [Thread.request]
    split <;> rfl
  | load ctx => exact obtain_withCycles (h .caching ctx rfl) next
  | enter ctx => exact obtain_withCycles (h .entry ctx rfl) next
  | _ => rfl

/-- One step, where the policy makes no difference to what the thread asks for. -/
theorem step_withCycles {t : Thread σ α} (ht : t.Blind id) {w : World σ} (hstarted : id < w.host.realms.length)
    (h : ∀ purpose ctx, t.wanted? = some (purpose, ctx) → w.Indifferent id purpose ctx) :
    t.step g room (w.withCycles id policy) = (t.step g room w).withCycles id policy := by
  induction t generalizing room with
  | active p =>
    cases p with
    | done a => rfl
    | ask request next => exact request_withCycles hstarted ht.1 h
  | calling body next ih =>
    cases hr : body.result? with
    | some r => simp only [step, hr, Moment.withCycles]
    | none =>
      simp only [step, hr, ih ht.1 h]
      rfl
  | running purpose ctx body next ih =>
    cases hr : body.result? with
    | some r => simp only [step, hr, Moment.withCycles, World.closed, World.modifyLoader_withCycles]
    | none =>
      simp only [step, hr, ih ht.1 h]
      rfl

end Thread

end Blind

/-! ## The operations do not look at the policy -/

section Operations

variable (id realm : RealmId)

theorem Task.blind_raise (name : String) (message : Value) : (Task.raise realm name message : Task σ α).run.Blind id :=
  ⟨trivial, fun _ => trivial⟩

theorem blind_raisedOf (e : ObjectError) : (raisedOf realm e : Program σ Raised).Blind id := by
  rw [raisedOf_eq]
  cases e.managed? with
  | none => trivial
  | some name => exact ⟨trivial, fun _ => trivial⟩

theorem blind_exceptionify (r : Raised) : (exceptionify realm r : Program σ Raised).Blind id := by
  cases r with
  | exception e => trivial
  | host failure =>
    cases failure with
    | reference message => exact ⟨trivial, fun _ => trivial⟩
    | arity function expected got => trivial
    | other message => trivial

theorem blind_catchAs (r : Raised) (cls : Class) : (catchAs realm r cls : Program σ _).Blind id := by
  refine (blind_exceptionify id realm r).bind fun r => ?_
  cases r with
  | exception e => trivial
  | host failure => trivial

theorem blind_describe (m : Method) : (describe realm m : Task σ String).run.Blind id := by
  rw [describe_run]
  cases m.describe with
  | ok text => trivial
  | error e => exact (blind_raisedOf id realm e).bind fun _ => trivial

theorem blind_getAttribute (obj : Value) (name : String) :
    (getAttribute realm obj name : Task σ Value).run.Blind id := by
  rw [getAttribute_run]
  refine ⟨fun h policy => ?_, fun h => ?_⟩
  · simp only [Host.reading_withCycles]
  · dsimp only
    cases h.reading obj name with
    | value v => trivial
    | method f => exact ⟨trivial, fun _ => trivial⟩
    | nothing => exact Task.blind_raise id realm _ _

theorem blind_initialise (h : Host) (cls : Class) (args : List Value) (i : Instance) :
    (initialise h realm cls args i : Program σ _).Blind id := by
  unfold initialise
  cases h.initialiser? cls with
  | some f => exact ⟨trivial, fun _ => ⟨trivial, fun _ => trivial⟩⟩
  | none =>
    dsimp only
    split
    · trivial
    · exact Task.blind_raise id realm _ _

theorem initialise_withCycles (h : Host) (policy : CyclePolicy) (cls : Class) (args : List Value) :
    (initialise (h.withCycles id policy) realm cls args : Instance → Program σ _) = initialise h realm cls args := by
  funext i
  simp only [initialise, Host.initialiser?, Host.lookup?_withCycles]

theorem blind_instantiate (cls : Class) (args : List Value) :
    (instantiate realm cls args : Task σ Value).run.Blind id := by
  rw [instantiate_run]
  refine ⟨fun h policy => ?_, fun h => ?_⟩
  · simp only [Host.taxonomy_withCycles, initialise_withCycles]
  · dsimp only
    split
    · refine ⟨trivial, fun made => ?_⟩
      cases made with
      | ok e => trivial
      | error e => exact (blind_raisedOf id realm e).bind fun _ => trivial
    · exact ⟨trivial, blind_initialise id realm h cls args⟩

theorem blind_importModule (requested caller : String) :
    (importModule realm requested caller : Task σ Module).run.Blind id := by
  rw [importModule_run]
  refine ⟨fun h policy => ?_, fun h => ?_⟩
  · simp only [Realm.resolve?, Host.factories_withCycles]
  · dsimp only
    cases (h.realm realm).resolve? requested caller with
    | none => exact Task.blind_raise id realm _ _
    | some resolution => exact ⟨trivial, fun _ => trivial⟩

theorem blind_importFrom (m : Module) (name : String) : (importFrom realm m name : Task σ Value).run.Blind id := by
  rw [importFrom_run]
  refine ⟨fun _ _ => rfl, fun h => ?_⟩
  dsimp only
  cases h.moduleAttribute? m name with
  | some v => trivial
  | none => exact Task.blind_raise id realm _ _

theorem Fetch.blind_task (fetch : Fetch) : (fetch.task : Task σ Module).run.Blind id := by
  cases fetch with
  | load ctx => exact ⟨trivial, fun _ => trivial⟩
  | resolved realm name => exact ⟨trivial, fun _ => trivial⟩
  | named realm requested caller => exact blind_importModule id realm requested caller
  | entry realm target displayName => exact ⟨trivial, fun _ => trivial⟩

theorem Context.blind_newModule (ctx : Context) : (ctx.newModule : Program σ Module).Blind id := by
  refine ⟨fun h policy => ?_, fun h => ⟨trivial, fun _ => trivial⟩⟩
  simp only [Host.core_withCycles]

end Operations

/-- What the operation is followed by does not depend on the policy of the realm `id`. Only a request for the host
    itself shows that policy, and none of the other operations does. -/
def Operation.Hides {γ : Type} (id : RealmId) : Operation σ β → (β → γ) → Prop
  | .request asked, next => asked.Hides id next
  | _, _ => True

/-- Any operation that does not give out the policy does not look at it either. -/
theorem Operation.blind (op : Operation σ β) {id : RealmId} (hhides : op.Hides id fun b : β => b) :
    op.program.Blind id := by
  cases op with
  | request asked =>
    refine ⟨?_, fun _ => trivial⟩
    cases asked with
    | observe => exact fun h policy => congrArg Program.done (hhides h policy)
    | _ => trivial
  | raise realm name message => exact Task.blind_raise id realm name message
  | importError realm name => exact Task.blind_raise id realm _ _
  | raisedOf realm e => exact blind_raisedOf id realm e
  | exceptionify realm r => exact blind_exceptionify id realm r
  | catchAs realm r cls => exact blind_catchAs id realm r cls
  | bindMethod receiver callable => exact ⟨trivial, fun _ => trivial⟩
  | callFunction f args => exact ⟨trivial, fun _ => trivial⟩
  | invoke m args => exact ⟨trivial, fun _ => trivial⟩
  | describe realm m => exact blind_describe id realm m
  | getAttribute realm obj name => exact blind_getAttribute id realm obj name
  | instantiate realm cls args => exact blind_instantiate id realm cls args
  | fetch way => exact way.blind_task id
  | importFrom realm m name => exact blind_importFrom id realm m name
  | newModule ctx => exact ctx.blind_newModule id

theorem Operation.blind_bind (op : Operation σ β) {id : RealmId} {next : β → Program σ α}
    (hhides : op.Hides id next) (hnext : ∀ b, (next b).Blind id) : (op.program.bind next).Blind id := by
  cases op with
  | request asked => exact ⟨hhides, hnext⟩
  | _ =>
    refine Program.Blind.bind (Operation.blind _ ?_) hnext
    trivial

/-! ## Code that does not look at the policy -/

/-- Code that performs one operation after another, and where it looks at the host does the same whatever the policy of
    the realm `id` is. Nothing is said of what the operations themselves do. -/
inductive Program.Discreet (id : RealmId) : Program σ α → Prop where
  | done (a : α) : Discreet id (.done a)
  | perform {β : Type} (op : Operation σ β) (next : β → Program σ α) (hhides : op.Hides id next)
      (hnext : ∀ b, Discreet id (next b)) : Discreet id (op.program.bind next)

structure Guest.Discreet (id : RealmId) (g : Guest σ) : Prop where
  call : ∀ code args, (g.call code args).run.Discreet id
  load : ∀ code ctx, (g.load code ctx).run.Discreet id

theorem Program.Discreet.blind {id : RealmId} {p : Program σ α} (h : p.Discreet id) : p.Blind id := by
  induction h with
  | done a => trivial
  | perform op next hhides _ ih => exact op.blind_bind hhides ih

theorem Guest.Discreet.blind {id : RealmId} {g : Guest σ} (h : g.Discreet id) : g.Blind id where
  call code args := (h.call code args).blind
  load code ctx := (h.load code ctx).blind

theorem Fault.discreet_task (fault : Fault) (id realm : RealmId) : (fault.task realm : Task σ α).run.Discreet id := by
  cases fault with
  | raise name message => exact .perform (.request (.newException realm name message)) _ trivial fun _ => .done _
  | throw r => exact .done _

theorem Program.Follows.discreet {ctx : Context} {imports : List String} {p : Program σ (Except Raised Module)}
    (h : p.Follows ctx imports) (id : RealmId) : p.Discreet id := by
  induction h with
  | make => exact .perform (.newModule ctx) _ trivial fun _ => .done _
  | fail fault => exact fault.discreet_task id ctx.realm
  | @consult _ change next _ ih => exact .perform (.request (.guest change)) next trivial ih
  | @bring requested _ swallows next hok hswallow hpropagate ihok ihswallow =>
    refine .perform (.fetch (.named ctx.realm requested ctx.fqName)) next trivial fun r => ?_
    cases r with
    | ok m => exact ihok m
    | error e =>
      by_cases he : swallows e
      · exact ihswallow e he
      · rw [hpropagate e he]
        exact .done _

theorem discreet_recipeGuest (plan : Code → Recipe) (id : RealmId) : (recipeGuest plan : Guest σ).Discreet id where
  call _ _ := .done _
  load code ctx := ((plan code).follows_body ctx).discreet id

/-! ## Runs under another policy -/

namespace Moment

variable {id : RealmId} {g : Guest σ} {room : Option Nat} {m : Moment σ α}

theorem started_iterate (hstarted : id < m.world.host.realms.length) (k : Nat) :
    id < ((Moment.step g room)^[k] m).world.host.realms.length := by
  induction k with
  | zero => exact hstarted
  | succ k ih =>
    rw [Function.iterate_succ_apply']
    exact Nat.lt_of_lt_of_le ih (Thread.transition_step g room _ _).realms_le

theorem blind_iterate (hg : g.Blind id) (hm : m.thread.Blind id) (k : Nat) :
    ((Moment.step g room)^[k] m).thread.Blind id := by
  induction k with
  | zero => exact hm
  | succ k ih =>
    rw [Function.iterate_succ_apply']
    exact ih.step hg _

/-- The policy of the realm `id` makes no difference to what is asked for next. -/
def Indifferent (m : Moment σ α) (id : RealmId) : Prop :=
  ∀ purpose ctx, m.thread.wanted? = some (purpose, ctx) → m.world.Indifferent id purpose ctx

/-- As long as the policy makes no difference, the moments are those under any other policy. -/
theorem iterate_withCycles (hg : g.Blind id) (hm : m.thread.Blind id) (hstarted : id < m.world.host.realms.length)
    (policy : CyclePolicy) {n : Nat} (h : ∀ k < n, ((Moment.step g room)^[k] m).Indifferent id) :
    (Moment.step g room)^[n] (m.withCycles id policy) = ((Moment.step g room)^[n] m).withCycles id policy := by
  induction n with
  | zero => rfl
  | succ n ih =>
    rw [Function.iterate_succ_apply', Function.iterate_succ_apply', ih fun k hk => h k (Nat.lt_succ_of_lt hk)]
    exact Thread.step_withCycles (blind_iterate hg hm n) (started_iterate hstarted n) (h n (Nat.lt_succ_self n))

theorem indifferent_of_reenters (h : m.reenters id = false) : m.Indifferent id := by
  rintro purpose ctx hwanted rfl hid hunfinished
  simp [reenters, hwanted, hid, hunfinished] at h

theorem indifferent_of_failsOnCycle (hpolicy : (m.world.host.realm id).config.cycles = .failFast)
    (h : m.failsOnCycle id = false) : m.Indifferent id := by
  rintro purpose ctx hwanted rfl
  refine World.indifferent_of_refusesCycle hpolicy (fun hid => ?_) rfl
  simpa [failsOnCycle, hwanted, hid] using h

/-- Where cycles fail, the policy makes no difference as long as no request fails for a cycle. -/
theorem indifferent_iterate (hg : g.Blind id) (hm : m.thread.Blind id) (hstarted : id < m.world.host.realms.length)
    {n : Nat} (h : ∀ k < n, ((Moment.step g room)^[k] (m.withCycles id .failFast)).failsOnCycle id = false)
    {k : Nat} (hk : k < n) : ((Moment.step g room)^[k] (m.withCycles id .failFast)).Indifferent id := by
  induction k using Nat.strongRecOn with
  | ind k ih =>
    refine indifferent_of_failsOnCycle ?_ (h k hk)
    -- The policy is that of the beginning, since setting it once more there changes nothing up to this moment.
    have hstarted' : id < (m.withCycles id .failFast).world.host.realms.length :=
      Nat.lt_of_lt_of_eq hstarted (m.world.host.length_withCycles id .failFast).symm
    have hsame := iterate_withCycles (m := m.withCycles id .failFast) hg hm hstarted' .failFast
      fun j hj => ih j hj (Nat.lt_trans hj hk)
    rw [withCycles_withCycles] at hsame
    rw [hsame]
    exact Host.cycles_withCycles id .failFast (started_iterate hstarted' k)

end Moment

/-- No operation looks at the policy of a realm, be it an import, a load, an entry run, an access, a call or a failure
    that is raised or caught; only a look at the host itself shows it. So let code, that of the guest and that of the
    program, not depend on the policy where it looks at the host. Up to a request for a module that is not finished, and
    from the other side up to an import that fails for a cycle, a run under one policy then goes through the moments of
    the run under the other: it has come to the same results, with the same factory runs in the same order, and has the
    same classes, factories, caches and loading tables. -/
theorem policies_agree_until_cycle (g : Guest σ) (id : RealmId) (hg : g.Discreet id) (p : Program σ α)
    (hp : p.Discreet id) (room : Option Nat) (w : World σ) (hstarted : id < w.host.realms.length) :
    let run policy n := (Moment.step g room)^[n] ⟨.active p, w.withCycles id policy⟩
    (∀ {β : Type} (op : Operation σ β), (op.Hides id fun b : β => b) → op.program.Blind id) ∧
    (∀ n, (∀ k < n, (run .reenter k).reenters id = false) →
      run .failFast n = (run .reenter n).withCycles id .failFast) ∧
    (∀ n, (∀ k < n, (run .failFast k).failsOnCycle id = false) →
      run .reenter n = (run .failFast n).withCycles id .reenter) := by
  intro run
  have hother : ∀ policy policy' n,
      (∀ k < n, (run policy k).Indifferent id) → run policy' n = (run policy n).withCycles id policy' := by
    intro policy policy' n h
    have hstarted' : id < (w.withCycles id policy).host.realms.length :=
      Nat.lt_of_lt_of_eq hstarted (w.host.length_withCycles id policy).symm
    have hstart : (⟨.active p, w.withCycles id policy⟩ : Moment σ α).withCycles id policy' =
        ⟨.active p, w.withCycles id policy'⟩ :=
      Moment.withCycles_withCycles ⟨.active p, w⟩ id policy policy'
    have hmoments := Moment.iterate_withCycles (m := ⟨.active p, w.withCycles id policy⟩) hg.blind hp.blind hstarted'
      policy' h
    rw [hstart] at hmoments
    exact hmoments
  refine ⟨fun op => op.blind, fun n h => ?_, fun n h => ?_⟩
  · exact hother _ _ n fun k hk => Moment.indifferent_of_reenters (h k hk)
  · exact hother _ _ n fun k hk => Moment.indifferent_iterate (m := ⟨.active p, w⟩) hg.blind hp.blind hstarted h hk

/-- Runs the module `b` and tells its name, and then imports `a` and `c`, whatever comes of it. -/
def runAndImport : Program Unit (List (Except Raised Value)) := do
  let ran ← (runModule 0 "b" (some Builtin.mainModule)).run
  let shown ← match ran with
    | .ok m => (importFrom 0 m Builtin.nameAttribute).run
    | .error r => return [.error r]
  let first ← (importModule 0 "a" "").run
  let second ← (importModule 0 "c" "").run
  return [shown, first.map .module, second.map .module]

theorem discreet_runAndImport (id : RealmId) : runAndImport.Discreet id := by
  refine .perform (.fetch (.entry 0 "b" (some Builtin.mainModule))) _ trivial fun ran => ?_
  cases ran with
  | error r => exact .done _
  | ok m =>
    refine .perform (.importFrom 0 m Builtin.nameAttribute) _ trivial fun shown => ?_
    refine .perform (.fetch (.named 0 "a" "")) _ trivial fun first => ?_
    exact .perform (.fetch (.named 0 "c" "")) _ trivial fun second => .done _

/-- Running `b` and importing `a` and then `c` goes the same way under either policy, until `d` asks for `c` again. -/
theorem policies_agree_until_cycle_sample :
    let run policy n := (Moment.step (recipeGuest samplePlan) none)^[n]
      ⟨.active runAndImport, sampleWorld.withCycles 0 policy⟩
    ((∀ k < 21, (run .reenter k).reenters 0 = false) ∧
      run .failFast 21 = (run .reenter 21).withCycles 0 .failFast) ∧
    ((∀ k < 21, (run .failFast k).failsOnCycle 0 = false) ∧
      run .reenter 21 = (run .failFast 21).withCycles 0 .reenter) ∧
    (run .reenter 21).reenters 0 = true ∧ (run .failFast 21).failsOnCycle 0 = true := by
  intro run
  have hruns : (0 < sampleWorld.host.realms.length ∧ ∀ k < 21, (run .reenter k).reenters 0 = false) ∧
      (∀ k < 21, (run .failFast k).failsOnCycle 0 = false) ∧
      (run .reenter 21).reenters 0 = true ∧ (run .failFast 21).failsOnCycle 0 = true := by
    decide +kernel
  obtain ⟨⟨hstarted, hreenters⟩, hfails, hend⟩ := hruns
  obtain ⟨-, hforth, hback⟩ := policies_agree_until_cycle (recipeGuest samplePlan) 0 (discreet_recipeGuest samplePlan 0)
    runAndImport (discreet_runAndImport 0) none sampleWorld hstarted
  exact ⟨⟨hreenters, hforth 21 hreenters⟩, ⟨hfails, hback 21 hfails⟩, hend⟩

end ObjectHost
