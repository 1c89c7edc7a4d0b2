-- SUMMARY: The exceptions that the operations raise, and that the base of a realm's exceptions catches all of them.
import ObjectHost.Proofs.Host.Identity

/-!
# Raising

An operation raises exceptions of its own, be it an access to what is not there,
an import of what is not registered or a failure that is normalised. Each of
them is made by a request, for the realm that the operation is performed for. So
it is of a class that the realm owns, beneath the base, and is caught there.
Bodies that an operation enters raise what they like; where they are honest,
that was made by a request as well.
-/

namespace ObjectHost

variable {σ α β : Type}

/-! ## The requests that make exceptions -/

def couldNotImport (name : String) : String := "Could not import \"" ++ name ++ "\"."

/-- The request for the exception that a fault in the bookkeeping is raised as. -/
def ObjectError.raising? (realm : RealmId) (fault : ObjectError) : Option (Request σ) :=
  fault.managed?.map fun name => .newException realm name (.str fault.message)

/-- The request for the exception that a failure is normalised to. -/
def Raised.normalising? (realm : RealmId) : Raised → Option (Request σ)
  | .host (.reference message) =>
    some (.newException realm Builtin.nameError (.str (HostFailure.reference message).message))
  | _ => none

/-- The request that asking for a module comes to. -/
def Fetch.request (h : Host) : Fetch → Request σ
  | .load ctx => .load ctx
  | .resolved realm name => .load ⟨realm, name, name⟩
  | .named realm requested caller =>
    match (h.realm realm).resolve? requested caller with
    | some r => .load ⟨realm, r.name, r.name⟩
    | none => .newException realm Builtin.importError (.str (couldNotImport requested))
  | .entry realm target displayName => .enter ⟨realm, target, displayName.getD target⟩

/-- The request for the exception that making an object comes to, and the world that it is made in. An instance is there
    before it turns out that it takes no arguments. -/
def instantiating? (w : World σ) (realm : RealmId) (cls : Class) (args : List Value) : Option (Request σ × World σ) :=
  if (w.host.realm realm).taxonomy.isExceptionClass cls = true then some (.makeException realm cls args, w)
  else if w.host.initialiser? cls = none ∧ args.isEmpty = false then
    some (.newException realm Builtin.typeError (.str (tooManyArguments cls args.length)), w.grown)
  else none

/-- The exception that comes of such a request, and the realm it is made for. -/
def madeBy? (raising : Option (Request σ × World σ)) : Option (RealmId × Exception) :=
  raising.bind fun asked => asked.1.makes? asked.2

namespace Operation

/-- The request with which an operation that is performed in `w` may make an exception of its own, and the world that it
    makes the request in. -/
def raising? (w : World σ) : Operation σ β → Option (Request σ × World σ)
  | .request asked => some (asked, w)
  | .raise realm name message => some (.newException realm name message, w)
  | .importError realm name => some (.newException realm Builtin.importError (.str (couldNotImport name)), w)
  | .raisedOf realm fault => (fault.raising? realm).map (·, w)
  | .exceptionify realm r => (r.normalising? realm).map (·, w)
  | .catchAs realm r _ => (r.normalising? realm).map (·, w)
  | .describe realm m =>
    match m.describe with
    | .ok _ => none
    | .error fault => (fault.raising? realm).map (·, w)
  | .getAttribute realm obj name =>
    match w.host.reading obj name with
    | .nothing => some (.newException realm Builtin.attributeError (.str (noAttribute obj name)), w)
    | _ => none
  | .instantiate realm cls args => instantiating? w realm cls args
  | .fetch way => some (way.request w.host, w)
  | .importFrom realm m name =>
    match w.host.moduleAttribute? m name with
    | some _ => none
    | none => some (.newException realm Builtin.attributeError (.str (noModuleAttribute name)), w)
  | .bindMethod .. | .callFunction .. | .invoke .. | .newModule _ => none

/-- The exception that an operation makes itself, and the realm it makes it for. -/
def makes? (w : World σ) (op : Operation σ β) : Option (RealmId × Exception) := madeBy? (op.raising? w)

/-- A class that is to be instantiated is registered where it is at home. -/
def isRegistered (h : Host) : Operation σ β → Bool
  | .request asked => asked.isRegistered h
  | .instantiate _ cls _ => (h.realm cls.home).classes.owns cls
  | _ => true

end Operation

/-! ## What the operations come to -/

section

variable {w : World σ} {id realm : RealmId} {e : Exception}

/-- Where a request makes an exception, the exception is what it is answered with. -/
theorem Request.shows_of_makes? {request : Request σ} (h : request.makes? w = some (id, e)) (runner : Runner σ) :
    request.Shows (request.answer runner w).1 e.toValue := by
  have hrefused : ∀ {purpose ctx}, (w.refusal? purpose ctx).map (ctx.realm, ·) = some (id, e) →
      ∃ w', w.start purpose ctx = .inl (.error (.exception e), w') := by
    intro purpose ctx h
    obtain ⟨e', hrefusal, heq⟩ := Option.map_eq_some_iff.1 h
    cases heq
    exact World.start_of_refusal? hrefusal
  cases request with
  | newException realm name message =>
    cases h
    rfl
  | makeException realm cls args =>
    obtain ⟨made, hmade, heq⟩ := Option.map_eq_some_iff.1 h
    cases heq
    refine ⟨e, ?_, rfl⟩
    change (w.host.makeException id cls args).1 = _
    cases hresult : (w.host.makeException id cls args).1 with
    | ok made =>
      rw [hresult] at hmade
      cases hmade
      rfl
    | error fault =>
      rw [hresult] at hmade
      cases hmade
  | load ctx =>
    obtain ⟨w', hstart⟩ := hrefused h
    simp only [Shows, answer, World.load_eq, hstart]
    exact List.mem_cons_self
  | enter ctx =>
    obtain ⟨w', hstart⟩ := hrefused h
    simp only [Shows, answer, World.enter_eq, hstart]
    exact List.mem_cons_self
  | _ => cases h

theorem run_raisedOf_of_raising? {fault : ObjectError}
    (h : madeBy? ((fault.raising? realm).map (·, w)) = some (id, e)) (runner : Runner σ) :
    ((raisedOf realm fault).run runner w).1 = .exception e := by
  unfold ObjectError.raising? at h
  rw [raisedOf_eq]
  cases hmanaged : fault.managed? with
  | none =>
    rw [hmanaged] at h
    cases h
  | some name =>
    rw [hmanaged] at h
    cases h
    rfl

theorem run_exceptionify_of_normalising? {r : Raised}
    (h : madeBy? ((r.normalising? realm).map (·, w)) = some (id, e)) (runner : Runner σ) :
    ((exceptionify realm r).run runner w).1 = .exception e := by
  unfold Raised.normalising? at h
  split at h
  next =>
    cases h
    rfl
  next => cases h

theorem Fetch.mem_run_of_makes? {fetch : Fetch} (h : (fetch.request w.host).makes? w = some (id, e))
    (runner : Runner σ) : e.toValue ∈ resultValues ([.module ·]) (fetch.task.run.run runner w).1 := by
  cases fetch with
  | named realm requested caller =>
    change e.toValue ∈ resultValues _ ((importModule realm requested caller).run.run runner w).1
    rw [importModule_run]
    simp only [Program.run, Request.answer]
    cases hresolve : (w.host.realm realm).resolve? requested caller with
    | some r =>
      simp only [request, hresolve] at h
      exact Request.shows_of_makes? h runner
    | none =>
      simp only [request, hresolve] at h
      cases h
      exact List.mem_cons_self
  | load ctx => exact Request.shows_of_makes? h runner
  | resolved realm name => exact Request.shows_of_makes? h runner
  | entry realm target displayName => exact Request.shows_of_makes? h runner

theorem mem_run_instantiate_of_makes? {cls : Class} {args : List Value}
    (h : madeBy? (instantiating? w realm cls args) = some (id, e)) (runner : Runner σ) :
    e.toValue ∈ resultValues ([·]) ((instantiate realm cls args).run.run runner w).1 := by
  unfold instantiating? at h
  rw [instantiate_run]
  change e.toValue ∈ resultValues _
    ((if (w.host.realm realm).taxonomy.isExceptionClass cls = true then _ else _ : Program σ _).run runner w).1
  split at h
  next hcls =>
    rw [if_pos hcls]
    have hmakes : (Request.makeException realm cls args).makes? w = some (id, e) := h
    obtain ⟨made, hmade, hvalue⟩ := Request.shows_of_makes? hmakes runner
    rw [hvalue]
    simp only [Program.run]
    rw [hmade]
    exact List.mem_cons_self
  next hcls =>
    split at h
    next hraise =>
      obtain ⟨hinit, hargs⟩ := hraise
      rw [if_neg hcls]
      simp only [Program.run, initialise, hinit, hargs]
      cases h
      exact List.mem_cons_self
    next => cases h

namespace Operation

/-- Where an operation makes an exception, it raises or returns it, whatever bodies there are. -/
theorem shows_of_makes? {op : Operation σ β} (h : op.makes? w = some (id, e)) (runner : Runner σ) :
    op.Shows (op.program.run runner w).1 e.toValue := by
  unfold makes? raising? at h
  cases op with
  | request asked => exact asked.shows_of_makes? h runner
  | raise realm name message =>
    cases h
    exact List.mem_cons_self
  | importError realm name =>
    cases h
    exact List.mem_cons_self
  | raisedOf realm fault =>
    change e.toValue ∈ ((ObjectHost.raisedOf realm fault).run runner w).1.values
    rw [run_raisedOf_of_raising? h runner]
    exact List.mem_cons_self
  | exceptionify realm r =>
    change e.toValue ∈ ((ObjectHost.exceptionify realm r).run runner w).1.values
    rw [run_exceptionify_of_normalising? h runner]
    exact List.mem_cons_self
  | catchAs realm r cls =>
    change e.toValue ∈ resultValues _ (((ObjectHost.exceptionify realm r).bind _).run runner w).1
    rw [Program.run_bind, run_exceptionify_of_normalising? h runner]
    change e.toValue ∈ resultValues _ (if e.isInstanceOf cls = true then .ok e else .error (.exception e))
    split <;> exact List.mem_cons_self
  | describe realm m =>
    change e.toValue ∈ resultValues _ ((ObjectHost.describe realm m).run.run runner w).1
    rw [describe_run]
    dsimp only at h
    cases hdescribe : m.describe with
    | ok text =>
      rw [hdescribe] at h
      cases h
    | error fault =>
      rw [hdescribe] at h
      dsimp only
      rw [Program.run_bind, run_raisedOf_of_raising? h runner]
      exact List.mem_cons_self
  | getAttribute realm obj name =>
    change e.toValue ∈ resultValues _ ((ObjectHost.getAttribute realm obj name).run.run runner w).1
    dsimp only at h
    split at h
    next hreading =>
      rw [run_getAttribute_of_nothing runner realm hreading]
      cases h
      exact List.mem_cons_self
    next => cases h
  | instantiate realm cls args => exact mem_run_instantiate_of_makes? h runner
  | fetch way => exact Fetch.mem_run_of_makes? h runner
  | importFrom realm m name =>
    change e.toValue ∈ resultValues _ ((ObjectHost.importFrom realm m name).run.run runner w).1
    dsimp only at h
    rw [importFrom_run]
    simp only [Program.run, Request.answer]
    cases hattr : w.host.moduleAttribute? m name with
    | some v =>
      rw [hattr] at h
      cases h
    | none =>
      rw [hattr] at h
      cases h
      exact List.mem_cons_self
  | _ => cases h

/-- The exception is made among the realms that there are, of a class that is registered if that of the operation is. -/
theorem of_raising? {op : Operation σ β} {request : Request σ} {w' : World σ} (h : op.raising? w = some (request, w'))
    (hregistered : op.isRegistered w.host = true) :
    w'.host.realms = w.host.realms ∧ request.isRegistered w'.host = true := by
  have hraised : ∀ {realm} {fault : ObjectError}, (fault.raising? realm).map (·, w) = some (request, w') →
      w'.host.realms = w.host.realms ∧ request.isRegistered w'.host = true := by
    intro realm fault h
    obtain ⟨asked, hasked, heq⟩ := Option.map_eq_some_iff.1 h
    obtain ⟨name, -, rfl⟩ := Option.map_eq_some_iff.1 hasked
    cases heq
    exact ⟨rfl, rfl⟩
  have hnormalised : ∀ {realm} {r : Raised}, (r.normalising? realm).map (·, w) = some (request, w') →
      w'.host.realms = w.host.realms ∧ request.isRegistered w'.host = true := by
    intro realm r h
    obtain ⟨asked, hasked, heq⟩ := Option.map_eq_some_iff.1 h
    cases heq
    unfold Raised.normalising? at hasked
    split at hasked
    · cases hasked
      exact ⟨rfl, rfl⟩
    · cases hasked
  cases op with
  | request asked =>
    cases h
    exact ⟨rfl, hregistered⟩
  | raise realm name message =>
    cases h
    exact ⟨rfl, rfl⟩
  | importError realm name =>
    cases h
    exact ⟨rfl, rfl⟩
  | raisedOf realm fault => exact hraised h
  | exceptionify realm r => exact hnormalised h
  | catchAs realm r cls => exact hnormalised h
  | describe realm m =>
    simp only [raising?] at h
    split at h
    · cases h
    · exact hraised h
  | getAttribute realm obj name =>
    simp only [raising?] at h
    split at h
    · cases h
      exact ⟨rfl, rfl⟩
    · cases h
  | instantiate realm cls args =>
    simp only [raising?, instantiating?] at h
    split at h
    · cases h
      exact ⟨rfl, hregistered⟩
    · split at h
      · cases h
        exact ⟨rfl, rfl⟩
      · cases h
  | fetch way =>
    cases h
    refine ⟨rfl, ?_⟩
    cases way with
    | named realm requested caller =>
      simp only [Fetch.request]
      split <;> rfl
    | _ => rfl
  | importFrom realm m name =>
    simp only [raising?] at h
    split at h
    · cases h
    · cases h
      exact ⟨rfl, rfl⟩
  | _ => cases h

theorem descends_of_makes? (hsound : (w.host.realm id).Sound id) {op : Operation σ β}
    (hregistered : op.isRegistered w.host = true) (hmakes : op.makes? w = some (id, e)) :
    (w.host.realm id).classes.owns e.cls = true ∧ (w.host.realm id).taxonomy.base ∈ e.cls.ancestors := by
  obtain ⟨⟨request, w'⟩, hraising, hmakes⟩ := Option.bind_eq_some_iff.1 hmakes
  obtain ⟨hrealms, hregistered'⟩ := of_raising? hraising hregistered
  have hrealm : w'.host.realm id = w.host.realm id := by
    unfold Host.realm
    rw [hrealms]
  rw [← hrealm] at hsound ⊢
  exact Request.descends_of_makes? hsound hregistered' hmakes

end Operation

end

/-! ## Catching -/

/-- The class of an exception is one of the realm and descends from `base`, so that `base` catches it. -/
structure Realm.Catches (σ : Type) (r : Realm) (id : RealmId) (base : Class) (e : Exception) : Prop where
  owned : r.classes.owns e.cls = true
  descends : e.cls.isSubclassOf base = true
  caught : ∀ runner (w : World σ), (catchAs id (.exception e) base).run runner w = (.ok e, w)

namespace Realm.Catches

variable {r r' : Realm} {id : RealmId} {base : Class} {e : Exception}

theorem of_descends (howned : r.classes.owns e.cls = true) (hbase : base ∈ e.cls.ancestors) :
    r.Catches σ id base e where
  owned := howned
  descends := Class.isSubclassOf_iff.2 hbase
  caught runner w := run_catchAs_exception id base runner w (Class.isSubclassOf_iff.2 hbase)

theorem grows (h : r.Catches σ id base e) (hsound : r.Sound id) (hg : r.Grows r') : r'.Catches σ id base e where
  owned := decide_eq_true (hsound.get?_grows hg (of_decide_eq_true h.owned))
  descends := h.descends
  caught := h.caught

end Realm.Catches

/-- Where nothing is made up, every exception is caught by the base of the realm that its class is at home in. -/
theorem Occurs.catches {g : Guest σ} {room : Option Nat} {p : Program σ α} {s : σ} {k : Nat}
    (hforges : ForgesNothing g room p s k) {e : Exception} (he : Occurs g room p s k e.toValue) :
    let h := (moments g room p s k).world.host
    e.cls.home < h.realms.length ∧
      (h.realm e.cls.home).Catches σ e.cls.home (h.realm e.cls.home).taxonomy.base e := by
  have hcoherent := coherent_moments hforges
  obtain ⟨hhome, hbase⟩ := hcoherent.proper he
  have hcls : Value.cls e.cls ∈ e.toValue.parts :=
    List.mem_cons_of_mem _ (List.mem_append_left _ (List.mem_map_of_mem (Class.self_mem_ancestors e.cls)))
  exact ⟨hhome, .of_descends (hcoherent.registered (.part he hcls)).2 hbase⟩

/-- A realm can always be started. Once it is, at every moment of every run, its registry, its builtin namespace and
    its table of exceptions have one and the same class under every builtin name, the same as at any later moment, and
    the two tables have nothing else. Every exception that an operation performed for the realm makes, be it a request
    by itself, a failure that is raised or normalised, a description, an access, an instantiation or an import, is what
    the operation raises or returns, unless a class was made up for it. It is of a class that the realm owns and goes on
    to own and that descends from the base of its exceptions, so that the base catches it. Where all code is honest, the
    same holds of every exception there is, wherever it comes from, and so of whatever an operation raises or returns.
    The base catches every bad reference too, as a `NameError`. Any other failure of the host, a repeated definition
    among them, is caught by no class and given back as it is. -/
theorem builtins_agree_and_exceptions_are_caught (g : Guest σ) (room : Option Nat) (p : Program σ α) (s : σ)
    (k : Nat) (id : RealmId) (hstarted : id < (moments g room p s k).world.host.realms.length) :
    let world := (moments g room p s k).world
    let realm j := (moments g room p s j).world.host.realm id
    (∀ number config, ∃ r, Realm.bootstrap number config = .ok r) ∧
    (∀ j ≥ k, ∀ name,
      (name ∈ Builtin.names → ∃ c, c.name = name ∧ (realm k).classes.get? name = some c ∧
        (realm j).classes.get? name = some c ∧ (realm j).builtins.get? name = some (.cls c) ∧
        (realm j).taxonomy.class? name = if name ∈ Builtin.exceptionNames then some c else none) ∧
      (name ∉ Builtin.names → (realm j).builtins.get? name = none ∧ (realm j).taxonomy.class? name = none)) ∧
    ∃ base, (realm k).classes.get? Builtin.baseException = some base ∧
      (∀ {β : Type} (op : Operation σ β) (e : Exception), op.isRegistered world.host = true →
        op.makes? world = some (id, e) →
        (∀ runner, op.Shows (op.program.run runner world).1 e.toValue) ∧ ∀ j ≥ k, (realm j).Catches σ id base e) ∧
      (∀ carried, g.Honest carried → p.Honest carried (fun _ => ⊥) ⊥ → carried s ≤ ⊥ →
        (∀ j ≥ k, ∀ e, Occurs g room p s j e.toValue →
          e.cls.home < (moments g room p s j).world.host.realms.length ∧
          (e.cls.home = id → (realm j).Catches σ id base e)) ∧
        ∀ {β γ : Type} (frames : Frames σ α γ) (op : Operation σ β) (next : β → Program σ γ) (b : β) (w w' : World σ),
          moments g room p s k = ⟨frames.fill (.active (op.program.bind next)), w⟩ →
          op.Within carried (stock g room p s k) → op.program.Ends g (frames.room room) w b w' →
          ∃ j ≥ k, moments g room p s j = ⟨frames.fill (.active (next b)), w'⟩ ∧
            ∀ e, op.Shows b e.toValue → e.cls.home < w'.host.realms.length ∧
              (e.cls.home = id → (realm j).Catches σ id base e)) ∧
      (∀ message runner, ∃ e, (realm k).classes.get? Builtin.nameError = some e.cls ∧
        e.cls.isSubclassOf base = true ∧
        (catchAs id (.host (.reference message)) base).run runner world =
          (.ok e, { world with host := ⟨world.host.realms, world.host.heap.grow⟩ })) ∧
      (∀ failure, (∀ message, failure ≠ .reference message) → ∀ cls runner w,
        (catchAs id (.host failure) cls : Program σ _).run runner w = (.error (.host failure), w)) ∧
      ∀ name cls runner w,
        ((raisedOf id (.duplicateDefinition name)).bind fun r => catchAs id r cls : Program σ _).run runner w =
          (.error (.host (.other (ObjectError.duplicateDefinition name).message)), w) := by
  intro world realm
  have hsound : ∀ j ≥ k, (realm j).Sound id := fun j hj =>
    host_sound_moments g room p s j id (started_moments hj hstarted)
  have hnow := hsound k (Nat.le_refl k)
  have hgrows : ∀ j ≥ k, (realm k).Grows (realm j) := fun j hj => grows_moments hj hstarted
  refine ⟨?_, fun j hj name => ⟨fun hname => ?_, fun hname => ?_⟩, (realm k).taxonomy.base, hnow.base, ?_, ?_, ?_, ?_,
    ?_⟩
  · intro number config
    obtain ⟨r, hboot, -⟩ := Realm.sound_bootstrap number config
    exact ⟨r, hboot⟩
  · obtain ⟨c, hget⟩ := hnow.exists_class hname
    have hlater := hnow.get?_grows (hgrows j hj) hget
    refine ⟨c, ((hnow.wellFormed.named _ _).1 hget).2, hget, hlater, ?_, ?_⟩
    · rw [(hsound j hj).builtins, if_pos hname, hlater]
      rfl
    · rw [(hsound j hj).taxonomy, hlater]
  · rw [(hsound j hj).builtins, (hsound j hj).taxonomy, if_neg hname,
      if_neg fun hexception => hname (Builtin.mem_names_of_mem_exceptionNames hexception)]
    exact ⟨rfl, rfl⟩
  · intro β op e hregistered hmakes
    obtain ⟨howned, hdescends⟩ := Operation.descends_of_makes? hnow hregistered hmakes
    refine ⟨Operation.shows_of_makes? hmakes, fun j hj => ?_⟩
    exact (Realm.Catches.of_descends howned hdescends).grows hnow (hgrows j hj)
  · intro carried hg hp hs
    have hupright : ∀ j, Upright g room p s carried (fun _ => ⊥) j := upright_moments hg hp.draws hs
    have hcatches : ∀ j ≥ k, ∀ e, Occurs g room p s j e.toValue →
        e.cls.home < (moments g room p s j).world.host.realms.length ∧
        (e.cls.home = id → (realm j).Catches σ id (realm k).taxonomy.base e) := by
      intro j hj e he
      obtain ⟨hhome, hcaught⟩ := he.catches (hupright j).forgesNothing
      refine ⟨hhome, ?_⟩
      rintro rfl
      rw [← (hgrows j hj).taxonomy]
      exact hcaught
    refine ⟨hcatches, ?_⟩
    intro β γ frames op next b w w' hmoment hwithin hends
    obtain ⟨j, hj, hend, hoccurs⟩ := Operation.occurs_of_ends hg hp.draws hs hmoment hwithin hends
    refine ⟨j, hj, hend, fun e he => ?_⟩
    have hshown := hcatches j hj e (hoccurs _ he)
    rw [hend] at hshown
    exact hshown
  · intro message runner
    have hname : Builtin.nameError ∈ Builtin.exceptionNames := by decide +kernel
    have hbase := Class.isSubclassOf_iff.2 (hnow.classFor Builtin.nameError).2
    refine ⟨(world.host.newException id Builtin.nameError (.str (HostFailure.reference message).message)).1,
      hnow.get?_classFor hname, hbase, ?_⟩
    exact (run_catchAs_reference id _ runner world message).trans (run_catchAs_exception id _ runner _ hbase)
  · exact fun failure hfailure cls runner w => run_catchAs_host id cls runner w hfailure
  · exact fun name cls runner w => run_catchAs_host id cls runner w nofun

theorem honest_bodiless : bodiless.Honest fun _ => ⊥ where
  call _ _ := .done Stock.ofList_nil_le
  load _ _ := .done Stock.ofList_nil_le

/-- Asks an exception for what it does not have. -/
def askAppError (id : RealmId) : Except Raised Value → Program Unit Unit
  | .error _ => .done ()
  | .ok made => (getAttribute id made "missing").run.bind fun _ => .done ()

def makeAppError : Except ObjectError (RealmId × Class) → Program Unit Unit
  | .error _ => .done ()
  | .ok (id, c) => (instantiate id c []).run.bind (askAppError id)

theorem honest_makeAppError : (defineAppError.bind makeAppError).Honest (fun _ => ⊥) (fun _ => ⊥) ⊥ := by
  refine .perform (.request (.boot {})) _ ⟨List.forall_mem_nil _, List.forall_mem_nil _, trivial⟩ fun started _ => ?_
  cases started with
  | error e => exact .done bot_le
  | ok id =>
    refine .perform (.request .observe) _ ⟨List.forall_mem_nil _, List.forall_mem_nil _, trivial⟩ fun h hcredible => ?_
    have hid : id < h.realms.length := hcredible id (.inr rfl)
    refine .perform (.request (.define id "AppError" ((h.realm id).taxonomy.class? "ValueError") [])) _
      ⟨?_, List.forall_mem_singleton.2 (.inl (.inr rfl)), trivial⟩ fun defined _ => ?_
    · -- The class above is one that the realm was seen to have.
      intro v hv
      simp only [Operation.offers, Request.offers, List.map_nil, List.append_nil] at hv
      obtain ⟨c, hc, rfl⟩ := List.mem_map.1 hv
      exact .inr (Operation.has_tells (.realm hid (.exceptionClass (Option.mem_toList.1 hc))))
    · cases defined with
      | error e => exact .done bot_le
      | ok c =>
        refine .perform (.instantiate id c []) _ ⟨?_, ?_, trivial⟩ fun made _ => ?_
        · exact List.forall_mem_singleton.2 (.inr (Operation.has_tells ⟨c, rfl, rfl⟩))
        · exact List.forall_mem_singleton.2 (.inl (.inl (.inr rfl)))
        · cases made with
          | error r => exact .done bot_le
          | ok v =>
            refine .perform (.getAttribute id v "missing") _ ⟨?_, ?_, trivial⟩ fun _ _ => .done bot_le
            · exact List.forall_mem_singleton.2 (.inr (Operation.has_tells List.mem_cons_self))
            · exact List.forall_mem_singleton.2 (.inl (.inl (.inl (.inr rfl))))

/-- How the parts of that program end, and what is raised in them. -/
theorem ends_makeAppError : ∃ id cls e e' w₁ w₂,
    (defineAppError.Ends bodiless (some 0) ⟨.empty, ()⟩ (.ok (id, cls)) w₁ ∧ id < w₁.host.realms.length ∧
      w₁.host.HasClass cls) ∧
    (Operation.instantiate id cls []).makes? w₁ = some (id, e) ∧
    (instantiate id cls []).run.Ends bodiless (some 0) w₁ (.ok e.toValue) w₂ ∧
    (Operation.getAttribute id e.toValue "missing").makes? w₂ = some (id, e') := by
  let defined := defineAppError.run (bodiless.runner 0) ⟨.empty, ()⟩
  let made (d : RealmId × Class) := (instantiate d.1 d.2 []).run.run (bodiless.runner 0) defined.2
  have hstate : ∃ d ∈ defined.1.toOption, (d.1 < defined.2.host.realms.length ∧
      d.2.home < defined.2.host.realms.length ∧ (defined.2.host.realm d.2.home).classes.owns d.2 = true) ∧
      ∃ e ∈ (Operation.instantiate d.1 d.2 []).makes? defined.2, e.1 = d.1 ∧
        (made d).1.toOption = some e.2.toValue ∧
        ∃ e' ∈ (Operation.getAttribute d.1 e.2.toValue "missing").makes? (made d).2, e'.1 = d.1 := by
    decide +kernel
  obtain ⟨d, hd, ⟨hstarted, hcls⟩, ⟨_, e⟩, he, rfl, hmade, ⟨_, e'⟩, he', rfl⟩ := hstate
  exact ⟨d.1, d.2, e, e', defined.2, (made d).2, ⟨Program.ends_ok_of_run hd, hstarted, hcls⟩, he,
    Program.ends_ok_of_run hmade, he'⟩

/-- The base catches the exceptions of a class that was defined later, and the one that is raised when such an exception
    is asked for what it does not have. The builtin classes are where they were. -/
theorem builtins_agree_and_exceptions_are_caught_appError :
    bodiless.Honest (fun _ => ⊥) ∧ (defineAppError.bind makeAppError).Honest (fun _ => ⊥) (fun _ => ⊥) ⊥ ∧
    let run := moments bodiless (some 0) (defineAppError.bind makeAppError) ()
    ∃ id cls base e e', ∃ i j : Nat, id < (run i).world.host.realms.length ∧
      (run i).thread = .active ((instantiate id cls []).run.bind (askAppError id)) ∧
      (run j).thread = .active ((getAttribute id e.toValue "missing").run.bind fun _ => .done ()) ∧
      (∃ c, ((run i).world.host.realm id).classes.get? "ValueError" = some c ∧
        ((run j).world.host.realm id).builtins.get? "ValueError" = some (.cls c)) ∧
      ((run j).world.host.realm id).classes.get? Builtin.baseException = some base ∧
      (Operation.instantiate id cls []).makes? (run i).world = some (id, e) ∧
      (Operation.getAttribute id e.toValue "missing").makes? (run j).world = some (id, e') ∧
      (catchAs id (.exception e) base).run (bodiless.runner 0) (run j).world = (.ok e, (run j).world) ∧
      (catchAs id (.exception e') base).run (bodiless.runner 0) (run j).world = (.ok e', (run j).world) := by
  refine ⟨honest_bodiless, honest_makeAppError, ?_⟩
  intro run
  obtain ⟨id, cls, e, e', w₁, w₂, ⟨⟨n, hdefined⟩, hstarted, hcls⟩, hmakes, hmade, hmakes'⟩ := ends_makeAppError
  obtain ⟨i, hi⟩ := Moment.iterate_bind makeAppError hdefined
  have hmoment : moments bodiless (some 0) (defineAppError.bind makeAppError) () i =
      ⟨.active ((instantiate id cls []).run.bind (askAppError id)), w₁⟩ := hi
  have hknown : id < (moments bodiless (some 0) (defineAppError.bind makeAppError) () i).world.host.realms.length := by
    rw [hmoment]
    exact hstarted
  have hoccurs : Occurs bodiless (some 0) (defineAppError.bind makeAppError) () i (.cls cls) := by
    refine .held (Nat.le_refl i) ?_
    rw [hmoment]
    exact hcls.holds
  obtain ⟨-, hagree, base, hbase, hmade₁, hhonest, -⟩ := builtins_agree_and_exceptions_are_caught bodiless (some 0)
    (defineAppError.bind makeAppError) () i id hknown
  obtain ⟨-, hresult⟩ := hhonest (fun _ => ⊥) honest_bodiless honest_makeAppError le_rfl
  obtain ⟨j, hij, hj, -⟩ := hresult .here (.instantiate id cls []) (askAppError id) (.ok e.toValue) w₁ w₂ hmoment
    ⟨List.forall_mem_singleton.2 hoccurs, List.forall_mem_singleton.2 hknown, trivial⟩ hmade
  obtain ⟨-, -, base', hbase', hmade₂, -⟩ := builtins_agree_and_exceptions_are_caught bodiless (some 0)
    (defineAppError.bind makeAppError) () j id (started_moments hij hknown)
  have hnames : "ValueError" ∈ Builtin.names ∧ Builtin.baseException ∈ Builtin.names := by decide +kernel
  obtain ⟨c, -, hget, -, hbuiltin, -⟩ := (hagree j hij "ValueError").1 hnames.1
  obtain ⟨b, -, hfirst, hlater, -⟩ := (hagree j hij Builtin.baseException).1 hnames.2
  cases hbase.symm.trans hfirst
  cases hbase'.symm.trans hlater
  have hmakes₁ : (Operation.instantiate id cls []).makes? (run i).world = some (id, e) := by
    simp only [run, hmoment]
    exact hmakes
  have hmakes₂ : (Operation.getAttribute id e.toValue "missing").makes? (run j).world = some (id, e') := by
    simp only [run, hj]
    exact hmakes'
  have hregistered : (Operation.instantiate id cls [] : Operation Unit _).isRegistered (run i).world.host = true := by
    simp only [run, hmoment]
    exact hcls.2
  obtain ⟨-, hcaught⟩ := hmade₁ (.instantiate id cls []) e hregistered hmakes₁
  obtain ⟨-, hcaught'⟩ := hmade₂ (.getAttribute id e.toValue "missing") e' rfl hmakes₂
  exact ⟨id, cls, base, e, e', i, j, hknown, congrArg Moment.thread hmoment, congrArg Moment.thread hj,
    ⟨c, hget, hbuiltin⟩, hbase', hmakes₁, hmakes₂, (hcaught j hij).caught _ _, (hcaught' j (Nat.le_refl j)).caught _ _⟩

end ObjectHost
