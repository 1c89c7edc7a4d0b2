-- SUMMARY: Imports of recipes come to what visits come to, whatever was imported before.
import Mathlib.Data.List.Forall2
import ObjectHost.Proofs.Import.Loading
import ObjectHost.Proofs.Machine.Operation

/-!
# Imports in any order

Taking a module from the cache is no different from loading it again, since the
cache only holds what can be loaded. An import therefore comes to what a visit
without a cache comes to, and what came before it has no say in that.
-/

namespace ObjectHost

variable {σ α : Type}

/-! ## Simple programs -/

section

variable {g : Guest σ} {room : Option Nat} {w : World σ}

/-- A fault ends in its symptom, and no realm is touched. -/
theorem Fault.ends_task (fault : Fault) (id : RealmId) (w : World σ) :
    ∃ e w', (fault.task id : Task σ α).run.Ends g room w (.error e) w' ∧
      e.symptom = fault.symptom (w.host.realm id).taxonomy ∧ w'.host.realms = w.host.realms := by
  cases fault with
  | raise name message => exact ⟨_, _, .of_step rfl (.done _ _), rfl, rfl⟩
  | throw r => exact ⟨r, w, .done _ _, rfl, rfl⟩

theorem Recipe.importAll_cons_run (ctx : Context) (step : ImportStep) (steps : List ImportStep) :
    (importAll ctx (step :: steps) : Task σ Unit).run =
      (ctx.importModule step.requested : Task σ Module).run.bind fun r =>
        match r with
        | .ok _ => (importAll ctx steps : Task σ Unit).run
        | .error e => if step.swallows e then (importAll ctx steps : Task σ Unit).run else .done (.error e) :=
  Program.bind_assoc _ _ _

theorem Recipe.body_run (r : Recipe) (ctx : Context) :
    (r.body ctx : Task σ Module).run =
      (importAll ctx r.imports : Task σ Unit).run.bind fun
        | .error e => .done (.error e)
        | .ok _ =>
          match r.fault? with
          | some fault => (fault.task ctx.realm : Task σ Module).run
          | none => (ctx.newModule : Program σ Module).bind fun m => .done (.ok m) := by
  unfold body
  change Program.bind _ _ = _
  congr 1
  funext result
  cases result with
  | error e => rfl
  | ok _ => cases r.fault? <;> rfl

end

/-! ## Imports and visits -/

/-- What was asked for in `w` came to what the visit came to, in `w'`. -/
def Agrees (G : ImportGraph) (id : RealmId) (base : Realm) (path : List String) (w : World σ)
    (v : ImportGraph.Visit) (r : Except Raised Module) (w' : World σ) : Prop :=
  Advances G id base path w v.2 w' ∧ outcome r = v.1.mapError (Fault.symptom base.taxonomy)

/-- While the names of `path` are loading, every load comes to what a visit comes to. -/
def LoadsAgree (σ : Type) (G : ImportGraph) (id : RealmId) (base : Realm) (path : List String) : Prop :=
  ∀ (w : World σ) (ctx : Context), ctx.realm = id → LoadState G id base path w →
    ∃ r w', (Program.send (.load ctx)).Ends (recipeGuest G.plan) none w r w' ∧
      Agrees G id base path w (G.visit path ctx.fqName) r w'

section

variable {G : ImportGraph} {id : RealmId} {base : Realm} {path : List String} {w : World σ}

theorem LoadsAgree.ends_import (hload : LoadsAgree σ G id base path) (hbase : base.factories = G.factories)
    (hw : LoadState G id base path w) (requested caller : String) :
    ∃ r w', (importModule id requested caller).run.Ends (recipeGuest G.plan) none w r w' ∧
      Agrees G id base path w (G.bring (G.visit path) caller requested) r w' := by
  have hresolve : (w.host.realm id).resolve? requested caller =
      Name.resolve? G.factories.contains requested caller := by
    rw [hw.realm, ← hbase]
    rfl
  have htaxonomy : (w.host.realm id).taxonomy = base.taxonomy := by rw [hw.realm]
  rw [importModule_run]
  cases hname : Name.resolve? G.factories.contains requested caller with
  | none =>
    obtain ⟨e, w', hends, hsymptom, hrealms⟩ := (Fault.notFound requested).ends_task id w
    refine ⟨.error e, w', .observe ?_, ?_⟩
    · simp only [hresolve, hname]
      exact hends
    · simp only [ImportGraph.bring, ImportGraph.target?, hname, Option.map_none]
      exact ⟨hw.advances hrealms, congrArg Except.error (htaxonomy ▸ hsymptom)⟩
  | some resolution =>
    obtain ⟨r, w', hends, hagrees⟩ := hload w ⟨id, resolution.name, resolution.name⟩ rfl hw
    refine ⟨r, w', .observe ?_, ?_⟩
    · simp only [hresolve, hname]
      exact hends
    · simp only [ImportGraph.bring, ImportGraph.target?, hname, Option.map_some]
      exact hagrees

/-- The imports of a recipe go as far as the visit goes. -/
theorem LoadsAgree.ends_importAll (hload : LoadsAgree σ G id base path) (hbase : base.factories = G.factories)
    (hw : LoadState G id base path w) {ctx : Context} (hctx : ctx.realm = id) {steps : List ImportStep}
    (hsteps : ∀ step ∈ steps, ∀ e, step.swallows e = false) :
    ∃ r w', (Recipe.importAll ctx steps).run.Ends (recipeGuest G.plan) none w r w' ∧
      Advances G id base path w (G.follow (G.visit path) ctx.fqName steps).2 w' ∧
      match (G.follow (G.visit path) ctx.fqName steps).1 with
      | none => r = .ok ()
      | some fault => ∃ e, r = .error e ∧ e.symptom = fault.symptom base.taxonomy := by
  induction steps generalizing w with
  | nil => exact ⟨.ok (), w, .done _ _, hw.advances rfl, rfl⟩
  | cons step steps ih =>
    obtain ⟨r, w₁, hends, hadvances, houtcome⟩ := hload.ends_import hbase hw step.requested ctx.fqName
    rw [Recipe.importAll_cons_run, Context.importModule, hctx]
    simp only [ImportGraph.follow]
    rcases hbring : G.bring (G.visit path) ctx.fqName step.requested with ⟨fault | name, made⟩
    · rw [hbring] at hadvances houtcome
      cases r with
      | ok m => cases houtcome
      | error e =>
        refine ⟨.error e, w₁, hends.bind ?_, hadvances, e, rfl, Except.error.inj houtcome⟩
        simp only [hsteps step List.mem_cons_self e, Bool.false_eq_true, if_false]
        exact .done _ _
    · rw [hbring] at hadvances houtcome
      cases r with
      | error e => cases houtcome
      | ok m =>
        obtain ⟨r, w', hrest, hmore, hresult⟩ :=
          ih hadvances.state fun step hstep => hsteps step (List.mem_cons_of_mem _ hstep)
        exact ⟨r, w', hends.bind hrest, hadvances.trans hmore, hresult⟩

/-! ## Loads and visits -/

/-- The cache answers as a visit would. -/
theorem LoadState.ends_cached {ctx : Context} (hw : LoadState G ctx.realm base path w) {m : Module}
    (hcached : (w.host.realm ctx.realm).loader.cache.get? ctx.fqName = some m) :
    ∃ r w', (Program.send (.load ctx)).Ends (recipeGuest G.plan) none w r w' ∧
      Agrees G ctx.realm base path w (G.visit path ctx.fqName) r w' := by
  obtain ⟨hname, hload, hclosed⟩ := hw.cached ctx.fqName m hcached
  have hok : (G.visit path ctx.fqName).1 = .ok ctx.fqName :=
    ImportGraph.visit_eq_ok_iff.2 ⟨rfl, hload, fun x hx => hw.not_mem_of_cached (hclosed x hx)⟩
  refine ⟨.ok m, w, .load_answer (World.start_eq_inl_ok.2 ⟨hcached, rfl⟩), ⟨hw, fun x => ?_⟩, ?_⟩
  · exact (or_iff_left_of_imp fun hx => hclosed x (ImportGraph.reaches_of_mem_visit hx)).symm
  · rw [hok]
    exact congrArg Except.ok hname

/-- A load that is refused at once agrees with a visit that is. -/
theorem LoadState.ends_refused {ctx : Context} (hw : LoadState G ctx.realm base path w) {message : String}
    (hstart : w.start .caching ctx = .inl (w.raise ctx.realm Builtin.importError message))
    (hvisit : G.visit path ctx.fqName = (.error (.raise Builtin.importError (.str message)), [])) :
    ∃ r w', (Program.send (.load ctx)).Ends (recipeGuest G.plan) none w r w' ∧
      Agrees G ctx.realm base path w (G.visit path ctx.fqName) r w' := by
  have htaxonomy : (w.host.realm ctx.realm).taxonomy = base.taxonomy := by rw [hw.realm]
  refine ⟨_, _, .load_answer hstart, ?_⟩
  rw [hvisit]
  refine ⟨hw.advances rfl, congrArg Except.error ?_⟩
  simp only [Fault.symptom, ← htaxonomy]
  rfl

/-- A factory run that fails leaves what its imports completed. -/
theorem Advances.close_error {ctx : Context} {made : List String} {w₁ w₂ : World σ}
    (h : Advances G ctx.realm base (ctx.fqName :: path) w₁ made w₂) (hpath : ctx.fqName ∉ path)
    (hsame : ∀ x, w₁.Cached ctx.realm x ↔ w.Cached ctx.realm x) (e : Raised) :
    Advances G ctx.realm base path w made (w₂.closed .caching ctx (.error e)) := by
  have hclose := h.state.closed_error hpath e
  refine ⟨hclose.state, fun x => ?_⟩
  rw [hclose.cached, h.cached, hsame]
  simp

/-- A factory run that succeeds adds its own name. -/
theorem Advances.close_ok {ctx : Context} {made : List String} {w₁ w₂ : World σ}
    (h : Advances G ctx.realm base (ctx.fqName :: path) w₁ made w₂) (hpath : ctx.fqName ∉ path)
    (hsame : ∀ x, w₁.Cached ctx.realm x ↔ w.Cached ctx.realm x) {m : Module} (hm : m.fqName = ctx.fqName)
    (hvisit : G.visit path ctx.fqName = (.ok ctx.fqName, ctx.fqName :: made)) :
    Advances G ctx.realm base path w (ctx.fqName :: made) (w₂.closed .caching ctx (.ok m)) := by
  have hself : ctx.fqName ∈ (G.visit path ctx.fqName).2 := by
    rw [hvisit]
    exact List.mem_cons_self
  obtain ⟨hload, hreached⟩ := ImportGraph.loadable_of_mem_visit hself
  have hclose := h.state.closed_ok hpath hm hload fun x hx => by
    have hmem := hreached x hx
    rw [hvisit] at hmem
    exact (List.mem_cons.1 hmem).imp_right fun hx => (h.cached x).2 (.inr hx)
  refine ⟨hclose.state, fun x => ?_⟩
  rw [hclose.cached, h.cached, hsame, List.mem_singleton, List.mem_cons, or_assoc, or_comm (a := x ∈ made)]

/-- The body of a recipe ends with the fault of its imports, or else with its own, or else with a new module. -/
theorem LoadsAgree.ends_body (hload : LoadsAgree σ G id base path) (hbase : base.factories = G.factories)
    (hw : LoadState G id base path w) {ctx : Context} (hctx : ctx.realm = id) {recipe : Recipe}
    (hrecipe : recipe.Propagates) :
    ∃ r w', (recipe.body ctx).run.Ends (recipeGuest G.plan) none w r w' ∧
      Advances G id base path w (G.follow (G.visit path) ctx.fqName recipe.imports).2 w' ∧
      match (G.follow (G.visit path) ctx.fqName recipe.imports).1.or recipe.fault? with
      | some fault => ∃ e, r = .error e ∧ e.symptom = fault.symptom base.taxonomy
      | none => ∃ m, r = .ok m ∧ m.fqName = ctx.fqName := by
  obtain ⟨r, w₁, himports, hadvances, hresult⟩ := hload.ends_importAll hbase hw hctx hrecipe
  -- What follows the imports only makes objects.
  have hafter : ∀ {w'}, w'.host.realms = w₁.host.realms →
      Advances G id base path w (G.follow (G.visit path) ctx.fqName recipe.imports).2 w' := by
    intro w' hrealms
    have hmade := hadvances.trans (hadvances.state.advances hrealms)
    rwa [List.append_nil] at hmade
  rw [Recipe.body_run]
  cases hfollow : (G.follow (G.visit path) ctx.fqName recipe.imports).1 with
  | some fault =>
    rw [hfollow] at hresult
    obtain ⟨e, rfl, hsymptom⟩ := hresult
    exact ⟨.error e, w₁, himports.bind (.done _ _), hadvances, e, rfl, hsymptom⟩
  | none =>
    rw [hfollow] at hresult
    subst hresult
    rw [Option.none_or]
    cases recipe.fault? with
    | some fault =>
      obtain ⟨e, w', hends, hsymptom, hrealms⟩ := fault.ends_task ctx.realm w₁
      have htaxonomy : (w₁.host.realm ctx.realm).taxonomy = base.taxonomy := by rw [hctx, hadvances.state.realm]
      exact ⟨.error e, w', himports.bind hends, hafter hrealms, e, rfl, htaxonomy ▸ hsymptom⟩
    | none =>
      obtain ⟨m, w', hends, hm, hrealms⟩ := ctx.ends_newModule w₁
      exact ⟨.ok m, w', himports.bind (hends.bind (.done _ _)), hafter hrealms, m, rfl, hm⟩

/-- Running the factory of a new name agrees with visiting it, if the loads inside of the run agree. -/
theorem LoadsAgree.ends_factory {ctx : Context} (hload : LoadsAgree σ G ctx.realm base (ctx.fqName :: path))
    (hbase : base.factories = G.factories) (hw : LoadState G ctx.realm base path w)
    (hnone : (w.host.realm ctx.realm).loader.cache.get? ctx.fqName = none) (hpath : ctx.fqName ∉ path)
    {code : Code} (hcode : G.factories.get? ctx.fqName = some code) (hplan : (G.plan code).Propagates) :
    ∃ r w', (Program.send (.load ctx)).Ends (recipeGuest G.plan) none w r w' ∧
      Agrees G ctx.realm base path w (G.visit path ctx.fqName) r w' := by
  have hrecipe : G.recipe? ctx.fqName = some (G.plan code) := by simp [ImportGraph.recipe?, hcode]
  have hstart : w.start .caching ctx = .inr code := by
    refine World.start_eq_inr.2 ⟨?_, fun _ => ⟨hnone, fun hloading => ?_⟩⟩
    · rw [hw.realm, ← hcode, ← hbase]
    · rw [Loader.isLoading_eq_isSome, hw.loading, if_neg hpath] at hloading
      cases hloading
  have hbody : (recipeGuest G.plan : Guest σ).loadBody none code ctx = ((G.plan code).body ctx).run := by
    simp [Guest.loadBody, recipeGuest]
  obtain ⟨hopened, hsame⟩ := hw.opened hpath hnone
  obtain ⟨r, w₁, hrun, hadvances, hresult⟩ := hload.ends_body hbase hopened rfl hplan
  have hvisit := ImportGraph.visit_of_not_mem hrecipe hpath
  refine ⟨r, w₁.closed .caching ctx r, .load_factory hstart (hbody ▸ hrun), ?_⟩
  cases hfault : (G.follow (G.visit (ctx.fqName :: path)) ctx.fqName (G.plan code).imports).1.or
      (G.plan code).fault? with
  | some fault =>
    rw [hfault] at hvisit hresult
    obtain ⟨e, rfl, hsymptom⟩ := hresult
    rw [hvisit]
    exact ⟨hadvances.close_error hpath hsame e, congrArg Except.error hsymptom⟩
  | none =>
    rw [hfault] at hvisit hresult
    obtain ⟨m, rfl, hm⟩ := hresult
    rw [hvisit]
    exact ⟨hadvances.close_ok hpath hsame hm hvisit, congrArg Except.ok hm⟩

/-- Where cycles fail and recipes propagate, every load comes to what a visit comes to. -/
theorem loadsAgree (hbase : base.factories = G.factories) (hpolicy : base.config.cycles = .failFast)
    (hplan : ∀ name code, G.factories.get? name = some code → (G.plan code).Propagates) (path : List String) :
    LoadsAgree σ G id base path := by
  -- Inside of a factory run there is one free name less.
  induction hfree : G.free path using Nat.strongRecOn generalizing path with
  | ind n ih =>
    subst hfree
    rintro w ctx rfl hw
    have hfactories : (w.host.realm ctx.realm).factories = G.factories := by
      rw [hw.realm]
      exact hbase
    cases hcached : (w.host.realm ctx.realm).loader.cache.get? ctx.fqName with
    | some m => exact hw.ends_cached hcached
    | none =>
      cases hcode : G.factories.get? ctx.fqName with
      | none =>
        refine hw.ends_refused ?_ (ImportGraph.visit_of_unknown (by simp [ImportGraph.recipe?, hcode]))
        simp only [World.start, hcached, hfactories, hcode]
        rfl
      | some code =>
        have hrecipe : G.recipe? ctx.fqName = some (G.plan code) := by simp [ImportGraph.recipe?, hcode]
        by_cases hpath : ctx.fqName ∈ path
        · refine hw.ends_refused ?_ (ImportGraph.visit_of_mem hrecipe hpath)
          have hloading : (w.host.realm ctx.realm).loader.isLoading ctx.fqName = true := by
            rw [Loader.isLoading_eq_isSome, hw.loading, if_pos hpath]
            rfl
          have hcycles : (w.host.realm ctx.realm).config.cycles = .failFast := by
            rw [hw.realm]
            exact hpolicy
          simp only [World.start, hcached, hfactories, hcode, hloading, hcycles, decide_true, Bool.and_self, if_true]
        · have hinside := ih _ (ImportGraph.free_cons_lt hrecipe hpath) (ctx.fqName :: path) rfl
          exact hinside.ends_factory hbase hw hcached hpath hcode (hplan _ _ hcode)

/-! ## Sequences of imports -/

/-- What each of the imports completes by itself is cached in the end, and each comes to what it comes to by
    itself. -/
theorem LoadsAgree.ends_importEach (hload : LoadsAgree σ G id base []) (hbase : base.factories = G.factories)
    (hw : LoadState G id base [] w) (requests : List (String × String)) :
    ∃ results w', (importEach id requests).Ends (recipeGuest G.plan) none w results w' ∧
      Advances G id base [] w (requests.flatMap fun q => (G.bring (G.visit []) q.2 q.1).2) w' ∧
      List.Forall₂ (fun q r => outcome r =
        (G.bring (G.visit []) q.2 q.1).1.mapError (Fault.symptom base.taxonomy)) requests results := by
  induction requests generalizing w with
  | nil => exact ⟨[], w, .done _ _, hw.advances rfl, .nil⟩
  | cons q requests ih =>
    obtain ⟨r, w₁, hfirst, hadvances, houtcome⟩ := hload.ends_import hbase hw q.1 q.2
    obtain ⟨results, w', hrest, hmore, houtcomes⟩ := ih hadvances.state
    refine ⟨r :: results, w', ?_, ?_, .cons houtcome houtcomes⟩
    · exact hfirst.bind (hrest.bind (.done _ _))
    · rw [List.flatMap_cons]
      exact hadvances.trans hmore

end

/-- Before the first import nothing is loading and nothing is cached. -/
theorem LoadState.initial (G : ImportGraph) {id : RealmId} {w : World σ}
    (hpolicy : (w.host.realm id).config.cycles = .failFast)
    (hcache : (w.host.realm id).loader.cache = ∅) (hloading : (w.host.realm id).loader.loading = ∅) :
    LoadState G id (w.host.realm id) [] w := by
  refine ⟨Host.lt_length_of_failFast hpolicy, rfl, ?_, ?_, ?_⟩
  · intro name
    rw [hloading]
    rfl
  · intro name hmem
    cases hmem
  · intro name m hm
    rw [hcache] at hm
    cases hm

/-- Where cycles fail and nothing is cached at first, let every factory make a fixed list of imports, fail if one of
    them fails, and else make its module or fail in a fixed way. Then every sequence of imports comes to an end. Each
    of them has the outcome that it would have by itself, and it succeeds exactly if the name is resolved and neither
    an unresolved import nor a failing factory nor a cycle can be reached. Which names are cached in the end only
    depends on which imports were made. -/
theorem imports_independent_of_order (plan : Code → Recipe) (id : RealmId) (w : World σ)
    (hplan : ∀ name code, (w.host.realm id).factories.get? name = some code → (plan code).Propagates)
    (hpolicy : (w.host.realm id).config.cycles = .failFast)
    (hcache : (w.host.realm id).loader.cache = ∅) (hloading : (w.host.realm id).loader.loading = ∅) :
    let g : Guest σ := recipeGuest plan
    let G : ImportGraph := ⟨(w.host.realm id).factories, plan⟩
    (∀ requests : List (String × String), ∃ results w', (importEach id requests).Yields g w results w' ∧
      List.Forall₂ (fun q r =>
        (∃ alone w₁, (importModule id q.1 q.2).run.Yields g w alone w₁ ∧ outcome r = outcome alone) ∧
        ∀ name, outcome r = .ok name ↔ G.target? q.2 q.1 = some name ∧ G.Loadable name) requests results) ∧
    (∀ requests requests' results results' w₁ w₂, (∀ q, q ∈ requests ↔ q ∈ requests') →
      (importEach id requests).Yields g w results w₁ → (importEach id requests').Yields g w results' w₂ →
      ∀ name, w₁.Cached id name ↔ w₂.Cached id name) := by
  intro g G
  have hw := LoadState.initial G hpolicy hcache hloading
  have hload : LoadsAgree σ G id (w.host.realm id) [] := loadsAgree rfl hpolicy hplan []
  refine ⟨?_, ?_⟩
  · intro requests
    obtain ⟨results, w', hends, -, houtcomes⟩ := hload.ends_importEach rfl hw requests
    refine ⟨results, w', hends.yields, houtcomes.imp fun q r houtcome => ⟨?_, ?_⟩⟩
    · obtain ⟨alone, w₁, halone, -, houtcome'⟩ := hload.ends_import rfl hw q.1 q.2
      exact ⟨alone, w₁, halone.yields, houtcome.trans houtcome'.symm⟩
    · intro name
      rw [houtcome]
      exact ImportGraph.bring_eq_ok_iff
  · intro requests requests' results results' w₁ w₂ hsame h₁ h₂ name
    have hcached : ∀ {requests results w'}, (importEach id requests).Yields g w results w' →
        (w'.Cached id name ↔ w.Cached id name ∨ ∃ q ∈ requests, name ∈ (G.bring (G.visit []) q.2 q.1).2) := by
      intro requests results w' h
      obtain ⟨results', w'', hends, hadvances, -⟩ := hload.ends_importEach rfl hw requests
      obtain ⟨-, rfl⟩ := hends.yields.unique h
      rw [hadvances.cached, List.mem_flatMap]
    rw [hcached h₁, hcached h₂]
    simp only [hsame]

/-- Recipes for four modules: `a` imports `b` and then fails, `c` and `d` import each other, and `b` does neither. -/
def samplePlan (code : Code) : Recipe :=
  match code.body with
  | 0 => ⟨[⟨"b", fun _ => false⟩], some (.raise Builtin.typeError (.str "a fails"))⟩
  | 1 => ⟨[], none⟩
  | 2 => ⟨[⟨"b", fun _ => false⟩, ⟨"d", fun _ => false⟩], none⟩
  | _ => ⟨[⟨"c", fun _ => false⟩], none⟩

def sampleWorld : World Unit :=
  let booted := (Host.empty.boot ⟨Builtin.defaultQualifier, .failFast⟩).2
  let names := ["a", "b", "c", "d"]
  ⟨names.zipIdx.foldl (fun h entry => (h.register 0 entry.1 ⟨entry.2, 0⟩).2) booted, ()⟩

/-- Importing `c` and then `a` caches what importing `a` twice and then `c` does. -/
theorem imports_independent_of_order_sample :
    ∃ results results' w₁ w₂,
      (importEach 0 [("c", ""), ("a", "")]).Yields (recipeGuest samplePlan) sampleWorld results w₁ ∧
      (importEach 0 [("a", ""), ("a", ""), ("c", "")]).Yields (recipeGuest samplePlan) sampleWorld results' w₂ ∧
      ∀ name, w₁.Cached 0 name ↔ w₂.Cached 0 name := by
  have hplan : ∀ name code, (sampleWorld.host.realm 0).factories.get? name = some code →
      (samplePlan code).Propagates := by
    intro name code _ step hstep e
    unfold samplePlan at hstep
    split at hstep <;> simp at hstep
    · rw [hstep]
    · rcases hstep with rfl | rfl <;> rfl
    · rw [hstep]
  have hstate : (sampleWorld.host.realm 0).config.cycles = .failFast ∧
      (sampleWorld.host.realm 0).loader.cache = ∅ ∧ (sampleWorld.host.realm 0).loader.loading = ∅ := by
    decide +kernel
  obtain ⟨hpolicy, hcache, hloading⟩ := hstate
  obtain ⟨hends, hcached⟩ := imports_independent_of_order samplePlan 0 sampleWorld hplan hpolicy hcache hloading
  obtain ⟨results, w₁, h₁, -⟩ := hends [("c", ""), ("a", "")]
  obtain ⟨results', w₂, h₂, -⟩ := hends [("a", ""), ("a", ""), ("c", "")]
  refine ⟨results, results', w₁, w₂, h₁, h₂, hcached _ _ _ _ w₁ w₂ (fun q => ?_) h₁ h₂⟩
  simp only [List.mem_cons, List.not_mem_nil, or_false]
  rw [← or_assoc, or_self, or_comm]

end ObjectHost
