-- SUMMARY: Imports come to an end where cycles fail, however the modules import each other.
import ObjectHost.Proofs.Import.Order

/-!
# Imports come to an end

A program that does no more than import makes finitely many requests of its own,
so only the bodies it enters could keep it from ending. Where cycles fail, a
factory is entered only while its name is not loading, and its name is loading
until it is left. With every body that is entered there is therefore one name
less whose factory could still be entered.
-/

namespace ObjectHost

variable {σ α β : Type}

/-! ## Programs that only import -/

/-- The request enters no body but to load a module of the realm `id`, and leaves realms and factories alone. -/
def Request.Importing (id : RealmId) : Request σ → Prop
  | .load ctx => ctx.realm = id
  | .register .. => False
  | .boot _ => False
  | .call .. => False
  | .enter _ => False
  | _ => True

def Program.Importing (id : RealmId) : Program σ α → Prop
  | .done _ => True
  | .ask request next => request.Importing id ∧ ∀ reply, (next reply).Importing id

theorem Program.Importing.bind {id : RealmId} {p : Program σ α} {f : α → Program σ β} (hp : p.Importing id)
    (hf : ∀ a, (f a).Importing id) : (p.bind f).Importing id := by
  induction p with
  | done a => exact hf a
  | ask request next ih => exact ⟨hp.1, fun reply => ih reply (hp.2 reply)⟩

theorem Fault.importing_task (fault : Fault) (id : RealmId) : (fault.task id : Task σ α).run.Importing id := by
  cases fault with
  | raise name message => exact ⟨trivial, fun _ => trivial⟩
  | throw r => trivial

theorem importing_importModule (id : RealmId) (requested caller : String) :
    (importModule id requested caller : Task σ Module).run.Importing id := by
  rw [importModule_run]
  refine ⟨trivial, fun h => ?_⟩
  dsimp only
  cases (h.realm id).resolve? requested caller with
  | none => exact (Fault.notFound requested).importing_task id
  | some resolution => exact ⟨rfl, fun _ => trivial⟩

namespace Program

/-- The program makes the imports of the list, one after another, on behalf of the module being made. After a failure
    it goes on or fails with the same, as it likes, and in the end it makes the module or fails. What it likes may
    depend on a state of its own. -/
inductive Follows (ctx : Context) : List String → Program σ (Except Raised Module) → Prop where
  | make : Follows ctx [] (ctx.newModule.bind fun m => .done (.ok m))
  | fail (fault : Fault) : Follows ctx [] (fault.task ctx.realm : Task σ Module).run
  | consult {imports : List String} {change : σ → σ} {next : σ → Program σ (Except Raised Module)}
      (hnext : ∀ s, Follows ctx imports (next s)) : Follows ctx imports (.ask (.guest change) next)
  | bring {requested : String} {imports : List String} (swallows : Raised → Prop)
      {next : Except Raised Module → Program σ (Except Raised Module)}
      (hok : ∀ m, Follows ctx imports (next (.ok m)))
      (hswallow : ∀ e, swallows e → Follows ctx imports (next (.error e)))
      (hpropagate : ∀ e, ¬ swallows e → next (.error e) = .done (.error e)) :
      Follows ctx (requested :: imports) ((ctx.importModule requested : Task σ Module).run.bind next)

theorem Follows.importing {ctx : Context} {imports : List String} {p : Program σ (Except Raised Module)}
    (h : p.Follows ctx imports) : p.Importing ctx.realm := by
  induction h with
  | make => exact ⟨trivial, fun _ => ⟨trivial, fun _ => trivial⟩⟩
  | fail fault => exact fault.importing_task ctx.realm
  | consult hnext ih => exact ⟨trivial, ih⟩
  | bring swallows hok hswallow hpropagate ihok ihswallow =>
    refine (importing_importModule ctx.realm _ ctx.fqName).bind fun r => ?_
    cases r with
    | ok m => exact ihok m
    | error e =>
      by_cases he : swallows e
      · exact ihswallow e he
      · rw [hpropagate e he]
        trivial

end Program

/-- A recipe makes the imports of its list. -/
theorem Recipe.follows_body (recipe : Recipe) (ctx : Context) :
    (recipe.body ctx : Task σ Module).run.Follows ctx (recipe.imports.map ImportStep.requested) := by
  rw [body_run]
  induction recipe.imports with
  | nil =>
    cases recipe.fault? with
    | none => exact .make
    | some fault => exact .fail fault
  | cons step steps ih =>
    rw [importAll_cons_run, Program.bind_assoc]
    refine .bring (fun e => step.swallows e = true) (fun m => ih) (fun e he => ?_) fun e he => ?_
    · simp only [he, if_true]
      exact ih
    · simp only [he, Bool.false_eq_true, if_false]
      rfl

/-! ## What importing leaves as it was -/

/-- From `w` to `w'`, the realm `id` kept its policy and its factories, and the same names are loading. -/
structure Keeps (id : RealmId) (w w' : World σ) : Prop where
  cycles : (w'.host.realm id).config.cycles = (w.host.realm id).config.cycles
  factories : (w'.host.realm id).factories = (w.host.realm id).factories
  loading : ∀ name, (w'.host.realm id).loader.loading.get? name = (w.host.realm id).loader.loading.get? name

namespace Keeps

variable {id : RealmId} {w w₁ w' : World σ}

theorem refl (w : World σ) : Keeps id w w := ⟨rfl, rfl, fun _ => rfl⟩

theorem trans (h₁ : Keeps id w w₁) (h₂ : Keeps id w₁ w') : Keeps id w w' :=
  ⟨h₂.cycles.trans h₁.cycles, h₂.factories.trans h₁.factories,
    fun name => (h₂.loading name).trans (h₁.loading name)⟩

theorem of_moduleState (h : w'.host.moduleState [] id = w.host.moduleState [] id) : Keeps id w w' := by
  refine ⟨congrArg ModuleState.cycles h, congrArg ModuleState.factories h, fun name => ?_⟩
  exact congrArg (fun s => s.loader.loading.get? name) h

end Keeps

/-- How many registered names of the realm are not loading. -/
def Realm.free (r : Realm) : Nat := (r.factories.keys.filter fun name => !r.loader.isLoading name).length

theorem Keeps.free {id : RealmId} {w w' : World σ} (h : Keeps id w w') :
    (w'.host.realm id).free = (w.host.realm id).free := by
  simp only [Realm.free, Loader.isLoading_eq_isSome, h.factories, h.loading]

section Factory

variable {ctx : Context} {w w₁ : World σ}

/-- Entering a factory leaves one free name less. -/
theorem World.free_opened_lt {factory : Code} (hstarted : ctx.realm < w.host.realms.length)
    (hreg : (w.host.realm ctx.realm).factories.get? ctx.fqName = some factory)
    (hnot : (w.host.realm ctx.realm).loader.isLoading ctx.fqName = false) :
    ((w.opened .caching ctx).host.realm ctx.realm).free < (w.host.realm ctx.realm).free := by
  have hloading : ∀ name, ((w.host.realm ctx.realm).loader.opened .caching ctx.fqName).isLoading name =
      (decide (name = ctx.fqName) || (w.host.realm ctx.realm).loader.isLoading name) := by
    intro name
    rw [Loader.isLoading_eq_isSome, Loader.loading_opened]
    by_cases hname : name = ctx.fqName <;> simp [hname, Loader.isLoading_eq_isSome]
  unfold World.opened Realm.free
  rw [World.realm_modifyLoader hstarted]
  simp only [hloading, Bool.not_or]
  rw [← List.filter_filter]
  refine List.length_filter_lt_length_iff_exists.2 ⟨ctx.fqName, List.mem_filter.2 ⟨?_, ?_⟩, by simp⟩
  · refine (Table.mem_keys_iff _ _).2 ?_
    simp [Table.contains, hreg]
  · simp [hnot]

/-- What a factory run changed about its own name when it began, it takes back when it ends. -/
theorem Keeps.closed (hstarted : ctx.realm < w.host.realms.length) (hstarted₁ : ctx.realm < w₁.host.realms.length)
    (hnot : (w.host.realm ctx.realm).loader.isLoading ctx.fqName = false)
    (h : Keeps ctx.realm (w.opened .caching ctx) w₁) (r : Except Raised Module) :
    Keeps ctx.realm w (w₁.closed .caching ctx r) := by
  have hopened : (w.opened .caching ctx).host.realm ctx.realm = _ := World.realm_modifyLoader hstarted _
  have hclosed : (w₁.closed .caching ctx r).host.realm ctx.realm = _ := World.realm_modifyLoader hstarted₁ _
  have hbefore : (w.host.realm ctx.realm).loader.loading.get? ctx.fqName = none := by
    rwa [Loader.isLoading_eq_isSome, Option.isSome_eq_false_iff, Option.isNone_iff_eq_none] at hnot
  have hinside : ∀ name, (w₁.host.realm ctx.realm).loader.loading.get? name =
      if name = ctx.fqName then some 1 else (w.host.realm ctx.realm).loader.loading.get? name := by
    intro name
    rw [h.loading, hopened]
    simp only [Loader.loading_opened, true_and, Loader.depth, hbefore, Option.getD_none, Nat.zero_add]
  refine ⟨?_, ?_, fun name => ?_⟩
  · have hcycles := h.cycles
    rw [hopened] at hcycles
    rw [hclosed]
    exact hcycles
  · have hfactories := h.factories
    rw [hopened] at hfactories
    rw [hclosed]
    exact hfactories
  · rw [hclosed]
    simp only [Loader.loading_closed, true_and, Loader.depth, hinside, if_true, Option.getD_some]
    by_cases hname : name = ctx.fqName
    · simp [hname, hbefore]
    · simp [hname]

end Factory

/-! ## Termination -/

/-- Cycles fail in the realm `id`, and its factories only import. -/
structure Confined (g : Guest σ) (id : RealmId) (w : World σ) : Prop where
  cycles : (w.host.realm id).config.cycles = .failFast
  factories : ∀ name code, (w.host.realm id).factories.get? name = some code → ∀ ctx, ctx.realm = id →
    (g.load code ctx).run.Importing id

theorem Confined.keeps {g : Guest σ} {id : RealmId} {w w' : World σ} (hw : Confined g id w) (h : Keeps id w w') :
    Confined g id w' := by
  refine ⟨h.cycles.trans hw.cycles, ?_⟩
  rw [h.factories]
  exact hw.factories

/-- There is room for `n` bodies, one inside of the other. -/
def Fits (n : Nat) (room : Option Nat) : Prop := ∀ levels, room = some levels → n ≤ levels

/-- The program ends, and leaves the realm as it was, wherever there is room for as many bodies as there are free
    names. -/
def EndsConfined (g : Guest σ) (id : RealmId) (p : Program σ α) (w : World σ) : Prop :=
  ∃ a w', Keeps id w w' ∧ ∀ room, Fits (w.host.realm id).free room → p.Ends g room w a w'

section

variable {g : Guest σ} {id : RealmId} {w : World σ}

theorem EndsConfined.ask {request : Request σ} {next : request.Reply → Program σ α}
    (hsend : EndsConfined g id (.send request) w)
    (hnext : ∀ reply w₁, Keeps id w w₁ → EndsConfined g id (next reply) w₁) :
    EndsConfined g id (.ask request next) w := by
  obtain ⟨reply, w₁, hkeeps, hreply⟩ := hsend
  obtain ⟨a, w', hkeeps', hends⟩ := hnext reply w₁ hkeeps
  refine ⟨a, w', hkeeps.trans hkeeps', fun room hroom => ?_⟩
  have hroom₁ : Fits (w₁.host.realm id).free room := by
    rw [hkeeps.free]
    exact hroom
  exact (hreply room hroom).bind (hends room hroom₁)

/-- A request that loads no module is answered at once, and has nothing to do with modules. -/
theorem endsConfined_send {request : Request σ} (hrequest : request.Importing id)
    (hload : ∀ ctx, request ≠ .load ctx) : EndsConfined g id (.send request) w := by
  refine ⟨(request.answer (g.runner 0) w).1, (request.answer (g.runner 0) w).2, ?_, fun room _ => ⟨1, ?_⟩⟩
  · cases request with
    | load ctx => exact absurd rfl (hload ctx)
    | register => exact hrequest.elim
    | boot => exact hrequest.elim
    | call => exact hrequest.elim
    | enter => exact hrequest.elim
    | define realm name parent members =>
      exact .of_moduleState (w.host.moduleState_define [] id realm name parent members)
    | makeException realm cls args =>
      simp only [Request.answer, World.onHost, Host.makeException]
      split <;> exact .of_moduleState rfl
    | _ => exact .of_moduleState rfl
  · cases request with
    | load ctx => exact absurd rfl (hload ctx)
    | call => exact hrequest.elim
    | enter => exact hrequest.elim
    | _ => rfl

/-- A load is answered at once or runs a factory. The factory is free until it runs, so that it has one free name
    less. -/
theorem endsConfined_load {ctx : Context} (hw : Confined g ctx.realm w)
    (hbody : ∀ (p : Program σ (Except Raised Module)) (w₁ : World σ), p.Importing ctx.realm →
      Confined g ctx.realm w₁ → (w₁.host.realm ctx.realm).free < (w.host.realm ctx.realm).free →
      EndsConfined g ctx.realm p w₁) : EndsConfined g ctx.realm (.send (.load ctx)) w := by
  cases hstart : w.start .caching ctx with
  | inl answer =>
    obtain ⟨r, w'⟩ := answer
    refine ⟨r, w', ?_, fun room _ => .load_answer hstart⟩
    rcases World.host_of_start_eq_inl hstart with hhost | hhost
    · exact .of_moduleState (by rw [hhost])
    · exact .of_moduleState (by rw [hhost]; rfl)
  | inr factory =>
    obtain ⟨hreg, hfree⟩ := World.start_eq_inr.1 hstart
    have hnot : (w.host.realm ctx.realm).loader.isLoading ctx.fqName = false :=
      Bool.eq_false_iff.2 fun hloading => (hfree rfl).2 hloading hw.cycles
    have hstarted := Host.lt_length_of_failFast hw.cycles
    have hopened : (w.opened .caching ctx).host.realm ctx.realm = _ := World.realm_modifyLoader hstarted _
    have hless := World.free_opened_lt hstarted hreg hnot
    have hconfined : Confined g ctx.realm (w.opened .caching ctx) := by
      refine ⟨?_, ?_⟩
      · rw [hopened]
        exact hw.cycles
      · rw [hopened]
        exact hw.factories
    obtain ⟨r, w₁, hkeeps, hends⟩ := hbody _ _ (hw.factories _ _ hreg ctx rfl) hconfined hless
    have hstarted₁ := Host.lt_length_of_failFast (hconfined.keeps hkeeps).cycles
    refine ⟨r, w₁.closed .caching ctx r, hkeeps.closed hstarted hstarted₁ hnot r, fun room hroom => ?_⟩
    have hroom₀ : room ≠ some 0 := fun hzero => by
      have hle := hroom 0 hzero
      omega
    refine .load_factory hstart ?_
    rw [Guest.loadBody, if_neg hroom₀]
    refine hends _ fun levels hlevels => ?_
    obtain ⟨outer, houter, rfl⟩ := Option.map_eq_some_iff.1 hlevels
    have hle := hroom outer houter
    omega

/-- Where cycles fail and the factories only import, every program that only imports comes to an end. -/
theorem Program.Importing.endsConfined {p : Program σ α} (hp : p.Importing id) (hw : Confined g id w) :
    EndsConfined g id p w := by
  -- Entering a factory takes away a free name; between two factories the program gets smaller.
  induction hfree : (w.host.realm id).free using Nat.strongRecOn generalizing α p w with
  | ind n ih =>
    induction p generalizing w with
    | done a => exact ⟨a, w, .refl w, fun room _ => .done a w⟩
    | ask request next ihnext =>
      obtain ⟨hrequest, hnext⟩ := hp
      refine EndsConfined.ask ?_ fun reply w₁ hkeeps =>
        ihnext reply (hnext reply) (hw.keeps hkeeps) (hkeeps.free.trans hfree)
      by_cases hload : ∃ ctx, request = .load ctx
      · obtain ⟨ctx, rfl⟩ := hload
        cases hrequest
        exact endsConfined_load hw fun p w₁ hp hw₁ hless => ih _ (hfree ▸ hless) hp hw₁ rfl
      · exact endsConfined_send hrequest fun ctx hctx => hload ⟨ctx, hctx⟩

end

/-- Where cycles fail, let every factory of the realm make a fixed list of imports, each of whose failures it hands on
    or goes on after as it likes, and then make its module or fail. Then every import comes to an end, in whatever
    state and however the modules import each other. It never needs more nested bodies than there are modules, so
    that every runner with as many levels ends it alike. -/
theorem failFast_import_ends (g : Guest σ) (id : RealmId) (w : World σ)
    (hpolicy : (w.host.realm id).config.cycles = .failFast)
    (hfactories : ∀ name code, (w.host.realm id).factories.get? name = some code →
      ∃ imports, ∀ ctx, (g.load code ctx).run.Follows ctx imports)
    (requested caller : String) :
    ∃ r w', (importModule id requested caller).run.Ends g none w r w' ∧
      ∀ levels, (w.host.realm id).factories.size ≤ levels →
        (importModule id requested caller).run.run (g.runner levels) w = (r, w') := by
  have hw : Confined g id w := by
    refine ⟨hpolicy, ?_⟩
    rintro name code hcode ctx rfl
    obtain ⟨imports, hfollows⟩ := hfactories name code hcode
    exact (hfollows ctx).importing
  obtain ⟨r, w', -, hends⟩ := (importing_importModule id requested caller).endsConfined hw
  refine ⟨r, w', hends none fun levels hlevels => (by cases hlevels), fun levels hlevels => ?_⟩
  refine Program.ends_iff_run.1 (hends (some levels) fun l hl => ?_)
  cases hl
  have hfree : (w.host.realm id).free ≤ (w.host.realm id).factories.size := by
    rw [← Table.length_keys]
    exact List.length_filter_le _ _
  omega

/-- A recipe that imports each of four modules and goes on after every failure. -/
def importAllFour (_ : Code) : Recipe := ⟨["a", "b", "c", "d"].map fun name => ⟨name, fun _ => true⟩, none⟩

/-- Four modules that import each other and themselves. -/
theorem failFast_import_ends_importAllFour :
    (sampleWorld.host.realm 0).config.cycles = .failFast ∧
    ∃ r w', (importModule 0 "a" "").run.Ends (recipeGuest importAllFour) none sampleWorld r w' ∧
      outcome r = .ok "a" ∧ ∀ name ∈ ["a", "b", "c", "d"], w'.Cached 0 name := by
  have hrealm : ((sampleWorld.host.realm 0).config.cycles = .failFast ∧
      (sampleWorld.host.realm 0).factories.size ≤ 4) ∧
      let ended := (importModule 0 "a" "").run.run ((recipeGuest importAllFour).runner 4) sampleWorld
      outcome ended.1 = .ok "a" ∧
        ∀ name ∈ ["a", "b", "c", "d"], (ended.2.host.realm 0).loader.cache.contains name = true := by
    decide +kernel
  obtain ⟨⟨hpolicy, hsize⟩, hresult⟩ := hrealm
  obtain ⟨r, w', hends, hrun⟩ := failFast_import_ends (recipeGuest importAllFour) 0 sampleWorld hpolicy
    (fun name code _ => ⟨_, fun ctx => (importAllFour code).follows_body ctx⟩) "a" ""
  rw [hrun 4 hsize] at hresult
  exact ⟨hpolicy, r, w', hends, hresult⟩

end ObjectHost
