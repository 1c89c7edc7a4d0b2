-- SUMMARY: The state of a realm while its modules load each other, and how the ends of factory runs change it.
import ObjectHost.Proofs.Import.Graph
import ObjectHost.Proofs.Module.Invariant

/-!
# Realms while modules load

The cache only ever holds modules that can be loaded, together with all that
they reach. A factory run puts its name on the path when it begins and takes it
off when it ends.
-/

namespace ObjectHost

variable {σ : Type}

/-! ## Worlds while modules load -/

/-- The module of that name is cached in the realm `id`. -/
def World.Cached (w : World σ) (id : RealmId) (name : String) : Prop :=
  (w.host.realm id).loader.cache.contains name = true

/-- The realm is `base` with another loader: the names of `path` are loading, and what is cached can be loaded and is
    cached with all that it reaches. -/
structure LoadState (G : ImportGraph) (id : RealmId) (base : Realm) (path : List String) (w : World σ) : Prop where
  started : id < w.host.realms.length
  realm : w.host.realm id = { base with loader := (w.host.realm id).loader }
  loading : ∀ name, (w.host.realm id).loader.loading.get? name = if name ∈ path then some 1 else none
  fresh : ∀ name ∈ path, (w.host.realm id).loader.cache.get? name = none
  cached : ∀ name m, (w.host.realm id).loader.cache.get? name = some m →
    m.fqName = name ∧ G.Loadable name ∧ ∀ x, G.Reaches name x → w.Cached id x

/-- Between `w` and `w'`, the names of `made` were added to the cache and nothing else happened to the modules. -/
structure Advances (G : ImportGraph) (id : RealmId) (base : Realm) (path : List String) (w : World σ)
    (made : List String) (w' : World σ) : Prop where
  state : LoadState G id base path w'
  cached : ∀ x, w'.Cached id x ↔ w.Cached id x ∨ x ∈ made

section

variable {G : ImportGraph} {id : RealmId} {base : Realm} {path : List String} {w w₁ w' : World σ}

theorem LoadState.not_mem_of_cached (hw : LoadState G id base path w) {x : String} (hx : w.Cached id x) :
    x ∉ path := by
  intro hmem
  unfold World.Cached Table.contains at hx
  rw [hw.fresh x hmem] at hx
  cases hx

/-- The state after the loader of the realm has changed, told by its tables. -/
theorem LoadState.withLoader {l : Loader} {path' : List String} (hw : LoadState G id base path w)
    (hlength : w'.host.realms.length = w.host.realms.length)
    (hrealm : w'.host.realm id = { w.host.realm id with loader := l })
    (hloading : ∀ name, l.loading.get? name = if name ∈ path' then some 1 else none)
    (hfresh : ∀ name ∈ path', l.cache.get? name = none)
    (hcached : ∀ name m, l.cache.get? name = some m →
      m.fqName = name ∧ G.Loadable name ∧ ∀ x, G.Reaches name x → l.cache.contains x = true) :
    LoadState G id base path' w' := by
  refine ⟨hlength ▸ hw.started, ?_, ?_, ?_, ?_⟩
  · rw [hrealm, hw.realm]
  · rw [hrealm]
    exact hloading
  · rw [hrealm]
    exact hfresh
  · unfold World.Cached
    rw [hrealm]
    exact hcached

/-- The state after a change that leaves the cache alone. -/
theorem LoadState.sameCache {l : Loader} {path' : List String} (hw : LoadState G id base path w)
    (hlength : w'.host.realms.length = w.host.realms.length)
    (hrealm : w'.host.realm id = { w.host.realm id with loader := l })
    (hcache : l.cache = (w.host.realm id).loader.cache)
    (hloading : ∀ name, l.loading.get? name = if name ∈ path' then some 1 else none)
    (hfresh : ∀ name ∈ path', (w.host.realm id).loader.cache.get? name = none) :
    LoadState G id base path' w' ∧ ∀ x, w'.Cached id x ↔ w.Cached id x := by
  refine ⟨hw.withLoader hlength hrealm hloading ?_ ?_, fun x => ?_⟩
  · rw [hcache]
    exact hfresh
  · rw [hcache]
    exact hw.cached
  · unfold World.Cached
    rw [hrealm, ← hcache]

/-- Making objects does nothing to modules. -/
theorem LoadState.advances (hw : LoadState G id base path w) (h : w'.host.realms = w.host.realms) :
    Advances G id base path w [] w' := by
  have hrealm : w'.host.realm id = w.host.realm id := by
    unfold Host.realm
    rw [h]
  obtain ⟨hstate, hcached⟩ := hw.sameCache (congrArg List.length h) hrealm rfl hw.loading hw.fresh
  exact ⟨hstate, fun x => by simp [hcached x]⟩

theorem Advances.trans {made more : List String} (h₁ : Advances G id base path w made w₁)
    (h₂ : Advances G id base path w₁ more w') : Advances G id base path w (made ++ more) w' := by
  refine ⟨h₂.state, fun x => ?_⟩
  rw [h₂.cached, h₁.cached, List.mem_append, or_assoc]

/-! ## The ends of a factory run -/

theorem World.realm_modifyLoader (hstarted : id < w.host.realms.length) (f : Loader → Loader) :
    (w.modifyLoader id f).host.realm id = { w.host.realm id with loader := f (w.host.realm id).loader } := by
  unfold World.modifyLoader
  rw [Host.realm_modifyLoader, if_pos ⟨rfl, hstarted⟩]

theorem World.length_modifyLoader (f : Loader → Loader) :
    (w.modifyLoader id f).host.realms.length = w.host.realms.length :=
  Host.length_modifyRealm _ _ _

/-- A factory run that begins puts its name on the path. -/
theorem LoadState.opened {ctx : Context} (hw : LoadState G ctx.realm base path w) (hpath : ctx.fqName ∉ path)
    (hnone : (w.host.realm ctx.realm).loader.cache.get? ctx.fqName = none) :
    LoadState G ctx.realm base (ctx.fqName :: path) (w.opened .caching ctx) ∧
      ∀ x, (w.opened .caching ctx).Cached ctx.realm x ↔ w.Cached ctx.realm x := by
  have hdepth : (w.host.realm ctx.realm).loader.depth ctx.fqName = 0 := by
    simp [Loader.depth, hw.loading, hpath]
  refine hw.sameCache (World.length_modifyLoader _) (World.realm_modifyLoader hw.started _)
    (Loader.cache_opened _ _ _) (fun name => ?_) (fun name hmem => ?_)
  · rw [Loader.loading_opened, hdepth, hw.loading]
    by_cases hname : name = ctx.fqName <;> simp [hname]
  · rcases List.mem_cons.1 hmem with rfl | hmem
    · exact hnone
    · exact hw.fresh name hmem

/-- The end of a run takes its name off the path, whatever it does to the cache. -/
theorem LoadState.loading_closed {ctx : Context} (hw : LoadState G ctx.realm base (ctx.fqName :: path) w)
    (hpath : ctx.fqName ∉ path) (r : Except Raised Module) (name : String) :
    ((w.host.realm ctx.realm).loader.closed .caching ctx.fqName r).loading.get? name =
      if name ∈ path then some 1 else none := by
  have hdepth : (w.host.realm ctx.realm).loader.depth ctx.fqName = 1 := by
    simp [Loader.depth, hw.loading]
  rw [Loader.loading_closed, hdepth, hw.loading]
  by_cases hname : name = ctx.fqName
  · simp [hname, hpath]
  · simp [hname]

theorem LoadState.closed_error {ctx : Context} (hw : LoadState G ctx.realm base (ctx.fqName :: path) w)
    (hpath : ctx.fqName ∉ path) (e : Raised) :
    Advances G ctx.realm base path w [] (w.closed .caching ctx (.error e)) := by
  have hrealm := World.realm_modifyLoader hw.started (fun l => l.closed .caching ctx.fqName (.error e))
  obtain ⟨hstate, hcached⟩ := hw.sameCache (World.length_modifyLoader _) hrealm
    (Loader.cache_closed_error _ .caching ctx.fqName e) (hw.loading_closed hpath (.error e))
    (fun name hmem => hw.fresh name (List.mem_cons_of_mem _ hmem))
  exact ⟨hstate, fun x => (hcached x).trans (by simp)⟩

/-- A module that can be loaded is cached at the end of its run, where all it reaches is cached already. -/
theorem LoadState.closed_ok {ctx : Context} (hw : LoadState G ctx.realm base (ctx.fqName :: path) w)
    (hpath : ctx.fqName ∉ path) {m : Module} (hm : m.fqName = ctx.fqName) (hload : G.Loadable ctx.fqName)
    (hclosed : ∀ x, G.Reaches ctx.fqName x → x = ctx.fqName ∨ w.Cached ctx.realm x) :
    Advances G ctx.realm base path w [ctx.fqName] (w.closed .caching ctx (.ok m)) := by
  have hget : ∀ name, ((w.host.realm ctx.realm).loader.closed .caching ctx.fqName (.ok m)).cache.get? name =
      if name = ctx.fqName then some m else (w.host.realm ctx.realm).loader.cache.get? name := by
    intro name
    by_cases hname : name = ctx.fqName
    · rw [hname, Loader.cache_closed_ok, if_pos rfl]
    · rw [if_neg hname]
      exact Loader.cache_closed_of_ne _ _ fun hsame => hname hsame.2
  have hcontains : ∀ x, ((w.host.realm ctx.realm).loader.closed .caching ctx.fqName (.ok m)).cache.contains x =
      true ↔ w.Cached ctx.realm x ∨ x = ctx.fqName := by
    intro x
    simp only [World.Cached, Table.contains, hget]
    by_cases hx : x = ctx.fqName <;> simp [hx]
  have hrealm := World.realm_modifyLoader hw.started (fun l => l.closed .caching ctx.fqName (.ok m))
  refine ⟨hw.withLoader (World.length_modifyLoader _) hrealm (hw.loading_closed hpath (.ok m)) ?_ ?_, fun x => ?_⟩
  · intro name hmem
    have hname : name ≠ ctx.fqName := fun hname => hpath (hname ▸ hmem)
    rw [hget, if_neg hname]
    exact hw.fresh name (List.mem_cons_of_mem _ hmem)
  · intro name m' hsome
    rw [hget] at hsome
    by_cases hname : name = ctx.fqName
    · rw [if_pos hname] at hsome
      cases hsome
      subst hname
      exact ⟨hm, hload, fun x hx => (hcontains x).2 (hclosed x hx).symm⟩
    · rw [if_neg hname] at hsome
      obtain ⟨hname', hload', hclosed'⟩ := hw.cached name m' hsome
      exact ⟨hname', hload', fun x hx => (hcontains x).2 (.inl (hclosed' x hx))⟩
  · rw [List.mem_singleton, ← hcontains]
    change ((w.modifyLoader ctx.realm _).host.realm ctx.realm).loader.cache.contains x = true ↔ _
    rw [hrealm]

end

end ObjectHost
