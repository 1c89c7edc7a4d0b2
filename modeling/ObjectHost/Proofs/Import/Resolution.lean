-- SUMMARY: An import is the load of the first registered candidate, or fails and leaves all tables as they are.
import ObjectHost.Proofs.Host.Exceptions
import ObjectHost.Proofs.Import.Order
import ObjectHost.Proofs.Machine.Frame
import ObjectHost.Proofs.Module.Caching
import ObjectHost.Proofs.Name.Resolution

/-!
# Imports and what they load

An import asks the realm twice: what the requested name means, and then for the
module of that name. Nothing comes between the two, so that what was found
registered is registered still, and the only failure of an import before any
factory runs that does not speak of the requested name is that of a cycle.
-/

namespace ObjectHost

variable {σ α β γ : Type}

/-! ## An import by itself -/

section

variable {id : RealmId} {requested caller : String} {w : World σ}

theorem run_importModule_of_none (h : (w.host.realm id).resolve? requested caller = none) (runner : Runner σ) :
    (importModule id requested caller).run.run runner w =
      (raiseImportError id requested : Task σ Module).run.run runner w := by
  simp only [importModule_run, Program.run, Request.answer, h]

theorem run_importModule_of_some {r : Name.Resolution} (h : (w.host.realm id).resolve? requested caller = some r)
    (runner : Runner σ) :
    (importModule id requested caller).run.run runner w = w.load runner ⟨id, r.name, r.name⟩ := by
  simp only [importModule_run, Program.run, Request.answer, h]
  rfl

end

/-! ## An import inside of other bodies -/

namespace Frames

variable {g : Guest σ} {room : Option Nat} {id : RealmId} {requested caller : String} {w : World σ}

theorem step_raise (frames : Frames σ β γ) (name : String) (message : Value) (next : Except Raised α → Program σ γ) :
    Moment.step g room ⟨frames.fill (.active ((Task.raise id name message : Task σ α).run.bind next)), w⟩ =
      ⟨frames.fill (.active (next (.error (.exception (w.host.newException id name message).1)))), w.grown⟩ :=
  frames.step_fill rfl w

theorem step_importModule_of_none (frames : Frames σ β γ) (next : Except Raised Module → Program σ γ)
    (h : (w.host.realm id).resolve? requested caller = none) :
    Moment.step g room ⟨frames.fill (.active ((importModule id requested caller).run.bind next)), w⟩ =
      ⟨frames.fill (.active ((raiseImportError id requested : Task σ Module).run.bind next)), w⟩ := by
  refine (frames.step_fill rfl w).trans ?_
  simp only [importModule_run, Program.bind, Thread.step, Thread.request, Request.answer, h]

theorem step_importModule_of_some (frames : Frames σ β γ) (next : Except Raised Module → Program σ γ)
    {r : Name.Resolution} (h : (w.host.realm id).resolve? requested caller = some r) :
    Moment.step g room ⟨frames.fill (.active ((importModule id requested caller).run.bind next)), w⟩ =
      ⟨frames.fill (.active ((Program.send (.load ⟨id, r.name, r.name⟩)).bind next)), w⟩ := by
  refine (frames.step_fill rfl w).trans ?_
  simp only [importModule_run, Program.bind, Thread.step, Thread.request, Request.answer, h]

end Frames

/-- A registered module is only refused for being asked for while it is loaded. -/
theorem World.refused_of_registered {w w' : World σ} {ctx : Context} {r : Raised}
    (hregistered : (w.host.realm ctx.realm).factories.contains ctx.fqName = true)
    (h : w.start .caching ctx = .inl (.error r, w')) :
    (w.host.realm ctx.realm).loader.isLoading ctx.fqName = true ∧
      (w.host.realm ctx.realm).config.cycles = .failFast ∧
      ∃ e : Exception, r = .exception e ∧
        e.message = .str ("Cyclic import of \"" ++ ctx.fqName ++ "\" while it is still initializing.") := by
  obtain ⟨factory, hfactory⟩ := Option.isSome_iff_exists.1 hregistered
  have hcache := cache_of_start_eq_inl_error h
  simp only [start, hcache, hfactory] at h
  split at h
  next hcyclic =>
    obtain ⟨hloading, hpolicy⟩ := Bool.and_eq_true_iff.1 hcyclic
    cases h
    exact ⟨hloading, of_decide_eq_true hpolicy, _, rfl, rfl⟩
  next => cases h

/-- At every moment of every run, and whatever bodies are under way, cached modules are registered, and an import comes
    to one of two things. If nothing that the requested name may mean to the caller is registered, it fails with an
    `ImportError` that tells the name as it was requested. It is then one object more, and nothing else, that the world
    has: the tables of all realms, with their journals of factory runs, are the same. Otherwise it is the load of the
    first registered candidate under its own name, from the same world on. That load can be refused before the factory
    runs, but only since the module is being loaded where cycles fail, and never for the want of a factory. -/
theorem import_loads_first_registered (g : Guest σ) (room : Option Nat) (p : Program σ α) (s : σ) (k : Nat)
    (id : RealmId) (hstarted : id < (moments g room p s k).world.host.realms.length) (requested caller : String) :
    let w := (moments g room p s k).world
    let realm := w.host.realm id
    let importing : Program σ (Except Raised Module) := (importModule id requested caller).run
    (∀ name, realm.loader.cache.contains name = true → realm.factories.contains name = true) ∧
    ((∀ c, Name.Candidate requested caller c → realm.factories.contains c.name = false) →
      ∃ e, realm.classes.get? "ImportError" = some e.cls ∧
        e.message = .str ("Could not import \"" ++ requested ++ "\".") ∧
        (∀ runner, importing.run runner w = (.error (.exception e), w.grown)) ∧
        ∀ (β γ : Type) (frames : Frames σ β γ) (next : Except Raised Module → Program σ γ),
          (Moment.step g room)^[2] ⟨frames.fill (.active (importing.bind next)), w⟩ =
            ⟨frames.fill (.active (next (.error (.exception e)))), w.grown⟩) ∧
    ((∃ c, Name.Candidate requested caller c ∧ realm.factories.contains c.name = true) →
      ∃ c, Name.First realm.factories.contains requested caller c ∧
        (∀ runner, importing.run runner w = w.load runner ⟨id, c.name, c.name⟩) ∧
        (∀ (β γ : Type) (frames : Frames σ β γ) (next : Except Raised Module → Program σ γ),
          Moment.step g room ⟨frames.fill (.active (importing.bind next)), w⟩ =
            ⟨frames.fill (.active ((Program.send (.load ⟨id, c.name, c.name⟩)).bind next)), w⟩) ∧
        ∀ r w', w.start .caching ⟨id, c.name, c.name⟩ = .inl (.error r, w') →
          realm.loader.isLoading c.name = true ∧ realm.config.cycles = .failFast ∧
          ∃ e : Exception, r = .exception e ∧
            e.message = .str ("Cyclic import of \"" ++ c.name ++ "\" while it is still initializing.")) := by
  intro w realm importing
  have hsound : realm.Sound id := host_sound_moments g room p s k id hstarted
  refine ⟨fun name => (sound_moments k).cached, fun hnone => ?_, fun ⟨c, hcandidate, hregistered⟩ => ?_⟩
  · have hresolve : realm.resolve? requested caller = none := Name.resolve?_eq_none_iff.2 hnone
    refine ⟨_, hsound.get?_newException (by decide +kernel) _, rfl, ?_, ?_⟩
    · exact fun runner => (run_importModule_of_none hresolve runner).trans (Task.run_raise runner ..)
    · intro β γ frames next
      exact (congrArg (Moment.step g room) (frames.step_importModule_of_none next hresolve)).trans
        (frames.step_raise _ _ next)
  · cases hresolve : realm.resolve? requested caller with
    | none => exact absurd hregistered (Bool.eq_false_iff.1 (Name.resolve?_eq_none_iff.1 hresolve c hcandidate))
    | some c =>
      have hfirst := Name.resolve?_eq_some_iff.1 hresolve
      exact ⟨c, hfirst, run_importModule_of_some hresolve, fun β γ frames next =>
        frames.step_importModule_of_some next hresolve, fun r w' => World.refused_of_registered hfirst.registered⟩

/-- While the factory of `a` runs, an import of `b` from beside it fails under the name `b`, and an import of `a` by
    itself is the load of `a` that is refused for the cycle. -/
theorem import_loads_first_registered_selfImporting :
    0 < (moments (selfImporting none) none (loadTwice .failFast) 0 5).world.host.realms.length ∧
    let m := moments (selfImporting none) none (loadTwice .failFast) 0 5
    m.thread.stack = [.factory .caching ⟨0, "a", "a"⟩] ∧
    (∃ e, (m.world.host.realm 0).classes.get? "ImportError" = some e.cls ∧
      e.message = .str "Could not import \"b\"." ∧
      ∀ runner, (importModule 0 "b" "a.c").run.run runner m.world = (.error (.exception e), m.world.grown)) ∧
    (∀ runner, (importModule 0 "a" "a").run.run runner m.world = m.world.load runner ⟨0, "a", "a"⟩) ∧
    ∃ (e : Exception) (w : World Nat), m.world.start .caching ⟨0, "a", "a"⟩ = .inl (.error (.exception e), w) ∧
      e.message = .str "Cyclic import of \"a\" while it is still initializing." := by
  have hstate : 0 < (moments (selfImporting none) none (loadTwice .failFast) 0 5).world.host.realms.length ∧
      (moments (selfImporting none) none (loadTwice .failFast) 0 5).thread.stack = [.factory .caching ⟨0, "a", "a"⟩] ∧
      ((moments (selfImporting none) none (loadTwice .failFast) 0 5).world.host.realm 0).resolve? "b" "a.c" = none ∧
      ((moments (selfImporting none) none (loadTwice .failFast) 0 5).world.host.realm 0).resolve? "a" "a" =
        some ⟨"a", .absolute⟩ ∧
      ((moments (selfImporting none) none (loadTwice .failFast) 0 5).world.refusal? .caching ⟨0, "a", "a"⟩).isSome =
        true := by
    decide +kernel
  obtain ⟨hstarted, hstack, hnone, hsome, hrefused⟩ := hstate
  obtain ⟨-, hfails, -⟩ :=
    import_loads_first_registered (selfImporting none) none (loadTwice .failFast) 0 5 0 hstarted "b" "a.c"
  obtain ⟨-, -, hloads⟩ :=
    import_loads_first_registered (selfImporting none) none (loadTwice .failFast) 0 5 0 hstarted "a" "a"
  obtain ⟨e, hcls, hmessage, hrun, -⟩ := hfails (Name.resolve?_eq_none_iff.1 hnone)
  have hregistered := (Name.resolve?_eq_some_iff.1 hsome).registered
  obtain ⟨c, hfirst, hload, -, hcyclic⟩ := hloads ⟨_, .absolute, hregistered⟩
  cases hsome.symm.trans (Name.resolve?_eq_some_iff.2 hfirst)
  refine ⟨hstarted, hstack, ⟨e, hcls, hmessage, hrun⟩, hload, ?_⟩
  obtain ⟨e, he⟩ := Option.isSome_iff_exists.1 hrefused
  unfold World.refusal? at he
  split at he
  next e' w hstart =>
    obtain ⟨-, -, _, hsame, hmessage⟩ := hcyclic _ w hstart
    cases hsame
    exact ⟨e', w, hstart, hmessage⟩
  next => cases he

end ObjectHost
