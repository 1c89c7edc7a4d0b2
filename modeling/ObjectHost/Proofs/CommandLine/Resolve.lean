-- SUMMARY: The command that resolves a name answers with what the search for the name finds among the listed names.
import ObjectHost.CommandLine.Command
import ObjectHost.Proofs.Host.Exceptions
import ObjectHost.Proofs.Name.Resolution

/-!
# Resolving on the command line

The command starts a realm, registers a stub for each listed name and loads what
the requested name means there. Of all this only the search remains in its
answer: the realm starts without modules and with all its exception classes, the
stubs are found exactly under the listed names, and a stub that was found can be
loaded.
-/

namespace ObjectHost.CommandLine

/-! ## Stubs -/

/-- The realm 0 with a stub under each of the names. -/
def withStubs (names : List String) (r : Realm) : Realm :=
  { r with factories := names.foldl (fun t name => t.insert name ⟨0, 0⟩) r.factories }

variable {r : Realm} {heap : Heap} {names : List String} {requested caller : String}

theorem run_registerStubs (runner : Runner Unit) (names : List String) (r : Realm) (heap : Heap) :
    (registerStubs 0 names).run runner ⟨⟨[r], heap⟩, ()⟩ = ((), ⟨⟨[withStubs names r], heap⟩, ()⟩) := by
  induction names generalizing r with
  | nil => rfl
  | cons name names ih => exact ih { r with factories := r.factories.insert name ⟨0, 0⟩ }

theorem get?_withStubs (h : r.factories = ∅) (name : String) :
    (withStubs names r).factories.get? name = if name ∈ names then some ⟨0, 0⟩ else none := by
  simp only [withStubs, h, Table.get?_foldl_insert]
  rfl

/-- The stubs are found under the listed names and no others. -/
theorem resolve?_withStubs (h : r.factories = ∅) (requested caller : String) :
    (withStubs names r).resolve? requested caller =
      Name.resolve? (fun name => decide (name ∈ names)) requested caller := by
  have hcontains : (withStubs names r).factories.contains = fun name => decide (name ∈ names) := by
    funext name
    unfold Table.contains
    rw [get?_withStubs h]
    split <;> simp_all
  rw [Realm.resolve?, hcontains]

theorem resolveStub_run (id : RealmId) (requested caller : String) :
    (resolveStub id requested caller).run =
      .ask .observe fun h =>
        match (h.realm id).resolve? requested caller with
        | some found => (loadResolved id found.name).run.bind (ExceptT.bindCont fun m => pure (m, found))
        | none => (raiseImportError id requested : Task Unit (Module × Name.Resolution)).run :=
  rfl

/-- Nothing keeps a stub from being loaded the first time. -/
theorem load_stub {name : String} {code : Code} (hloader : r.loader = .empty)
    (hcode : r.factories.get? name = some code) (heap : Heap) :
    ∃ m w, World.load (stubs.runner 1) ⟨0, name, name⟩ ⟨⟨[r], heap⟩, ()⟩ = (.ok m, w) ∧ m.fqName = name := by
  have hrealm : Host.realm ⟨[r], heap⟩ 0 = r := rfl
  have hcached : r.loader.cache.get? name = none := by rw [hloader]; rfl
  have hloading : r.loader.isLoading name = false := by rw [hloader]; rfl
  unfold World.load
  simp only [hrealm, hcached, hcode, hloading, Bool.false_and]
  exact ⟨_, _, rfl, rfl⟩

theorem run_resolveStub_of_some {found : Name.Resolution} {code : Code}
    (hfound : r.resolve? requested caller = some found) (hloader : r.loader = .empty)
    (hcode : r.factories.get? found.name = some code) (heap : Heap) :
    ∃ m, ((resolveStub 0 requested caller).run.run (stubs.runner 1) ⟨⟨[r], heap⟩, ()⟩).1 = .ok (m, found) ∧
      m.fqName = found.name := by
  obtain ⟨m, w, hload, hname⟩ := load_stub hloader hcode heap
  have hrun : (loadResolved 0 found.name : Task Unit Module).run.run (stubs.runner 1) ⟨⟨[r], heap⟩, ()⟩ = (.ok m, w) :=
    hload
  have hobserved : (Host.realm ⟨[r], heap⟩ 0).resolve? requested caller = some found := hfound
  refine ⟨m, ?_, hname⟩
  simp only [resolveStub_run, Program.run, Request.answer, hobserved, Program.run_bind, hrun]
  rfl

theorem run_resolveStub_of_none (hfound : r.resolve? requested caller = none) (heap : Heap) :
    ((resolveStub 0 requested caller).run.run (stubs.runner 1) ⟨⟨[r], heap⟩, ()⟩).1 =
      .error (.exception (r.taxonomy.exception heap.next (r.taxonomy.classFor Builtin.importError)
        (.str ("Could not import \"" ++ requested ++ "\".")))) := by
  have hobserved : (Host.realm ⟨[r], heap⟩ 0).resolve? requested caller = none := hfound
  simp only [resolveStub_run, Program.run, Request.answer, hobserved]
  rfl

/-! ## The command -/

theorem startRealm_of_bootstrap {config : Config} (h : Realm.bootstrap 0 config = .ok r) :
    startRealm config = .ok (0, ⟨[r], .empty⟩) := by
  have hfirst : Realm.bootstrap Host.empty.realms.length config = .ok r := h
  unfold startRealm
  rw [Host.boot_of_bootstrap hfirst]
  rfl

/-- The realms that commands start are alike up to their configuration, and so are the exceptions they raise when
    nothing can be imported. -/
theorem exists_started : ∃ cls : Class, cls.name = Builtin.importError ∧ ∀ config : Config, ∃ r : Realm,
    startRealm config = .ok (0, ⟨[r], .empty⟩) ∧ r.factories = ∅ ∧ r.loader = .empty ∧
      ∀ id message, r.taxonomy.exception id (r.taxonomy.classFor Builtin.importError) message =
        ⟨id, cls, message, config.qualifier⟩ := by
  obtain ⟨core, base, made, hrun, -⟩ := Realm.run_installBuiltins 0
  have hboot := Realm.bootstrap_of_run hrun
  refine ⟨(Taxonomy.new base "" made).classFor Builtin.importError, ?_,
    fun config => ⟨_, startRealm_of_bootstrap (hboot config), rfl, rfl, fun _ _ => rfl⟩⟩
  obtain ⟨r, hr, hsound⟩ := Realm.sound_bootstrap 0 { qualifier := "" }
  cases (hboot { qualifier := "" }).symm.trans hr
  have hname : Builtin.importError ∈ Builtin.exceptionNames := by decide
  exact ((hsound.wellFormed.named _ _).1 (hsound.get?_classFor hname)).2

/-- The stubs are registered first, and then the name is resolved among them. -/
theorem run_registerStubs_resolveStub (runner : Runner Unit) (modules : List String) (requested caller : String)
    (r : Realm) (heap : Heap) :
    (do
      (registerStubs 0 modules : Program Unit Unit)
      resolveStub 0 requested caller : Task Unit (Module × Name.Resolution)).run.run runner ⟨⟨[r], heap⟩, ()⟩ =
      (resolveStub 0 requested caller).run.run runner ⟨⟨[withStubs modules r], heap⟩, ()⟩ := by
  change (((registerStubs 0 modules).bind (.done ∘ .ok)).bind
    (ExceptT.bindCont fun _ => resolveStub 0 requested caller)).run runner _ = _
  rw [Program.run_bind, Program.run_bind, run_registerStubs]
  rfl

section Answer

variable {config : Config} {modules : List String}

theorem resolve_of_ok {m : Module} {found : Name.Resolution} (hstart : startRealm config = .ok (0, ⟨[r], .empty⟩))
    (hrun : ((resolveStub 0 requested caller).run.run (stubs.runner 1) ⟨⟨[withStubs modules r], .empty⟩, ()⟩).1 =
      .ok (m, found)) :
    resolve config requested caller modules = .ok (m.fqName ++ " (" ++ found.tier.label ++ ")\n") := by
  rw [← run_registerStubs_resolveStub] at hrun
  rw [resolve, hstart]
  simp only [bind, Except.bind] at hrun ⊢
  rw [hrun]
  rfl

theorem resolve_of_error {e : Raised} (hstart : startRealm config = .ok (0, ⟨[r], .empty⟩))
    (hrun : ((resolveStub 0 requested caller).run.run (stubs.runner 1) ⟨⟨[withStubs modules r], .empty⟩, ()⟩).1 =
      .error e) :
    resolve config requested caller modules = .error (.raised e) := by
  rw [← run_registerStubs_resolveStub] at hrun
  rw [resolve, hstart]
  simp only [bind, Except.bind] at hrun ⊢
  rw [hrun]
  rfl

end Answer

/-- The answer of the command, by the search alone. -/
theorem resolve_eq : ∃ cls : Class, cls.name = Builtin.importError ∧ ∀ config requested caller modules,
    resolve config requested caller modules =
      (Name.resolve? (fun name => decide (name ∈ modules)) requested caller).elim
        (.error (.raised (.exception
          ⟨0, cls, .str ("Could not import \"" ++ requested ++ "\"."), config.qualifier⟩)))
        fun found => .ok (found.name ++ " (" ++ found.tier.label ++ ")\n") := by
  obtain ⟨cls, hcls, hstarted⟩ := exists_started
  refine ⟨cls, hcls, fun config requested caller modules => ?_⟩
  obtain ⟨r, hstart, hfactories, hloader, hexception⟩ := hstarted config
  rw [← resolve?_withStubs hfactories]
  cases hfound : (withStubs modules r).resolve? requested caller with
  | none =>
    rw [resolve_of_error hstart (run_resolveStub_of_none hfound .empty)]
    exact congrArg (fun e => Except.error (CommandError.raised (.exception e))) (hexception _ _)
  | some found =>
    -- What was found is listed, so there is a stub to load.
    have hlisted : found.name ∈ modules := by
      rw [resolve?_withStubs hfactories] at hfound
      exact of_decide_eq_true (Name.resolve?_eq_some_iff.1 hfound).registered
    have hcode : (withStubs modules r).factories.get? found.name = some ⟨0, 0⟩ := by
      rw [get?_withStubs hfactories, if_pos hlisted]
    obtain ⟨m, hrun, hname⟩ := run_resolveStub_of_some hfound hloader hcode .empty
    rw [resolve_of_ok hstart hrun, hname, Option.elim_some]

/-- What is printed of an exception whose payload is a text. -/
theorem report_exception (id : ObjectId) (cls : Class) (message qualifier : String) :
    (CommandError.raised (.exception ⟨id, cls, .str message, qualifier⟩)).report =
      "error: " ++ (qualifier ++ ": " ++ cls.name ++ ": " ++ message) :=
  rfl

/-- The command answers with the name and the tier that the search finds among the listed names, so that loading what
    was found never fails, and if nothing is found it fails with an import error for the requested name. The order and
    the repetitions of the list have no part in that, and of the configuration only the qualifier, in the error. -/
theorem resolve_agrees_with_search (config : Config) (requested caller : String) (modules : List String) :
    let search := Name.resolve? (fun name => decide (name ∈ modules)) requested caller
    (∀ found, search = some found →
      resolve config requested caller modules = .ok (found.name ++ " (" ++ found.tier.label ++ ")\n")) ∧
    (search = none → ∃ e, resolve config requested caller modules = .error e ∧
      e.report = "error: " ++ config.qualifier ++ ": ImportError: Could not import \"" ++ requested ++ "\".") ∧
    ∀ config' modules', config'.qualifier = config.qualifier → (∀ name, name ∈ modules' ↔ name ∈ modules) →
      resolve config' requested caller modules' = resolve config requested caller modules := by
  intro search
  obtain ⟨cls, hcls, hanswer⟩ := resolve_eq
  refine ⟨?_, ?_, ?_⟩
  · intro found hfound
    have hsearch : Name.resolve? (fun name => decide (name ∈ modules)) requested caller = some found := hfound
    rw [hanswer, hsearch, Option.elim_some]
  · intro hnone
    have hsearch : Name.resolve? (fun name => decide (name ∈ modules)) requested caller = none := hnone
    refine ⟨_, by rw [hanswer, hsearch, Option.elim_none], ?_⟩
    rw [report_exception, hcls]
    exact String.toList_inj.1 (by simp [Builtin.importError])
  · intro config' modules' hqualifier hmodules
    have hlisted : (fun name => decide (name ∈ modules')) = fun name => decide (name ∈ modules) :=
      funext fun name => decide_eq_decide.2 (hmodules name)
    rw [hanswer, hanswer, hlisted, hqualifier]

/-- Among three listed names, one of them twice, a sibling comes before a child; and a name that means nothing there. -/
theorem resolve_agrees_with_search_sibling :
    resolve ⟨"app", .failFast⟩ "x" "pkg.mod" ["pkg.mod.x", "pkg.x", "pkg.x"] = .ok "pkg.x (sibling)\n" ∧
      resolve ⟨"app", .reenter⟩ "x" "pkg.mod" ["pkg.x", "pkg.mod.x"] = .ok "pkg.x (sibling)\n" ∧
      ∃ e, resolve ⟨"app", .failFast⟩ "y" "pkg.mod" ["pkg.mod.x", "pkg.x", "pkg.x"] = .error e ∧
        e.report = "error: app: ImportError: Could not import \"y\"." := by
  obtain ⟨hfound, -, hsame⟩ :=
    resolve_agrees_with_search ⟨"app", .failFast⟩ "x" "pkg.mod" ["pkg.mod.x", "pkg.x", "pkg.x"]
  have hsibling := hfound ⟨"pkg.x", .sibling⟩ (by decide)
  have hlisted : ∀ name, name ∈ ["pkg.x", "pkg.mod.x"] ↔ name ∈ ["pkg.mod.x", "pkg.x", "pkg.x"] := by
    simp [or_comm]
  refine ⟨hsibling, (hsame ⟨"app", .reenter⟩ ["pkg.x", "pkg.mod.x"] rfl hlisted).trans hsibling, ?_⟩
  exact (resolve_agrees_with_search ⟨"app", .failFast⟩ "y" "pkg.mod" ["pkg.mod.x", "pkg.x", "pkg.x"]).2.1 (by decide)

end ObjectHost.CommandLine
