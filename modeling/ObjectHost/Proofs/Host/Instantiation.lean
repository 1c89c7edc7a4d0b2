-- SUMMARY: Making objects: exceptions take their payload and run nothing, other objects are initialised by one call.
import ObjectHost.Proofs.Host.Attributes

/-!
# Instances and their initialisers

A class that descends from the base of the exceptions makes an exception of the
first argument, and no member of it has a say. Any other class makes an object
without attributes, so that what initialises the object is what attribute access
would give for it.
-/

namespace ObjectHost

variable {σ α : Type}

/-! ## New objects -/

/-- A new object has no attributes. -/
theorem Heap.attributes_grow_next (h : Heap) : h.grow.attributes h.next = ∅ := by
  simp [Heap.attributes, Heap.grow, Heap.next]

/-! ## What comes of it -/

theorem initialise_of_nil {h : Host} {cls : Class} (hinit : h.initialiser? cls = none) (id : RealmId) (i : Instance) :
    (initialise h id cls [] i : Program σ _) = .done (.ok (.inst i)) := by
  unfold initialise
  rw [hinit]
  rfl

namespace Program.Proceeds

variable {g : Guest σ} {room : Option Nat} {id : RealmId} {cls : Class} {args : List Value} {w : World σ}

theorem instantiate_exception (hcls : (w.host.realm id).taxonomy.isExceptionClass cls = true) {e : Exception}
    (hmade : w.host.makeException id cls args = (.ok e, w.grown.host)) :
    (instantiate id cls args).run.Proceeds g room w (.done (.ok e.toValue)) w.grown := by
  rw [instantiate_run]
  refine .trans (.ask .observe w.host _ (fun _ => rfl) fun _ _ => rfl) ?_
  rw [if_pos hcls]
  have hanswer : w.onHost (fun h => h.makeException id cls args) = (.ok e, w.grown) :=
    congrArg (fun made => (made.1, { w with host := made.2 })) hmade
  exact .ask (.makeException id cls args) (.ok e) _ (fun _ => hanswer) fun _ _ => rfl

/-- What is to be done to an instance is settled before it is made. -/
theorem instantiate_instance (hcls : (w.host.realm id).taxonomy.isExceptionClass cls = false) :
    (instantiate id cls args).run.Proceeds g room w
      (initialise w.host id cls args ⟨w.host.heap.next, cls⟩) w.grown := by
  rw [instantiate_run]
  refine .trans (.ask .observe w.host _ (fun _ => rfl) fun _ _ => rfl) ?_
  rw [if_neg (Bool.eq_false_iff.1 hcls)]
  exact .ask (.newInstance cls) _ _ (fun _ => rfl) fun _ _ => rfl

variable {h : Host} {i : Instance}

theorem initialise_call {f : Function} (hinit : h.initialiser? cls = some f) :
    (initialise h id cls args i).Proceeds g room w
      ((Program.send (.call f (.inst i :: args))).bind fun r => .done (r.map fun _ => .inst i)) w.grown := by
  unfold initialise
  rw [hinit]
  exact .ask (.newMethod (.inst i) f) _ _ (fun _ => rfl) fun _ _ => rfl

theorem initialise_raise (hinit : h.initialiser? cls = none) (hargs : args ≠ []) :
    let text := cls.name ++ "() takes no arguments (" ++ toString args.length ++ " given)"
    (initialise h id cls args i).Proceeds g room w
      (.done (.error (.exception (w.host.newException id Builtin.typeError (.str text)).1))) w.grown := by
  unfold initialise
  rw [hinit]
  dsimp only
  rw [if_neg (by rwa [List.isEmpty_iff])]
  exact .ask (.newException id Builtin.typeError _) _ _ (fun _ => rfl) fun _ _ => rfl

/-- A call with the wrong number of arguments is refused before the body is entered. -/
theorem call_refused {f : Function} {expected : Nat} (harity : f.arity = some expected) (hargs : args.length ≠ expected)
    (next : Except Raised Value → Program σ α) :
    ((Program.send (.call f args)).bind next).Proceeds g room w
      (next (.error (.host (.arity f.name expected args.length)))) w := by
  have hrefused : f.refuses? args.length = some (.arity f.name expected args.length) := by
    simp only [Function.refuses?, harity, if_neg hargs]
  have hanswer : ∀ runner, World.call runner f args w = (.error (.host (.arity f.name expected args.length)), w) := by
    intro runner
    rw [World.call_eq, hrefused]
  refine .ask (.call f args) _ _ hanswer fun _ next => ?_
  simp only [Thread.request, Request.answer, hrefused, hanswer]

end Program.Proceeds

/-- At every moment of every run, whatever bodies are under way, a started realm makes objects in one of two ways. If
    the class descends from the base of the realm's exceptions, an exception of just that class is made, with the first
    argument for its message, or the empty text. No body is entered for it, whatever initialiser the ancestry has, and
    making it is never refused. Of any other class an instance is made, without attributes. If the nearest `__init__` in
    the ancestry is a function, then it is called on the instance and the arguments, and called only once. What it
    returns is dropped in favour of the instance, and its failure is passed on as it is; invoking what attribute access
    gives for `__init__` comes to the same. A wrong number of arguments, the instance counted in, fails before the body
    is entered. If there is no `__init__`, or the nearest is no function, the instance is all there is to it as long as
    there are no arguments, and otherwise a `TypeError` is raised. -/
theorem instances_are_initialised_by_one_call (g : Guest σ) (room : Option Nat) (p : Program σ α) (s : σ) (k : Nat)
    (id : RealmId) (hstarted : id < (moments g room p s k).world.host.realms.length) (cls : Class)
    (args : List Value) :
    let w := (moments g room p s k).world
    let made : Program σ (Except Raised Value) := (instantiate id cls args).run
    let i : Instance := ⟨w.host.heap.next, cls⟩
    let keep (r : Except Raised Value) : Program σ (Except Raised Value) := .done (r.map fun _ => .inst i)
    ∃ base, (w.host.realm id).classes.get? "BaseException" = some base ∧
      (cls.isSubclassOf base = true → ∃ e : Exception,
        e.cls = cls ∧ e.message = args.head?.getD (.str "") ∧ (w.host.makeException id cls args).1 = .ok e ∧
        made.Proceeds g room w (.done (.ok e.toValue)) w.grown) ∧
      (cls.isSubclassOf base = false →
        w.grown.host.heap.attributes i.id = ∅ ∧
        (∀ f, w.host.Nearest cls "__init__" (.function f) →
          made.Proceeds g room w ((Program.send (.call f (.inst i :: args))).bind keep) w.grown.grown ∧
          (∃ m : Method, m.receiver = .inst i ∧ m.callable = f ∧
            (∀ runner, (getAttribute id (.inst i) "__init__").run.run runner w.grown = (.ok m.toValue, w.grown.grown)) ∧
            made.Proceeds g room w ((invoke m args).run.bind keep) w.grown.grown) ∧
          ∀ expected, f.arity = some expected → args.length + 1 ≠ expected →
            made.Proceeds g room w (.done (.error (.host (.arity f.name expected (args.length + 1))))) w.grown.grown) ∧
        ((∀ f, ¬ w.host.Nearest cls "__init__" (.function f)) →
          (args = [] → made.Proceeds g room w (.done (.ok (.inst i))) w.grown) ∧
          (args ≠ [] → ∃ e : Exception, (w.host.realm id).classes.get? "TypeError" = some e.cls ∧
            e.message = .str (cls.name ++ "() takes no arguments (" ++ toString args.length ++ " given)") ∧
            made.Proceeds g room w (.done (.error (.exception e))) w.grown.grown))) := by
  intro w made i keep
  have hsound : (w.host.realm id).Sound id := host_sound_moments g room p s k id hstarted
  have hfresh : w.grown.host.heap.attributes i.id = ∅ := w.host.heap.attributes_grow_next
  refine ⟨(w.host.realm id).taxonomy.base, hsound.base, fun hcls => ?_, fun hcls => ⟨hfresh, fun f hnearest => ?_, ?_⟩⟩
  · have hmade : w.host.makeException id cls args = (.ok _, w.grown.host) := if_pos hcls
    exact ⟨_, rfl, rfl, congrArg Prod.fst hmade, .instantiate_exception hcls hmade⟩
  · have hinit := Host.initialiser?_eq_some_iff.2 (Host.lookup?_eq_some_iff.2 hnearest)
    have hcalls : made.Proceeds g room w ((Program.send (.call f (.inst i :: args))).bind keep) w.grown.grown :=
      .trans (.instantiate_instance hcls) (.initialise_call hinit)
    refine ⟨hcalls, ?_, fun expected harity hargs => ?_⟩
    · have hfree : (w.grown.host.heap.attributes i.id).get? "__init__" = none := by
        rw [hfresh]
        rfl
      have hattributes : AttributesInherited id w.grown := .of_sound hsound
      obtain ⟨⟨_, _, _⟩, rfl, rfl, hbound, -⟩ := (hattributes.inherited i "__init__" hfree).method f hnearest
      exact ⟨_, rfl, rfl, hbound, hcalls⟩
    · have hcount : (Value.inst i :: args).length ≠ expected := hargs
      exact hcalls.trans (.call_refused harity hcount keep)
  · intro hnone
    have hinit : w.host.initialiser? cls = none :=
      Host.initialiser?_eq_none_iff.2 fun f hf => hnone f (Host.lookup?_eq_some_iff.1 hf)
    refine ⟨fun hargs => ?_, fun hargs => ?_⟩
    · have hdone : (initialise w.host id cls args i : Program σ _) = .done (.ok (.inst i)) :=
        hargs ▸ initialise_of_nil hinit id i
      exact hdone ▸ .instantiate_instance hcls
    · have hgrown : (w.grown.host.realm id).Sound id := hsound
      exact ⟨_, hgrown.get?_newException (by decide +kernel) _, rfl,
        .trans (.instantiate_instance hcls) (.initialise_raise hinit hargs)⟩

/-- A function that takes an object and one argument. -/
def initFunction : Function := ⟨0, "__init__", some 2, ⟨0, 0⟩⟩

/-- Starts a realm and defines a class with an initialiser, a class that hides it beneath that, and an exception class
    that has one, too. -/
def defineInitialised : Program Unit (Except ObjectError Class) := do
  let _ ← Program.send (.boot {})
  let base ← Program.send (.define 0 "Base" none [("__init__", .function initFunction)])
  let _ ← Program.send (.define 0 "Shadow" base.toOption [("__init__", .none)])
  let h ← Program.observe
  Program.send (.define 0 "AppError" ((h.realm 0).taxonomy.class? "ValueError") [("__init__", .function initFunction)])

/-- The initialiser of `Base` wants one argument besides the object. Where it is hidden, and where the class is that of
    an exception, it plays no part. -/
theorem instances_are_initialised_by_one_call_shadowed :
    0 < (moments bodiless none defineInitialised () 5).world.host.realms.length ∧
    let w := (moments bodiless none defineInitialised () 5).world
    ∃ base shadow appError, (w.host.realm 0).classes.get? "Base" = some base ∧
      (w.host.realm 0).classes.get? "Shadow" = some shadow ∧
      (w.host.realm 0).classes.get? "AppError" = some appError ∧
      (∀ runner, (instantiate 0 base [.none]).run.run runner w =
        let i := Value.inst ⟨w.host.heap.next, base⟩
        let (r, w') := w.grown.grown.call runner initFunction [i, .none]
        (r.map fun _ => i, w')) ∧
      (∀ runner, (instantiate 0 base []).run.run runner w =
        (.error (.host (.arity "__init__" 2 1)), w.grown.grown)) ∧
      (∀ runner, (instantiate 0 shadow []).run.run runner w = (.ok (.inst ⟨w.host.heap.next, shadow⟩), w.grown)) ∧
      (∃ e : Exception, (w.host.realm 0).classes.get? "TypeError" = some e.cls ∧
        e.message = .str "Shadow() takes no arguments (1 given)" ∧
        ∀ runner, (instantiate 0 shadow [.none]).run.run runner w = (.error (.exception e), w.grown.grown)) ∧
      ∃ e : Exception, e.cls = appError ∧ e.message = .bool true ∧
        ∀ runner, (instantiate 0 appError [.bool true, .none]).run.run runner w = (.ok e.toValue, w.grown) := by
  have hstate : 0 < (moments bodiless none defineInitialised () 5).world.host.realms.length ∧
      ∃ root ∈ ((moments bodiless none defineInitialised () 5).world.host.realm 0).classes.get? "BaseException",
      (∃ base ∈ ((moments bodiless none defineInitialised () 5).world.host.realm 0).classes.get? "Base",
        base.isSubclassOf root = false ∧ (moments bodiless none defineInitialised () 5).world.host.lookup? base
          "__init__" = some (.function initFunction)) ∧
      (∃ shadow ∈ ((moments bodiless none defineInitialised () 5).world.host.realm 0).classes.get? "Shadow",
        shadow.name = "Shadow" ∧ shadow.isSubclassOf root = false ∧
        (moments bodiless none defineInitialised () 5).world.host.lookup? shadow "__init__" = some .none) ∧
      ∃ appError ∈ ((moments bodiless none defineInitialised () 5).world.host.realm 0).classes.get? "AppError",
        appError.isSubclassOf root = true := by
    decide +kernel
  obtain ⟨hstarted, root, hroot, ⟨base, hbase, hplain, hinit⟩, ⟨shadow, hshadow, hname, hplain', hhidden⟩, appError,
    happError, hexception⟩ := hstate
  have hmakes := instances_are_initialised_by_one_call bodiless none defineInitialised () 5 0 hstarted
  refine ⟨hstarted, ?_⟩
  -- From here on it does not matter how the world came about.
  dsimp only at hmakes ⊢
  generalize (moments bodiless none defineInitialised () 5).world = w at *
  have hnearest := Host.lookup?_eq_some_iff.1 hinit
  have hnone : ∀ f, ¬ w.host.Nearest shadow "__init__" (.function f) := fun f hf =>
    nomatch hhidden.symm.trans (Host.lookup?_eq_some_iff.2 hf)
  refine ⟨base, shadow, appError, hbase, hshadow, happError, ?_, ?_, ?_, ?_, ?_⟩
  · obtain ⟨_, hroot', -, hinstance⟩ := hmakes base [.none]
    cases hroot.symm.trans hroot'
    exact ((hinstance hplain).2.1 initFunction hnearest).1.run
  · obtain ⟨_, hroot', -, hinstance⟩ := hmakes base []
    cases hroot.symm.trans hroot'
    exact (((hinstance hplain).2.1 initFunction hnearest).2.2 2 rfl (by decide)).run
  · obtain ⟨_, hroot', -, hinstance⟩ := hmakes shadow []
    cases hroot.symm.trans hroot'
    exact (((hinstance hplain').2.2 hnone).1 rfl).run
  · obtain ⟨_, hroot', -, hinstance⟩ := hmakes shadow [.none]
    cases hroot.symm.trans hroot'
    obtain ⟨e, hcls, hmessage, hfails⟩ := ((hinstance hplain').2.2 hnone).2 (List.cons_ne_nil _ _)
    rw [hname] at hmessage
    exact ⟨e, hcls, hmessage, hfails.run⟩
  · obtain ⟨_, hroot', hmade, -⟩ := hmakes appError [.bool true, .none]
    cases hroot.symm.trans hroot'
    obtain ⟨e, hcls, hmessage, -, hdone⟩ := hmade hexception
    exact ⟨e, hcls, hmessage, hdone.run⟩

end ObjectHost
