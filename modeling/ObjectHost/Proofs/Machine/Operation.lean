-- SUMMARY: The operations that code works with, by the requests that each makes, and what asking for a module comes to.
import ObjectHost.Proofs.Machine.Frame

/-!
# Operations

Code is written in terms of the operations of the host. Some of them are single
requests; the others are programs of several requests, and these are code of the
host and not of whoever uses them. Each of those is given here by the requests
that it makes, and nothing further on has to open it. What is proved of every
operation holds of all code, whatever it does in between.
-/

namespace ObjectHost

variable {σ α β γ : Type}

/-! ## Asking for a module -/

/-- The ways of asking for a module. -/
inductive Fetch where
  | load (ctx : Context)
  | resolved (realm : RealmId) (name : String)
  | named (realm : RealmId) (requested caller : String)
  /-- As an entry, past the cache. -/
  | entry (realm : RealmId) (target : String) (displayName : Option String)

namespace Fetch

def task : Fetch → Task σ Module
  | .load ctx => loadModule ctx
  | .resolved realm name => loadResolved realm name
  | .named realm requested caller => importModule realm requested caller
  | .entry realm target displayName => runModule realm target displayName

def realm : Fetch → RealmId
  | .load ctx => ctx.realm
  | .resolved realm _ => realm
  | .named realm .. => realm
  | .entry realm .. => realm

/-- The module that is meant, and what for. A requested name that stands for nothing registered means none. -/
def target? (h : Host) : Fetch → Option (Purpose × Context)
  | .load ctx => some (.caching, ctx)
  | .resolved realm name => some (.caching, ⟨realm, name, name⟩)
  | .named realm requested caller =>
    ((h.realm realm).resolve? requested caller).map fun r => (.caching, ⟨realm, r.name, r.name⟩)
  | .entry realm target displayName => some (.entry, ⟨realm, target, displayName.getD target⟩)

variable {fetch : Fetch} {g : Guest σ} {room : Option Nat} {w w' : World σ} {purpose : Purpose} {ctx : Context}
  {r : Except Raised Module}

/-- An import looks up what is meant, and all else is what the request for that module comes to. -/
theorem ends_of_obtain (htarget : fetch.target? w.host = some (purpose, ctx))
    (hobtain : ∃ j, (Moment.step g room)^[j] (Thread.obtain g room purpose ctx .done w) = ⟨.active (.done r), w'⟩) :
    fetch.task.run.Ends g room w r w' := by
  obtain ⟨j, hj⟩ := hobtain
  cases fetch with
  | load ctx =>
    cases htarget
    exact ⟨j + 1, hj⟩
  | resolved realm name =>
    cases htarget
    exact ⟨j + 1, hj⟩
  | named realm requested caller =>
    obtain ⟨resolution, hresolve, heq⟩ := Option.map_eq_some_iff.1 htarget
    cases heq
    refine Program.Ends.observe ?_
    simp only [hresolve]
    exact ⟨j + 1, hj⟩
  | entry realm target displayName =>
    cases htarget
    exact ⟨j + 1, hj⟩

/-- What the factory comes to is what is given for the module. -/
theorem ends_of_factory {factory : Code} {w₁ : World σ} (htarget : fetch.target? w.host = some (purpose, ctx))
    (hstart : w.start purpose ctx = .inr factory)
    (hbody : (g.loadBody room factory ctx).Ends g (room.map (· - 1)) (w.opened purpose ctx) r w₁) :
    fetch.task.run.Ends g room w r (w₁.closed purpose ctx r) :=
  ends_of_obtain htarget (Program.Ends.of_factory hstart hbody)

end Fetch

theorem Context.ends_newModule {g : Guest σ} {room : Option Nat} (ctx : Context) (w : World σ) :
    ∃ m w', (ctx.newModule : Program σ Module).Ends g room w m w' ∧
      m.fqName = ctx.fqName ∧ w'.host.realms = w.host.realms :=
  ⟨_, _, .of_step rfl (.of_step rfl (.done _ _)), rfl, rfl⟩

/-! ## Running a module -/

namespace Frames

variable {g : Guest σ} {room : Option Nat} {w : World σ} {id : RealmId} {target : String}

/-- A registered factory is entered whatever is cached or loading. -/
theorem step_runModule_of_some (frames : Frames σ α β) (displayName : Option String)
    (next : Except Raised Module → Program σ β) {factory : Code}
    (h : (w.host.realm id).factories.get? target = some factory) :
    let ctx : Context := ⟨id, target, displayName.getD target⟩
    Moment.step g room ⟨frames.fill (.active ((runModule id target displayName).run.bind next)), w⟩ =
      ⟨frames.fill (.running .entry ctx (.active (g.loadBody (frames.room room) factory ctx)) next),
        w.opened .entry ctx⟩ := by
  intro ctx
  have hstart : w.start .entry ctx = .inr factory := World.start_eq_inr.2 ⟨h, fun hpurpose => by cases hpurpose⟩
  refine (frames.step_fill rfl w).trans ?_
  change (⟨frames.fill (Thread.obtain g (frames.room room) .entry ctx next w).thread,
    (Thread.obtain g (frames.room room) .entry ctx next w).world⟩ : Moment σ α) = _
  simp only [Thread.obtain, hstart]

theorem step_runModule_of_none (frames : Frames σ α β) (displayName : Option String)
    (next : Except Raised Module → Program σ β) (h : (w.host.realm id).factories.get? target = none) :
    Moment.step g room ⟨frames.fill (.active ((runModule id target displayName).run.bind next)), w⟩ =
      ⟨frames.fill (.active (next (w.importError id target).1)), (w.importError (α := Module) id target).2⟩ := by
  have hstart : w.start .entry ⟨id, target, displayName.getD target⟩ = .inl (w.importError id target) := by
    simp only [World.start, h]
  refine (frames.step_fill rfl w).trans ?_
  change (⟨frames.fill (Thread.obtain g (frames.room room) .entry _ next w).thread,
    (Thread.obtain g (frames.room room) .entry _ next w).world⟩ : Moment σ α) = _
  simp only [Thread.obtain, hstart]

end Frames

/-! ## Failures that are raised -/

/-- The builtin class of the exception that a fault in the bookkeeping is raised as, if it is raised as one. -/
def ObjectError.managed? : ObjectError → Option String
  | .missingClass _ => some Builtin.attributeError
  | .notAnException _ => some Builtin.typeError
  | .unknownClass _ => some Builtin.nameError
  | .duplicateDefinition _ => none

theorem raisedOf_eq (realm : RealmId) (e : ObjectError) :
    (raisedOf realm e : Program σ Raised) = match e.managed? with
      | some name => .ask (.newException realm name (.str e.message)) fun made => .done (.exception made)
      | none => .done (.host (.other e.message)) := by
  cases e <;> rfl

theorem describe_run (realm : RealmId) (m : Method) :
    (describe realm m : Task σ String).run = match m.describe with
      | .ok text => .done (.ok text)
      | .error e => (raisedOf realm e).bind fun r => .done (.error r) := by
  unfold describe
  cases m.describe with
  | ok text => rfl
  | error e => exact Program.bind_assoc (raisedOf realm e) (Program.done ∘ Except.ok) (ExceptT.bindCont Task.fail)

/-! ## Attributes -/

/-- What an object has under a name: a value as it is, a function to be bound to the object, or nothing. -/
inductive Reading where
  | value (v : Value)
  | method (f : Function)
  | nothing

namespace Reading

def ofOption : Option Value → Reading
  | some v => .value v
  | none => .nothing

/-- A member that is read off an object of the class. -/
def ofMember : Option Value → Reading
  | some (.function f) => .method f
  | member => .ofOption member

/-- What is answered with for a reading, or nothing. -/
def found (obj : Value) : Reading → Program σ (Option Value)
  | .value v => .done (some v)
  | .method f => .ask (.newMethod obj f) fun m => .done (some m.toValue)
  | .nothing => .done none

end Reading

def Host.reading (h : Host) (obj : Value) (name : String) : Reading :=
  match obj with
  | .inst i =>
    match (h.heap.attributes i.id).get? name with
    | some v => .value v
    | none => .ofMember (h.lookup? i.cls name)
  | .exception _ cls message _ =>
    if name = Builtin.messageAttribute then .value message else .ofMember (h.lookup? cls name)
  | .module m => .ofOption (h.moduleAttribute? m name)
  | .cls c => .ofOption (h.lookup? c name)
  | _ => .nothing

theorem inherited_eq (obj : Value) (name : String) (h : Host) (cls : Class) :
    (attribute?.inherited obj name h cls : Program σ _) = (Reading.ofMember (h.lookup? cls name)).found obj := by
  unfold attribute?.inherited
  cases h.lookup? cls name with
  | none => rfl
  | some member => cases member <;> rfl

theorem attribute?_eq (obj : Value) (name : String) :
    (attribute? obj name : Program σ _) = .ask .observe fun h => (h.reading obj name).found obj := by
  refine congrArg (Program.ask _) (funext fun h => ?_)
  unfold Host.reading
  cases obj with
  | inst i =>
    dsimp only
    cases hown : (h.heap.attributes i.id).get? name with
    | some v => simp only [Program.bind, hown]; rfl
    | none =>
      simp only [Program.bind, hown]
      exact inherited_eq (.inst i) name h i.cls
  | exception id cls message qualifier =>
    dsimp only [Program.bind]
    split
    next => rfl
    next => exact inherited_eq _ name h cls
  | module m =>
    dsimp only [Program.bind]
    cases h.moduleAttribute? m name <;> rfl
  | cls c =>
    dsimp only [Program.bind]
    cases h.lookup? c name <;> rfl
  | _ => rfl

/-- A look at the host tells what there is under the name, and then the method or the exception is made. -/
theorem getAttribute_run (realm : RealmId) (obj : Value) (name : String) :
    (getAttribute realm obj name : Task σ Value).run = .ask .observe fun h =>
      match h.reading obj name with
      | .value v => .done (.ok v)
      | .method f => .ask (.newMethod obj f) fun m => .done (.ok m.toValue)
      | .nothing => (Task.raise realm Builtin.attributeError (.str (noAttribute obj name)) : Task σ Value).run := by
  have hbind : (getAttribute realm obj name : Task σ Value).run = (attribute? obj name).bind fun
      | some v => .done (.ok v)
      | none => (Task.raise realm Builtin.attributeError (.str (noAttribute obj name)) : Task σ Value).run :=
    Program.bind_assoc _ _ _
  rw [hbind, attribute?_eq]
  refine congrArg (Program.ask _) (funext fun h => ?_)
  dsimp only
  cases h.reading obj name <;> rfl

/-! ## Instances -/

namespace Host

/-- The function that initialises the instances of a class. A member that is no function hides those above it. -/
def initialiser? (h : Host) (cls : Class) : Option Function :=
  match h.lookup? cls Builtin.initMember with
  | some (.function f) => some f
  | _ => none

variable {h : Host} {cls : Class}

theorem initialiser?_eq_some_iff {f : Function} :
    h.initialiser? cls = some f ↔ h.lookup? cls Builtin.initMember = some (.function f) := by
  unfold initialiser?
  constructor
  · intro hinit
    split at hinit
    next f' hlookup =>
      cases hinit
      exact hlookup
    next => cases hinit
  · intro hlookup
    rw [hlookup]

theorem initialiser?_eq_none_iff :
    h.initialiser? cls = none ↔ ∀ f, h.lookup? cls Builtin.initMember ≠ some (.function f) := by
  simp only [Option.eq_none_iff_forall_ne_some, ne_eq, initialiser?_eq_some_iff]

end Host

def tooManyArguments (cls : Class) (given : Nat) : String :=
  cls.name ++ "() takes no arguments (" ++ toString given ++ " given)"

/-- What is done to a new instance of `cls`. -/
def initialise (h : Host) (id : RealmId) (cls : Class) (args : List Value) (i : Instance) :
    Program σ (Except Raised Value) :=
  match h.initialiser? cls with
  | some f => .ask (.newMethod (.inst i) f) fun m => (invoke m args).run.bind fun r => .done (r.map fun _ => .inst i)
  | none =>
    if args.isEmpty then .done (.ok (.inst i))
    else (Task.raise id Builtin.typeError (.str (tooManyArguments cls args.length))).run

theorem instantiate_run (id : RealmId) (cls : Class) (args : List Value) :
    (instantiate id cls args : Task σ Value).run = .ask .observe fun h =>
      if (h.realm id).taxonomy.isExceptionClass cls = true then
        .ask (.makeException id cls args) fun
          | .ok e => .done (.ok e.toValue)
          | .error e => (raisedOf id e).bind fun r => .done (.error r)
      else .ask (.newInstance cls) (initialise h id cls args) := by
  refine congrArg (Program.ask _) (funext fun h => ?_)
  change (if (h.realm id).taxonomy.isExceptionClass cls = true then _ else _ : Program σ _) = _
  split
  next =>
    refine congrArg (Program.ask _) (funext fun made => ?_)
    cases made with
    | ok e => rfl
    | error e => exact Program.bind_assoc (raisedOf id e) (Program.done ∘ Except.ok) (ExceptT.bindCont Task.fail)
  next =>
    refine congrArg (Program.ask _) (funext fun i => ?_)
    unfold initialise
    split
    next f hlookup =>
      rw [Host.initialiser?_eq_some_iff.2 hlookup]
      refine congrArg (Program.ask _) (funext fun m => ?_)
      refine congrArg (Program.ask _) (funext fun r => ?_)
      cases r <;> rfl
    next hlookup =>
      rw [Host.initialiser?_eq_none_iff.2 hlookup]
      dsimp only
      split <;> rfl

/-! ## Imports -/

/-- An import observes the realm, and then loads what is meant or fails. -/
theorem importModule_run (id : RealmId) (requested caller : String) :
    (importModule id requested caller : Task σ Module).run =
      .ask .observe fun h =>
        match (h.realm id).resolve? requested caller with
        | some r => .send (.load ⟨id, r.name, r.name⟩)
        | none => (raiseImportError id requested : Task σ Module).run :=
  rfl

def noModuleAttribute (name : String) : String := "'module' object has no attribute '" ++ name ++ "'"

theorem importFrom_run (id : RealmId) (m : Module) (name : String) :
    (importFrom id m name : Task σ Value).run =
      .ask .observe fun h =>
        match h.moduleAttribute? m name with
        | some v => .done (.ok v)
        | none => (Task.raise id Builtin.attributeError (.str (noModuleAttribute name)) : Task σ Value).run := by
  refine congrArg (Program.ask _) (funext fun h => ?_)
  change ExceptT.bindCont _ (.ok (h.moduleAttribute? m name)) = _
  cases h.moduleAttribute? m name <;> rfl

/-! ## Operations -/

/-- What code can do: a request by itself, or an operation made of several. The type is that of the result. -/
inductive Operation (σ : Type) : Type → Type 1 where
  | request (asked : Request σ) : Operation σ asked.Reply
  | raise (realm : RealmId) (name : String) (message : Value) : Operation σ (Except Raised Empty)
  | importError (realm : RealmId) (name : String) : Operation σ (Except Raised Empty)
  | raisedOf (realm : RealmId) (e : ObjectError) : Operation σ Raised
  | exceptionify (realm : RealmId) (r : Raised) : Operation σ Raised
  | catchAs (realm : RealmId) (r : Raised) (cls : Class) : Operation σ (Except Raised Exception)
  | bindMethod (receiver : Value) (callable : Function) : Operation σ Method
  | callFunction (f : Function) (args : List Value) : Operation σ (Except Raised Value)
  | invoke (m : Method) (args : List Value) : Operation σ (Except Raised Value)
  | describe (realm : RealmId) (m : Method) : Operation σ (Except Raised String)
  | getAttribute (realm : RealmId) (obj : Value) (name : String) : Operation σ (Except Raised Value)
  | instantiate (realm : RealmId) (cls : Class) (args : List Value) : Operation σ (Except Raised Value)
  | fetch (way : Fetch) : Operation σ (Except Raised Module)
  | importFrom (realm : RealmId) (m : Module) (name : String) : Operation σ (Except Raised Value)
  | newModule (ctx : Context) : Operation σ Module

def Operation.program : Operation σ β → Program σ β
  | .request asked => .send asked
  | .raise realm name message => (Task.raise realm name message : Task σ _).run
  | .importError realm name => (raiseImportError realm name : Task σ _).run
  | .raisedOf realm e => ObjectHost.raisedOf realm e
  | .exceptionify realm r => ObjectHost.exceptionify realm r
  | .catchAs realm r cls => ObjectHost.catchAs realm r cls
  | .bindMethod receiver callable => ObjectHost.bindMethod receiver callable
  | .callFunction f args => (ObjectHost.callFunction f args).run
  | .invoke m args => (ObjectHost.invoke m args).run
  | .describe realm m => (ObjectHost.describe realm m).run
  | .getAttribute realm obj name => (ObjectHost.getAttribute realm obj name).run
  | .instantiate realm cls args => (ObjectHost.instantiate realm cls args).run
  | .fetch way => way.task.run
  | .importFrom realm m name => (ObjectHost.importFrom realm m name).run
  | .newModule ctx => ctx.newModule

end ObjectHost
