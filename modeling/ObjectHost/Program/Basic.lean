-- SUMMARY: Programs that run on the host, as trees of requests, and how the host runs them.
import ObjectHost.Host.Basic

/-!
# Programs

Running code, whether the body of a function or a module factory, is a program:
a tree that makes one request of the host at a time and branches on the reply.
Nothing else can change the host, so what holds of every request holds of every
program.

Programs also carry a state of their own language, the guest. What a body does
is known to the guest alone; the host only knows bodies by their code. Bodies
nest, and the runner that enters them bounds how deeply.
-/

namespace ObjectHost

/-- What a module factory is told: the realm it works for, the name it was found under and the name its module
    goes by. -/
structure Context where
  realm : RealmId
  fqName : String
  declaredName : String
deriving DecidableEq

def Context.isMain (c : Context) : Bool := decide (c.declaredName = Builtin.mainModule)

/-! ## Requests -/

/-- What a program can ask of its host. -/
inductive Request (σ : Type) where
  /-- Look at the host; nothing changes. -/
  | observe
  /-- Change the state of the guest; the reply is the state before. -/
  | guest (change : σ → σ)
  | define (realm : RealmId) (name : String) (parent : Option Class) (members : List (String × Value))
  | newInstance (cls : Class)
  | newException (realm : RealmId) (name : String) (message : Value)
  | makeException (realm : RealmId) (cls : Class) (args : List Value)
  | newFunction (name : String) (arity : Option Nat) (code : Code)
  | newMethod (receiver : Value) (callable : Function)
  | newModule (fqName declaredName : String) (file : Option String) (cls : Option Class)
  | setAttribute (id : ObjectId) (name : String) (v : Value)
  | register (realm : RealmId) (name : String) (factory : Code)
  | boot (config : Config)
  /-- Run the body of a function. -/
  | call (f : Function) (args : List Value)
  /-- Give the cached module of the context, running its factory if there is none. -/
  | load (ctx : Context)
  /-- Run a factory for its own sake, past the cache. -/
  | enter (ctx : Context)

abbrev Request.Reply {σ : Type} : Request σ → Type
  | .observe => Host
  | .guest _ => σ
  | .define .. => Except ObjectError Class
  | .newInstance _ => Instance
  | .newException .. => Exception
  | .makeException .. => Except ObjectError Exception
  | .newFunction .. => Function
  | .newMethod .. => Method
  | .newModule .. => Module
  | .setAttribute .. => Unit
  | .register .. => Bool
  | .boot _ => Except ObjectError RealmId
  | .call .. => Except Raised Value
  | .load _ => Except Raised Module
  | .enter _ => Except Raised Module

inductive Program (σ α : Type) where
  | done (result : α)
  | ask (request : Request σ) (next : request.Reply → Program σ α)

namespace Program

variable {σ α β γ : Type}

def bind : Program σ α → (α → Program σ β) → Program σ β
  | .done a, f => f a
  | .ask request next, f => .ask request fun reply => (next reply).bind f

instance : Monad (Program σ) where
  pure := .done
  bind := bind

theorem bind_assoc (p : Program σ α) (f : α → Program σ β) (g : β → Program σ γ) :
    (p.bind f).bind g = p.bind fun a => (f a).bind g := by
  induction p with
  | done a => rfl
  | ask request next ih => simp only [bind]; congr 1; funext reply; exact ih reply

theorem bind_done (p : Program σ α) : p.bind .done = p := by
  induction p with
  | done a => rfl
  | ask request next ih => simp only [bind]; congr 1; funext reply; exact ih reply

/-- The program of one request. -/
def send (request : Request σ) : Program σ request.Reply := .ask request .done

end Program

/-! ## Running -/

structure World (σ : Type) where
  host : Host
  guest : σ

/-- How bodies are run. -/
structure Runner (σ : Type) where
  call : Code → List Value → World σ → Except Raised Value × World σ
  load : Code → Context → World σ → Except Raised Module × World σ

namespace World

variable {σ : Type}

def modifyLoader (w : World σ) (id : RealmId) (f : Loader → Loader) : World σ :=
  { w with host := w.host.modifyLoader id f }

/-- Fails with a new managed exception. -/
def raise {α : Type} (w : World σ) (id : RealmId) (name message : String) : Except Raised α × World σ :=
  let (e, host) := w.host.newException id name (.str message)
  (.error (.exception e), { w with host := host })

def importError {α : Type} (w : World σ) (id : RealmId) (name : String) : Except Raised α × World σ :=
  w.raise id Builtin.importError ("Could not import \"" ++ name ++ "\".")

/-- A fixed number of arguments is checked before the body is entered. -/
def call (run : Runner σ) (f : Function) (args : List Value) (w : World σ) :
    Except Raised Value × World σ :=
  match f.arity with
  | none => run.call f.code args w
  | some expected =>
    if args.length = expected then run.call f.code args w
    else (.error (.host (.arity f.name expected args.length)), w)

/-- The cached module if there is one. Otherwise the registered factory is run, counted as loading while it runs,
    and its module is cached; a failing run caches nothing itself. -/
def load (run : Runner σ) (ctx : Context) (w : World σ) : Except Raised Module × World σ :=
  let realm := w.host.realm ctx.realm
  match realm.loader.cache.get? ctx.fqName with
  | some m => (.ok m, w)
  | none =>
    match realm.factories.get? ctx.fqName with
    | none => w.importError ctx.realm ctx.fqName
    | some factory =>
      if realm.loader.isLoading ctx.fqName && decide (realm.config.cycles = .failFast) then
        w.raise ctx.realm Builtin.importError
          ("Cyclic import of \"" ++ ctx.fqName ++ "\" while it is still initializing.")
      else
        match run.load factory ctx (w.modifyLoader ctx.realm (·.begin ctx.fqName)) with
        | (.ok m, w) => (.ok m, w.modifyLoader ctx.realm (·.finish ctx.fqName m))
        | (.error e, w) => (.error e, w.modifyLoader ctx.realm (·.abandon ctx.fqName))

/-- Runs the registered factory whether or not its module is cached or loading, and caches nothing. -/
def enter (run : Runner σ) (ctx : Context) (w : World σ) : Except Raised Module × World σ :=
  match (w.host.realm ctx.realm).factories.get? ctx.fqName with
  | none => w.importError ctx.realm ctx.fqName
  | some factory =>
    match run.load factory ctx (w.modifyLoader ctx.realm (·.record (.began .entry ctx.fqName))) with
    | (.ok m, w) => (.ok m, w.modifyLoader ctx.realm (·.record (.returned .entry ctx.fqName m)))
    | (.error e, w) => (.error e, w.modifyLoader ctx.realm (·.record (.failed .entry ctx.fqName)))

end World

/-- An operation of the host leaves the guest alone. -/
def World.onHost {σ ρ : Type} (w : World σ) (f : Host → ρ × Host) : ρ × World σ :=
  let (reply, host) := f w.host
  (reply, { w with host := host })

def Request.answer {σ : Type} (run : Runner σ) (w : World σ) : (request : Request σ) → request.Reply × World σ
  | .observe => (w.host, w)
  | .guest change => (w.guest, { w with guest := change w.guest })
  | .define realm name parent members => w.onHost fun h => h.define realm name parent members
  | .newInstance cls => w.onHost fun h => h.newInstance cls
  | .newException realm name message => w.onHost fun h => h.newException realm name message
  | .makeException realm cls args => w.onHost fun h => h.makeException realm cls args
  | .newFunction name arity code => w.onHost fun h => h.newFunction name arity code
  | .newMethod receiver callable => w.onHost fun h => h.newMethod receiver callable
  | .newModule fqName declaredName file cls => w.onHost fun h => h.newModule fqName declaredName file cls
  | .setAttribute id name v => w.onHost fun h => ((), h.setAttribute id name v)
  | .register realm name factory => w.onHost fun h => h.register realm name factory
  | .boot config => w.onHost fun h => h.boot config
  | .call f args => w.call run f args
  | .load ctx => w.load run ctx
  | .enter ctx => w.enter run ctx

def Program.run {σ α : Type} (runner : Runner σ) : Program σ α → World σ → α × World σ
  | .done a, w => (a, w)
  | .ask request next, w =>
    let (reply, w) := request.answer runner w
    (next reply).run runner w

theorem Program.run_bind {σ α β : Type} (runner : Runner σ) (p : Program σ α) (f : α → Program σ β)
    (w : World σ) :
    (p.bind f).run runner w = (f (p.run runner w).1).run runner (p.run runner w).2 := by
  induction p generalizing w with
  | done a => rfl
  | ask request next ih => exact ih _ _

/-! ## Guests -/

/-- A program that can fail. -/
abbrev Task (σ : Type) := ExceptT Raised (Program σ)

/-- A guest language: what each of its bodies does. -/
structure Guest (σ : Type) where
  call : Code → List Value → Task σ Value
  load : Code → Context → Task σ Module

def depthLimit : HostFailure := .other "depth limit"

/-- Runs bodies nested at most `levels` deep; the next one fails without running. -/
def Guest.runner {σ : Type} (g : Guest σ) : (levels : Nat) → Runner σ
  | 0 => ⟨fun _ _ w => (.error (.host depthLimit), w), fun _ _ w => (.error (.host depthLimit), w)⟩
  | levels + 1 =>
    let inner := g.runner levels
    ⟨fun code args w => (g.call code args).run.run inner w, fun code ctx w => (g.load code ctx).run.run inner w⟩

end ObjectHost
