-- SUMMARY: Programs step by step: threads with the bodies they have entered, and the moments of a run.
import Mathlib.Logic.Function.Iterate
import ObjectHost.Program.Import

/-!
# Threads

Running a program takes a body from its beginning to its end in one go. Here a
run is cut into steps, so that one can speak of what holds while a body runs: a
thread remembers the bodies it is inside of, and a moment is a thread in a
world. Bodies nest at most as deeply as there is room for; without a limit they
nest freely.
-/

namespace ObjectHost

variable {σ α β : Type}

/-! ## Bodies from outside -/

namespace Loader

/-- A factory run of `name` begins. Only runs for the cache count as loading. -/
def opened (l : Loader) (purpose : Purpose) (name : String) : Loader :=
  match purpose with
  | .caching => l.begin name
  | .entry => l.record (.began .entry name)

/-- A factory run of `name` ends with `result`. -/
def closed (l : Loader) (purpose : Purpose) (name : String) (result : Except Raised Module) : Loader :=
  match purpose, result with
  | .caching, .ok m => l.finish name m
  | .caching, .error _ => l.abandon name
  | .entry, .ok m => l.record (.returned .entry name m)
  | .entry, .error _ => l.record (.failed .entry name)

end Loader

namespace World

def opened (w : World σ) (purpose : Purpose) (ctx : Context) : World σ :=
  w.modifyLoader ctx.realm fun l => l.opened purpose ctx.fqName

def closed (w : World σ) (purpose : Purpose) (ctx : Context) (result : Except Raised Module) : World σ :=
  w.modifyLoader ctx.realm fun l => l.closed purpose ctx.fqName result

/-- What asking for a module comes to before any factory runs: an answer, or the factory to run. -/
def start (w : World σ) (purpose : Purpose) (ctx : Context) : (Except Raised Module × World σ) ⊕ Code :=
  let realm := w.host.realm ctx.realm
  match purpose, realm.loader.cache.get? ctx.fqName, realm.factories.get? ctx.fqName with
  | .caching, some m, _ => .inl (.ok m, w)
  | _, _, none => .inl (w.importError ctx.realm ctx.fqName)
  | .caching, none, some factory =>
    if realm.loader.isLoading ctx.fqName && decide (realm.config.cycles = .failFast) then
      .inl (w.raise ctx.realm Builtin.importError
        ("Cyclic import of \"" ++ ctx.fqName ++ "\" while it is still initializing."))
    else .inr factory
  | .entry, _, some factory => .inr factory

theorem load_eq (run : Runner σ) (ctx : Context) (w : World σ) :
    w.load run ctx = match w.start .caching ctx with
      | .inl answer => answer
      | .inr factory =>
        let (r, w) := run.load factory ctx (w.opened .caching ctx)
        (r, w.closed .caching ctx r) := by
  cases hc : (w.host.realm ctx.realm).loader.cache.get? ctx.fqName with
  | some m => simp [load, start, hc]
  | none =>
    cases hf : (w.host.realm ctx.realm).factories.get? ctx.fqName with
    | none => simp [load, start, hc, hf]
    | some factory =>
      simp only [load, start, hc, hf]
      split
      · rfl
      · simp only [opened, Loader.opened]
        split <;> next hrun => simp [hrun, closed, Loader.closed]

theorem enter_eq (run : Runner σ) (ctx : Context) (w : World σ) :
    w.enter run ctx = match w.start .entry ctx with
      | .inl answer => answer
      | .inr factory =>
        let (r, w) := run.load factory ctx (w.opened .entry ctx)
        (r, w.closed .entry ctx r) := by
  cases hf : (w.host.realm ctx.realm).factories.get? ctx.fqName with
  | none => simp [enter, start, hf]
  | some factory =>
    simp only [enter, start, hf, opened, Loader.opened]
    split <;> next hrun => simp [hrun, closed, Loader.closed]

/-- A module is answered at once exactly when it is cached. -/
theorem start_eq_inl_ok {w w' : World σ} {ctx : Context} {m : Module} :
    w.start .caching ctx = .inl (.ok m, w') ↔
      (w.host.realm ctx.realm).loader.cache.get? ctx.fqName = some m ∧ w' = w := by
  constructor
  · intro h
    cases hc : (w.host.realm ctx.realm).loader.cache.get? ctx.fqName with
    | some m' =>
      simp only [start, hc] at h
      cases h
      exact ⟨rfl, rfl⟩
    | none =>
      -- Every other answer given at once is an exception.
      simp only [start, hc] at h
      split at h
      · contradiction
      · cases h
      · split at h <;> cases h
      · contradiction
  · rintro ⟨hc, rfl⟩
    simp only [start, hc]

/-- What is refused at once is not cached. -/
theorem cache_of_start_eq_inl_error {w w' : World σ} {ctx : Context} {e : Raised}
    (h : w.start .caching ctx = .inl (.error e, w')) :
    (w.host.realm ctx.realm).loader.cache.get? ctx.fqName = none := by
  cases hc : (w.host.realm ctx.realm).loader.cache.get? ctx.fqName with
  | none => rfl
  | some m => simp [start, hc] at h

/-- A factory runs exactly when it is registered and, for the cache, when its module is not there yet and the
    policy allows it. -/
theorem start_eq_inr {w : World σ} {purpose : Purpose} {ctx : Context} {factory : Code} :
    w.start purpose ctx = .inr factory ↔
      (w.host.realm ctx.realm).factories.get? ctx.fqName = some factory ∧
        (purpose = .caching →
          (w.host.realm ctx.realm).loader.cache.get? ctx.fqName = none ∧
          ((w.host.realm ctx.realm).loader.isLoading ctx.fqName = true →
            (w.host.realm ctx.realm).config.cycles ≠ .failFast)) := by
  cases hc : (w.host.realm ctx.realm).loader.cache.get? ctx.fqName <;>
    cases hf : (w.host.realm ctx.realm).factories.get? ctx.fqName <;>
    cases purpose <;> simp [start, hc, hf]
  split <;> simp_all

end World

/-- The failure of a call that is refused before the body is entered. -/
def Function.refuses? (f : Function) (given : Nat) : Option HostFailure :=
  match f.arity with
  | none => none
  | some expected => if given = expected then none else some (.arity f.name expected given)

theorem World.call_eq (run : Runner σ) (f : Function) (args : List Value) (w : World σ) :
    w.call run f args = match f.refuses? args.length with
      | some failure => (.error (.host failure), w)
      | none => run.call f.code args w := by
  simp only [World.call, Function.refuses?]
  cases f.arity with
  | none => rfl
  | some expected => by_cases h : args.length = expected <;> simp [h]

namespace Guest

/-- The body of a function, replaced by a failure where there is no room for it. -/
def callBody (g : Guest σ) (room : Option Nat) (code : Code) (args : List Value) :
    Program σ (Except Raised Value) :=
  if room = some 0 then .done (.error (.host depthLimit)) else (g.call code args).run

def loadBody (g : Guest σ) (room : Option Nat) (factory : Code) (ctx : Context) :
    Program σ (Except Raised Module) :=
  if room = some 0 then .done (.error (.host depthLimit)) else (g.load factory ctx).run

end Guest

/-! ## Threads and moments -/

/-- A program under way: active, or waiting for a body that it entered. -/
inductive Thread (σ : Type) : Type → Type 1 where
  | active {α : Type} (p : Program σ α) : Thread σ α
  | calling {α : Type} (body : Thread σ (Except Raised Value))
      (next : Except Raised Value → Program σ α) : Thread σ α
  | running {α : Type} (purpose : Purpose) (ctx : Context) (body : Thread σ (Except Raised Module))
      (next : Except Raised Module → Program σ α) : Thread σ α

structure Moment (σ α : Type) where
  thread : Thread σ α
  world : World σ

namespace Thread

/-- What the thread has come to, once it has nothing more to do. -/
def result? : Thread σ α → Option α
  | .active (.done a) => some a
  | _ => none

/-- Asks for a module: the answer is there, or a factory is entered first. -/
def obtain (g : Guest σ) (room : Option Nat) (purpose : Purpose) (ctx : Context)
    (next : Except Raised Module → Program σ α) (w : World σ) : Moment σ α :=
  match w.start purpose ctx with
  | .inl (r, w) => ⟨.active (next r), w⟩
  | .inr factory =>
    ⟨.running purpose ctx (.active (g.loadBody room factory ctx)) next, w.opened purpose ctx⟩

/-- Makes one request. Calls and requests for modules may enter a body. The others run none, so that any runner
    gives their reply. -/
def request (g : Guest σ) (room : Option Nat) (w : World σ) :
    (request : Request σ) → (request.Reply → Program σ α) → Moment σ α
  | .call f args, next =>
    match f.refuses? args.length with
    | some failure => ⟨.active (next (.error (.host failure))), w⟩
    | none => ⟨.calling (.active (g.callBody room f.code args)) next, w⟩
  | .load ctx, next => obtain g room .caching ctx next w
  | .enter ctx, next => obtain g room .entry ctx next w
  | request, next =>
    let (reply, w) := request.answer (g.runner 0) w
    ⟨.active (next reply), w⟩

/-- One step: the innermost body makes a request, or ends and is left. -/
def step (g : Guest σ) : {α : Type} → (room : Option Nat) → Thread σ α → World σ → Moment σ α
  | _, _, .active (.done a), w => ⟨.active (.done a), w⟩
  | _, room, .active (.ask request next), w => Thread.request g room w request next
  | _, room, .calling body next, w =>
    match body.result? with
    | some r => ⟨.active (next r), w⟩
    | none =>
      let m := body.step g (room.map (· - 1)) w
      ⟨.calling m.thread next, m.world⟩
  | _, room, .running purpose ctx body next, w =>
    match body.result? with
    | some r => ⟨.active (next r), w.closed purpose ctx r⟩
    | none =>
      let m := body.step g (room.map (· - 1)) w
      ⟨.running purpose ctx m.thread next, m.world⟩

end Thread

/-- The next moment. -/
def Moment.step (g : Guest σ) (room : Option Nat) (m : Moment σ α) : Moment σ α :=
  m.thread.step g room m.world

/-- The moments of a program's run, one after another, from a host without realms on. -/
def moments (g : Guest σ) (room : Option Nat) (p : Program σ α) (s : σ) (k : Nat) : Moment σ α :=
  (Moment.step g room)^[k] ⟨.active p, ⟨.empty, s⟩⟩

/-! ## What a thread is about -/

/-- A body that a thread is inside of. -/
inductive Activity where
  | call
  | factory (purpose : Purpose) (ctx : Context)
deriving DecidableEq

instance decidableEqExcept {ε α : Type} [DecidableEq ε] [DecidableEq α] : DecidableEq (Except ε α)
  | .ok a, .ok b => decidable_of_iff (a = b) ⟨congrArg Except.ok, Except.ok.inj⟩
  | .error e, .error f => decidable_of_iff (e = f) ⟨congrArg Except.error, Except.error.inj⟩
  | .ok _, .error _ => .isFalse nofun
  | .error _, .ok _ => .isFalse nofun

/-- A factory run that has come to its end. -/
structure Ending where
  purpose : Purpose
  ctx : Context
  result : Except Raised Module
deriving DecidableEq

namespace Thread

/-- The bodies the thread is inside of, innermost first. -/
def stack : {α : Type} → Thread σ α → List Activity
  | _, .active _ => []
  | _, .calling body _ => body.stack ++ [.call]
  | _, .running purpose ctx body _ => body.stack ++ [.factory purpose ctx]

/-- The module that the innermost body asks for next, and why. -/
def wanted? : {α : Type} → Thread σ α → Option (Purpose × Context)
  | _, .active (.ask (.load ctx) _) => some (.caching, ctx)
  | _, .active (.ask (.enter ctx) _) => some (.entry, ctx)
  | _, .active _ => none
  | _, .calling body _ => body.wanted?
  | _, .running _ _ body _ => body.wanted?

/-- The thread with something else in place of a request for a module that its innermost body makes. What takes its
    place may depend on the room that is left there. -/
def resume (f : {β : Type} → Option Nat → (Except Raised Module → Program σ β) → Thread σ β) :
    {α : Type} → Option Nat → Thread σ α → Thread σ α
  | _, room, .active (.ask (.load _) next) => f room next
  | _, room, .active (.ask (.enter _) next) => f room next
  | _, _, .active p => .active p
  | _, room, .calling body next => .calling (body.resume f (room.map (· - 1))) next
  | _, room, .running purpose ctx body next => .running purpose ctx (body.resume f (room.map (· - 1))) next

/-- The innermost body goes on with `r` as the module it asked for. -/
def answered (r : Except Raised Module) (t : Thread σ α) : Thread σ α :=
  t.resume (fun _ next => .active (next r)) none

/-- The innermost body waits for the factory of the module it asked for. -/
def entered (g : Guest σ) (room : Option Nat) (purpose : Purpose) (ctx : Context) (factory : Code)
    (t : Thread σ α) : Thread σ α :=
  t.resume (fun room next => .running purpose ctx (.active (g.loadBody room factory ctx)) next) room

/-- The factory run that the next step leaves, with what it has come to. -/
def ending? : {α : Type} → Thread σ α → Option Ending
  | _, .active _ => none
  | _, .calling body _ => body.ending?
  | _, .running purpose ctx body _ =>
    match body.result? with
    | some r => some ⟨purpose, ctx, r⟩
    | none => body.ending?

theorem result?_eq_some {t : Thread σ α} {a : α} : t.result? = some a ↔ t = .active (.done a) := by
  constructor
  · intro h
    cases t with
    | active p =>
      cases p with
      | done b => cases h; rfl
      | ask request next => cases h
    | calling body next => cases h
    | running purpose ctx body next => cases h
  · rintro rfl
    rfl

end Thread

end ObjectHost
