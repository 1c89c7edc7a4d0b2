-- SUMMARY: Everything one step of a thread can do to the bodies it is inside of and to the host.
import ObjectHost.Proofs.Machine.Thread

/-!
# Transitions

A step either leaves the bodies of a thread alone and does one operation of the
host, or enters a body, or leaves one. What holds of every transition holds of
every step of every program.
-/

namespace ObjectHost

variable {σ α : Type}

/-- One step, seen by the bodies the thread is inside of and by the host. The first index is the factory run that
    the step leaves, if it leaves one. -/
inductive Transition : Option Ending → List Activity → Host → List Activity → Host → Prop where
  | idle (s : List Activity) (h : Host) : Transition none s h s h
  /-- An object is made. -/
  | grow (s : List Activity) (h : Host) : Transition none s h s ⟨h.realms, h.heap.grow⟩
  | setAttribute (s : List Activity) (h : Host) (id : ObjectId) (name : String) (v : Value) :
      Transition none s h s (h.setAttribute id name v)
  | define (s : List Activity) (h : Host) (id : RealmId) (name : String) (parent : Option Class)
      (members : List (String × Value)) : Transition none s h s (h.define id name parent members).2
  | register (s : List Activity) (h : Host) (id : RealmId) (name : String) (factory : Code) :
      Transition none s h s (h.register id name factory).2
  | boot (s : List Activity) (h : Host) (config : Config) : Transition none s h s (h.boot config).2
  | call (s : List Activity) (h : Host) : Transition none s h (.call :: s) h
  | leave (s : List Activity) (h : Host) : Transition none (.call :: s) h s h
  /-- A registered factory is entered. A run for the cache needs a name that is not cached and, where cycles fail,
      not loading either. -/
  | enter (s : List Activity) (h : Host) (purpose : Purpose) (ctx : Context) (factory : Code)
      (hreg : (h.realm ctx.realm).factories.get? ctx.fqName = some factory)
      (hfree : purpose = .caching →
        (h.realm ctx.realm).loader.cache.get? ctx.fqName = none ∧
        ((h.realm ctx.realm).loader.isLoading ctx.fqName = true →
          (h.realm ctx.realm).config.cycles ≠ .failFast)) :
      Transition none s h (.factory purpose ctx :: s)
        (h.modifyLoader ctx.realm fun l => l.opened purpose ctx.fqName)
  | finish (s : List Activity) (h : Host) (e : Ending) :
      Transition (some e) (.factory e.purpose e.ctx :: s) h s
        (h.modifyLoader e.ctx.realm fun l => l.closed e.purpose e.ctx.fqName e.result)

/-- What happens inside of a body happens inside of the bodies around it. -/
theorem Transition.inside {e : Option Ending} {s s' : List Activity} {h h' : Host}
    (ht : Transition e s h s' h') (outer : List Activity) :
    Transition e (s ++ outer) h (s' ++ outer) h' := by
  cases ht with
  | idle => exact .idle _ _
  | grow => exact .grow _ _
  | setAttribute _ _ id name v => exact .setAttribute _ _ id name v
  | define _ _ id name parent members => exact .define _ _ id name parent members
  | register _ _ id name factory => exact .register _ _ id name factory
  | boot _ _ config => exact .boot _ _ config
  | call => exact .call _ _
  | leave => exact .leave _ _
  | enter _ _ purpose ctx factory hreg hfree => exact .enter _ _ purpose ctx factory hreg hfree
  | finish _ _ e => exact .finish _ _ e

namespace World

/-- An answer given before any factory runs changes nothing, apart from the exception it may have made. -/
theorem host_of_start_eq_inl {w w' : World σ} {purpose : Purpose} {ctx : Context}
    {r : Except Raised Module} (h : w.start purpose ctx = .inl (r, w')) :
    w'.host = w.host ∨ w'.host = ⟨w.host.realms, w.host.heap.grow⟩ := by
  simp only [start] at h
  split at h
  · cases h
    exact .inl rfl
  · cases h
    exact .inr rfl
  · split at h
    · cases h
      exact .inr rfl
    · cases h
  · cases h

end World

namespace Thread

theorem transition_obtain (g : Guest σ) (room : Option Nat) (purpose : Purpose) (ctx : Context)
    (next : Except Raised Module → Program σ α) (w : World σ) :
    let m := obtain g room purpose ctx next w
    Transition none [] w.host m.thread.stack m.world.host := by
  unfold obtain
  split
  next r w' hstart =>
    rcases World.host_of_start_eq_inl hstart with hw | hw
    · simp only [stack, hw]
      exact .idle _ _
    · simp only [stack, hw]
      exact .grow _ _
  next factory hstart =>
    obtain ⟨hreg, hfree⟩ := World.start_eq_inr.1 hstart
    exact .enter _ _ purpose ctx factory hreg hfree

theorem transition_request (g : Guest σ) (room : Option Nat) (w : World σ) (request : Request σ)
    (next : request.Reply → Program σ α) :
    let m := Thread.request g room w request next
    Transition none [] w.host m.thread.stack m.world.host := by
  cases request with
  | observe => exact .idle _ _
  | guest change => exact .idle _ _
  | define realm name parent members => exact .define _ _ realm name parent members
  | newInstance cls => exact .grow _ _
  | newException realm name message => exact .grow _ _
  | makeException realm cls args =>
    simp only [Thread.request, Request.answer, World.onHost, Host.makeException]
    split
    · exact .grow _ _
    · exact .idle _ _
  | newFunction name arity code => exact .grow _ _
  | newMethod receiver callable => exact .grow _ _
  | newModule fqName declaredName file cls => exact .grow _ _
  | setAttribute id name v => exact .setAttribute _ _ id name v
  | register realm name factory => exact .register _ _ realm name factory
  | boot config => exact .boot _ _ config
  | call f args =>
    simp only [Thread.request]
    split
    · exact .idle _ _
    · exact .call _ _
  | load ctx => exact transition_obtain g room .caching ctx next w
  | enter ctx => exact transition_obtain g room .entry ctx next w

/-- A step is a transition, whichever body makes it. -/
theorem transition_step (g : Guest σ) (room : Option Nat) (t : Thread σ α) (w : World σ) :
    Transition t.ending? t.stack w.host (t.step g room w).thread.stack (t.step g room w).world.host := by
  induction t generalizing room w with
  | active p =>
    cases p with
    | done a => exact .idle _ _
    | ask request next => exact transition_request g room w request next
  | calling body next ih =>
    cases hr : body.result? with
    | some r =>
      cases result?_eq_some.1 hr
      exact .leave _ _
    | none =>
      simp only [step, hr, stack, ending?]
      exact (ih (room.map (· - 1)) w).inside [.call]
  | running purpose ctx body next ih =>
    cases hr : body.result? with
    | some r =>
      cases result?_eq_some.1 hr
      exact .finish [] w.host ⟨purpose, ctx, r⟩
    | none =>
      simp only [step, hr, stack, ending?]
      exact (ih (room.map (· - 1)) w).inside [.factory purpose ctx]

/-! ## Requests for modules -/

theorem result?_eq_none_of_wanted {t : Thread σ α} {want : Purpose × Context} (h : t.wanted? = some want) :
    t.result? = none := by
  cases hr : t.result? with
  | none => rfl
  | some a =>
    cases result?_eq_some.1 hr
    cases h

theorem ending?_eq_none_of_wanted {t : Thread σ α} {want : Purpose × Context} (h : t.wanted? = some want) :
    t.ending? = none := by
  induction t with
  | active p => rfl
  | calling body next ih => exact ih h
  | running purpose ctx body next ih =>
    have hbody : body.wanted? = some want := h
    simp only [ending?, result?_eq_none_of_wanted hbody]
    exact ih hbody

/-- A request for a module is answered, or its factory is entered, as the world says at that moment. -/
theorem step_wanted {g : Guest σ} {room : Option Nat} {t : Thread σ α} {purpose : Purpose} {ctx : Context}
    (h : t.wanted? = some (purpose, ctx)) (w : World σ) :
    t.step g room w = match w.start purpose ctx with
      | .inl (r, w') => ⟨t.answered r, w'⟩
      | .inr factory => ⟨t.entered g room purpose ctx factory, w.opened purpose ctx⟩ := by
  induction t generalizing room with
  | active p =>
    cases p with
    | done a => cases h
    | ask request next =>
      cases request with
      | load ctx' =>
        cases h
        change Thread.obtain g room .caching ctx next w = _
        unfold Thread.obtain
        cases w.start .caching ctx <;> rfl
      | enter ctx' =>
        cases h
        change Thread.obtain g room .entry ctx next w = _
        unfold Thread.obtain
        cases w.start .entry ctx <;> rfl
      | _ => cases h
  | calling body next ih =>
    have hbody : body.wanted? = some (purpose, ctx) := h
    simp only [step, result?_eq_none_of_wanted hbody, ih hbody]
    cases w.start purpose ctx <;> rfl
  | running purpose' ctx' body next ih =>
    have hbody : body.wanted? = some (purpose, ctx) := h
    simp only [step, result?_eq_none_of_wanted hbody, ih hbody]
    cases w.start purpose ctx <;> rfl

theorem stack_answered (r : Except Raised Module) (t : Thread σ α) : (t.answered r).stack = t.stack := by
  unfold answered
  generalize (none : Option Nat) = room
  induction t generalizing room with
  | active p =>
    cases p with
    | done a => rfl
    | ask request next => cases request <;> rfl
  | calling body next ih => simp only [resume, stack, ih]
  | running purpose ctx body next ih => simp only [resume, stack, ih]

end Thread

end ObjectHost
