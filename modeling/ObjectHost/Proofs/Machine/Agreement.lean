-- SUMMARY: Where a program ends, how the ends of programs compose, and that stepping and running end alike.
import ObjectHost.Proofs.Machine.Transition

/-!
# Ends

A program ends with a result once its thread has nothing more to do. With room
for a number of bodies, stepping a program ends exactly where running it does.
Without a limit, a program that ends at all ends as it does under every runner
that lets bodies nest deeply enough.
-/

namespace ObjectHost

variable {σ α β : Type}

/-- Run from `w`, the program ends with `a` in `w'`. -/
def Program.Ends (g : Guest σ) (room : Option Nat) (p : Program σ α) (w : World σ) (a : α) (w' : World σ) :
    Prop :=
  ∃ k, (Moment.step g room)^[k] ⟨.active p, w⟩ = ⟨.active (.done a), w'⟩

namespace Moment

variable {g : Guest σ} {room : Option Nat}

theorem step_done (a : α) (w : World σ) :
    Moment.step g room ⟨.active (.done a), w⟩ = ⟨.active (.done a), w⟩ :=
  rfl

/-- Where a part of a thread steps as the thread does until it comes to a result, a run of the part is a run of the
    thread. -/
theorem iterate_part {inner : Option Nat} {around : Thread σ β → Thread σ α}
    (hstep : ∀ t w, t.result? = none →
      (around t).step g room w = ⟨around (t.step g inner w).thread, (t.step g inner w).world⟩)
    {k : Nat} {t t' : Thread σ β} {w w' : World σ} (h : (Moment.step g inner)^[k] ⟨t, w⟩ = ⟨t', w'⟩) :
    ∃ j, (Moment.step g room)^[j] ⟨around t, w⟩ = ⟨around t', w'⟩ := by
  induction k generalizing t w with
  | zero =>
    cases h
    exact ⟨0, rfl⟩
  | succ k ih =>
    rw [Function.iterate_succ_apply] at h
    cases hr : t.result? with
    | some b =>
      -- A part that is over stays where it is, so the remaining steps do nothing.
      cases Thread.result?_eq_some.1 hr
      exact ih h
    | none =>
      obtain ⟨j, hj⟩ := ih h
      refine ⟨j + 1, ?_⟩
      rw [Function.iterate_succ_apply, ← hj]
      simp only [Moment.step, hstep t w hr]

/-- A call is over once its body is. -/
theorem iterate_calling {k : Nat} {t : Thread σ (Except Raised Value)} {w w' : World σ}
    {r : Except Raised Value} (next : Except Raised Value → Program σ α)
    (h : (Moment.step g (room.map (· - 1)))^[k] ⟨t, w⟩ = ⟨.active (.done r), w'⟩) :
    ∃ j, (Moment.step g room)^[j] ⟨.calling t next, w⟩ = ⟨.active (next r), w'⟩ := by
  have hstep : ∀ (t : Thread σ (Except Raised Value)) w, t.result? = none →
      (Thread.calling t next).step g room w = ⟨.calling (t.step g (room.map (· - 1)) w).thread next,
        (t.step g (room.map (· - 1)) w).world⟩ := fun t w hr => by simp only [Thread.step, hr]
  obtain ⟨j, hj⟩ := iterate_part hstep h
  refine ⟨j + 1, ?_⟩
  rw [Function.iterate_succ_apply', hj]
  rfl

/-- A factory run is over once its body is, and the loader learns of it. -/
theorem iterate_running {k : Nat} {t : Thread σ (Except Raised Module)} {w w' : World σ}
    {r : Except Raised Module} (purpose : Purpose) (ctx : Context)
    (next : Except Raised Module → Program σ α)
    (h : (Moment.step g (room.map (· - 1)))^[k] ⟨t, w⟩ = ⟨.active (.done r), w'⟩) :
    ∃ j, (Moment.step g room)^[j] ⟨.running purpose ctx t next, w⟩ =
      ⟨.active (next r), w'.closed purpose ctx r⟩ := by
  have hstep : ∀ (t : Thread σ (Except Raised Module)) w, t.result? = none →
      (Thread.running purpose ctx t next).step g room w =
        ⟨.running purpose ctx (t.step g (room.map (· - 1)) w).thread next,
          (t.step g (room.map (· - 1)) w).world⟩ := fun t w hr => by simp only [Thread.step, hr]
  obtain ⟨j, hj⟩ := iterate_part hstep h
  refine ⟨j + 1, ?_⟩
  rw [Function.iterate_succ_apply', hj]
  rfl

end Moment

/-! ## Composition -/

/-- The thread goes on with `f` once it has come to a result. -/
def Thread.bind (t : Thread σ α) (f : α → Program σ β) : Thread σ β :=
  match t with
  | .active p => .active (p.bind f)
  | .calling body next => .calling body fun r => (next r).bind f
  | .running purpose ctx body next => .running purpose ctx body fun r => (next r).bind f

theorem Thread.result?_bind {t : Thread σ α} (h : t.result? = none) (f : α → Program σ β) :
    (t.bind f).result? = none := by
  cases t with
  | active p =>
    cases p with
    | done a => cases h
    | ask request next => rfl
  | calling body next => rfl
  | running purpose ctx body next => rfl

theorem Thread.request_bind (g : Guest σ) (room : Option Nat) (w : World σ) (request : Request σ)
    (next : request.Reply → Program σ α) (f : α → Program σ β) :
    Thread.request g room w request (fun r => (next r).bind f) =
      ⟨(Thread.request g room w request next).thread.bind f,
        (Thread.request g room w request next).world⟩ := by
  cases request with
  | call function args =>
    simp only [Thread.request]
    split <;> rfl
  | load ctx =>
    simp only [Thread.request, Thread.obtain]
    split <;> rfl
  | enter ctx =>
    simp only [Thread.request, Thread.obtain]
    split <;> rfl
  | _ => rfl

theorem Thread.step_bind {g : Guest σ} {room : Option Nat} {t : Thread σ α} (h : t.result? = none)
    (f : α → Program σ β) (w : World σ) :
    (t.bind f).step g room w = ⟨(t.step g room w).thread.bind f, (t.step g room w).world⟩ := by
  cases t with
  | active p =>
    cases p with
    | done a => cases h
    | ask request next => exact Thread.request_bind g room w request next f
  | calling body next =>
    simp only [Thread.bind, Thread.step]
    split <;> rfl
  | running purpose ctx body next =>
    simp only [Thread.bind, Thread.step]
    split <;> rfl

theorem Moment.iterate_bind {g : Guest σ} {room : Option Nat} {k : Nat} {t : Thread σ α} {w w' : World σ}
    {a : α} (f : α → Program σ β)
    (h : (Moment.step g room)^[k] ⟨t, w⟩ = ⟨.active (.done a), w'⟩) :
    ∃ j, (Moment.step g room)^[j] ⟨t.bind f, w⟩ = ⟨.active (f a), w'⟩ :=
  iterate_part (fun _ w hr => Thread.step_bind hr f w) h

namespace Program

variable {g : Guest σ} {room : Option Nat}

namespace Ends

theorem done (a : α) (w : World σ) : (Program.done a).Ends g room w a w := ⟨0, rfl⟩

theorem of_step {p p' : Program σ α} {w w₁ w' : World σ} {a : α}
    (hstep : Moment.step g room ⟨.active p, w⟩ = ⟨.active p', w₁⟩) (h : p'.Ends g room w₁ a w') :
    p.Ends g room w a w' := by
  obtain ⟨k, hk⟩ := h
  refine ⟨k + 1, ?_⟩
  rw [Function.iterate_succ_apply, hstep, hk]

theorem observe {next : Host → Program σ α} {w w' : World σ} {a : α} (h : (next w.host).Ends g room w a w') :
    (Program.ask .observe next).Ends g room w a w' :=
  .of_step rfl h

theorem bind {p : Program σ α} {f : α → Program σ β} {w w₁ w' : World σ} {a : α} {b : β}
    (hp : p.Ends g room w a w₁) (hf : (f a).Ends g room w₁ b w') : (p.bind f).Ends g room w b w' := by
  obtain ⟨k, hk⟩ := hp
  obtain ⟨j, hj⟩ := Moment.iterate_bind f hk
  obtain ⟨i, hi⟩ := hf
  refine ⟨i + j, ?_⟩
  rw [Function.iterate_add_apply]
  exact (congrArg _ hj).trans hi

/-- A program has one end. -/
theorem unique {p : Program σ α} {w w₁ w₂ : World σ} {a b : α} (h₁ : p.Ends g room w a w₁)
    (h₂ : p.Ends g room w b w₂) : a = b ∧ w₁ = w₂ := by
  obtain ⟨k, hk⟩ := h₁
  obtain ⟨j, hj⟩ := h₂
  -- Both ends are still there after all the steps of both runs.
  have hk' : (Moment.step g room)^[j + k] ⟨.active p, w⟩ = ⟨.active (.done a), w₁⟩ := by
    rw [Function.iterate_add_apply, hk, Function.iterate_fixed (Moment.step_done a w₁)]
  have hj' : (Moment.step g room)^[j + k] ⟨.active p, w⟩ = ⟨.active (.done b), w₂⟩ := by
    rw [Nat.add_comm, Function.iterate_add_apply, hj, Function.iterate_fixed (Moment.step_done b w₂)]
  rw [hk'] at hj'
  cases hj'
  exact ⟨rfl, rfl⟩

/-- Asking for a module that needs no factory run. -/
theorem of_answer {purpose : Purpose} {ctx : Context} {w w' : World σ} {r : Except Raised Module}
    (hstart : w.start purpose ctx = .inl (r, w')) :
    (Moment.step g room)^[0] (Thread.obtain g room purpose ctx .done w) = ⟨.active (.done r), w'⟩ := by
  simp only [Thread.obtain, hstart, Function.iterate_zero, id]

/-- Asking for a module whose factory has to run. -/
theorem of_factory {purpose : Purpose} {ctx : Context} {factory : Code} {w w₁ : World σ}
    {r : Except Raised Module} (hstart : w.start purpose ctx = .inr factory)
    (hbody : (g.loadBody room factory ctx).Ends g (room.map (· - 1)) (w.opened purpose ctx) r w₁) :
    ∃ j, (Moment.step g room)^[j] (Thread.obtain g room purpose ctx .done w) =
      ⟨.active (.done r), w₁.closed purpose ctx r⟩ := by
  obtain ⟨k, hk⟩ := hbody
  obtain ⟨j, hj⟩ := Moment.iterate_running purpose ctx .done hk
  exact ⟨j, by simp only [Thread.obtain, hstart, hj]⟩

theorem load_answer {ctx : Context} {w w' : World σ} {r : Except Raised Module}
    (hstart : w.start .caching ctx = .inl (r, w')) : (Program.send (.load ctx)).Ends g room w r w' :=
  ⟨1, of_answer hstart⟩

theorem load_factory {ctx : Context} {factory : Code} {w w₁ : World σ} {r : Except Raised Module}
    (hstart : w.start .caching ctx = .inr factory)
    (hbody : (g.loadBody room factory ctx).Ends g (room.map (· - 1)) (w.opened .caching ctx) r w₁) :
    (Program.send (.load ctx)).Ends g room w r (w₁.closed .caching ctx r) := by
  obtain ⟨j, hj⟩ := of_factory hstart hbody
  exact ⟨j + 1, hj⟩

theorem enter_answer {ctx : Context} {w w' : World σ} {r : Except Raised Module}
    (hstart : w.start .entry ctx = .inl (r, w')) : (Program.send (.enter ctx)).Ends g room w r w' :=
  ⟨1, of_answer hstart⟩

theorem enter_factory {ctx : Context} {factory : Code} {w w₁ : World σ} {r : Except Raised Module}
    (hstart : w.start .entry ctx = .inr factory)
    (hbody : (g.loadBody room factory ctx).Ends g (room.map (· - 1)) (w.opened .entry ctx) r w₁) :
    (Program.send (.enter ctx)).Ends g room w r (w₁.closed .entry ctx r) := by
  obtain ⟨j, hj⟩ := of_factory hstart hbody
  exact ⟨j + 1, hj⟩

theorem call_refused {f : Function} {args : List Value} {failure : HostFailure} {w : World σ}
    (hrefuse : f.refuses? args.length = some failure) :
    (Program.send (.call f args)).Ends g room w (.error (.host failure)) w := by
  refine ⟨1, ?_⟩
  change Thread.request g room w (.call f args) .done = _
  simp only [Thread.request, hrefuse]

theorem call_body {f : Function} {args : List Value} {w w' : World σ} {r : Except Raised Value}
    (hrefuse : f.refuses? args.length = none)
    (hbody : (g.callBody room f.code args).Ends g (room.map (· - 1)) w r w') :
    (Program.send (.call f args)).Ends g room w r w' := by
  obtain ⟨k, hk⟩ := hbody
  obtain ⟨j, hj⟩ := Moment.iterate_calling .done hk
  refine ⟨j + 1, ?_⟩
  rw [Function.iterate_succ_apply, ← hj]
  change _ = (Moment.step g room)^[j] (⟨_, _⟩ : Moment σ _)
  simp only [Moment.step, Thread.step, Program.send, Thread.request, hrefuse]

end Ends

/-! ## Stepping and running -/

/-- Every request is answered as the runner answers it, if bodies one level further in are. -/
theorem ends_send {levels : Nat}
    (hcall : ∀ code args (w : World σ), (g.callBody (some levels) code args).Ends g (some (levels - 1)) w
      ((g.runner levels).call code args w).1 ((g.runner levels).call code args w).2)
    (hload : ∀ factory ctx (w : World σ), (g.loadBody (some levels) factory ctx).Ends g (some (levels - 1)) w
      ((g.runner levels).load factory ctx w).1 ((g.runner levels).load factory ctx w).2)
    (request : Request σ) (w : World σ) :
    (Program.send request).Ends g (some levels) w (request.answer (g.runner levels) w).1
      (request.answer (g.runner levels) w).2 := by
  cases request with
  | call f args =>
    simp only [Request.answer, World.call_eq]
    cases hrefuse : f.refuses? args.length with
    | some failure => exact Ends.call_refused hrefuse
    | none => exact Ends.call_body hrefuse (hcall f.code args w)
  | load ctx =>
    simp only [Request.answer, World.load_eq]
    cases hstart : w.start .caching ctx with
    | inl answer => exact Ends.load_answer hstart
    | inr factory => exact Ends.load_factory hstart (hload factory ctx _)
  | enter ctx =>
    simp only [Request.answer, World.enter_eq]
    cases hstart : w.start .entry ctx with
    | inl answer => exact Ends.enter_answer hstart
    | inr factory => exact Ends.enter_factory hstart (hload factory ctx _)
  | _ => exact ⟨1, rfl⟩

theorem ends_of_send {levels : Nat}
    (hsend : ∀ (request : Request σ) (w : World σ), (Program.send request).Ends g (some levels) w
      (request.answer (g.runner levels) w).1 (request.answer (g.runner levels) w).2)
    (p : Program σ α) (w : World σ) :
    p.Ends g (some levels) w (p.run (g.runner levels) w).1 (p.run (g.runner levels) w).2 := by
  induction p generalizing w with
  | done a => exact Ends.done a w
  | ask request next ih =>
    have hask : (Program.send request).bind next = .ask request next := rfl
    rw [← hask]
    exact (hsend request w).bind (ih _ _)

/-- With room for `levels` bodies, a program ends where the runner with as many levels ends it. -/
theorem ends_run (g : Guest σ) (levels : Nat) (p : Program σ α) (w : World σ) :
    p.Ends g (some levels) w (p.run (g.runner levels) w).1 (p.run (g.runner levels) w).2 := by
  induction levels generalizing α w with
  | zero => exact ends_of_send (ends_send (fun _ _ w => Ends.done _ w) fun _ _ w => Ends.done _ w) p w
  | succ levels ih =>
    exact ends_of_send
      (ends_send (fun code args w => ih (g.call code args).run w) fun code ctx w => ih (g.load code ctx).run w) p w

theorem ends_iff_run {levels : Nat} {p : Program σ α} {w w' : World σ} {a : α} :
    p.Ends g (some levels) w a w' ↔ p.run (g.runner levels) w = (a, w') := by
  constructor
  · intro h
    obtain ⟨ha, hw⟩ := (ends_run g levels p w).unique h
    exact Prod.ext ha hw
  · intro h
    have hrun := ends_run g levels p w
    rw [h] at hrun
    exact hrun

theorem ends_ok_of_run {ε : Type} {levels : Nat} {q : Program σ (Except ε α)} {w : World σ} {a : α}
    (h : (q.run (g.runner levels) w).1.toOption = some a) :
    q.Ends g (some levels) w (.ok a) (q.run (g.runner levels) w).2 := by
  have hends := ends_run g levels q w
  cases hr : (q.run (g.runner levels) w).1 with
  | ok b =>
    rw [hr] at h hends
    cases h
    exact hends
  | error e =>
    rw [hr] at h
    cases h

end Program

/-! ## Without a limit -/

theorem Transition.length_le {e : Option Ending} {s s' : List Activity} {h h' : Host}
    (ht : Transition e s h s' h') : s'.length ≤ s.length + 1 := by
  cases ht <;> grind

/-- A limit is not felt as long as it is not reached. -/
theorem Thread.step_eq_of_stack_lt {g : Guest σ} {levels : Nat} {t : Thread σ α}
    (h : t.stack.length < levels) (w : World σ) : t.step g (some levels) w = t.step g none w := by
  induction t generalizing levels w with
  | active p =>
    have hroom : (some levels : Option Nat) ≠ some 0 := by
      simp only [stack, List.length_nil] at h
      simp only [ne_eq, Option.some.injEq]
      omega
    cases p with
    | done a => rfl
    | ask request next =>
      cases request with
      | call f args => simp [step, request, Guest.callBody, hroom]
      | load ctx => simp [step, request, Thread.obtain, Guest.loadBody, hroom]
      | enter ctx => simp [step, request, Thread.obtain, Guest.loadBody, hroom]
      | _ => rfl
  | calling body next ih =>
    simp only [stack, List.length_append, List.length_singleton] at h
    have hbody := ih (by omega : body.stack.length < levels - 1) w
    simp only [step, Option.map_some, Option.map_none, hbody]
  | running purpose ctx body next ih =>
    simp only [stack, List.length_append, List.length_singleton] at h
    have hbody := ih (by omega : body.stack.length < levels - 1) w
    simp only [step, Option.map_some, Option.map_none, hbody]

theorem Moment.iterate_eq_of_stack_le {g : Guest σ} {levels : Nat} (k : Nat) (m : Moment σ α)
    (h : m.thread.stack.length + k ≤ levels) :
    (Moment.step g (some levels))^[k] m = (Moment.step g none)^[k] m := by
  induction k generalizing m with
  | zero => rfl
  | succ k ih =>
    have hstep : Moment.step g (some levels) m = Moment.step g none m :=
      Thread.step_eq_of_stack_lt (by omega) m.world
    have hlen := (m.thread.transition_step g none m.world).length_le
    rw [Function.iterate_succ_apply, Function.iterate_succ_apply, hstep]
    exact ih _ (by simp only [Moment.step]; omega)

/-- Run with enough levels, from `w` the program comes to `a` in `w'`. -/
def Program.Yields (g : Guest σ) (p : Program σ α) (w : World σ) (a : α) (w' : World σ) : Prop :=
  ∃ levels, ∀ l, levels ≤ l → p.run (g.runner l) w = (a, w')

/-- A program that ends without a limit ends alike under every runner with enough levels. -/
theorem Program.Ends.yields {g : Guest σ} {p : Program σ α} {w w' : World σ} {a : α}
    (h : p.Ends g none w a w') : p.Yields g w a w' := by
  obtain ⟨k, hk⟩ := h
  refine ⟨k, fun l hl => Program.ends_iff_run.1 ⟨k, ?_⟩⟩
  rw [← hk]
  exact Moment.iterate_eq_of_stack_le k _ (by simpa [Thread.stack] using hl)

theorem Program.Yields.unique {g : Guest σ} {p : Program σ α} {w w₁ w₂ : World σ} {a b : α}
    (h₁ : p.Yields g w a w₁) (h₂ : p.Yields g w b w₂) : a = b ∧ w₁ = w₂ := by
  obtain ⟨l₁, hl₁⟩ := h₁
  obtain ⟨l₂, hl₂⟩ := h₂
  have hrun := (hl₁ (max l₁ l₂) (Nat.le_max_left l₁ l₂)).symm.trans (hl₂ (max l₁ l₂) (Nat.le_max_right l₁ l₂))
  exact Prod.mk.injEq .. ▸ hrun

end ObjectHost
