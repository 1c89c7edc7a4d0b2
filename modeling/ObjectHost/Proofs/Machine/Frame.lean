-- SUMMARY: The bodies around a body, and that what happens inside of them happens to the whole thread.
import ObjectHost.Proofs.Machine.Agreement

/-!
# Frames

A body runs inside of the bodies that wait for it. They have no part in what it
does until it is over, so a call from the innermost body runs as it would by
itself and then goes back to where it was made.
-/

namespace ObjectHost

variable {σ α β γ : Type}

/-- The bodies that wait for a body, and what each of them does with its result. -/
inductive Frames (σ : Type) : Type → Type → Type 1 where
  | here {α : Type} : Frames σ α α
  | calling {α β : Type} (inner : Frames σ (Except Raised Value) β) (next : Except Raised Value → Program σ α) :
      Frames σ α β
  | running {α β : Type} (purpose : Purpose) (ctx : Context) (inner : Frames σ (Except Raised Module) β)
      (next : Except Raised Module → Program σ α) : Frames σ α β

namespace Frames

/-- The thread that has `t` for its innermost part. -/
def fill : {α β : Type} → Frames σ α β → Thread σ β → Thread σ α
  | _, _, .here, t => t
  | _, _, .calling inner next, t => .calling (inner.fill t) next
  | _, _, .running purpose ctx inner next, t => .running purpose ctx (inner.fill t) next

/-- The waiting bodies, innermost first. -/
def stack : {α β : Type} → Frames σ α β → List Activity
  | _, _, .here => []
  | _, _, .calling inner _ => inner.stack ++ [.call]
  | _, _, .running purpose ctx inner _ => inner.stack ++ [.factory purpose ctx]

/-- The room that the waiting bodies leave. -/
def room : {α β : Type} → Frames σ α β → Option Nat → Option Nat
  | _, _, .here, left => left
  | _, _, .calling inner _, left => inner.room (left.map (· - 1))
  | _, _, .running _ _ inner _, left => inner.room (left.map (· - 1))

theorem stack_fill (frames : Frames σ α β) (t : Thread σ β) : (frames.fill t).stack = t.stack ++ frames.stack := by
  induction frames with
  | here => simp [fill, stack]
  | calling inner next ih => simp [fill, stack, Thread.stack, ih]
  | running purpose ctx inner next ih => simp [fill, stack, Thread.stack, ih]

theorem result?_fill (frames : Frames σ α β) {t : Thread σ β} (h : t.result? = none) :
    (frames.fill t).result? = none := by
  cases frames with
  | here => exact h
  | calling => rfl
  | running => rfl

theorem step_fill {g : Guest σ} {left : Option Nat} (frames : Frames σ α β) {t : Thread σ β}
    (h : t.result? = none) (w : World σ) :
    (frames.fill t).step g left w =
      ⟨frames.fill (t.step g (frames.room left) w).thread, (t.step g (frames.room left) w).world⟩ := by
  induction frames generalizing left with
  | here => rfl
  | calling inner next ih => simp only [fill, room, Thread.step, inner.result?_fill h, ih h]
  | running purpose ctx inner next ih => simp only [fill, room, Thread.step, inner.result?_fill h, ih h]

/-- A run of the innermost part is a run of the thread. -/
theorem iterate_fill {g : Guest σ} {left : Option Nat} (frames : Frames σ α β) {k : Nat} {t t' : Thread σ β}
    {w w' : World σ} (h : (Moment.step g (frames.room left))^[k] ⟨t, w⟩ = ⟨t', w'⟩) :
    ∃ j, (Moment.step g left)^[j] ⟨frames.fill t, w⟩ = ⟨frames.fill t', w'⟩ :=
  Moment.iterate_part (fun _ w hr => frames.step_fill hr w) h

/-- A call ends as it does by itself, and what follows it goes on with its result. -/
theorem iterate_call {g : Guest σ} {left : Option Nat} (frames : Frames σ α β) {call : Program σ γ}
    (next : γ → Program σ β) {w w' : World σ} {c : γ} (h : call.Ends g (frames.room left) w c w') :
    ∃ j, (Moment.step g left)^[j] ⟨frames.fill (.active (call.bind next)), w⟩ =
      ⟨frames.fill (.active (next c)), w'⟩ := by
  obtain ⟨k, hk⟩ := h
  obtain ⟨i, hi⟩ := Moment.iterate_bind next hk
  exact frames.iterate_fill hi

end Frames

/-- A thread that runs a module next does so in its innermost body. -/
theorem Thread.exists_fill_of_wanted_entry {t : Thread σ α} {ctx : Context} (h : t.wanted? = some (.entry, ctx)) :
    ∃ (β : Type) (frames : Frames σ α β) (next : Except Raised Module → Program σ β),
      t = frames.fill (.active (.ask (.enter ctx) next)) := by
  induction t with
  | @active β p =>
    cases p with
    | done a => cases h
    | ask request next =>
      cases request with
      | enter ctx' =>
        cases h
        exact ⟨β, .here, next, rfl⟩
      | _ => cases h
  | calling body next ih =>
    obtain ⟨β, frames, rest, rfl⟩ := ih h
    exact ⟨β, .calling frames next, rest, rfl⟩
  | running purpose ctx' body next ih =>
    obtain ⟨β, frames, rest, rfl⟩ := ih h
    exact ⟨β, .running purpose ctx' frames next, rest, rfl⟩

/-! ## Before any body is entered -/

namespace Program

/-- From `w`, a program comes to go on as `rest` in `w'`, and enters no body until then. It does so however bodies are
    run, and step by step inside of any bodies that wait for it. -/
structure Proceeds (g : Guest σ) (room : Option Nat) (p : Program σ γ) (w : World σ) (rest : Program σ γ)
    (w' : World σ) : Prop where
  run : ∀ runner, p.run runner w = rest.run runner w'
  steps : ∃ n, ∀ {α β : Type} (frames : Frames σ α β) (next : γ → Program σ β),
    (Moment.step g room)^[n] ⟨frames.fill (.active (p.bind next)), w⟩ =
      ⟨frames.fill (.active (rest.bind next)), w'⟩ ∧
    ∀ j ≤ n, ((Moment.step g room)^[j] ⟨frames.fill (.active (p.bind next)), w⟩).thread.stack = frames.stack

namespace Proceeds

variable {g : Guest σ} {room : Option Nat} {p q rest : Program σ γ} {w w₁ w' : World σ}

/-- A request that is answered alike by every runner, and at once by a thread, is one step. -/
theorem ask (request : Request σ) (reply : request.Reply) (next : request.Reply → Program σ γ)
    (hanswer : ∀ runner, request.answer runner w = (reply, w'))
    (hrequest : ∀ {β : Type} (left : Option Nat) (next : request.Reply → Program σ β),
      Thread.request g left w request next =
        ⟨.active (next (request.answer (g.runner 0) w).1), (request.answer (g.runner 0) w).2⟩) :
    (Program.ask request next).Proceeds g room w (next reply) w' where
  run runner := by rw [Program.run, hanswer]
  steps := by
    refine ⟨1, fun frames continuation => ?_⟩
    have hstep : Moment.step g room ⟨frames.fill (.active ((Program.ask request next).bind continuation)), w⟩ =
        ⟨frames.fill (.active ((next reply).bind continuation)), w'⟩ := by
      refine (frames.step_fill rfl w).trans ?_
      simp only [Program.bind, Thread.step, hrequest, hanswer]
    refine ⟨hstep, fun j hj => ?_⟩
    rcases Nat.le_one_iff_eq_zero_or_eq_one.1 hj with rfl | rfl
    · exact frames.stack_fill _
    · rw [Function.iterate_one, hstep]
      exact frames.stack_fill _

theorem trans (h : p.Proceeds g room w q w₁) (h' : q.Proceeds g room w₁ rest w') : p.Proceeds g room w rest w' where
  run runner := (h.run runner).trans (h'.run runner)
  steps := by
    obtain ⟨n, hn⟩ := h.steps
    obtain ⟨n', hn'⟩ := h'.steps
    refine ⟨n' + n, fun frames next => ?_⟩
    obtain ⟨hmiddle, hbefore⟩ := hn frames next
    obtain ⟨hend, hafter⟩ := hn' frames next
    refine ⟨by rw [Function.iterate_add_apply, hmiddle, hend], fun j hj => ?_⟩
    rcases Nat.le_total j n with hj' | hj'
    · exact hbefore j hj'
    · rw [← Nat.sub_add_cancel hj', Function.iterate_add_apply, hmiddle]
      exact hafter _ (Nat.sub_le_of_le_add hj)

end Proceeds

end Program

end ObjectHost
