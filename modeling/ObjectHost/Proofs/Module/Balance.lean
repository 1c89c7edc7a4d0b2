-- SUMMARY: The loading table counts the runs under way, calls leave it as it was, and results reach the importer.
import ObjectHost.Proofs.Machine.Operation
import ObjectHost.Proofs.Module.Caching

/-!
# Factory runs in balance

Whatever the factories do, the loading table can be read off the bodies that a
thread is inside of. A call is back among the same bodies when it returns, and
so the table is what it was. What a factory comes to is what an import, a load
or an entry run of its module comes to, and a factory that hands it on gives the
same to its own importer.
-/

namespace ObjectHost

variable {σ α β γ : Type}

/-! ## The loading table -/

section Run

variable {g : Guest σ} {room : Option Nat} {p : Program σ α} {s : σ}

/-- Inside of the same bodies, the same names are loading. -/
theorem loading_eq_of_stack_eq {i k : Nat}
    (hstack : (moments g room p s i).thread.stack = (moments g room p s k).thread.stack) (id : RealmId)
    (name : String) :
    ((moments g room p s i).modules id).loader.loading.get? name =
      ((moments g room p s k).modules id).loader.loading.get? name := by
  have hruns : ((moments g room p s i).modules id).activations name =
      ((moments g room p s k).modules id).activations name := by
    simp only [ModuleState.activations, Moment.modules, Host.moduleState, hstack]
  rw [(sound_moments i).loading, (sound_moments k).loading, hruns]

/-- Where a run of a part of the thread leads, the run of the thread leads too. -/
theorem moments_add {i j : Nat} {m : Moment σ α} (h : (Moment.step g room)^[j] (moments g room p s i) = m) :
    moments g room p s (i + j) = m := by
  rw [← h, Nat.add_comm]
  exact Function.iterate_add_apply _ _ _ _

end Run

/-! ## Results handed on -/

/-- The module that is asked for in `w` comes from a factory that comes to `r`. It does so by itself, or else since it
    asks for a module in its turn, in any of the ways there are, and lets what it gets decide: a failure is not caught,
    and after a module it comes to that module. The number is that of the factories that hand on. -/
inductive Fetch.Relays (g : Guest σ) (r : Except Raised Module) : Nat → Option Nat → World σ → Fetch → Prop where
  | own {room : Option Nat} {w w' : World σ} {fetch : Fetch} {purpose : Purpose} {ctx : Context} {factory : Code}
      (htarget : fetch.target? w.host = some (purpose, ctx)) (hstart : w.start purpose ctx = .inr factory)
      (hbody : (g.loadBody room factory ctx).Ends g (room.map (· - 1)) (w.opened purpose ctx) r w') :
      Relays g r 0 room w fetch
  | through {depth : Nat} {room : Option Nat} {w w₁ : World σ} {fetch inner : Fetch} {purpose : Purpose}
      {ctx : Context} {factory : Code} {β : Type} {b : β} (before : Program σ β)
      (next : β → Program σ (Except Raised Module)) (rest : Module → Task σ Module)
      (htarget : fetch.target? w.host = some (purpose, ctx)) (hstart : w.start purpose ctx = .inr factory)
      (hbody : g.loadBody room factory ctx = before.bind next)
      (hbefore : before.Ends g (room.map (· - 1)) (w.opened purpose ctx) b w₁)
      (hinner : next b = (inner.task >>= rest).run)
      (hrest : ∀ m w₂, r = .ok m → inner.task.run.Ends g (room.map (· - 1)) w₁ r w₂ →
        ∃ w₃, (rest m).run.Ends g (room.map (· - 1)) w₂ r w₃)
      (hrelays : Relays g r depth (room.map (· - 1)) w₁ inner) : Relays g r (depth + 1) room w fetch

/-- However many factories hand it on, what the last of them comes to is what asking for the first comes to. -/
theorem Fetch.Relays.ends {g : Guest σ} {r : Except Raised Module} {depth : Nat} {room : Option Nat} {w : World σ}
    {fetch : Fetch} (h : fetch.Relays g r depth room w) : ∃ w', fetch.task.run.Ends g room w r w' := by
  induction h with
  | own htarget hstart hbody => exact ⟨_, Fetch.ends_of_factory htarget hstart hbody⟩
  | @through _ room w w₁ _ inner purpose ctx _ _ _ before next rest htarget hstart hbody hbefore hinner hrest _ ih =>
    obtain ⟨w₂, hfetched⟩ := ih
    have hafter : ∃ w₃, (inner.task >>= rest).run.Ends g (room.map (· - 1)) w₁ r w₃ := by
      cases r with
      | error e => exact ⟨w₂, hfetched.bind (.done _ w₂)⟩
      | ok m =>
        obtain ⟨w₃, hcame⟩ := hrest m w₂ rfl hfetched
        exact ⟨w₃, hfetched.bind hcame⟩
    obtain ⟨w₃, hafter⟩ := hafter
    rw [← hinner] at hafter
    refine ⟨w₃.closed purpose ctx r, Fetch.ends_of_factory htarget hstart ?_⟩
    rw [hbody]
    exact hbefore.bind hafter

/-- A factory that asks for the other module before anything else. -/
theorem Fetch.Relays.first {g : Guest σ} {r : Except Raised Module} {depth : Nat} {room : Option Nat} {w : World σ}
    {fetch inner : Fetch} {purpose : Purpose} {ctx : Context} {factory : Code} (rest : Module → Task σ Module)
    (htarget : fetch.target? w.host = some (purpose, ctx)) (hstart : w.start purpose ctx = .inr factory)
    (hrelays : inner.Relays g r depth (room.map (· - 1)) (w.opened purpose ctx))
    (hbody : g.loadBody room factory ctx = (inner.task >>= rest).run)
    (hrest : ∀ m w', r = .ok m → ∃ w'', (rest m).run.Ends g (room.map (· - 1)) w' r w'') :
    fetch.Relays g r (depth + 1) room w :=
  .through (.done ()) (fun _ => g.loadBody room factory ctx) rest htarget hstart rfl (.done () _) hbody
    (fun m w' hr _ => hrest m w' hr) hrelays

theorem Task.bind_pure (t : Task σ α) : t >>= pure = t := by
  have hnext : (fun r : Except Raised α => ExceptT.bindCont (m := Program σ) pure r) = .done := by
    funext r
    cases r <;> rfl
  change Program.bind t (fun r : Except Raised α => ExceptT.bindCont (m := Program σ) pure r) = t
  rw [hnext]
  exact Program.bind_done t

/-- At every moment of every run, under either policy, the loading table lists a name with the number of its runs for
    the cache that are under way, and lists no other. The end of such a run therefore finds its name there, with a
    count that it can lower. Any call, be it an import, a load or an entry run, ends as it would by itself and goes
    back to where it was made, and then the table is what it was when the call was made. Whoever imports, loads or runs
    a module goes on with what its factory comes to, module or failure, also if it comes through any number of
    factories that import, load or run another module and hand on what they get. -/
theorem loading_table_balanced (g : Guest σ) (room : Option Nat) (p : Program σ α) (s : σ) :
    (∀ k id name,
      let now := (moments g room p s k).modules id
      now.loader.loading.get? name = if now.activations name = 0 then none else some (now.activations name)) ∧
    (∀ k ctx r, (moments g room p s k).thread.ending? = some ⟨.caching, ctx, r⟩ →
      ∃ depth, ((moments g room p s k).modules ctx.realm).loader.loading.get? ctx.fqName = some (depth + 1) ∧
        ((moments g room p s (k + 1)).modules ctx.realm).loader.loading.get? ctx.fqName =
          if depth = 0 then none else some depth) ∧
    (∀ {β γ : Type} (frames : Frames σ α β) (call : Program σ γ) (next : γ → Program σ β) (i : Nat)
      (w w' : World σ) (c : γ), moments g room p s i = ⟨frames.fill (.active (call.bind next)), w⟩ →
      call.Ends g (frames.room room) w c w' →
      (∃ k, i ≤ k ∧ moments g room p s k = ⟨frames.fill (.active (next c)), w'⟩) ∧
      ∀ id name, (w'.host.realm id).loader.loading.get? name = (w.host.realm id).loader.loading.get? name) ∧
    (∀ {β : Type} (frames : Frames σ α β) (fetch : Fetch) (next : Except Raised Module → Program σ β)
      (i depth : Nat) (w : World σ) (r : Except Raised Module),
      moments g room p s i = ⟨frames.fill (.active (fetch.task.run.bind next)), w⟩ →
      fetch.Relays g r depth (frames.room room) w →
      ∃ k w', i ≤ k ∧ moments g room p s k = ⟨frames.fill (.active (next r)), w'⟩) := by
  refine ⟨?_, ?_, ?_, ?_⟩
  · intro k id name
    exact (sound_moments k).loading
  · intro k ctx r hend
    have hturn := turn_moments g room p s ctx.realm k
    have hending : (moments g room p s k).ending? ctx.realm = some (.caching, ctx.fqName, r) := by
      simp [Moment.ending?, hend, Ending.of?]
    rw [hending] at hturn
    refine ⟨((moments g room p s (k + 1)).modules ctx.realm).activations ctx.fqName, ?_, (sound_moments _).loading⟩
    rw [(sound_moments k).loading, hturn.activations_of_ending, if_neg (Nat.succ_ne_zero _)]
  · intro β γ frames call next i w w' c hi hends
    obtain ⟨j, hj⟩ := frames.iterate_call next hends
    rw [← hi] at hj
    have hk := moments_add hj
    have hstack : (moments g room p s (i + j)).thread.stack = (moments g room p s i).thread.stack := by
      rw [hi, hk, frames.stack_fill, frames.stack_fill]
      rfl
    refine ⟨⟨i + j, Nat.le_add_right i j, hk⟩, fun id name => ?_⟩
    have hsame := loading_eq_of_stack_eq hstack id name
    rw [hi, hk] at hsame
    exact hsame
  · intro β frames fetch next i depth w r hi hrelays
    obtain ⟨w', hends⟩ := hrelays.ends
    obtain ⟨j, hj⟩ := frames.iterate_call next hends
    rw [← hi] at hj
    exact ⟨i + j, w', Nat.le_add_right i j, moments_add hj⟩

/-- A guest where `a` imports `b`, `b` loads `c` and looks at the host once it has it, and `c` runs `d`, each for what
    it comes to itself. The module `d` is made, unless there is a failure to fail with. -/
def relaying (failure : Option HostFailure) : Guest Unit where
  call _ _ := Task.fail (.host depthLimit)
  load code ctx :=
    match code.body with
    | 0 => ctx.importModule "b"
    | 1 => do
      let m ← loadResolved ctx.realm "c"
      let _ ← (Program.observe : Program Unit Host)
      return m
    | 2 => runModule ctx.realm "d" (some Builtin.mainModule)
    | _ =>
      match failure with
      | some failure => Task.fail (.host failure)
      | none => (ctx.newModule : Program Unit Module)

/-- Starts a realm with the modules `a` to `d`. -/
def registerFour : Program Unit Unit := do
  let _ ← Program.send (.boot ⟨Builtin.defaultQualifier, .failFast⟩)
  let _ ← Program.send (.register 0 "a" ⟨0, 0⟩)
  let _ ← Program.send (.register 0 "b" ⟨1, 0⟩)
  let _ ← Program.send (.register 0 "c" ⟨2, 0⟩)
  let _ ← Program.send (.register 0 "d" ⟨3, 0⟩)

/-- The world with these modules. -/
def fourModules : World Unit := (registerFour.run ((relaying none).runner 0) ⟨.empty, ()⟩).2

theorem run_registerFour (runner : Runner Unit) : registerFour.run runner ⟨.empty, ()⟩ = ((), fourModules) := by
  simp only [fourModules, registerFour, bind, Program.bind, Program.send, Program.run, Request.answer, pure]

/-- The world in which the factory of `d` begins, since `a` was imported. -/
def beforeLast : World Unit :=
  ["a", "b", "c"].foldl (fun w name => w.opened .caching ⟨0, name, name⟩) fourModules
    |>.opened .entry ⟨0, "d", Builtin.mainModule⟩

/-- An import of `a` comes to what the factory of `d` comes to. -/
theorem relays_relaying {failure : Option HostFailure} {r : Except Raised Module} {w' : World Unit}
    (hlast : ((relaying failure).load ⟨3, 0⟩ ⟨0, "d", Builtin.mainModule⟩).run.Ends (relaying failure) (some 0)
      beforeLast r w') : (Fetch.named 0 "a" "").Relays (relaying failure) r 3 (some 4) fourModules := by
  let w₁ := fourModules.opened .caching ⟨0, "a", "a"⟩
  let w₂ := w₁.opened .caching ⟨0, "b", "b"⟩
  let w₃ := w₂.opened .caching ⟨0, "c", "c"⟩
  have hstate : ((Fetch.named 0 "a" "").target? fourModules.host = some (.caching, ⟨0, "a", "a"⟩) ∧
      (fourModules.start .caching ⟨0, "a", "a"⟩).getRight? = some ⟨0, 0⟩) ∧
      ((Fetch.named 0 "b" "a").target? w₁.host = some (.caching, ⟨0, "b", "b"⟩) ∧
      (w₁.start .caching ⟨0, "b", "b"⟩).getRight? = some ⟨1, 0⟩) ∧
      (w₂.start .caching ⟨0, "c", "c"⟩).getRight? = some ⟨2, 0⟩ ∧
      (w₃.start .entry ⟨0, "d", Builtin.mainModule⟩).getRight? = some ⟨3, 0⟩ := by
    decide +kernel
  simp only [Sum.getRight?_eq_some_iff] at hstate
  obtain ⟨⟨htarget, hstart⟩, ⟨htarget₁, hstart₁⟩, hstart₂, hstart₃⟩ := hstate
  have hd : (Fetch.entry 0 "d" (some Builtin.mainModule)).Relays (relaying failure) r 0 (some 1) w₃ :=
    .own rfl hstart₃ hlast
  have hc : (Fetch.resolved 0 "c").Relays (relaying failure) r 1 (some 2) w₂ := by
    refine .first pure rfl hstart₂ hd (Task.bind_pure (runModule 0 "d" (some Builtin.mainModule))).symm ?_
    rintro m w rfl
    exact ⟨w, .done _ w⟩
  have hb : (Fetch.named 0 "b" "a").Relays (relaying failure) r 2 (some 3) w₁ := by
    refine .first (fun m => do let _ ← (Program.observe : Program Unit Host); return m) htarget₁ hstart₁ hc rfl ?_
    rintro m w rfl
    exact ⟨w, .observe (.done _ w)⟩
  refine .first pure htarget hstart hb (Task.bind_pure (importModule 0 "b" "a")).symm ?_
  rintro m w rfl
  exact ⟨w, .done _ w⟩

/-- The module `a` imports itself, so that it is loading twice over in the meantime, and when the program has come to
    its end nothing is loading any more. Through an import, a load and an entry run that hand it on, an importer gets
    what the last of four factories comes to, be it a module or any failure. -/
theorem loading_table_balanced_nested :
    (let run := moments (selfImporting none) (some 2) (loadTwice .reenter) 0
     ((run 7).modules 0).loader.loading.get? "a" = some 2 ∧
      ∃ k results w, run k = ⟨.active (.done results), w⟩ ∧
        ∀ id name, (w.host.realm id).loader.loading.get? name = none) ∧
    (let run (failure : Option HostFailure) :=
      moments (relaying failure) (some 4) (registerFour.bind fun _ => (importModule 0 "a" "").run) ()
     (∃ k m w, run none k = ⟨.active (.done (.ok m)), w⟩ ∧ m.fqName = "d") ∧
      ∀ failure, ∃ k w, run (some failure) k = ⟨.active (.done (.error (.host failure))), w⟩) := by
  refine ⟨⟨?_, ?_⟩, ?_⟩
  · obtain ⟨hcount, -⟩ := loading_table_balanced (selfImporting none) (some 2) (loadTwice .reenter) 0
    have htwice : ((moments (selfImporting none) (some 2) (loadTwice .reenter) 0 7).modules 0).activations "a" = 2 := by
      decide +kernel
    rw [hcount 7 0 "a", htwice, if_neg (by decide)]
  · obtain ⟨-, -, hcalls, -⟩ := loading_table_balanced (selfImporting none) (some 2) (loadTwice .reenter) 0
    have hcall : moments (selfImporting none) (some 2) (loadTwice .reenter) 0 0 =
        ⟨Frames.here.fill (.active ((loadTwice .reenter).bind .done)), ⟨.empty, 0⟩⟩ := by
      rw [Program.bind_done]
      rfl
    obtain ⟨⟨k, -, hk⟩, hsame⟩ := hcalls .here (loadTwice .reenter) .done 0 _ _ _ hcall (Program.ends_run _ 2 _ _)
    exact ⟨k, _, _, hk, hsame⟩
  · intro run
    have hreaches : ∀ failure {r w'}, ((relaying failure).load ⟨3, 0⟩ ⟨0, "d", Builtin.mainModule⟩).run.Ends
        (relaying failure) (some 0) beforeLast r w' → ∃ k w, run failure k = ⟨.active (.done r), w⟩ := by
      intro failure r w' hlast
      obtain ⟨-, -, hcalls, hrelays⟩ := loading_table_balanced (relaying failure) (some 4)
        (registerFour.bind fun _ => (importModule 0 "a" "").run) ()
      have hsetup : registerFour.Ends (relaying failure) (some 4) ⟨.empty, ()⟩ () fourModules :=
        Program.ends_iff_run.2 (run_registerFour _)
      obtain ⟨⟨i, -, hi⟩, -⟩ := hcalls .here registerFour _ 0 _ _ _ rfl hsetup
      obtain ⟨k, w, -, hk⟩ := hrelays .here (.named 0 "a" "") .done i 3 fourModules r
        (by rw [hi, Program.bind_done]; rfl) (relays_relaying hlast)
      exact ⟨k, w, hk⟩
    refine ⟨?_, fun failure => hreaches (some failure) (.done _ _)⟩
    obtain ⟨m, w, hmade, hname, -⟩ := Context.ends_newModule ⟨0, "d", Builtin.mainModule⟩ beforeLast
    obtain ⟨k, w', hk⟩ := hreaches none (hmade.bind (.done (Except.ok m) w))
    exact ⟨k, m, w', hk, hname⟩

end ObjectHost
