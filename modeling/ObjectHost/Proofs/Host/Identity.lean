-- SUMMARY: That one identity never stands for two values of a run, and that identical values cannot be told apart.
import ObjectHost.Proofs.Host.Honesty

/-!
# Identity

Two values are identical when they are equal scalars, one definition of a class
or one object. Only the numbers are compared, and a number is all that a handle
is sure to have in common with another one. In a run it is enough: an object is
made once, under a number that no object had before, and code has no other
handle of it than those that it was told. So the handles of one identity carry
the same name, class and payload, and nothing observed of them can differ.
-/

namespace ObjectHost

variable {σ α : Type}

theorem Value.equivalence_is : Equivalence fun a b : Value => a.is b = true where
  refl _ := is_iff_identity_eq.2 rfl
  symm h := is_iff_identity_eq.2 (is_iff_identity_eq.1 h).symm
  trans h h' := is_iff_identity_eq.2 ((is_iff_identity_eq.1 h).trans (is_iff_identity_eq.1 h'))

/-! ## Coherent families of values -/

/-- The numbers in a family of values were given out, its classes are registered, its functions and exceptions are of
    realms that were started, and no number stands for two of its objects. -/
structure Coherent (h : Host) (V : Value → Prop) : Prop where
  numbered : ∀ {v kind n}, V v → v.identity = .object kind n → n < h.heap.next
  registered : ∀ {c}, V (.cls c) → h.HasClass c
  proper : ∀ {v}, V v → h.Proper v
  unique : ∀ {a b kind n}, V a → V b → a.identity = .object kind n → b.identity = .object kind n → a = b

namespace Coherent

variable {h h' : Host} {V V' : Value → Prop}

theorem eq_of_is (hV : Coherent h V) (hsound : h.Sound) {a b : Value} (ha : V a) (hb : V b) (his : a.is b = true) :
    a = b := by
  have hsame := Value.is_iff_identity_eq.1 his
  cases hidentity : a.identity with
  | scalar v => rw [Value.identity_eq_scalar hidentity, Value.identity_eq_scalar (hsame.symm.trans hidentity)]
  | cls home index =>
    obtain ⟨c, rfl, hhome, hindex⟩ := Value.identity_eq_cls hidentity
    obtain ⟨d, rfl, rfl, rfl⟩ := Value.identity_eq_cls (hsame.symm.trans hidentity)
    obtain ⟨hid, hd⟩ := hV.registered hb
    obtain ⟨-, hc⟩ := hV.registered ha
    rw [hhome] at hc
    have hwf := (hsound d.home hid).wellFormed
    rw [hwf.eq_of_index_eq (hwf.owns_iff.1 hc) (hwf.owns_iff.1 hd) hindex]
  | object kind n => exact hV.unique ha hb hidentity (hsame.symm.trans hidentity)

/-- A family may take up classes that are registered and one object with the next number. -/
theorem extend (hV : Coherent h V) (hclasses : ∀ c, h.HasClass c → h'.HasClass c)
    (hproper : ∀ v, h.Proper v → h'.Proper v) (hnext : h.heap.next ≤ h'.heap.next) {made : Option Value}
    (hfresh : ∀ o, made = some o → h'.heap.next = h.heap.next + 1 ∧ ∃ kind, o.identity = .object kind h.heap.next)
    (hmade : ∀ o, made = some o → h'.Proper o)
    (hV' : ∀ v, V' v → V v ∨ made = some v ∨ ∃ c, v = .cls c ∧ h'.HasClass c) : Coherent h' V' := by
  have hobject : ∀ {v kind n}, V' v → v.identity = .object kind n →
      (V v ∧ n < h.heap.next) ∨ (made = some v ∧ n = h.heap.next ∧ n < h'.heap.next) := by
    intro v kind n hv hidentity
    rcases hV' v hv with hv | hv | ⟨c, rfl, -⟩
    · exact .inl ⟨hv, hV.numbered hv hidentity⟩
    · obtain ⟨hgrown, kind', hnumber⟩ := hfresh v hv
      cases hidentity.symm.trans hnumber
      exact .inr ⟨hv, rfl, hgrown ▸ Nat.lt_succ_self _⟩
    · cases hidentity
  refine ⟨fun hv hidentity => ?_, fun {c} hc => ?_, fun {v} hv => ?_, fun ha hb hida hidb => ?_⟩
  · rcases hobject hv hidentity with ⟨-, hlt⟩ | ⟨-, -, hlt⟩
    · exact Nat.lt_of_lt_of_le hlt hnext
    · exact hlt
  · rcases hV' _ hc with hc | hc | ⟨d, hd, hregistered⟩
    · exact hclasses c (hV.registered hc)
    · obtain ⟨-, kind, hidentity⟩ := hfresh _ hc
      cases hidentity
    · cases hd
      exact hregistered
  · rcases hV' v hv with hv | hv | ⟨c, rfl, -⟩
    · exact hproper v (hV.proper hv)
    · exact hmade v hv
    · trivial
  · rcases hobject ha hida with ⟨ha, hlt⟩ | ⟨ha, heq, -⟩ <;> rcases hobject hb hidb with ⟨hb, hlt'⟩ | ⟨hb, heq', -⟩
    · exact hV.unique ha hb hida hidb
    · exact absurd heq' (Nat.ne_of_lt hlt)
    · exact absurd heq (Nat.ne_of_lt hlt')
    · exact Option.some.inj (ha.symm.trans hb)

end Coherent

/-! ## The values of a run -/

/-- Numbers are never given back. -/
theorem Transition.next_le {e : Option Ending} {s s' : List Activity} {h h' : Host} (ht : Transition e s h s' h') :
    h.heap.next ≤ h'.heap.next := by
  cases ht with
  | grow => exact Nat.le_of_lt (Nat.lt_of_lt_of_eq (Nat.lt_succ_self _) (Array.size_push _).symm)
  | setAttribute => exact Nat.le_of_eq Array.size_modify.symm
  | define => exact Nat.le_of_eq (congrArg Heap.next (h.heap_define _ _ _ _).symm)
  | boot _ _ config =>
    obtain ⟨r, hboot, -⟩ := h.boot_eq config
    exact Nat.le_of_eq (congrArg (fun booted => booted.2.heap.next) hboot).symm
  | _ => exact Nat.le_refl _

section Run

variable (g : Guest σ) (room : Option Nat) (p : Program σ α) (s : σ)

/-- The values that a run has come by at moment `k`: the scalars, what the host held up to then, what was told up to
    then, and the parts of these. -/
inductive Occurs (k : Nat) : Value → Prop where
  | scalar {v : Value} (h : v.kind.hasIdentity = false) : Occurs k v
  | held {j : Nat} {v : Value} (hj : j ≤ k) (h : (moments g room p s j).world.host.Holds v) : Occurs k v
  | told {j : Nat} {v : Value} (hj : j < k)
      (h : (moments g room p s j).thread.Told g (moments g room p s j).world v) : Occurs k v
  | part {v u : Value} (hv : Occurs k v) (hu : u ∈ v.parts) : Occurs k u

/-- Before moment `k`, only values that had occurred were handed over and only realms that were started were named. -/
def ForgesNothing (k : Nat) : Prop :=
  ∀ j < k, (∀ v ∈ (moments g room p s j).thread.offers, Occurs g room p s j v) ∧
    ∀ request, (moments g room p s j).thread.asks? = some request →
      ∀ id ∈ request.realms, id < (moments g room p s j).world.host.realms.length

/-- The values that a run has come by at moment `k`, and the realms that it has started. -/
def stock (k : Nat) : Stock where
  Has := Occurs g room p s k
  Knows id := id < (moments g room p s k).world.host.realms.length
  scalar := .scalar
  part := .part

variable {g room p s}

theorem Occurs.mono {j k : Nat} (hjk : j ≤ k) {v : Value} (h : Occurs g room p s j v) : Occurs g room p s k v := by
  induction h with
  | scalar h => exact .scalar h
  | held hj h => exact .held (Nat.le_trans hj hjk) h
  | told hj h => exact .told (Nat.lt_of_lt_of_le hj hjk) h
  | part _ hu ih => exact .part ih hu

/-- At first there are only scalars. -/
theorem Occurs.scalar_of_zero {v : Value} (h : Occurs g room p s 0 v) : v.kind.hasIdentity = false := by
  induction h with
  | scalar h => exact h
  | held hj h =>
    cases Nat.le_zero.1 hj
    cases h with
    | realm hid => exact absurd hid (Nat.not_lt_zero _)
    | attr h => cases h
  | told hj => exact absurd hj (Nat.not_lt_zero _)
  | part _ hu ih =>
    rw [Value.parts_of_scalar ih] at hu
    cases List.mem_singleton.1 hu
    exact ih

/-- The values that are new after one more step. Everything else in a new object had occurred. -/
theorem Occurs.of_succ {k : Nat} {made : Option Value}
    (hoffers : ∀ v ∈ (moments g room p s k).thread.offers, Occurs g room p s k v)
    (hbrings : Brings (moments g room p s k).world.host (moments g room p s k).thread.offers
      ((moments g room p s k).thread.Told g (moments g room p s k).world) made
      (moments g room p s (k + 1)).world.host)
    {v : Value} (h : Occurs g room p s (k + 1) v) :
    Occurs g room p s k v ∨ made = some v ∨ ∃ c, v = .cls c ∧ (moments g room p s (k + 1)).world.host.HasClass c := by
  have hheld : ∀ v, (moments g room p s (k + 1)).world.host.Holds v → Occurs g room p s k v ∨ made = some v ∨
      ∃ c, v = .cls c ∧ (moments g room p s (k + 1)).world.host.HasClass c := by
    intro v hv
    rcases hbrings.held v hv with hold | hoffered | hclass
    · exact .inl (.held (Nat.le_refl k) hold)
    · exact .inl (hoffers v hoffered)
    · exact .inr (.inr hclass)
  induction h with
  | scalar h => exact .inl (.scalar h)
  | @held j v hj h =>
    rcases Nat.le_succ_iff.1 hj with hj | rfl
    · exact .inl (.held hj h)
    · exact hheld v h
  | @told j v hj h =>
    rcases Nat.lt_succ_iff_lt_or_eq.1 hj with hj | rfl
    · exact .inl (.told hj h)
    · rcases hbrings.told v h with h | h
      · exact hheld v h
      · exact .inr (.inl h)
  | @part v u _ hu ih =>
    rcases ih with hv | hv | ⟨c, rfl, hc⟩
    · exact .inl (.part hv hu)
    · obtain ⟨-, -, hparts⟩ := hbrings.fresh v hv
      rcases hparts u hu with rfl | hscalar | ⟨o, ho, hu⟩
      · exact .inr (.inl hv)
      · exact .inl (.scalar hscalar)
      · refine .inl (.part ?_ hu)
        rcases ho with ho | ho
        · exact .held (Nat.le_refl k) ho
        · exact hoffers o ho
    · -- The ancestors of a registered class are registered beside it.
      obtain ⟨d, hd, rfl⟩ := List.mem_map.1 hu
      have hsound := host_sound_moments g room p s (k + 1)
      have hwf := (hsound c.home hc.1).wellFormed
      exact .inr (.inr ⟨d, rfl, hsound.hasClass hc.1 (hwf.ancestors_subset (hwf.owns_iff.1 hc.2) d hd)⟩)

/-- As long as nothing is made up, one identity stands for one value. -/
theorem coherent_moments {k : Nat} (h : ForgesNothing g room p s k) :
    Coherent (moments g room p s k).world.host (Occurs g room p s k) := by
  induction k with
  | zero =>
    have hscalar : ∀ {v kind n}, Occurs g room p s 0 v → v.identity ≠ .object kind n := by
      intro v kind n hv hidentity
      cases (Value.identity_of_scalar hv.scalar_of_zero).symm.trans hidentity
    exact ⟨fun hv hidentity => absurd hidentity (hscalar hv), fun hc => (nomatch hc.scalar_of_zero),
      fun hv => Host.proper_of_scalar hv.scalar_of_zero, fun ha _ hidentity => absurd hidentity (hscalar ha)⟩
  | succ k ih =>
    obtain ⟨hoffers, hstarted⟩ := h k (Nat.lt_succ_self k)
    have hsound := host_sound_moments g room p s k
    have htransition := transition_moments g room p s k
    obtain ⟨made, hbrings⟩ := Thread.brings_step g room hsound hstarted
    rw [← moments_succ] at hbrings
    refine (ih fun j hj => h j (Nat.lt_succ_of_lt hj)).extend (fun c hc => hc.transition hsound htransition)
      (fun v hv => hv.transition htransition) htransition.next_le (fun o ho => ?_) hbrings.proper
      fun v hv => hv.of_succ hoffers hbrings
    obtain ⟨hnext, hidentity, -⟩ := hbrings.fresh o ho
    exact ⟨hnext, hidentity⟩

/-! ## Runs of honest code -/

theorem stock_mono {j k : Nat} (hjk : j ≤ k) : stock g room p s j ≤ stock g room p s k :=
  ⟨fun _ => .mono hjk, fun _ => started_moments hjk⟩

variable {carried : σ → Stock} {tells : α → Stock} {k : Nat}

/-- What a reply adds to a stock has occurred by the next moment. -/
theorem tells_le_stock (hguest : carried (moments g room p s k).world.guest ≤ stock g room p s k) {request : Request σ}
    (hasks : (moments g room p s k).thread.asks? = some request) :
    request.tells carried (request.answer (g.runner 0) (moments g room p s k).world).1 ≤ stock g room p s (k + 1) := by
  have htold : ∀ v, request.Shows (request.answer (g.runner 0) (moments g room p s k).world).1 v →
      Occurs g room p s (k + 1) v := fun v hv => .told (Nat.lt_succ_self k) ⟨request, hasks, hv⟩
  cases request with
  | guest change => exact hguest.trans (stock_mono (Nat.le_succ k))
  | observe => exact Stock.of_le htold fun id hid => started_moments (Nat.le_succ k) hid
  | boot config =>
    refine Stock.of_le htold fun id hid => ?_
    obtain ⟨r, hboot, -⟩ := (moments g room p s k).world.host.boot_eq config
    have hnew : (.ok (moments g room p s k).world.host.realms.length : Except ObjectError RealmId) = .ok id :=
      (congrArg Prod.fst hboot).symm.trans hid
    cases hnew
    simp only [stock, moments_succ, Thread.host_step_boot g room hasks, hboot, List.length_append,
      List.length_singleton]
    exact Nat.lt_succ_self _
  | _ => exact Stock.of_le htold fun _ => False.elim

/-- At moment `k`, nothing was made up, and all that there is comes from the stock of the run. -/
structure Upright (g : Guest σ) (room : Option Nat) (p : Program σ α) (s : σ) (carried : σ → Stock) (tells : α → Stock)
    (k : Nat) : Prop where
  forgesNothing : ForgesNothing g room p s k
  factories : (moments g room p s k).world.host.FactoriesStarted
  thread : (moments g room p s k).thread.Draws carried tells (stock g room p s k)
  guest : carried (moments g room p s k).world.guest ≤ stock g room p s k

namespace Upright

theorem covers (h : Upright g room p s carried tells k) :
    (stock g room p s k).Covers carried (moments g room p s k).world where
  started _ hid := hid
  functions _ hf := (coherent_moments h.forgesNothing).proper hf
  factories := h.factories
  guest := h.guest

theorem succ (hg : g.Honest carried) (h : Upright g room p s carried tells k) :
    Upright g room p s carried tells (k + 1) where
  forgesNothing j hj := by
    rcases Nat.lt_succ_iff_lt_or_eq.1 hj with hj | rfl
    · exact h.forgesNothing j hj
    · exact ⟨h.thread.offers, fun request hasks => (h.thread.within hasks).realms⟩
  factories id name factory hfactory := by
    have hrealms := (transition_moments g room p s k).realms_le
    obtain ⟨made, hbrings⟩ := Thread.brings_step g room (host_sound_moments g room p s k) fun request hasks =>
      (h.thread.within hasks).realms
    rw [← moments_succ] at hbrings
    rcases hbrings.factories id name factory hfactory with hold | hnew
    · exact Nat.lt_of_lt_of_le (h.factories id name factory hold) hrealms
    · exact hnew
  thread := by
    have hstep := h.thread.step hg room h.covers (stock_mono (Nat.le_succ k)) fun request hasks =>
      tells_le_stock h.guest hasks
    rwa [← moments_succ] at hstep
  guest := by
    have hstep := h.thread.guest_step g room h.guest
    rw [← moments_succ] at hstep
    exact hstep.trans (stock_mono (Nat.le_succ k))

end Upright

/-- Where all code is honest, nothing is ever made up. -/
theorem upright_moments (hg : g.Honest carried) (hp : p.Draws carried tells ⊥) (hs : carried s ≤ ⊥) (k : Nat) :
    Upright g room p s carried tells k := by
  induction k with
  | zero => exact ⟨fun j hj => absurd hj (Nat.not_lt_zero j), nofun, hp.mono bot_le, hs.trans bot_le⟩
  | succ k ih => exact ih.succ hg

/-- A part of the thread that is drawn from the stock comes to what has occurred by then. -/
theorem ends_within_stock {β γ : Type} (hg : g.Honest carried) (hp : p.Draws carried tells ⊥) (hs : carried s ≤ ⊥)
    {frames : Frames σ α γ} {next : β → Program σ γ} {tells' : β → Stock} {i n : Nat} {t : Thread σ β} {w w' : World σ}
    {b : β} (hmoment : moments g room p s i = ⟨frames.fill (t.bind next), w⟩)
    (hdraws : t.Draws carried tells' (stock g room p s i))
    (hends : (Moment.step g (frames.room room))^[n] ⟨t, w⟩ = ⟨.active (.done b), w'⟩) :
    ∃ j ≥ i, moments g room p s j = ⟨frames.fill (.active (next b)), w'⟩ ∧ tells' b ≤ stock g room p s j := by
  induction n generalizing i t w with
  | zero =>
    cases hends
    exact ⟨i, Nat.le_refl i, hmoment, hdraws⟩
  | succ n ih =>
    rw [Function.iterate_succ_apply] at hends
    cases hr : t.result? with
    | some a =>
      cases Thread.result?_eq_some.1 hr
      exact ih hmoment hdraws hends
    | none =>
      have hupright : Upright g room p s carried tells i := upright_moments hg hp hs i
      have hasks : (moments g room p s i).thread.asks? = t.asks? := by
        rw [hmoment]
        exact (frames.asks?_fill _).trans (Thread.asks?_bind hr next)
      have hbound : (t.bind next).result? = none := Thread.result?_bind hr next
      have hnext : moments g room p s (i + 1) = ⟨frames.fill ((t.step g (frames.room room) w).thread.bind next),
          (t.step g (frames.room room) w).world⟩ := by
        rw [moments_succ, hmoment]
        refine (frames.step_fill hbound w).trans ?_
        rw [Thread.step_bind hr next w]
      have hcovers := hupright.covers
      have htold := fun request hask => tells_le_stock hupright.guest (hasks.trans hask : _ = some request)
      rw [hmoment] at hcovers htold
      have hstep := hdraws.step hg (frames.room room) hcovers (stock_mono (Nat.le_succ i)) htold
      obtain ⟨j, hj, hend, hstock⟩ := ih hnext hstep hends
      exact ⟨j, Nat.le_of_succ_le hj, hend, hstock⟩

/-- Whatever an operation returns or raises has occurred by the time it ends. -/
theorem Operation.occurs_of_ends {β γ : Type} (hg : g.Honest carried) (hp : p.Draws carried tells ⊥)
    (hs : carried s ≤ ⊥) {frames : Frames σ α γ} {op : Operation σ β} {next : β → Program σ γ} {i : Nat}
    {w w' : World σ} {b : β} (hmoment : moments g room p s i = ⟨frames.fill (.active (op.program.bind next)), w⟩)
    (hwithin : op.Within carried (stock g room p s i)) (hends : op.program.Ends g (frames.room room) w b w') :
    ∃ j ≥ i, moments g room p s j = ⟨frames.fill (.active (next b)), w'⟩ ∧
      ∀ v, op.Shows b v → Occurs g room p s j v := by
  obtain ⟨n, hends⟩ := hends
  have hdraws : (Thread.active op.program).Draws carried (op.tells carried) (stock g room p s i) := op.draws hwithin
  obtain ⟨j, hj, hend, hstock⟩ := ends_within_stock hg hp hs hmoment hdraws hends
  exact ⟨j, hj, hend, fun v hv => hstock.1 v (Operation.has_tells hv)⟩

end Run

/-! ## What can be observed -/

/-- The function that is to be bound, if it is one. -/
def Reading.function? : Reading → Option Function
  | .method f => some f
  | _ => none

theorem Reading.function?_eq_some {r : Reading} {f : Function} (h : r.function? = some f) : r = .method f := by
  cases r <;> cases h
  rfl

/-- An object more changes nothing about those that there are. -/
theorem World.reading_grown (w : World σ) (obj : Value) (name : String) :
    w.grown.host.reading obj name = w.host.reading obj name := by
  cases obj with
  | inst i => simp only [Host.reading, grown, Heap.attributes_grow, Host.lookup?, Host.realm]
  | module m => simp only [Host.reading, grown, Host.moduleAttribute?, Heap.attributes_grow]
  | _ => rfl

/-- Two answers to one access, the second asked for after the first. Failures have the same text, values are identical,
    and a function member is bound anew: the two methods are distinct, with identical receivers and functions. -/
structure SameAnswer (reading : Reading) (first second : Except Raised Value) : Prop where
  failure : reading = .nothing → ∃ r r', first = .error r ∧ second = .error r' ∧ r.text = r'.text
  value : ∀ v, reading = .value v → ∃ v', first = .ok v ∧ second = .ok v' ∧ v.is v' = true
  method : ∀ f, reading = .method f → ∃ m m' : Method, first = .ok m.toValue ∧ second = .ok m'.toValue ∧
    m.toValue.is m'.toValue = false ∧ m.receiver.is m'.receiver = true ∧
    (Value.function m.callable).is (.function m'.callable) = true

/-- Nothing that can be observed of two values in one state tells them apart. -/
structure Indistinguishable (σ : Type) (a b : Value) : Prop where
  typeName : a.typeName = b.typeName
  text : a.text = b.text
  classOf : ∀ r : Realm, r.classOf? a = r.classOf? b
  attributes : ∀ (id : RealmId) (name : String) (runner : Runner σ) (w : World σ),
    let first := (getAttribute id a name).run.run runner w
    let second := (getAttribute id b name).run.run runner first.2
    w.host.reading a name = w.host.reading b name ∧ SameAnswer (w.host.reading a name) first.1 second.1

theorem Indistinguishable.refl (a : Value) : Indistinguishable σ a a where
  typeName := rfl
  text := rfl
  classOf _ := rfl
  attributes id name runner w := by
    refine ⟨rfl, fun hnothing => ?_, fun v hvalue => ?_, fun f hmethod => ?_⟩
    · have hagain := (w.reading_grown a name).trans hnothing
      rw [run_getAttribute_of_nothing runner id hnothing, run_getAttribute_of_nothing runner id hagain]
      exact ⟨_, _, rfl, rfl, rfl⟩
    · rw [run_getAttribute_of_value runner id hvalue, run_getAttribute_of_value runner id hvalue]
      exact ⟨v, rfl, rfl, Value.equivalence_is.refl v⟩
    · have hagain := (w.reading_grown a name).trans hmethod
      rw [run_getAttribute_of_method runner id hmethod, run_getAttribute_of_method runner id hagain]
      refine ⟨_, _, rfl, rfl, ?_, Value.equivalence_is.refl a, Value.equivalence_is.refl (.function f)⟩
      exact decide_eq_false (Nat.ne_of_lt (Nat.lt_of_lt_of_eq (Nat.lt_succ_self _) (Array.size_push _).symm))

/-- Identity is an equivalence on all values, on floats that are no number too. Now let the code of a run, the bodies of
    the guest and the program, be honest: it performs operations with what it was given or told. Then only values that
    had occurred are ever handed over, by that code or by an operation for it, and whatever an operation returns or
    raises has occurred by the time it ends. And values that occur up to a moment and are identical cannot be told apart
    in any state: not by the name of their type, their text, their class in any realm, or what attribute access comes to
    under any name. -/
theorem identical_values_are_indistinguishable (g : Guest σ) (room : Option Nat) (p : Program σ α) (s : σ)
    (carried : σ → Stock) (hg : g.Honest carried) (hp : p.Honest carried (fun _ => ⊥) ⊥) (hs : carried s ≤ ⊥) :
    Equivalence (fun a b : Value => a.is b = true) ∧
    (∀ k, ForgesNothing g room p s k) ∧
    (∀ {β γ : Type} (frames : Frames σ α γ) (op : Operation σ β) (next : β → Program σ γ) (i : Nat) (w : World σ),
      moments g room p s i = ⟨frames.fill (.active (op.program.bind next)), w⟩ →
      op.Within carried (stock g room p s i) → ∀ b w', op.program.Ends g (frames.room room) w b w' →
      ∃ j ≥ i, moments g room p s j = ⟨frames.fill (.active (next b)), w'⟩ ∧
        ∀ v, op.Shows b v → Occurs g room p s j v) ∧
    ∀ k a b, Occurs g room p s k a → Occurs g room p s k b → a.is b = true → Indistinguishable σ a b := by
  have hupright : ∀ k, Upright g room p s carried (fun _ => ⊥) k := upright_moments hg hp.draws hs
  refine ⟨Value.equivalence_is, fun k => (hupright k).forgesNothing, ?_, fun k a b ha hb his => ?_⟩
  · intro β γ frames op next i w hmoment hwithin b w' hends
    exact Operation.occurs_of_ends hg hp.draws hs hmoment hwithin hends
  · rw [(coherent_moments (hupright k).forgesNothing).eq_of_is (host_sound_moments g room p s k) ha hb his]
    exact .refl b

/-- A guest whose functions give their first argument itself for an attribute. -/
def selfOwning : Guest Unit where
  call _ args :=
    match args with
    | .inst i :: _ => do
      (Program.send (.setAttribute i.id "self" (.inst i)) : Program Unit Unit)
      return .none
    | _ => Task.fail (.host depthLimit)
  load _ _ := Task.fail (.host depthLimit)

theorem honest_selfOwning : selfOwning.Honest fun _ => ⊥ where
  call code args := by
    have hnothing : (Task.fail (.host depthLimit) : Task Unit Value).run.Honest (fun _ => ⊥) (resultStock ([·]))
        (.of (· ∈ args) (· = code.realm)) := .done Stock.ofList_nil_le
    unfold selfOwning
    dsimp only
    split
    next i rest =>
      refine .perform (.request (.setAttribute i.id "self" (.inst i))) _ ⟨?_, List.forall_mem_nil _, trivial⟩
        fun _ _ => ?_
      · exact List.forall_mem_singleton.2 (Stock.has_of List.mem_cons_self)
      · exact .done (Stock.singleton_le (Stock.scalar _ rfl))
    next => exact hnothing
  load _ _ := .done Stock.ofList_nil_le

/-- Starts a realm and defines a class there, whose instances are initialised. -/
def defineOwner : Program Unit (Except ObjectError (RealmId × Class)) := do
  match ← Program.send (.boot {}) with
  | .error e => return .error e
  | .ok id =>
    let init ← Program.send (.newFunction Builtin.initMember none ⟨0, id⟩)
    match ← Program.send (.define id "Owner" none [(Builtin.initMember, .function init)]) with
    | .error e => return .error e
    | .ok c => return .ok (id, c)

/-- Reads a new instance off its own attribute. -/
def readOwner (id : RealmId) : Except Raised Value → Program Unit Unit
  | .error _ => .done ()
  | .ok owner => (getAttribute id owner "self").run.bind fun _ => .done ()

def makeOwner : Except ObjectError (RealmId × Class) → Program Unit Unit
  | .error _ => .done ()
  | .ok (id, c) => (instantiate id c []).run.bind (readOwner id)

theorem honest_makeOwner : (defineOwner.bind makeOwner).Honest (fun _ => ⊥) (fun _ => ⊥) ⊥ := by
  refine .perform (.request (.boot {})) _ ⟨List.forall_mem_nil _, List.forall_mem_nil _, trivial⟩ fun started _ => ?_
  cases started with
  | error e => exact .done bot_le
  | ok id =>
    -- From here on the realm is known, and each step adds one more value.
    refine .perform (.request (.newFunction Builtin.initMember none ⟨0, id⟩)) _
      ⟨List.forall_mem_nil _, List.forall_mem_singleton.2 (.inr rfl), trivial⟩ fun init _ => ?_
    refine .perform (.request (.define id "Owner" none [(Builtin.initMember, .function init)])) _ ⟨?_, ?_, trivial⟩
      fun defined _ => ?_
    · exact List.forall_mem_singleton.2 (.inr (Operation.has_tells rfl))
    · exact List.forall_mem_singleton.2 (.inl (.inr rfl))
    · cases defined with
      | error e => exact .done bot_le
      | ok c =>
        refine .perform (.instantiate id c []) _ ⟨?_, ?_, trivial⟩ fun made _ => ?_
        · exact List.forall_mem_singleton.2 (.inr (Operation.has_tells ⟨c, rfl, rfl⟩))
        · exact List.forall_mem_singleton.2 (.inl (.inl (.inr rfl)))
        · cases made with
          | error r => exact .done bot_le
          | ok owner =>
            refine .perform (.getAttribute id owner "self") _ ⟨?_, ?_, trivial⟩ fun _ _ => .done bot_le
            · exact List.forall_mem_singleton.2 (.inr (Operation.has_tells List.mem_cons_self))
            · exact List.forall_mem_singleton.2 (.inl (.inl (.inl (.inr rfl))))

/-- How the parts of that program end, one after another. -/
theorem ends_makeOwner : ∃ id c a b f w₁ w₂ w₃,
    (defineOwner.Ends selfOwning (some 1) ⟨.empty, ()⟩ (.ok (id, c)) w₁ ∧ id < w₁.host.realms.length ∧
      w₁.host.Holds (.cls c)) ∧
    (instantiate id c []).run.Ends selfOwning (some 1) w₁ (.ok a) w₂ ∧
    (getAttribute id a "self").run.Ends selfOwning (some 1) w₂ (.ok b) w₃ ∧ a.is b = true ∧
      w₃.host.reading a Builtin.initMember = .method f := by
  let defined := defineOwner.run (selfOwning.runner 1) ⟨.empty, ()⟩
  let made (d : RealmId × Class) := (instantiate d.1 d.2 []).run.run (selfOwning.runner 1) defined.2
  let read (d : RealmId × Class) (a : Value) := (getAttribute d.1 a "self").run.run (selfOwning.runner 1) (made d).2
  have hstate : ∃ d ∈ defined.1.toOption, (d.1 < defined.2.host.realms.length ∧
      (defined.2.host.realm d.1).classes.get? "Owner" = some d.2) ∧ ∃ a ∈ (made d).1.toOption,
      ∃ b ∈ (read d a).1.toOption, a.is b = true ∧
        ((read d a).2.host.reading a Builtin.initMember).function?.isSome = true := by
    decide +kernel
  obtain ⟨d, hd, ⟨hstarted, hnamed⟩, a, ha, b, hb, his, hmethod⟩ := hstate
  obtain ⟨f, hf⟩ := Option.isSome_iff_exists.1 hmethod
  refine ⟨d.1, d.2, a, b, f, defined.2, (made d).2, (read d a).2, ⟨?_, hstarted, ?_⟩, ?_, ?_, his,
    Reading.function?_eq_some hf⟩
  · exact Program.ends_ok_of_run hd
  · exact .realm hstarted (.classes (.named hnamed))
  · exact Program.ends_ok_of_run ha
  · exact Program.ends_ok_of_run hb

/-- The instance that its maker got and the one that was read off its own attribute are one and the same. Its method is
    another one each time. -/
theorem identical_values_are_indistinguishable_owner :
    selfOwning.Honest (fun _ => ⊥) ∧ (defineOwner.bind makeOwner).Honest (fun _ => ⊥) (fun _ => ⊥) ⊥ ∧
    let run := moments selfOwning (some 1) (defineOwner.bind makeOwner) ()
    ∃ id c a b, ∃ i j k : Nat, (run i).thread = .active ((instantiate id c []).run.bind (readOwner id)) ∧
      (run j).thread = .active ((getAttribute id a "self").run.bind fun _ => .done ()) ∧
      (getAttribute id a "self").run.Ends selfOwning (some 1) (run j).world (.ok b) (run k).world ∧
      Occurs selfOwning (some 1) (defineOwner.bind makeOwner) () k a ∧
      Occurs selfOwning (some 1) (defineOwner.bind makeOwner) () k b ∧ a.is b = true ∧ a.text = b.text ∧
      ∃ m m' : Method,
        let first := (getAttribute id a Builtin.initMember).run.run (selfOwning.runner 0) (run k).world
        first.1 = .ok m.toValue ∧
        ((getAttribute id b Builtin.initMember).run.run (selfOwning.runner 0) first.2).1 = .ok m'.toValue ∧
        m.toValue.is m'.toValue = false ∧ m.receiver.is m'.receiver = true := by
  refine ⟨honest_selfOwning, honest_makeOwner, ?_⟩
  intro run
  obtain ⟨-, -, hoperations, hobserved⟩ := identical_values_are_indistinguishable selfOwning (some 1)
    (defineOwner.bind makeOwner) () (fun _ => ⊥) honest_selfOwning honest_makeOwner le_rfl
  obtain ⟨id, c, a, b, f, w₁, w₂, w₃, ⟨⟨n, hdefined⟩, hstarted, hheld⟩, hmade, hread, his, hreading⟩ := ends_makeOwner
  obtain ⟨i, hi⟩ := Moment.iterate_bind makeOwner hdefined
  have hmoment : moments selfOwning (some 1) (defineOwner.bind makeOwner) () i =
      ⟨.active ((instantiate id c []).run.bind (readOwner id)), w₁⟩ := hi
  have hcls : Occurs selfOwning (some 1) (defineOwner.bind makeOwner) () i (.cls c) := by
    refine .held (Nat.le_refl i) ?_
    rw [hmoment]
    exact hheld
  have hknown : id < (moments selfOwning (some 1) (defineOwner.bind makeOwner) () i).world.host.realms.length := by
    rw [hmoment]
    exact hstarted
  obtain ⟨j, hij, hj, hshown⟩ := hoperations .here (.instantiate id c []) (readOwner id) i w₁ hmoment
    ⟨List.forall_mem_singleton.2 hcls, List.forall_mem_singleton.2 hknown, trivial⟩ (.ok a) w₂ hmade
  have ha := hshown a List.mem_cons_self
  obtain ⟨k, hjk, hk, hshown'⟩ := hoperations .here (.getAttribute id a "self") (fun _ => .done ()) j w₂ hj
    ⟨List.forall_mem_singleton.2 ha, List.forall_mem_singleton.2 (started_moments hij hknown), trivial⟩ (.ok b) w₃ hread
  have ha' := ha.mono hjk
  have hb := hshown' b List.mem_cons_self
  obtain ⟨-, htext, -, hattributes⟩ := hobserved k a b ha' hb his
  have hreading' : (run k).world.host.reading a Builtin.initMember = .method f := by
    simp only [run, hk]
    exact hreading
  obtain ⟨-, hanswers⟩ := hattributes id Builtin.initMember (selfOwning.runner 0) (run k).world
  obtain ⟨m, m', hfirst, hsecond, hdistinct, hreceiver, -⟩ := hanswers.method f hreading'
  refine ⟨id, c, a, b, i, j, k, congrArg Moment.thread hmoment, congrArg Moment.thread hj, ?_, ha', hb, his, htext,
    m, m', hfirst, hsecond, hdistinct, hreceiver⟩
  simp only [run, hj, hk]
  exact hread

end ObjectHost
