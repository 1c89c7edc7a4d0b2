-- SUMMARY: Code that hands over only what it has come by, and that the operations never hand over anything else for it.
import Mathlib.Order.BoundedOrder.Basic
import Mathlib.Order.Lattice
import ObjectHost.Proofs.Host.Holding

/-!
# Honest code

Nothing keeps a program from making up a handle out of numbers. Honest code does
not do so: whatever it hands over or comes to, it was given, was told in reply to
what it asked, or found in one of these. That is asked of the code which uses the
operations, and of nobody else, since an operation that is handed only what its
user has come by hands over and comes to nothing else either.
-/

namespace ObjectHost

variable {σ α β γ : Type}

/-! ## Parts of parts -/

namespace Value

theorem self_mem_parts (v : Value) : v ∈ v.parts := by
  cases v with
  | cls c => exact List.mem_map_of_mem (Class.self_mem_ancestors c)
  | _ => exact List.mem_cons_self

theorem mem_ancestors_of_mem_parts {u : Value} {c d : Class} (hd : d ∈ c.ancestors) (hu : u ∈ (Value.cls d).parts) :
    u ∈ c.ancestors.map .cls := by
  obtain ⟨b, hb, rfl⟩ := List.mem_map.1 hu
  exact List.mem_map_of_mem (Class.ancestors_trans hd hb)

theorem parts_trans {u v w : Value} (hv : v ∈ w.parts) (hu : u ∈ v.parts) : u ∈ w.parts := by
  have hclass : ∀ {c : Class}, v ∈ c.ancestors.map .cls → u ∈ c.ancestors.map .cls := by
    intro c hc
    obtain ⟨d, hd, rfl⟩ := List.mem_map.1 hc
    exact mem_ancestors_of_mem_parts hd hu
  induction w with
  | cls c => exact hclass hv
  | inst i =>
    rcases List.mem_cons.1 hv with rfl | hv
    · exact hu
    · exact List.mem_cons_of_mem _ (hclass hv)
  | exception id cls message qualifier ih =>
    rcases List.mem_cons.1 hv with rfl | hv
    · exact hu
    · refine List.mem_cons_of_mem _ (List.mem_append.2 ?_)
      exact (List.mem_append.1 hv).imp hclass ih
  | method id receiver callable ih =>
    rcases List.mem_cons.1 hv with rfl | hv
    · exact hu
    · refine List.mem_cons_of_mem _ (List.mem_cons.2 ?_)
      rcases List.mem_cons.1 hv with rfl | hv
      · exact .inl (List.mem_singleton.1 hu)
      · exact .inr (ih hv)
  | module m =>
    rcases List.mem_cons.1 hv with rfl | hv
    · exact hu
    · obtain ⟨c, hc, hv⟩ := List.mem_flatMap.1 hv
      exact List.mem_cons_of_mem _ (List.mem_flatMap.2 ⟨c, hc, hclass hv⟩)
  | _ =>
    cases List.mem_singleton.1 hv
    exact hu

end Value

/-! ## What code has come by -/

/-- Values, with all that can be found in them, and realms. Scalars are free. -/
@[ext] structure Stock where
  Has : Value → Prop
  Knows : RealmId → Prop
  scalar : ∀ {v : Value}, v.kind.hasIdentity = false → Has v
  part : ∀ {v u : Value}, Has v → u ∈ v.parts → Has u

namespace Stock

instance : SemilatticeSup Stock where
  le K L := (∀ v, K.Has v → L.Has v) ∧ ∀ id, K.Knows id → L.Knows id
  le_refl K := ⟨fun _ => id, fun _ => id⟩
  le_trans K L M hKL hLM := ⟨fun v hv => hLM.1 v (hKL.1 v hv), fun id hid => hLM.2 id (hKL.2 id hid)⟩
  le_antisymm K L hKL hLK := by
    ext x
    · exact ⟨hKL.1 x, hLK.1 x⟩
    · exact ⟨hKL.2 x, hLK.2 x⟩
  sup K L := {
    Has := fun v => K.Has v ∨ L.Has v
    Knows := fun id => K.Knows id ∨ L.Knows id
    scalar := fun h => .inl (K.scalar h)
    part := fun hv hu => hv.imp (K.part · hu) (L.part · hu) }
  le_sup_left _ _ := ⟨fun _ => .inl, fun _ => .inl⟩
  le_sup_right _ _ := ⟨fun _ => .inr, fun _ => .inr⟩
  sup_le _ _ _ hK hL := ⟨fun v hv => hv.elim (hK.1 v) (hL.1 v), fun id hid => hid.elim (hK.2 id) (hL.2 id)⟩

/-- The stock of some values and some realms. -/
def of (values : Value → Prop) (realms : RealmId → Prop) : Stock where
  Has v := v.kind.hasIdentity = false ∨ ∃ u, values u ∧ v ∈ u.parts
  Knows := realms
  scalar := .inl
  part := by
    rintro v u (hv | ⟨w, hw, hv⟩) hu
    · rw [Value.parts_of_scalar hv] at hu
      cases List.mem_singleton.1 hu
      exact .inl hv
    · exact .inr ⟨w, hw, Value.parts_trans hv hu⟩

variable {K L : Stock} {values : Value → Prop} {realms : RealmId → Prop}

theorem has_of {v : Value} (h : values v) : (of values realms).Has v := .inr ⟨v, h, v.self_mem_parts⟩

theorem of_le (hvalues : ∀ v, values v → K.Has v) (hrealms : ∀ id, realms id → K.Knows id) : of values realms ≤ K := by
  refine ⟨?_, hrealms⟩
  rintro v (hv | ⟨u, hu, hv⟩)
  · exact K.scalar hv
  · exact K.part (hvalues u hu) hv

instance : OrderBot Stock where
  bot := of (fun _ => False) fun _ => False
  bot_le _ := of_le (fun _ => False.elim) fun _ => False.elim

/-- The stock of a few values. -/
def ofList (vs : List Value) : Stock := of (· ∈ vs) fun _ => False

theorem ofList_le {vs : List Value} (h : ∀ v ∈ vs, K.Has v) : ofList vs ≤ K := of_le h fun _ => False.elim

theorem ofList_nil_le : ofList [] ≤ K := ofList_le (List.forall_mem_nil _)

theorem singleton_le {v : Value} (h : K.Has v) : ofList [v] ≤ K := ofList_le (List.forall_mem_singleton.2 h)

end Stock

namespace Host

variable {h : Host} {c : Class} {name : String} {v : Value}

/-- What is looked up is held. -/
theorem holds_of_lookup? (hlookup : h.lookup? c name = some v) : h.Holds v := by
  obtain ⟨a, -, hmember⟩ := List.exists_of_findSome?_eq_some hlookup
  unfold Registry.member? Registry.members at hmember
  split at hmember
  next e hfind =>
    have he := List.mem_of_find?_eq_some hfind
    by_cases hid : c.home < h.realms.length
    · exact .realm hid (.classes (.member he hmember))
    · -- A realm that was never started has no members.
      rw [realm_of_length_le (Nat.le_of_not_lt hid)] at he
      cases List.mem_singleton.1 he
      cases hmember
  next => cases hmember

theorem holds_of_moduleAttribute? {m : Module} (hattr : h.moduleAttribute? m name = some v) :
    v.kind.hasIdentity = false ∨ h.Holds v := by
  unfold moduleAttribute? at hattr
  split at hattr
  · cases hattr
    exact .inl rfl
  · exact .inr (.attr hattr)

end Host

/-- What is read, be it to be bound or not. -/
def Reading.value? : Reading → Option Value
  | .value v => some v
  | .method f => some (.function f)
  | .nothing => none

@[simp] theorem Reading.value?_ofOption (o : Option Value) : (Reading.ofOption o).value? = o := by
  cases o <;> rfl

@[simp] theorem Reading.value?_ofMember (o : Option Value) : (Reading.ofMember o).value? = o := by
  cases o with
  | none => rfl
  | some v => cases v <;> rfl

/-- What is read off an object is held, or was in the object. -/
theorem Host.holds_of_reading {h : Host} {obj : Value} {name : String} {v : Value}
    (hreading : (h.reading obj name).value? = some v) :
    v.kind.hasIdentity = false ∨ h.Holds v ∨ v ∈ obj.parts := by
  unfold Host.reading at hreading
  split at hreading
  · split at hreading
    next hown =>
      cases hreading
      exact .inr (.inl (.attr hown))
    next =>
      rw [Reading.value?_ofMember] at hreading
      exact .inr (.inl (holds_of_lookup? hreading))
  · split at hreading
    next =>
      cases hreading
      exact .inr (.inr (List.mem_cons_of_mem _ (List.mem_append_right _ v.self_mem_parts)))
    next =>
      rw [Reading.value?_ofMember] at hreading
      exact .inr (.inl (holds_of_lookup? hreading))
  · rw [Reading.value?_ofOption] at hreading
    exact (holds_of_moduleAttribute? hreading).imp_right .inl
  · rw [Reading.value?_ofOption] at hreading
    exact .inr (.inl (holds_of_lookup? hreading))
  · cases hreading

/-! ## Requests -/

namespace Request

/-- The realms that a reply tells of. -/
def Names : (request : Request σ) → request.Reply → RealmId → Prop
  | .observe, h, id => id < h.realms.length
  | .boot _, r, id => r = .ok id
  | _, _, _ => False

/-- What a reply adds to the stock of whoever gets it. The state of a guest brings what was put there, which is for
    `carried` to say. -/
def tells (carried : σ → Stock) : (request : Request σ) → request.Reply → Stock
  | .guest _, s => carried s
  | request, reply => .of (request.Shows reply) (request.Names reply)

/-- Whatever a request puts into the state of the guest comes from the stock or was there. -/
def Stores (carried : σ → Stock) (K : Stock) : Request σ → Prop
  | .guest change => ∀ s, carried (change s) ≤ K ⊔ carried s
  | _ => True

/-- All that a request hands over or names comes from the stock. -/
structure Within (carried : σ → Stock) (K : Stock) (request : Request σ) : Prop where
  offers : ∀ v ∈ request.offers, K.Has v
  realms : ∀ id ∈ request.realms, K.Knows id
  stores : request.Stores carried K

/-- The replies that there can be for one with that stock: the realms that it knows were started. -/
def Credible (K : Stock) : (request : Request σ) → request.Reply → Prop
  | .observe, h => ∀ id, K.Knows id → id < h.realms.length
  | _, _ => True

variable {carried : σ → Stock} {K L : Stock} {request : Request σ}

theorem Within.mono (h : request.Within carried K) (hKL : K ≤ L) : request.Within carried L where
  offers v hv := hKL.1 v (h.offers v hv)
  realms id hid := hKL.2 id (h.realms id hid)
  stores := by
    have hstores := h.stores
    cases request with
    | guest change => exact fun s => (hstores s).trans (sup_le_sup_right hKL _)
    | _ => trivial

theorem Credible.anti {reply : request.Reply} (h : request.Credible L reply) (hKL : K ≤ L) :
    request.Credible K reply := by
  cases request with
  | observe => exact fun id hid => h id (hKL.2 id hid)
  | _ => trivial

end Request

/-! ## Programs -/

namespace Program

/-- With the stock `K`, the program hands over and comes to only what it has come by, where `tells` says what there is
    in a result. -/
def Draws (carried : σ → Stock) (tells : α → Stock) : Stock → Program σ α → Prop
  | K, .done a => tells a ≤ K
  | K, .ask request next => request.Within carried K ∧
    ∀ reply, request.Credible K reply → (next reply).Draws carried tells (K ⊔ request.tells carried reply)

namespace Draws

variable {carried : σ → Stock} {tells : α → Stock} {K L : Stock} {p : Program σ α}

theorem mono (h : p.Draws carried tells K) (hKL : K ≤ L) : p.Draws carried tells L := by
  induction p generalizing K L with
  | done a => exact h.trans hKL
  | ask request next ih =>
    obtain ⟨hwithin, hnext⟩ := h
    exact ⟨hwithin.mono hKL, fun reply hreply => ih reply (hnext reply (hreply.anti hKL)) (sup_le_sup_right hKL _)⟩

/-- What follows may use what came before. -/
theorem bind {tells' : β → Stock} {f : α → Program σ β} (h : p.Draws carried tells K)
    (hf : ∀ a, (f a).Draws carried tells' (K ⊔ tells a)) : (p.bind f).Draws carried tells' K := by
  induction p generalizing K with
  | done a => exact (hf a).mono (sup_le le_rfl h)
  | ask request next ih =>
    obtain ⟨hwithin, hnext⟩ := h
    refine ⟨hwithin, fun reply hreply => ih reply (hnext reply hreply) fun a => (hf a).mono ?_⟩
    exact sup_le_sup_right le_sup_left _

end Draws

end Program

theorem Request.has_tells {carried : σ → Stock} {request : Request σ} {reply : request.Reply} {v : Value}
    (h : request.Shows reply v) : (request.tells carried reply).Has v := by
  cases request with
  | guest change => exact False.elim h
  | _ => exact Stock.has_of h

/-- What there is in what a task comes to. -/
def resultStock (values : α → List Value) (r : Except Raised α) : Stock := .ofList (resultValues values r)

/-! ## The operations -/

section Operations

variable {carried : σ → Stock} {K : Stock} {realm : RealmId}

theorem Request.within_observe : (Request.observe : Request σ).Within carried K :=
  ⟨List.forall_mem_nil _, List.forall_mem_nil _, trivial⟩

/-- A new exception is all that there is in what comes of it. -/
theorem Program.draws_newException {tells : α → Stock} {f : Exception → α} (hrealm : K.Knows realm) (name : String)
    {message : Value} (hmessage : K.Has message) (hf : ∀ e, tells (f e) = .ofList [e.toValue]) :
    (Program.ask (.newException realm name message) fun e => .done (f e) : Program σ α).Draws carried tells K := by
  refine ⟨⟨List.forall_mem_singleton.2 hmessage, List.forall_mem_singleton.2 hrealm, trivial⟩, fun e _ => ?_⟩
  exact (hf e).trans_le (Stock.singleton_le (.inr (Request.has_tells rfl)))

theorem Task.draws_raise {values : α → List Value} (hrealm : K.Knows realm) (name : String) {message : Value}
    (hmessage : K.Has message) : (Task.raise realm name message : Task σ α).run.Draws carried (resultStock values) K :=
  Program.draws_newException hrealm name hmessage fun _ => rfl

theorem draws_raisedOf (hrealm : K.Knows realm) (e : ObjectError) :
    (raisedOf realm e : Program σ Raised).Draws carried (fun r => .ofList r.values) K := by
  rw [raisedOf_eq]
  cases e.managed? with
  | none => exact Stock.ofList_nil_le
  | some name => exact Program.draws_newException hrealm name (K.scalar rfl) fun _ => rfl

/-- A fault in the bookkeeping that a task fails with. -/
theorem draws_fail_raisedOf {values : α → List Value} (hrealm : K.Knows realm) (e : ObjectError) :
    ((raisedOf realm e).bind fun r => .done (.error r) : Program σ (Except Raised α)).Draws carried
      (resultStock values) K :=
  (draws_raisedOf hrealm e).bind fun _ => le_sup_right

theorem draws_exceptionify (hrealm : K.Knows realm) {r : Raised} (hr : ∀ v ∈ r.values, K.Has v) :
    (exceptionify realm r : Program σ Raised).Draws carried (fun r => .ofList r.values) K := by
  cases r with
  | exception e => exact Stock.ofList_le hr
  | host failure =>
    cases failure with
    | reference message => exact Program.draws_newException hrealm _ (K.scalar rfl) fun _ => rfl
    | arity function expected got => exact Stock.ofList_le hr
    | other message => exact Stock.ofList_le hr

theorem draws_catchAs (hrealm : K.Knows realm) {r : Raised} (hr : ∀ v ∈ r.values, K.Has v) (cls : Class) :
    (catchAs realm r cls : Program σ _).Draws carried (resultStock ([·.toValue])) K := by
  refine (draws_exceptionify hrealm hr).bind fun r => ?_
  cases r with
  | host failure => exact Stock.ofList_nil_le
  | exception e =>
    have hstock : ∀ b : Bool, resultStock ([·.toValue]) (if b then .ok e else .error (.exception e)) =
        .ofList (Raised.exception e).values := by
      intro b
      cases b <;> rfl
    exact (le_of_eq (hstock _)).trans le_sup_right

theorem draws_describe (hrealm : K.Knows realm) (m : Method) :
    (describe realm m : Task σ String).run.Draws carried (resultStock fun _ => []) K := by
  rw [describe_run]
  cases m.describe with
  | ok text => exact Stock.ofList_nil_le
  | error e => exact draws_fail_raisedOf hrealm e

theorem draws_callFunction {f : Function} {args : List Value} (hf : K.Has (.function f)) (hargs : ∀ v ∈ args, K.Has v) :
    (callFunction f args : Task σ Value).run.Draws carried (resultStock ([·])) K := by
  refine ⟨⟨List.forall_mem_cons.2 ⟨hf, hargs⟩, List.forall_mem_nil _, trivial⟩, fun r _ => ?_⟩
  exact Stock.ofList_le fun v hv => .inr (Request.has_tells hv)

theorem draws_invoke {m : Method} {args : List Value} (hm : K.Has m.toValue) (hargs : ∀ v ∈ args, K.Has v) :
    (invoke m args : Task σ Value).run.Draws carried (resultStock ([·])) K := by
  refine draws_callFunction (K.part hm ?_) (List.forall_mem_cons.2 ⟨K.part hm ?_, hargs⟩)
  · exact List.mem_cons_of_mem _ List.mem_cons_self
  · exact List.mem_cons_of_mem _ (List.mem_cons_of_mem _ m.receiver.self_mem_parts)

theorem draws_getAttribute (hrealm : K.Knows realm) {obj : Value} (hobj : K.Has obj) (name : String) :
    (getAttribute realm obj name : Task σ Value).run.Draws carried (resultStock ([·])) K := by
  rw [getAttribute_run]
  refine ⟨Request.within_observe, fun h _ => ?_⟩
  have hread : ∀ v, (h.reading obj name).value? = some v → (K ⊔ Request.observe.tells carried h).Has v := by
    intro v hv
    rcases Host.holds_of_reading hv with hscalar | hheld | hpart
    · exact .inl (K.scalar hscalar)
    · exact .inr (Request.has_tells hheld)
    · exact .inl (K.part hobj hpart)
  dsimp only
  cases hreading : h.reading obj name with
  | value v => exact Stock.singleton_le (hread v (congrArg Reading.value? hreading))
  | method f =>
    have hf := hread _ (congrArg Reading.value? hreading)
    refine ⟨⟨List.forall_mem_cons.2 ⟨.inl hobj, List.forall_mem_singleton.2 hf⟩, List.forall_mem_nil _, trivial⟩, ?_⟩
    exact fun m _ => Stock.singleton_le (.inr (Request.has_tells rfl))
  | nothing => exact (Task.draws_raise hrealm _ (K.scalar rfl)).mono le_sup_left

theorem draws_initialise (hrealm : K.Knows realm) {h : Host} (hheld : ∀ v, h.Holds v → K.Has v) (cls : Class)
    {args : List Value} (hargs : ∀ v ∈ args, K.Has v) {i : Instance} (hi : K.Has (.inst i)) :
    (initialise h realm cls args i : Program σ _).Draws carried (resultStock ([·])) K := by
  unfold initialise
  cases hinit : h.initialiser? cls with
  | some f =>
    have hf := hheld _ (Host.holds_of_lookup? (Host.initialiser?_eq_some_iff.1 hinit))
    refine ⟨⟨List.forall_mem_cons.2 ⟨hi, List.forall_mem_singleton.2 hf⟩, List.forall_mem_nil _, trivial⟩,
      fun m _ => ?_⟩
    have hm : (K ⊔ Request.tells carried (.newMethod (.inst i) f) m).Has m.toValue := .inr (Request.has_tells rfl)
    refine (draws_invoke hm fun v hv => .inl (hargs v hv)).bind fun r => ?_
    cases r with
    | ok v => exact Stock.singleton_le (.inl (.inl hi))
    | error r => exact le_sup_right
  | none =>
    dsimp only
    split
    · exact Stock.singleton_le hi
    · exact Task.draws_raise hrealm _ (K.scalar rfl)

theorem draws_instantiate (hrealm : K.Knows realm) {cls : Class} (hcls : K.Has (.cls cls)) {args : List Value}
    (hargs : ∀ v ∈ args, K.Has v) :
    (instantiate realm cls args : Task σ Value).run.Draws carried (resultStock ([·])) K := by
  rw [instantiate_run]
  refine ⟨Request.within_observe, fun h _ => ?_⟩
  dsimp only
  split
  · refine ⟨⟨List.forall_mem_cons.2 ⟨.inl hcls, fun v hv => .inl (hargs v hv)⟩,
      List.forall_mem_singleton.2 (.inl hrealm), trivial⟩, fun made _ => ?_⟩
    cases made with
    | ok e => exact Stock.singleton_le (.inr (Request.has_tells ⟨e, rfl, rfl⟩))
    | error e => exact (draws_fail_raisedOf hrealm e).mono (le_sup_left.trans le_sup_left)
  · refine ⟨⟨List.forall_mem_singleton.2 (.inl hcls), List.forall_mem_nil _, trivial⟩, fun i _ => ?_⟩
    refine draws_initialise ?_ (fun v hv => ?_) cls (fun v hv => ?_) ?_
    · exact .inl (.inl hrealm)
    · exact .inl (.inr (Request.has_tells hv))
    · exact .inl (.inl (hargs v hv))
    · exact .inr (Request.has_tells rfl)

theorem draws_load {ctx : Context} (hrealm : K.Knows ctx.realm) :
    (loadModule ctx : Task σ Module).run.Draws carried (resultStock ([.module ·])) K := by
  refine ⟨⟨List.forall_mem_nil _, List.forall_mem_singleton.2 hrealm, trivial⟩, fun r _ => ?_⟩
  exact Stock.ofList_le fun v hv => .inr (Request.has_tells hv)

theorem draws_importModule (hrealm : K.Knows realm) (requested caller : String) :
    (importModule realm requested caller : Task σ Module).run.Draws carried (resultStock ([.module ·])) K := by
  rw [importModule_run]
  refine ⟨Request.within_observe, fun h _ => ?_⟩
  dsimp only
  cases (h.realm realm).resolve? requested caller with
  | some r => exact (draws_load hrealm).mono le_sup_left
  | none => exact (Task.draws_raise hrealm _ (K.scalar rfl)).mono le_sup_left

theorem draws_runModule (hrealm : K.Knows realm) (target : String) (displayName : Option String) :
    (runModule realm target displayName : Task σ Module).run.Draws carried (resultStock ([.module ·])) K := by
  refine ⟨⟨List.forall_mem_nil _, List.forall_mem_singleton.2 hrealm, trivial⟩, fun r _ => ?_⟩
  exact Stock.ofList_le fun v hv => .inr (Request.has_tells hv)

theorem Fetch.draws_task {fetch : Fetch} (hrealm : K.Knows fetch.realm) :
    (fetch.task : Task σ Module).run.Draws carried (resultStock ([.module ·])) K := by
  cases fetch with
  | load ctx => exact draws_load hrealm
  | resolved realm name => exact draws_load hrealm
  | named realm requested caller => exact draws_importModule hrealm requested caller
  | entry realm target displayName => exact draws_runModule hrealm target displayName

theorem draws_importFrom (hrealm : K.Knows realm) (m : Module) (name : String) :
    (importFrom realm m name : Task σ Value).run.Draws carried (resultStock ([·])) K := by
  rw [importFrom_run]
  refine ⟨Request.within_observe, fun h _ => ?_⟩
  dsimp only
  cases hattr : h.moduleAttribute? m name with
  | none => exact (Task.draws_raise hrealm _ (K.scalar rfl)).mono le_sup_left
  | some v =>
    refine Stock.singleton_le ?_
    rcases Host.holds_of_moduleAttribute? hattr with hscalar | hheld
    · exact .inl (K.scalar hscalar)
    · exact .inr (Request.has_tells hheld)

theorem Context.draws_newModule {ctx : Context} (hrealm : K.Knows ctx.realm) :
    (ctx.newModule : Program σ Module).Draws carried (fun m => .ofList [.module m]) K := by
  refine ⟨Request.within_observe, fun h hcredible => ?_⟩
  have hcore : (h.realm ctx.realm).core.module ∈ (h.realm ctx.realm).core.all := by
    simp [CoreClasses.all]
  have hheld : h.Holds (.cls (h.realm ctx.realm).core.module) := .realm (hcredible ctx.realm hrealm) (.core hcore)
  refine ⟨⟨List.forall_mem_singleton.2 (.inr (Request.has_tells hheld)), List.forall_mem_nil _, trivial⟩, fun m _ => ?_⟩
  exact Stock.singleton_le (.inr (Request.has_tells rfl))

end Operations

namespace Operation

/-- The values that an operation is handed. -/
def offers : Operation σ β → List Value
  | .request asked => asked.offers
  | .raise _ _ message => [message]
  | .exceptionify _ r => r.values
  | .catchAs _ r cls => .cls cls :: r.values
  | .bindMethod receiver callable => [receiver, .function callable]
  | .callFunction f args => .function f :: args
  | .invoke m args => m.toValue :: args
  | .describe _ m => [m.toValue]
  | .getAttribute _ obj _ => [obj]
  | .instantiate _ cls args => .cls cls :: args
  | .importFrom _ m _ => [.module m]
  | .importError .. | .raisedOf .. | .fetch _ | .newModule _ => []

/-- The realms that it is performed for. -/
def realms : Operation σ β → List RealmId
  | .request asked => asked.realms
  | .raise realm .. | .importError realm _ | .raisedOf realm _ | .exceptionify realm _ | .catchAs realm .. => [realm]
  | .describe realm _ | .getAttribute realm .. | .instantiate realm .. | .importFrom realm .. => [realm]
  | .fetch way => [way.realm]
  | .newModule ctx => [ctx.realm]
  | .bindMethod .. | .callFunction .. | .invoke .. => []

def Stores (carried : σ → Stock) (K : Stock) : Operation σ β → Prop
  | .request asked => asked.Stores carried K
  | _ => True

/-- All that an operation is handed comes from the stock. -/
structure Within (carried : σ → Stock) (K : Stock) (op : Operation σ β) : Prop where
  offers : ∀ v ∈ op.offers, K.Has v
  realms : ∀ id ∈ op.realms, K.Knows id
  stores : op.Stores carried K

/-- The values that it returns or raises. -/
def Shows : Operation σ β → β → Value → Prop
  | .request asked, reply, v => asked.Shows reply v
  | .raise .., r, v | .importError .., r, v => v ∈ resultValues (fun _ => []) r
  | .raisedOf .., r, v | .exceptionify .., r, v => v ∈ r.values
  | .catchAs .., r, v => v ∈ resultValues ([·.toValue]) r
  | .bindMethod .., m, v => v ∈ [m.toValue]
  | .describe .., r, v => v ∈ resultValues (fun _ => []) r
  | .callFunction .., r, v | .invoke .., r, v | .getAttribute .., r, v => v ∈ resultValues ([·]) r
  | .instantiate .., r, v | .importFrom .., r, v => v ∈ resultValues ([·]) r
  | .fetch _, r, v => v ∈ resultValues ([.module ·]) r
  | .newModule _, m, v => v ∈ [.module m]

/-- What an operation adds to the stock of whoever performs it. -/
def tells (carried : σ → Stock) : Operation σ β → β → Stock
  | .request asked, reply => asked.tells carried reply
  | op, b => .of (op.Shows b) fun _ => False

/-- The results that there can be for one with that stock. -/
def Credible (K : Stock) : Operation σ β → β → Prop
  | .request asked, reply => asked.Credible K reply
  | _, _ => True

variable {carried : σ → Stock} {K : Stock}

theorem has_tells {op : Operation σ β} {b : β} {v : Value} (h : op.Shows b v) : (op.tells carried b).Has v := by
  cases op with
  | request asked => exact Request.has_tells h
  | _ => exact Stock.has_of h

/-- An operation that is handed what its user has come by hands over and comes to nothing else. -/
theorem draws {op : Operation σ β} (h : op.Within carried K) : op.program.Draws carried (op.tells carried) K := by
  obtain ⟨hoffers, hrealms, hstores⟩ := h
  cases op with
  | request asked => exact ⟨⟨hoffers, hrealms, hstores⟩, fun reply _ => le_sup_right⟩
  | raise realm name message =>
    exact Task.draws_raise (hrealms _ List.mem_cons_self) name (hoffers _ List.mem_cons_self)
  | importError realm name => exact Task.draws_raise (hrealms _ List.mem_cons_self) _ (K.scalar rfl)
  | raisedOf realm e => exact draws_raisedOf (hrealms _ List.mem_cons_self) e
  | exceptionify realm r => exact draws_exceptionify (hrealms _ List.mem_cons_self) hoffers
  | catchAs realm r cls => exact draws_catchAs (hrealms _ List.mem_cons_self) (List.forall_mem_cons.1 hoffers).2 cls
  | bindMethod receiver callable =>
    refine ⟨⟨hoffers, List.forall_mem_nil _, trivial⟩, fun m _ => ?_⟩
    exact Stock.singleton_le (.inr (Request.has_tells rfl))
  | callFunction f args =>
    obtain ⟨hf, hargs⟩ := List.forall_mem_cons.1 hoffers
    exact draws_callFunction hf hargs
  | invoke m args =>
    obtain ⟨hm, hargs⟩ := List.forall_mem_cons.1 hoffers
    exact draws_invoke hm hargs
  | describe realm m => exact draws_describe (hrealms _ List.mem_cons_self) m
  | getAttribute realm obj name =>
    exact draws_getAttribute (hrealms _ List.mem_cons_self) (hoffers _ List.mem_cons_self) name
  | instantiate realm cls args =>
    obtain ⟨hcls, hargs⟩ := List.forall_mem_cons.1 hoffers
    exact draws_instantiate (hrealms _ List.mem_cons_self) hcls hargs
  | fetch way => exact Fetch.draws_task (hrealms _ List.mem_cons_self)
  | importFrom realm m name => exact draws_importFrom (hrealms _ List.mem_cons_self) m name
  | newModule ctx => exact Context.draws_newModule (hrealms _ List.mem_cons_self)

end Operation

/-! ## Honest code -/

/-- With the stock `K`, the program performs operations with what it has come by, and comes to nothing else. -/
inductive Program.Honest (carried : σ → Stock) (tells : α → Stock) : Stock → Program σ α → Prop where
  | done {K : Stock} {a : α} (h : tells a ≤ K) : Honest carried tells K (.done a)
  | perform {K : Stock} {β : Type} (op : Operation σ β) (next : β → Program σ α) (hwithin : op.Within carried K)
      (hnext : ∀ b, op.Credible K b → Honest carried tells (K ⊔ op.tells carried b) (next b)) :
      Honest carried tells K (op.program.bind next)

theorem Program.Honest.draws {carried : σ → Stock} {tells : α → Stock} {K : Stock} {p : Program σ α}
    (h : p.Honest carried tells K) : p.Draws carried tells K := by
  induction h with
  | done h => exact h
  | perform op next hwithin _ ih =>
    cases op with
    | request asked => exact ⟨⟨hwithin.offers, hwithin.realms, hwithin.stores⟩, ih⟩
    | _ => exact (Operation.draws hwithin).bind fun b => ih b trivial

/-- The bodies of a guest start with what they are given and with the realms that they were written in and are run
    for. -/
structure Guest.Honest (carried : σ → Stock) (g : Guest σ) : Prop where
  call : ∀ code args, (g.call code args).run.Honest carried (resultStock ([·])) (.of (· ∈ args) (· = code.realm))
  load : ∀ factory ctx, (g.load factory ctx).run.Honest carried (resultStock ([.module ·]))
    (.of (fun _ => False) fun id => id = factory.realm ∨ id = ctx.realm)

/-! ## Threads -/

namespace Thread

/-- All that the thread and the bodies around it hand over and come to is drawn from the stock. -/
def Draws (carried : σ → Stock) : {α : Type} → (α → Stock) → Stock → Thread σ α → Prop
  | _, tells, K, .active p => p.Draws carried tells K
  | _, tells, K, .calling body next => body.Draws carried (resultStock ([·])) K ∧
    ∀ r, (next r).Draws carried tells (K ⊔ resultStock ([·]) r)
  | _, tells, K, .running _ _ body next => body.Draws carried (resultStock ([.module ·])) K ∧
    ∀ r, (next r).Draws carried tells (K ⊔ resultStock ([.module ·]) r)

namespace Draws

variable {carried : σ → Stock} {tells : α → Stock} {K L : Stock} {t : Thread σ α}

theorem mono (h : t.Draws carried tells K) (hKL : K ≤ L) : t.Draws carried tells L := by
  induction t with
  | active p => exact Program.Draws.mono h hKL
  | calling body next ih => exact ⟨ih h.1, fun r => (h.2 r).mono (sup_le_sup_right hKL _)⟩
  | running purpose ctx body next ih => exact ⟨ih h.1, fun r => (h.2 r).mono (sup_le_sup_right hKL _)⟩

theorem within (h : t.Draws carried tells K) {request : Request σ} (hasks : t.asks? = some request) :
    request.Within carried K := by
  induction t with
  | active p =>
    cases p with
    | done a => cases hasks
    | ask request next =>
      cases hasks
      exact h.1
  | calling body next ih => exact ih h.1 hasks
  | running purpose ctx body next ih => exact ih h.1 hasks

/-- What a thread has come to is drawn from the stock. -/
theorem of_result? {a : α} (h : t.Draws carried tells K) (hr : t.result? = some a) : tells a ≤ K := by
  cases result?_eq_some.1 hr
  exact h

theorem offers (h : t.Draws carried tells K) : ∀ v ∈ t.offers, K.Has v := by
  have hresult : ∀ {vs : List Value}, Stock.ofList vs ≤ K → ∀ v ∈ vs, K.Has v :=
    fun hle v hv => hle.1 v (Stock.has_of hv)
  induction t with
  | active p =>
    cases p with
    | done a => exact List.forall_mem_nil _
    | ask request next => exact h.1.offers
  | calling body next ih =>
    unfold Thread.offers
    split
    next r hr => exact hresult (h.1.of_result? hr)
    next => exact ih h.1
  | running purpose ctx body next ih =>
    unfold Thread.offers
    split
    next r hr => exact hresult (h.1.of_result? hr)
    next => exact ih h.1

end Draws

end Thread

/-! ## One step -/

/-- A stock that goes with a world: the realms in it were started, it knows the realms of the code in it and of every
    factory, and it has what the guest carries. -/
structure Stock.Covers (carried : σ → Stock) (w : World σ) (K : Stock) : Prop where
  started : ∀ id, K.Knows id → id < w.host.realms.length
  functions : ∀ f, K.Has (.function f) → K.Knows f.code.realm
  factories : ∀ id name factory, (w.host.realm id).factories.get? name = some factory → K.Knows factory.realm
  guest : carried w.guest ≤ K

theorem Stock.Covers.credible {carried : σ → Stock} {w : World σ} {K : Stock} (h : K.Covers carried w) (g : Guest σ)
    (request : Request σ) : request.Credible K (request.answer (g.runner 0) w).1 := by
  cases request with
  | observe => exact h.started
  | _ => trivial

namespace Guest.Honest

variable {carried : σ → Stock} {g : Guest σ} {K : Stock}

theorem draws_callBody (hg : g.Honest carried) (room : Option Nat) {code : Code} {args : List Value}
    (hcode : K.Knows code.realm) (hargs : ∀ v ∈ args, K.Has v) :
    (g.callBody room code args).Draws carried (resultStock ([·])) K := by
  unfold callBody
  split
  · exact Stock.ofList_nil_le
  · refine (hg.call code args).draws.mono (Stock.of_le hargs ?_)
    rintro _ rfl
    exact hcode

theorem draws_loadBody (hg : g.Honest carried) (room : Option Nat) {factory : Code} {ctx : Context}
    (hfactory : K.Knows factory.realm) (hctx : K.Knows ctx.realm) :
    (g.loadBody room factory ctx).Draws carried (resultStock ([.module ·])) K := by
  unfold loadBody
  split
  · exact Stock.ofList_nil_le
  · refine (hg.load factory ctx).draws.mono (Stock.of_le (fun _ => False.elim) ?_)
    rintro _ (rfl | rfl)
    · exact hfactory
    · exact hctx

end Guest.Honest

namespace Thread

variable {carried : σ → Stock} {g : Guest σ} {room : Option Nat} {tells : α → Stock} {K L : Stock} {w : World σ}

theorem draws_obtain (hg : g.Honest carried) (hcovers : K.Covers carried w) (hKL : K ≤ L) {purpose : Purpose}
    {ctx : Context} (hctx : K.Knows ctx.realm) {next : Except Raised Module → Program σ α}
    (hnext : ∀ r, (next r).Draws carried tells (K ⊔ resultStock ([.module ·]) r))
    (htold : resultStock ([.module ·]) (w.answerAtOnce purpose ctx) ≤ L) :
    (obtain g room purpose ctx next w).thread.Draws carried tells L := by
  unfold World.answerAtOnce at htold
  unfold obtain
  cases hstart : w.start purpose ctx with
  | inl answer =>
    rw [hstart] at htold
    exact (hnext answer.1).mono (sup_le hKL htold)
  | inr factory =>
    have hfactory := hcovers.factories _ _ _ (World.start_eq_inr.1 hstart).1
    exact ⟨(hg.draws_loadBody room hfactory hctx).mono hKL, fun r => (hnext r).mono (sup_le_sup_right hKL _)⟩

/-- A request is drawn from the stock, and what follows it from the stock with the reply. -/
theorem draws_request (hg : g.Honest carried) (hcovers : K.Covers carried w) (hKL : K ≤ L) {request : Request σ}
    {next : request.Reply → Program σ α} (h : (Program.ask request next).Draws carried tells K)
    (htold : request.tells carried (request.answer (g.runner 0) w).1 ≤ L) :
    (Thread.request g room w request next).thread.Draws carried tells L := by
  obtain ⟨hwithin, hnext⟩ := h
  have hanswer := (hnext _ (hcovers.credible g request)).mono (sup_le hKL htold)
  cases request with
  | call f args =>
    obtain ⟨hf, hargs⟩ := List.forall_mem_cons.1 hwithin.offers
    simp only [Thread.request]
    split
    · exact (hnext _ trivial).mono (sup_le hKL Stock.ofList_nil_le)
    · refine ⟨(hg.draws_callBody room (hcovers.functions f hf) hargs).mono hKL, fun r => ?_⟩
      exact (hnext r trivial).mono (sup_le_sup_right hKL _)
  | load ctx =>
    refine draws_obtain hg hcovers hKL (hwithin.realms _ List.mem_cons_self) (fun r => hnext r trivial) ?_
    rw [← World.load_runner_zero g]
    exact htold
  | enter ctx =>
    refine draws_obtain hg hcovers hKL (hwithin.realms _ List.mem_cons_self) (fun r => hnext r trivial) ?_
    rw [← World.enter_runner_zero g]
    exact htold
  | _ => exact hanswer

/-- A step of the innermost body is drawn from the stock, and the thread goes on from the stock with what it was
    told. -/
theorem Draws.step {t : Thread σ α} (h : t.Draws carried tells K) (hg : g.Honest carried) (room : Option Nat)
    (hcovers : K.Covers carried w) (hKL : K ≤ L)
    (htold : ∀ request, t.asks? = some request → request.tells carried (request.answer (g.runner 0) w).1 ≤ L) :
    (t.step g room w).thread.Draws carried tells L := by
  induction t generalizing room with
  | active p =>
    cases p with
    | done a => exact h.trans hKL
    | ask request next => exact draws_request hg hcovers hKL h (htold request rfl)
  | calling body next ih =>
    simp only [Thread.step]
    split
    next r hr => exact (h.2 r).mono (sup_le hKL ((h.1.of_result? hr).trans hKL))
    next => exact ⟨ih h.1 _ htold, fun r => (h.2 r).mono (sup_le_sup_right hKL _)⟩
  | running purpose ctx body next ih =>
    simp only [Thread.step]
    split
    next r hr => exact (h.2 r).mono (sup_le hKL ((h.1.of_result? hr).trans hKL))
    next => exact ⟨ih h.1 _ htold, fun r => (h.2 r).mono (sup_le_sup_right hKL _)⟩

/-- Starting a realm is one step, whichever body asks for it. -/
theorem host_step_boot (g : Guest σ) (room : Option Nat) {t : Thread σ α} {config : Config}
    (hasks : t.asks? = some (.boot config)) (w : World σ) :
    (t.step g room w).world.host = (w.host.boot config).2 := by
  induction t generalizing room with
  | active p =>
    cases p with
    | done a => cases hasks
    | ask request next =>
      cases hasks
      rfl
  | calling body next ih =>
    simp only [Thread.step]
    split
    next hr =>
      cases result?_eq_some.1 hr
      cases hasks
    next => exact ih _ hasks
  | running purpose ctx body next ih =>
    simp only [Thread.step]
    split
    next hr =>
      cases result?_eq_some.1 hr
      cases hasks
    next => exact ih _ hasks

theorem guest_obtain (g : Guest σ) (room : Option Nat) (purpose : Purpose) (ctx : Context)
    (next : Except Raised Module → Program σ α) (w : World σ) :
    (obtain g room purpose ctx next w).world.guest = w.guest := by
  unfold obtain
  split
  next hstart =>
    rcases World.start_eq_inl hstart with ⟨rfl, -⟩ | ⟨message, -, rfl⟩
    · rfl
    · rfl
  next => rfl

/-- Only the guest itself changes its state. -/
theorem guest_step (g : Guest σ) (room : Option Nat) (t : Thread σ α) (w : World σ) :
    (t.step g room w).world.guest = w.guest ∨
      ∃ change, t.asks? = some (.guest change) ∧ (t.step g room w).world.guest = change w.guest := by
  induction t generalizing room with
  | active p =>
    cases p with
    | done a => exact .inl rfl
    | ask request next =>
      cases request with
      | guest change => exact .inr ⟨change, rfl, rfl⟩
      | call f args =>
        refine .inl ?_
        simp only [Thread.step, Thread.request]
        split <;> rfl
      | load ctx => exact .inl (guest_obtain g room .caching ctx next w)
      | enter ctx => exact .inl (guest_obtain g room .entry ctx next w)
      | _ => exact .inl rfl
  | calling body next ih =>
    simp only [Thread.step, asks?]
    split
    · exact .inl rfl
    · exact ih _
  | running purpose ctx body next ih =>
    simp only [Thread.step, asks?]
    split
    · exact .inl rfl
    · exact ih _

theorem Draws.guest_step {t : Thread σ α} (h : t.Draws carried tells K) (g : Guest σ) (room : Option Nat)
    (hguest : carried w.guest ≤ K) :
    carried (t.step g room w).world.guest ≤ K := by
  rcases Thread.guest_step g room t w with hsame | ⟨change, hasks, hchanged⟩
  · rw [hsame]
    exact hguest
  · rw [hchanged]
    exact ((h.within hasks).stores w.guest).trans (sup_le le_rfl hguest)

end Thread

end ObjectHost
