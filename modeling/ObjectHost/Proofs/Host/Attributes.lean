-- SUMMARY: Attribute access: own attributes, the nearest member of the class, binding, and what definitions change.
import ObjectHost.Proofs.Class.Lookup
import ObjectHost.Proofs.Host.Exceptions
import ObjectHost.Proofs.Machine.Operation

/-!
# Attributes

What an object answers to a name can be told from the host before anything is
made for it: a value as it is, a function that is to be bound, or nothing. Access
then makes the method or the exception, and that is all it changes.
-/

namespace ObjectHost

variable {σ α : Type}

/-! ## What is read -/

section

variable (runner : Runner σ) {obj : Value} {name : String} {w : World σ}

theorem run_getAttribute_of_value (id : RealmId) {v : Value} (h : w.host.reading obj name = .value v) :
    (getAttribute id obj name).run.run runner w = (.ok v, w) := by
  simp only [getAttribute_run, Program.run, Request.answer, h]

theorem run_getAttribute_of_method (id : RealmId) {f : Function} (h : w.host.reading obj name = .method f) :
    (getAttribute id obj name).run.run runner w = (.ok (w.host.newMethod obj f).1.toValue, w.grown) := by
  simp only [getAttribute_run, Program.run, Request.answer, h]
  rfl

theorem run_getAttribute_of_nothing (id : RealmId) (h : w.host.reading obj name = .nothing) :
    let e := (w.host.newException id Builtin.attributeError (.str (noAttribute obj name))).1
    (getAttribute id obj name).run.run runner w = (.error (.exception e), w.grown) := by
  simp only [getAttribute_run, Program.run, Request.answer, h]
  rfl

end

/-! ## What is answered -/

namespace Host

/-- The nearest class in the ancestry of `c` that defines `name` defines it as `v`. -/
def Nearest (h : Host) (c : Class) (name : String) (v : Value) : Prop := (h.realm c.home).classes.Nearest c name v

/-- The class was defined in a realm that was started. -/
def HasClass (h : Host) (c : Class) : Prop := c.home < h.realms.length ∧ (h.realm c.home).classes.owns c = true

theorem lookup?_eq_some_iff {h : Host} {c : Class} {name : String} {v : Value} :
    h.lookup? c name = some v ↔ h.Nearest c name v :=
  Registry.lookup?_eq_some_iff

theorem lookup?_eq_none {h : Host} {c : Class} {name : String} (hnone : ∀ v, ¬ h.Nearest c name v) :
    h.lookup? c name = none :=
  Option.eq_none_iff_forall_ne_some.2 fun v hv => hnone v (lookup?_eq_some_iff.1 hv)

end Host

/-- An access fails with an `AttributeError` of the realm, and only makes that exception. -/
def LacksAttribute (id : RealmId) (w : World σ) (obj : Value) (name message : String) : Prop :=
  ∃ e : Exception, (w.host.realm id).classes.get? "AttributeError" = some e.cls ∧ e.message = .str message ∧
    ∀ runner, (getAttribute id obj name).run.run runner w = (.error (.exception e), w.grown)

/-- What access to `name` on an object of class `cls` comes to if the class is to answer. The nearest definition in the
    ancestry counts. A function is bound to the object, so that invoking it calls the function on the object and the
    arguments; anything else is given as it is. Without a definition, the failure names the class of the object. -/
structure Inherits (id : RealmId) (w : World σ) (obj : Value) (cls : Class) (name : String) : Prop where
  method : ∀ f, w.host.Nearest cls name (.function f) → ∃ m : Method, m.receiver = obj ∧ m.callable = f ∧
    (∀ runner, (getAttribute id obj name).run.run runner w = (.ok m.toValue, w.grown)) ∧
    ∀ args runner w', (invoke m args).run.run runner w' = World.call runner f (obj :: args) (w' : World σ)
  value : ∀ v, w.host.Nearest cls name v → (∀ f, v ≠ .function f) →
    ∀ runner, (getAttribute id obj name).run.run runner w = (.ok v, w)
  missing : (∀ v, ¬ w.host.Nearest cls name v) →
    LacksAttribute id w obj name ("'" ++ cls.name ++ "' object has no attribute '" ++ name ++ "'")

/-- Attribute access in the realm goes by own attributes and then by the class. -/
structure AttributesInherited (id : RealmId) (w : World σ) : Prop where
  own : ∀ (i : Instance) name v, (w.host.heap.attributes i.id).get? name = some v →
    ∀ runner, (getAttribute id (.inst i) name).run.run runner w = (.ok v, w)
  inherited : ∀ (i : Instance) name, (w.host.heap.attributes i.id).get? name = none →
    Inherits id w (.inst i) i.cls name
  payload : ∀ (e : Exception) runner, (getAttribute id e.toValue "message").run.run runner w = (.ok e.message, w)
  ofException : ∀ (e : Exception) name, name ≠ "message" → Inherits id w e.toValue e.cls name
  /-- A class answers with its members unbound. -/
  ofClass : ∀ c name v, w.host.Nearest c name v →
    ∀ runner, (getAttribute id (.cls c) name).run.run runner w = (.ok v, w)
  noMember : ∀ c name, (∀ v, ¬ w.host.Nearest c name v) →
    LacksAttribute id w (.cls c) name ("type object '" ++ c.name ++ "' has no attribute '" ++ name ++ "'")

section

variable {id : RealmId} {w : World σ} {obj : Value} {cls : Class} {name : String}

theorem LacksAttribute.of_reading (hsound : (w.host.realm id).Sound id) (h : w.host.reading obj name = .nothing) :
    LacksAttribute id w obj name (noAttribute obj name) :=
  ⟨_, hsound.get?_newException (by decide +kernel) _, rfl, fun runner => run_getAttribute_of_nothing runner id h⟩

theorem Inherits.of_reading (hsound : (w.host.realm id).Sound id)
    (h : w.host.reading obj name = .ofMember (w.host.lookup? cls name))
    (hmessage : noAttribute obj name = "'" ++ cls.name ++ "' object has no attribute '" ++ name ++ "'") :
    Inherits id w obj cls name where
  method f hnearest := by
    rw [Host.lookup?_eq_some_iff.2 hnearest] at h
    exact ⟨(w.host.newMethod obj f).1, rfl, rfl, fun runner => run_getAttribute_of_method runner id h, fun _ _ _ => rfl⟩
  value v hnearest hvalue := by
    have hmember : Reading.ofMember (some v) = .value v := by
      cases v with
      | function f => exact absurd rfl (hvalue f)
      | _ => rfl
    rw [Host.lookup?_eq_some_iff.2 hnearest, hmember] at h
    exact fun runner => run_getAttribute_of_value runner id h
  missing hnone := by
    rw [Host.lookup?_eq_none hnone] at h
    exact hmessage ▸ .of_reading hsound h

theorem AttributesInherited.of_sound (hsound : (w.host.realm id).Sound id) : AttributesInherited id w where
  own i name v hown runner := run_getAttribute_of_value runner id (by rw [Host.reading, hown])
  inherited i name hnone := .of_reading hsound (by rw [Host.reading, hnone]) rfl
  payload e runner := run_getAttribute_of_value runner id rfl
  ofException e name hname := .of_reading hsound (if_neg hname) rfl
  ofClass c name v hnearest runner :=
    run_getAttribute_of_value runner id (congrArg Reading.ofOption (Host.lookup?_eq_some_iff.2 hnearest))
  noMember c name hnone := .of_reading hsound (congrArg Reading.ofOption (Host.lookup?_eq_none hnone))

end

/-! ## What definitions leave alone -/

/-- The class whose ancestry is asked for the members of a value. -/
def Value.memberClass? : Value → Option Class
  | .inst i => some i.cls
  | .exception _ c _ _ => some c
  | .cls c => some c
  | _ => .none

theorem Realm.Sound.lookup?_grows {id : RealmId} {r r' : Realm} (h : r.Sound id) (hg : r.Grows r') {c : Class}
    (hc : r.classes.owns c = true) (name : String) : r'.classes.lookup? c name = r.classes.lookup? c name := by
  obtain ⟨calls, hcalls⟩ := hg.classes
  rw [hcalls]
  exact (h.wellFormed.attempts_extends calls).lookup c (h.wellFormed.owns_iff.1 hc) name

namespace Host

variable {h h' : Host}

theorem heap_define (h : Host) (id : RealmId) (name : String) (parent : Option Class)
    (members : List (String × Value)) : (h.define id name parent members).2.heap = h.heap := by
  unfold define
  split <;> rfl

theorem reading_congr {obj : Value} {name : String} (hheap : h'.heap = h.heap)
    (hlookup : ∀ c, obj.memberClass? = some c → h'.lookup? c name = h.lookup? c name) :
    h'.reading obj name = h.reading obj name := by
  cases obj with
  | inst i => simp only [reading, hheap, hlookup i.cls rfl]
  | exception id cls message qualifier => simp only [reading, hlookup cls rfl]
  | module m => simp only [reading, moduleAttribute?, hheap]
  | cls c => simp only [reading, hlookup c rfl]
  | _ => rfl

theorem Sound.lookup?_grows (hsound : h.Sound) {c : Class} (hc : h.HasClass c)
    (hg : (h.realm c.home).Grows (h'.realm c.home)) (name : String) : h'.lookup? c name = h.lookup? c name :=
  (hsound c.home hc.1).lookup?_grows hg hc.2 name

end Host

/-- What is answered depends on the host by what is read, by the next number of an object and by the exceptions. -/
theorem answer_congr {w w' : World σ} {id : RealmId} {obj : Value} {name : String} (runner : Runner σ)
    (hheap : w'.host.heap = w.host.heap) (htaxonomy : (w'.host.realm id).taxonomy = (w.host.realm id).taxonomy)
    (hreading : w'.host.reading obj name = w.host.reading obj name) :
    ((getAttribute id obj name).run.run runner w').1 = ((getAttribute id obj name).run.run runner w).1 := by
  cases h : w.host.reading obj name with
  | value v => rw [run_getAttribute_of_value runner id (hreading.trans h), run_getAttribute_of_value runner id h]
  | method f =>
    rw [run_getAttribute_of_method runner id (hreading.trans h), run_getAttribute_of_method runner id h]
    simp only [Host.newMethod, hheap]
  | nothing =>
    rw [run_getAttribute_of_nothing runner id (hreading.trans h), run_getAttribute_of_nothing runner id h]
    simp only [Host.newException, hheap, htaxonomy]

/-! ## What a definition adds -/

theorem Host.of_define_eq_ok {h h' : Host} {id : RealmId} {name : String} {parent : Option Class}
    {members : List (String × Value)} {d : Class} (hdefine : h.define id name parent members = (.ok d, h')) :
    ∃ classes, (h.realm id).classes.define name parent members = .ok (d, classes) ∧
      h' = h.modifyRealm id fun r => { r with classes := classes } := by
  unfold define at hdefine
  split at hdefine
  next cls classes hclasses =>
    cases hdefine
    exact ⟨classes, hclasses, rfl⟩
  next => cases hdefine

/-- A class that a started realm defines is there, beneath its parent, and answers differently from it under the names
    of its own members only. -/
theorem Realm.Sound.of_define {h h' : Host} {id : RealmId} (hsound : (h.realm id).Sound id)
    (hid : id < h.realms.length) {name : String} {parent : Option Class} {members : List (String × Value)} {d : Class}
    (hdefine : h.define id name parent members = (.ok d, h')) :
    d.parent? = some (parent.getD (.root id)) ∧ h'.HasClass d ∧
      ∀ n v, (n ∈ members.map Prod.fst → (h'.Nearest d n v ↔ Table.LastEntry members n v)) ∧
        (n ∉ members.map Prod.fst → (h'.Nearest d n v ↔ h.Nearest (parent.getD (.root id)) n v)) := by
  obtain ⟨classes, hclasses, rfl⟩ := Host.of_define_eq_ok hdefine
  obtain ⟨-, howned, hd, hnew⟩ := Registry.of_define_eq_ok hclasses
  have hroot : (h.realm id).classes.root = .root id := congrArg Class.root hsound.home
  have hnearest := hsound.wellFormed.nearest_define hclasses
  have hmem := hsound.wellFormed.owns_iff.1 howned
  have hparent := (hsound.wellFormed.home_of_mem hmem).trans hsound.home
  have hhome : d.home = id := by
    rw [hd]
    exact hparent
  rw [hroot] at hd hparent hnearest
  have hrealm : ((h.modifyRealm id fun r => { r with classes := classes }).realm id).classes = classes := by
    rw [Host.realm_modifyRealm, if_pos ⟨rfl, hid⟩]
  refine ⟨hd ▸ rfl, ⟨?_, ?_⟩, fun n v => ?_⟩
  · rw [hhome, Host.length_modifyRealm]
    exact hid
  · rw [hhome, hrealm, hnew]
    exact decide_eq_true (by rw [Registry.get?_append, if_pos rfl])
  · unfold Host.Nearest
    rw [hhome, hrealm, hparent]
    exact hnearest n v

/-- At every moment of every run, attribute access in a realm that was started goes by the attributes of the object and
    then by the nearest definition in the ancestry of its class: `AttributesInherited` says how for instances,
    exceptions and classes. A class that the realm then defines with a list of members, of which the last for a name
    counts, answers as its parent does under every other name. Nothing that is defined, wherever it is, changes what is
    answered by an object of a class that was there before, and no later moment does away with a nearest definition or
    brings another. -/
theorem attributes_come_from_nearest_definition (g : Guest σ) (room : Option Nat) (p : Program σ α) (s : σ) (k : Nat)
    (id : RealmId) (hstarted : id < (moments g room p s k).world.host.realms.length) :
    let w := (moments g room p s k).world
    AttributesInherited id w ∧
    (∀ name parent members d h', w.host.define id name parent members = (.ok d, h') →
      d.parent? = some (parent.getD (.root id)) ∧ h'.HasClass d ∧ AttributesInherited id { w with host := h' } ∧
      ∀ n v, (n ∈ members.map Prod.fst → (h'.Nearest d n v ↔ Table.LastEntry members n v)) ∧
        (n ∉ members.map Prod.fst → (h'.Nearest d n v ↔ w.host.Nearest (parent.getD (.root id)) n v))) ∧
    (∀ home name parent members obj n, (∀ c, obj.memberClass? = some c → w.host.HasClass c) → ∀ runner,
      ((getAttribute id obj n).run.run runner { w with host := (w.host.define home name parent members).2 }).1 =
        ((getAttribute id obj n).run.run runner w).1) ∧
    ∀ j ≥ k, ∀ c, w.host.HasClass c → (moments g room p s j).world.host.HasClass c ∧
      ∀ n v, (moments g room p s j).world.host.Nearest c n v ↔ w.host.Nearest c n v := by
  intro w
  have hsound : w.host.Sound := host_sound_moments g room p s k
  refine ⟨.of_sound (hsound id hstarted), ?_, ?_, ?_⟩
  · intro name parent members d h' hdefine
    obtain ⟨hparent, hclass, hnearest⟩ := (hsound id hstarted).of_define hstarted hdefine
    have hgrows := w.host.grows_define id name parent members id
    rw [hdefine] at hgrows
    exact ⟨hparent, hclass, .of_sound ((hsound id hstarted).grows hgrows), hnearest⟩
  · intro home name parent members obj n hclass runner
    have hheap := w.host.heap_define home name parent members
    have hgrows := w.host.grows_define home name parent members
    refine answer_congr runner hheap (hgrows id).taxonomy (Host.reading_congr hheap fun c hc => ?_)
    exact hsound.lookup?_grows (hclass c hc) (hgrows c.home) n
  · intro j hj c hc
    have hgrows := grows_moments hj hc.1
    have howned := (hsound c.home hc.1).get?_grows hgrows (of_decide_eq_true hc.2)
    refine ⟨⟨started_moments hj hc.1, decide_eq_true howned⟩, fun n v => ?_⟩
    rw [← Host.lookup?_eq_some_iff, ← Host.lookup?_eq_some_iff, hsound.lookup?_grows hc hgrows n]

/-- A function without a fixed number of arguments. -/
def getFunction : Function := ⟨0, "get", none, ⟨0, 0⟩⟩

/-- Starts a realm and defines a class there, with two entries under one name. -/
def defineBase : Program Unit (Except ObjectError Class) := do
  let _ ← Program.send (.boot {})
  Program.send (.define 0 "Base" none [("get", .none), ("get", .function getFunction), ("limit", .bool false)])

/-- A class beneath `Base` that has a `limit` of its own answers with it, and with the later `get` of `Base`, bound. -/
theorem attributes_come_from_nearest_definition_derived :
    0 < (moments bodiless none defineBase () 2).world.host.realms.length ∧
    let w := (moments bodiless none defineBase () 2).world
    ∃ base derived h', (w.host.realm 0).classes.get? "Base" = some base ∧
      w.host.define 0 "Derived" (some base) [("limit", .bool true)] = (.ok derived, h') ∧
      let obj := Value.inst ⟨1, derived⟩
      let w' : World Unit := { w with host := h' }
      (∃ m : Method, m.receiver = obj ∧ m.callable = getFunction ∧
        ∀ runner, (getAttribute 0 obj "get").run.run runner w' = (.ok m.toValue, w'.grown)) ∧
      (∀ runner, (getAttribute 0 obj "limit").run.run runner w' = (.ok (.bool true), w')) ∧
      ∀ runner, (getAttribute 0 (.cls base) "limit").run.run runner w = (.ok (.bool false), w) := by
  have hstate : 0 < (moments bodiless none defineBase () 2).world.host.realms.length ∧
      ((moments bodiless none defineBase () 2).world.host.heap.attributes 1).get? "get" = none ∧
      ((moments bodiless none defineBase () 2).world.host.heap.attributes 1).get? "limit" = none ∧
      ∃ base ∈ ((moments bodiless none defineBase () 2).world.host.realm 0).classes.get? "Base",
        (moments bodiless none defineBase () 2).world.host.lookup? base "get" = some (.function getFunction) ∧
        (moments bodiless none defineBase () 2).world.host.lookup? base "limit" = some (.bool false) ∧
        ((moments bodiless none defineBase () 2).world.host.define 0 "Derived" (some base)
          [("limit", .bool true)]).1.toOption.isSome = true := by
    decide +kernel
  obtain ⟨hstarted, hgetFree, hlimitFree, base, hbase, hget, hlimit, hdefined⟩ := hstate
  obtain ⟨hnow, hdefine, -, -⟩ := attributes_come_from_nearest_definition bodiless none defineBase () 2 0 hstarted
  refine ⟨hstarted, ?_⟩
  -- From here on it does not matter how the world came about.
  dsimp only
  generalize (moments bodiless none defineBase () 2).world = w at *
  rcases hmade : w.host.define 0 "Derived" (some base) [("limit", .bool true)] with ⟨_ | derived, h'⟩
  · rw [hmade] at hdefined
    cases hdefined
  obtain ⟨-, -, hthen, hnearest⟩ := hdefine _ _ _ derived h' hmade
  have hheap := w.host.heap_define 0 "Derived" (some base) [("limit", .bool true)]
  rw [hmade] at hheap
  refine ⟨base, derived, h', hbase, hmade, ?_, ?_, ?_⟩
  · have hmethod := ((hnearest "get" (.function getFunction)).2 (by decide)).2 (Host.lookup?_eq_some_iff.1 hget)
    have hfree : (h'.heap.attributes 1).get? "get" = none := by rw [hheap, hgetFree]
    obtain ⟨m, hreceiver, hcallable, hrun, -⟩ := (hthen.inherited ⟨1, derived⟩ "get" hfree).method _ hmethod
    exact ⟨m, hreceiver, hcallable, hrun⟩
  · have hvalue := ((hnearest "limit" (.bool true)).1 (by decide)).2 ⟨[], [], rfl, by decide⟩
    have hfree : (h'.heap.attributes 1).get? "limit" = none := by rw [hheap, hlimitFree]
    exact (hthen.inherited ⟨1, derived⟩ "limit" hfree).value _ hvalue nofun
  · exact hnow.ofClass base "limit" _ (Host.lookup?_eq_some_iff.1 hlimit)

end ObjectHost
