-- SUMMARY: The values that a host holds, those it is handed and those it tells, and what one step can add to them.
import ObjectHost.Proofs.Host.Attributes

/-!
# Values that change hands

A program comes by a value by being told it: in the reply to a request, or out
of the tables of the host. Here it is said which values a host holds, which a
request hands to it and which a reply shows. A step makes at most one new
object, numbers it next, and brings in nothing else but classes that are then
registered.
-/

namespace ObjectHost

variable {σ α : Type}

/-! ## Parts and identities -/

namespace Value

/-- What is met in taking a value apart: the value, its class with the ancestors, and what an exception or a method was
    made with. -/
def parts : Value → List Value
  | .cls c => c.ancestors.map .cls
  | .inst i => .inst i :: i.cls.ancestors.map .cls
  | .exception id c message qualifier =>
    .exception id c message qualifier :: (c.ancestors.map .cls ++ message.parts)
  | .method id receiver callable => .method id receiver callable :: .function callable :: receiver.parts
  | .module m => .module m :: m.cls.toList.flatMap fun c => c.ancestors.map .cls
  | v => [v]

/-- What tells a value from others: a scalar by itself, a class by its definition, any other object by its number. -/
inductive Identity where
  | scalar (v : Value)
  | cls (home : RealmId) (index : Nat)
  | object (kind : Kind) (id : ObjectId)

def identity : Value → Identity
  | .cls c => .cls c.home c.index
  | .inst i => .object .inst i.id
  | .exception id _ _ _ => .object .exception id
  | .function f => .object .function f.id
  | .method id _ _ => .object .method id
  | .module m => .object .module m.id
  | v => .scalar v

theorem is_iff_identity_eq {a b : Value} : a.is b = true ↔ a.identity = b.identity := by
  cases a <;> cases b <;> simp [is, identity, Class.is]

theorem identity_eq_scalar {a v : Value} (h : a.identity = .scalar v) : a = v := by
  cases a <;> cases h <;> rfl

theorem identity_eq_cls {a : Value} {home : RealmId} {index : Nat} (h : a.identity = .cls home index) :
    ∃ c, a = .cls c ∧ c.home = home ∧ c.index = index := by
  cases a with
  | cls c =>
    cases h
    exact ⟨c, rfl, rfl, rfl⟩
  | _ => cases h

theorem identity_of_scalar {v : Value} (h : v.kind.hasIdentity = false) : v.identity = .scalar v := by
  cases v with
  | none | bool | int | float | str => rfl
  | _ => cases h

theorem parts_of_scalar {v : Value} (h : v.kind.hasIdentity = false) : v.parts = [v] := by
  cases v with
  | none | bool | int | float | str => rfl
  | _ => cases h

end Value

/-! ## What is held -/

/-- The values in a registry: its classes, by either way, and their members. -/
inductive Registry.Holds (r : Registry) : Value → Prop where
  | cls {c : Class} (h : c ∈ r.classes) : Holds r (.cls c)
  | named {name : String} {c : Class} (h : r.get? name = some c) : Holds r (.cls c)
  | member {e : ClassEntry} {name : String} {v : Value} (he : e ∈ r.entries) (h : e.members.get? name = some v) :
      Holds r v

inductive Loader.Holds (l : Loader) : Value → Prop where
  | cached {name : String} {m : Module} (h : l.cache.get? name = some m) : Holds l (.module m)
  | returned {purpose : Purpose} {name : String} {m : Module} (h : .returned purpose name m ∈ l.journal) :
      Holds l (.module m)

def CoreClasses.all (core : CoreClasses) : List Class := [core.object, core.function, core.method, core.module]

inductive Realm.Holds (r : Realm) : Value → Prop where
  | classes {v : Value} (h : r.classes.Holds v) : Holds r v
  | core {c : Class} (h : c ∈ r.core.all) : Holds r (.cls c)
  | builtin {name : String} {v : Value} (h : r.builtins.get? name = some v) : Holds r v
  | base : Holds r (.cls r.taxonomy.base)
  | exceptionClass {name : String} {c : Class} (h : r.taxonomy.class? name = some c) : Holds r (.cls c)
  | loader {v : Value} (h : r.loader.Holds v) : Holds r v

/-- A host holds what is in the tables of its realms and in the attributes of its objects. -/
inductive Host.Holds (h : Host) : Value → Prop where
  | realm {id : RealmId} {v : Value} (hid : id < h.realms.length) (hv : (h.realm id).Holds v) : Holds h v
  | attr {id : ObjectId} {name : String} {v : Value} (hv : (h.heap.attributes id).get? name = some v) : Holds h v

/-! ## What is handed over and what is told -/

def Raised.values : Raised → List Value
  | .exception e => [e.toValue]
  | .host _ => []

/-- The values in what a task comes to. -/
def resultValues (values : α → List Value) : Except Raised α → List Value
  | .ok a => values a
  | .error r => r.values

namespace Request

/-- The values that a request hands to the host. -/
def offers : Request σ → List Value
  | .define _ _ parent members => parent.toList.map .cls ++ members.map Prod.snd
  | .newInstance cls => [.cls cls]
  | .newException _ _ message => [message]
  | .makeException _ cls args => .cls cls :: args
  | .newMethod receiver callable => [receiver, .function callable]
  | .newModule _ _ _ cls => cls.toList.map .cls
  | .setAttribute _ _ v => [v]
  | .call f args => .function f :: args
  | .observe | .guest _ | .newFunction .. | .register .. | .boot _ | .load _ | .enter _ => []

/-- The realms that a request names: the one that it is made of, and that of the code it brings. -/
def realms : Request σ → List RealmId
  | .define realm .. | .newException realm .. | .makeException realm .. => [realm]
  | .newFunction _ _ code => [code.realm]
  | .register realm _ factory => [realm, factory.realm]
  | .load ctx | .enter ctx => [ctx.realm]
  | .observe | .guest _ | .newInstance _ | .newMethod .. | .newModule .. | .setAttribute .. | .boot _ | .call .. => []

/-- The values that a reply shows. The state of a guest is its own business. -/
def Shows : (request : Request σ) → request.Reply → Value → Prop
  | .observe, h, v => h.Holds v
  | .define .., r, v => ∃ c, r = .ok c ∧ v = .cls c
  | .newInstance _, i, v => v = .inst i
  | .newException .., e, v => v = e.toValue
  | .makeException .., r, v => ∃ e, r = .ok e ∧ v = e.toValue
  | .newFunction .., f, v => v = .function f
  | .newMethod .., m, v => v = m.toValue
  | .newModule .., m, v => v = .module m
  | .call .., r, v => v ∈ resultValues ([·]) r
  | .load _, r, v | .enter _, r, v => v ∈ resultValues ([.module ·]) r
  | .guest _, _, _ | .setAttribute .., _, _ | .register .., _, _ | .boot _, _, _ => False

end Request

namespace Thread

/-- The request that the innermost body makes next. -/
def asks? : {α : Type} → Thread σ α → Option (Request σ)
  | _, .active (.done _) => none
  | _, .active (.ask request _) => some request
  | _, .calling body _ => body.asks?
  | _, .running _ _ body _ => body.asks?

theorem asks?_bind {β : Type} {t : Thread σ α} (h : t.result? = none) (f : α → Program σ β) :
    (t.bind f).asks? = t.asks? := by
  cases t with
  | active p =>
    cases p with
    | done a => cases h
    | ask request next => rfl
  | calling body next => rfl
  | running purpose ctx body next => rfl

/-- The values that the innermost body hands over next, with a request or as what it has come to. -/
def offers : {α : Type} → Thread σ α → List Value
  | _, .active (.done _) => []
  | _, .active (.ask request _) => request.offers
  | _, .calling body _ =>
    match body.result? with
    | some r => resultValues ([·]) r
    | none => body.offers
  | _, .running _ _ body _ =>
    match body.result? with
    | some r => resultValues ([.module ·]) r
    | none => body.offers

/-- What the innermost body is told in answer to its next request. Where a body has to run first, the host tells nothing
    itself: the answer is then what that body hands over. -/
def Told (g : Guest σ) (t : Thread σ α) (w : World σ) (v : Value) : Prop :=
  ∃ request, t.asks? = some request ∧ request.Shows (request.answer (g.runner 0) w).1 v

end Thread

theorem Frames.asks?_fill {β : Type} (frames : Frames σ α β) (t : Thread σ β) : (frames.fill t).asks? = t.asks? := by
  induction frames with
  | here => rfl
  | calling inner next ih => exact ih t
  | running purpose ctx inner next ih => exact ih t

/-! ## Registered classes -/

namespace Host

variable {h : Host} {c : Class}

theorem Sound.hasClass (hsound : h.Sound) {id : RealmId} (hid : id < h.realms.length)
    (hc : c ∈ (h.realm id).classes.classes) : h.HasClass c := by
  have hwf := (hsound id hid).wellFormed
  have hhome : c.home = id := (hwf.home_of_mem hc).trans (hsound id hid).home
  unfold HasClass
  rw [hhome]
  exact ⟨hid, hwf.owns_iff.2 hc⟩

theorem HasClass.holds (hc : h.HasClass c) : h.Holds (.cls c) :=
  .realm hc.1 (.classes (.named (of_decide_eq_true hc.2)))

theorem HasClass.transition (hc : h.HasClass c) (hsound : h.Sound) {h' : Host} {e : Option Ending}
    {s s' : List Activity} (ht : Transition e s h s' h') : h'.HasClass c := by
  have hgrows := ht.grows hc.1
  exact ⟨Nat.lt_of_lt_of_le hc.1 ht.realms_le,
    decide_eq_true ((hsound c.home hc.1).get?_grows hgrows (of_decide_eq_true hc.2))⟩

end Host

/-! ## Functions and exceptions -/

namespace Host

/-- A function was written in a realm that was started, and an exception is of a class beneath the base of such a
    realm. -/
def Proper (h : Host) : Value → Prop
  | .function f => f.code.realm < h.realms.length
  | .exception _ cls _ _ => cls.home < h.realms.length ∧ (h.realm cls.home).taxonomy.base ∈ cls.ancestors
  | _ => True

/-- Every factory was written in a realm that was started. -/
def FactoriesStarted (h : Host) : Prop :=
  ∀ id name factory, (h.realm id).factories.get? name = some factory → factory.realm < h.realms.length

variable {h : Host}

theorem proper_of_scalar {v : Value} (hv : v.kind.hasIdentity = false) : h.Proper v := by
  cases v with
  | none | bool | int | float | str => trivial
  | _ => cases hv

theorem Proper.transition {v : Value} (hv : h.Proper v) {h' : Host} {e : Option Ending} {s s' : List Activity}
    (ht : Transition e s h s' h') : h'.Proper v := by
  cases v with
  | function f => exact Nat.lt_of_lt_of_le hv ht.realms_le
  | exception id cls message qualifier =>
    obtain ⟨hhome, hbase⟩ := hv
    refine ⟨Nat.lt_of_lt_of_le hhome ht.realms_le, ?_⟩
    rwa [(ht.grows hhome).taxonomy]
  | _ => trivial

theorem Sound.proper_of_base_mem (hsound : h.Sound) {id : RealmId} (hid : id < h.realms.length) {e : Exception}
    (hbase : (h.realm id).taxonomy.base ∈ e.cls.ancestors) : h.Proper e.toValue := by
  obtain rfl := (hsound id hid).home_of_base_mem hbase
  exact ⟨hid, hbase⟩

theorem Sound.proper_newException (hsound : h.Sound) {id : RealmId} (hid : id < h.realms.length) (name : String)
    (message : Value) : h.Proper (h.newException id name message).1.toValue :=
  hsound.proper_of_base_mem hid ((hsound id hid).classFor name).2

end Host

/-! ## What the tables gain -/

theorem Table.mem_of_get?_ofList {l : List (String × Value)} {name : String} {v : Value}
    (h : (Table.ofList l).get? name = some v) : v ∈ l.map Prod.snd := by
  obtain ⟨before, after, rfl, -⟩ := Table.get?_ofList_iff_lastEntry.1 h
  simp

namespace Heap

theorem attributes_grow (h : Heap) (id : ObjectId) : h.grow.attributes id = h.attributes id := by
  simp only [attributes, grow, Array.getD_eq_getD_getElem?, Array.getElem?_push]
  split
  next hid =>
    rw [hid, Array.getElem?_eq_none (Nat.le_refl _)]
    rfl
  next => rfl

theorem get?_setAttribute {h : Heap} {id other : ObjectId} {name name' : String} {v v' : Value}
    (hget : ((h.setAttribute id name v).attributes other).get? name' = some v') :
    (h.attributes other).get? name' = some v' ∨ v' = v := by
  simp only [attributes, setAttribute, Array.getD_eq_getD_getElem?, Array.getElem?_modify] at hget ⊢
  cases hrow : h.rows[other]? with
  | none =>
    rw [hrow, Option.map_none, ite_self] at hget
    exact .inl hget
  | some row =>
    rw [hrow] at hget
    split at hget
    next =>
      rw [Option.map_some, Option.getD_some, Table.get?_insert] at hget
      split at hget
      next => exact .inr (Option.some.inj hget).symm
      next => exact .inl hget
    next => exact .inl hget

end Heap

namespace Loader

variable {l : Loader} {purpose : Purpose} {name : String} {v : Value}

theorem Holds.of_opened (h : (l.opened purpose name).Holds v) : l.Holds v := by
  cases h with
  | cached h => cases purpose <;> exact .cached h
  | @returned purpose' name' m h =>
    have hmem : LoadEvent.returned purpose' name' m ∈ .began purpose name :: l.journal := by
      cases purpose <;> exact h
    exact .returned ((List.mem_cons.1 hmem).resolve_left nofun)

/-- The module that a factory run gives back is the only value it adds. -/
theorem Holds.of_closed {result : Except Raised Module} (h : (l.closed purpose name result).Holds v) :
    l.Holds v ∨ v ∈ resultValues ([.module ·]) result := by
  cases result with
  | ok made =>
    have hnew : Value.module made ∈ resultValues ([.module ·]) (.ok made) := List.mem_singleton_self _
    cases h with
    | @cached other m h =>
      cases purpose with
      | caching =>
        have hget : (l.cache.insert name made).get? other = some m := h
        rw [Table.get?_insert] at hget
        split at hget
        next =>
          cases hget
          exact .inr hnew
        next => exact .inl (.cached hget)
      | entry => exact .inl (.cached h)
    | @returned purpose' name' m h =>
      have hmem : LoadEvent.returned purpose' name' m ∈ .returned purpose name made :: l.journal := by
        cases purpose <;> exact h
      rcases List.mem_cons.1 hmem with heq | hmem
      · cases heq
        exact .inr hnew
      · exact .inl (.returned hmem)
  | error r =>
    cases h with
    | cached h => cases purpose <;> exact .inl (.cached h)
    | @returned purpose' name' m h =>
      have hmem : LoadEvent.returned purpose' name' m ∈ .failed purpose name :: l.journal := by
        cases purpose <;> exact h
      exact .inl (.returned ((List.mem_cons.1 hmem).resolve_left nofun))

end Loader

/-- A definition adds its class and the members that it was given. -/
theorem Registry.WellFormed.holds_attempt {r : Registry} (hwf : r.WellFormed) (d : Definition) {v : Value}
    (h : (r.attempt d).Holds v) :
    r.Holds v ∨ v ∈ d.members.map Prod.snd ∨ ∃ c, v = .cls c ∧ c ∈ (r.attempt d).classes := by
  cases h with
  | cls hc => exact .inr (.inr ⟨_, rfl, hc⟩)
  | named hget => exact .inr (.inr ⟨_, rfl, (((hwf.attempt d).named _ _).1 hget).1⟩)
  | @member e name _ he hget =>
    rw [attempt_eq] at he
    split at he
    next =>
      rcases List.mem_append.1 he with he | he
      · exact .inl (.member he hget)
      · cases List.mem_singleton.1 he
        exact .inr (.inl (Table.mem_of_get?_ofList hget))
    next => exact .inl (.member he hget)

namespace Realm

theorem holds_classFor (r : Realm) (name : String) : r.Holds (.cls (r.taxonomy.classFor name)) := by
  unfold Taxonomy.classFor
  cases hc : r.taxonomy.class? name with
  | none => exact .base
  | some c => exact .exceptionClass hc

/-- Only the registry and the module tables of a realm can come to hold anything. -/
theorem Holds.changed {r r' : Realm} {P : Prop} {v : Value} (h : r'.Holds v) (hcore : r'.core = r.core)
    (hbuiltins : r'.builtins = r.builtins) (htaxonomy : r'.taxonomy = r.taxonomy)
    (hclasses : r'.classes.Holds v → r.classes.Holds v ∨ P) (hloader : r'.loader.Holds v → r.loader.Holds v ∨ P) :
    r.Holds v ∨ P := by
  cases h with
  | classes h => exact (hclasses h).imp_left .classes
  | core h => exact .inl (.core (hcore ▸ h))
  | builtin h => exact .inl (.builtin (hbuiltins ▸ h))
  | base =>
    rw [htaxonomy]
    exact .inl .base
  | exceptionClass h => exact .inl (.exceptionClass (htaxonomy ▸ h))
  | loader h => exact (hloader h).imp_left .loader

/-- A realm that was just started holds nothing but classes of its own. -/
theorem holds_bootstrap {id : RealmId} {config : Config} {r : Realm} (hboot : bootstrap id config = .ok r) {v : Value}
    (h : r.Holds v) : ∃ c, v = .cls c ∧ c ∈ r.classes.classes := by
  obtain ⟨r', hboot', hsound⟩ := sound_bootstrap id config
  cases hboot.symm.trans hboot'
  have hfound : ∀ {name c}, r.classes.get? name = some c → c ∈ r.classes.classes :=
    fun hget => ((hsound.wellFormed.named _ _).1 hget).1
  obtain ⟨core, base, made, hrun, -, -, -, -, -, hobject⟩ := run_installBuiltins id
  cases hboot.symm.trans (bootstrap_of_run hrun config)
  cases h with
  | classes h =>
    cases h with
    | cls hc => exact ⟨_, rfl, hc⟩
    | named hget => exact ⟨_, rfl, hfound hget⟩
    | @member e name _ he hget =>
      -- The builtin classes have no members.
      rw [Installation.entries_including] at he
      rcases List.mem_append.1 he with he | he
      · cases List.mem_singleton.1 he
        cases hget
      · obtain ⟨c, -, rfl⟩ := List.mem_map.1 he
        cases hget
  | core hc =>
    refine ⟨_, rfl, ?_⟩
    rcases List.mem_cons.1 hc with rfl | hc
    · have hroot := hsound.wellFormed.root_mem
      rwa [Registry.root, hsound.home, ← hobject] at hroot
    · exact Installation.mem_including _ (List.mem_append_left (base :: made) hc)
  | builtin h =>
    rw [hsound.builtins] at h
    split at h
    next =>
      obtain ⟨c, hget, rfl⟩ := Option.map_eq_some_iff.1 h
      exact ⟨c, rfl, hfound hget⟩
    next => cases h
  | base => exact ⟨_, rfl, hfound hsound.base⟩
  | exceptionClass h =>
    rw [hsound.taxonomy] at h
    split at h
    next => exact ⟨_, rfl, hfound h⟩
    next => cases h
  | loader h =>
    cases h with
    | cached h => cases h
    | returned h => cases h

end Realm

namespace Host

variable {h : Host} {v : Value}

theorem Holds.of_grow (hv : (⟨h.realms, h.heap.grow⟩ : Host).Holds v) : h.Holds v := by
  cases hv with
  | realm hid hv => exact .realm hid hv
  | attr hv =>
    rw [Heap.attributes_grow] at hv
    exact .attr hv

theorem Holds.of_setAttribute {id : ObjectId} {name : String} {v' : Value} (hv : (h.setAttribute id name v').Holds v) :
    h.Holds v ∨ v = v' := by
  cases hv with
  | realm hid hv => exact .inl (.realm hid hv)
  | attr hv => exact (Heap.get?_setAttribute hv).imp_left .attr

/-- Only the realm that is changed can come to hold anything. -/
theorem Holds.of_modifyRealm {id : RealmId} {f : Realm → Realm} (hv : (h.modifyRealm id f).Holds v) :
    h.Holds v ∨ (id < h.realms.length ∧ (f (h.realm id)).Holds v) := by
  cases hv with
  | @realm other _ hid hv =>
    rw [length_modifyRealm] at hid
    rw [realm_modifyRealm] at hv
    split at hv
    next hother => exact .inr ⟨hother.2, hv⟩
    next => exact .inl (.realm hid hv)
  | attr hv => exact .inl (.attr hv)

theorem Holds.of_register {id : RealmId} {name : String} {factory : Code}
    (hv : (h.register id name factory).2.Holds v) : h.Holds v := by
  rcases Holds.of_modifyRealm hv with hv | ⟨hid, hv⟩
  · exact hv
  · have hrealm := hv.changed (r := h.realm id) (P := False) rfl rfl rfl .inl .inl
    exact .realm hid (hrealm.resolve_right not_false)

theorem Holds.of_opened {id : RealmId} {purpose : Purpose} {name : String}
    (hv : (h.modifyLoader id fun l => l.opened purpose name).Holds v) : h.Holds v := by
  rcases Holds.of_modifyRealm hv with hv | ⟨hid, hv⟩
  · exact hv
  · have hrealm := hv.changed (r := h.realm id) (P := False) rfl rfl rfl .inl fun hl => .inl hl.of_opened
    exact .realm hid (hrealm.resolve_right not_false)

theorem Holds.of_closed {id : RealmId} {purpose : Purpose} {name : String} {result : Except Raised Module}
    (hv : (h.modifyLoader id fun l => l.closed purpose name result).Holds v) :
    h.Holds v ∨ v ∈ resultValues ([.module ·]) result := by
  rcases Holds.of_modifyRealm hv with hv | ⟨hid, hv⟩
  · exact .inl hv
  · exact (hv.changed (r := h.realm id) rfl rfl rfl .inl Loader.Holds.of_closed).imp_left (.realm hid)

theorem Holds.of_define (hsound : h.Sound) {id : RealmId} {name : String} {parent : Option Class}
    {members : List (String × Value)} (hv : (h.define id name parent members).2.Holds v) :
    h.Holds v ∨ v ∈ members.map Prod.snd ∨ ∃ c, v = .cls c ∧ (h.define id name parent members).2.HasClass c := by
  have hsound' := hsound.transition (.define [] h id name parent members)
  cases hv with
  | @realm other _ hother hv =>
    have hold := hother
    have hrealm := h.realm_define id name parent members other
    rw [length_define] at hold
    split at hrealm
    next hid =>
      obtain ⟨rfl, -⟩ := hid
      refine (hv.changed (r := h.realm other) ?_ ?_ ?_ (fun hclasses => ?_) fun hl => ?_).imp_left (.realm hold)
      · rw [hrealm]
      · rw [hrealm]
      · rw [hrealm]
      · rw [hrealm] at hclasses
        refine ((hsound other hold).wellFormed.holds_attempt _ hclasses).imp_right (Or.imp_right ?_)
        rintro ⟨c, rfl, hc⟩
        refine ⟨c, rfl, hsound'.hasClass hother ?_⟩
        rwa [hrealm]
      · rw [hrealm] at hl
        exact .inl hl
    next =>
      rw [hrealm] at hv
      exact .inl (.realm hold hv)
  | attr hv =>
    rw [heap_define] at hv
    exact .inl (.attr hv)

theorem Holds.of_boot (hsound : h.Sound) {config : Config} (hv : (h.boot config).2.Holds v) :
    h.Holds v ∨ ∃ c, v = .cls c ∧ (h.boot config).2.HasClass c := by
  have hsound' := hsound.transition (.boot [] h config)
  obtain ⟨r, hboot, -⟩ := Realm.sound_bootstrap h.realms.length config
  rw [boot_of_bootstrap hboot] at hv hsound' ⊢
  cases hv with
  | @realm id _ hid hv =>
    have hrealm := h.realm_push r id
    split at hrealm
    next hnew =>
      rw [hrealm] at hv
      obtain ⟨c, rfl, hc⟩ := Realm.holds_bootstrap hboot hv
      refine .inr ⟨c, rfl, hsound'.hasClass hid ?_⟩
      rwa [hrealm]
    next hold =>
      rw [hrealm] at hv
      refine .inl (.realm ?_ hv)
      rw [List.length_append, List.length_singleton] at hid
      exact Nat.lt_of_le_of_ne (Nat.le_of_lt_succ hid) hold
  | attr hv => exact .inl (.attr hv)

end Host

/-! ## Factories -/

namespace Host

variable {h : Host} {id : RealmId} {name : String} {factory : Code}

theorem factories_modifyLoader (h : Host) (id : RealmId) (f : Loader → Loader) (other : RealmId) :
    ((h.modifyLoader id f).realm other).factories = (h.realm other).factories := by
  rw [realm_modifyLoader]
  split
  next hother => rw [hother.1]
  next => rfl

theorem factories_define (h : Host) (id : RealmId) (name : String) (parent : Option Class)
    (members : List (String × Value)) (other : RealmId) :
    ((h.define id name parent members).2.realm other).factories = (h.realm other).factories := by
  rw [realm_define]
  split
  next hother => rw [hother.1]
  next => rfl

theorem factories_of_register {realm : RealmId} {added : String} {code : Code}
    (hfactory : ((h.register realm added code).2.realm id).factories.get? name = some factory) :
    (h.realm id).factories.get? name = some factory ∨ factory = code := by
  simp only [register, realm_modifyRealm] at hfactory
  split at hfactory
  next hid =>
    rw [Table.get?_insert] at hfactory
    split at hfactory
    · exact .inr (Option.some.inj hfactory).symm
    · exact .inl (hid.1 ▸ hfactory)
  next => exact .inl hfactory

/-- A realm is started without factories. -/
theorem factories_of_boot {config : Config}
    (hfactory : ((h.boot config).2.realm id).factories.get? name = some factory) :
    (h.realm id).factories.get? name = some factory := by
  obtain ⟨r, hboot, -⟩ := Realm.sound_bootstrap h.realms.length config
  rw [boot_of_bootstrap hboot, realm_push] at hfactory
  split at hfactory
  next =>
    rw [(Realm.of_bootstrap_eq_ok hboot).2.1] at hfactory
    cases hfactory
  next => exact hfactory

end Host

/-! ## What one step brings in -/

/-- A value that is there already: a scalar, or a part of what is held or handed over. -/
def Host.Supplies (h : Host) (offered : List Value) (u : Value) : Prop :=
  u.kind.hasIdentity = false ∨ ∃ v, (h.Holds v ∨ v ∈ offered) ∧ u ∈ v.parts

/-- All that is new when `h` has become `h'`. What is held was held before or was handed over, unless it is a class,
    and then it is registered. What is told is held, or is the one object that was made. That object has the next
    number, and whatever else is in it was there already. Only code of a realm that was started comes to be a
    factory. -/
structure Brings (h : Host) (offered : List Value) (told : Value → Prop) (made : Option Value) (h' : Host) : Prop where
  held : ∀ v, h'.Holds v → h.Holds v ∨ v ∈ offered ∨ ∃ c, v = .cls c ∧ h'.HasClass c
  told : ∀ v, told v → h'.Holds v ∨ made = some v
  fresh : ∀ o, made = some o → h'.heap.next = h.heap.next + 1 ∧ (∃ kind, o.identity = .object kind h.heap.next) ∧
    ∀ u ∈ o.parts, u = o ∨ h.Supplies offered u
  proper : ∀ o, made = some o → h'.Proper o
  factories : ∀ id name factory, (h'.realm id).factories.get? name = some factory →
    (h.realm id).factories.get? name = some factory ∨ factory.realm < h'.realms.length

namespace Brings

variable {h h' : Host} {offered : List Value} {told : Value → Prop}

/-- Nothing is made, but tables may change. -/
theorem change (hheld : ∀ v, h'.Holds v → h.Holds v ∨ v ∈ offered ∨ ∃ c, v = .cls c ∧ h'.HasClass c)
    (htold : ∀ v, told v → h'.Holds v)
    (hfactories : ∀ id name factory, (h'.realm id).factories.get? name = some factory →
      (h.realm id).factories.get? name = some factory ∨ factory.realm < h'.realms.length) :
    Brings h offered told none h' where
  held := hheld
  told v hv := .inl (htold v hv)
  fresh := nofun
  proper := nofun
  factories := hfactories

theorem idle (htold : ∀ v, told v → h.Holds v) : Brings h offered told none h :=
  .change (fun _ => .inl) htold fun _ _ _ => .inl

/-- An object is made out of parts that are there already. -/
theorem make (kind : Value.Kind) {o : Value} {rest : List Value} (htold : ∀ v, told v → v = o)
    (hidentity : o.identity = .object kind h.heap.next) (hparts : o.parts = o :: rest)
    (hrest : ∀ u ∈ rest, h.Supplies offered u) (hproper : h.Proper o) :
    Brings h offered told (some o) ⟨h.realms, h.heap.grow⟩ where
  held _ hv := .inl hv.of_grow
  told v hv := .inr (congrArg some (htold v hv).symm)
  fresh := by
    rintro _ ⟨⟩
    refine ⟨Array.size_push _, ⟨kind, hidentity⟩, fun u hu => ?_⟩
    rw [hparts] at hu
    exact (List.mem_cons.1 hu).imp_right (hrest u)
  proper := by
    rintro _ ⟨⟩
    exact hproper.transition (.grow [] h)
  factories _ _ _ := .inl

/-- An exception of a class that is there already, with a payload that is. -/
theorem exception {e : Exception} (htold : ∀ v, told v → v = e.toValue) (hid : e.id = h.heap.next)
    (hcls : h.Holds (.cls e.cls) ∨ .cls e.cls ∈ offered)
    (hmessage : ∀ u ∈ e.message.parts, h.Supplies offered u) (hproper : h.Proper e.toValue) :
    Brings h offered told (some e.toValue) ⟨h.realms, h.heap.grow⟩ := by
  refine .make .exception htold (congrArg (Value.Identity.object .exception) hid) rfl (fun u hu => ?_) hproper
  rcases List.mem_append.1 hu with hu | hu
  · exact .inr ⟨.cls e.cls, hcls, hu⟩
  · exact hmessage u hu

end Brings

namespace World

variable {w w' : World σ} {purpose : Purpose} {ctx : Context}

/-- Before any factory runs, a module is answered with if it is cached, and with a new exception otherwise. -/
theorem start_eq_inl {r : Except Raised Module} (h : w.start purpose ctx = .inl (r, w')) :
    (w' = w ∧ ∃ m, r = .ok m ∧ (w.host.realm ctx.realm).loader.cache.get? ctx.fqName = some m) ∨
    ∃ message, r = .error (.exception (w.host.newException ctx.realm Builtin.importError (.str message)).1) ∧
      w' = w.grown := by
  simp only [start] at h
  split at h
  next hcached =>
    cases h
    exact .inl ⟨rfl, _, rfl, hcached⟩
  next =>
    cases h
    exact .inr ⟨_, rfl, rfl⟩
  next =>
    split at h
    next =>
      cases h
      exact .inr ⟨_, rfl, rfl⟩
    next => cases h
  next => cases h

/-- What a request for a module comes to where no factory may run. -/
def answerAtOnce (w : World σ) (purpose : Purpose) (ctx : Context) : Except Raised Module :=
  (w.start purpose ctx).elim Prod.fst fun _ => .error (.host depthLimit)

theorem load_runner_zero (g : Guest σ) (w : World σ) (ctx : Context) :
    (w.load (g.runner 0) ctx).1 = w.answerAtOnce .caching ctx := by
  rw [load_eq, answerAtOnce]
  cases w.start .caching ctx <;> rfl

theorem enter_runner_zero (g : Guest σ) (w : World σ) (ctx : Context) :
    (w.enter (g.runner 0) ctx).1 = w.answerAtOnce .entry ctx := by
  rw [enter_eq, answerAtOnce]
  cases w.start .entry ctx <;> rfl

theorem call_runner_zero (g : Guest σ) (f : Function) (args : List Value) (w : World σ) :
    ∃ failure, (w.call (g.runner 0) f args).1 = .error (.host failure) := by
  rw [call_eq]
  cases f.refuses? args.length with
  | some failure => exact ⟨failure, rfl⟩
  | none => exact ⟨depthLimit, rfl⟩

end World

namespace Thread

theorem brings_obtain (g : Guest σ) (room : Option Nat) {w : World σ} (hsound : w.host.Sound) (purpose : Purpose)
    {ctx : Context} (hstarted : ctx.realm < w.host.realms.length) (next : Except Raised Module → Program σ α) :
    ∃ made, Brings w.host [] (· ∈ resultValues ([.module ·]) (w.answerAtOnce purpose ctx)) made
      (obtain g room purpose ctx next w).world.host := by
  unfold obtain World.answerAtOnce
  cases hstart : w.start purpose ctx with
  | inl answer =>
    obtain ⟨r, w'⟩ := answer
    rcases World.start_eq_inl hstart with ⟨rfl, m, rfl, hcached⟩ | ⟨message, rfl, rfl⟩
    · refine ⟨none, .idle fun v hv => ?_⟩
      cases List.mem_singleton.1 hv
      exact .realm hstarted (.loader (.cached hcached))
    · refine ⟨_, .exception (fun v hv => List.mem_singleton.1 hv) rfl ?_ (fun u hu => ?_) ?_⟩
      · exact .inl (.realm hstarted (Realm.holds_classFor _ _))
      · cases List.mem_singleton.1 hu
        exact .inl rfl
      · exact hsound.proper_newException hstarted _ _
  | inr factory =>
    refine ⟨none, .change (fun v hv => .inl hv.of_opened) (fun v hv => absurd hv List.not_mem_nil) ?_⟩
    intro id name factory' hfactory
    exact .inl (w.host.factories_modifyLoader ctx.realm _ id ▸ hfactory)

/-- What a request brings in, if it names only realms that were started. -/
theorem brings_request (g : Guest σ) (room : Option Nat) {w : World σ} (hsound : w.host.Sound) (request : Request σ)
    (hstarted : ∀ id ∈ request.realms, id < w.host.realms.length) (next : request.Reply → Program σ α) :
    ∃ made, Brings w.host request.offers (request.Shows (request.answer (g.runner 0) w).1) made
      (Thread.request g room w request next).world.host := by
  cases request with
  | observe => exact ⟨none, .idle fun _ hv => hv⟩
  | guest change => exact ⟨none, .idle fun _ => False.elim⟩
  | define realm name parent members =>
    have hid := hstarted realm List.mem_cons_self
    refine ⟨none, .change (fun v hv => ?_) ?_ fun id name' factory hfactory => ?_⟩
    · refine (Host.Holds.of_define hsound hv).imp_right (Or.imp_left fun hmember => ?_)
      exact List.mem_append_right _ hmember
    · rintro v ⟨c, hc, rfl⟩
      obtain ⟨-, hclass, -⟩ := (hsound realm hid).of_define hid (Prod.ext hc rfl)
      exact hclass.holds
    · exact .inl (w.host.factories_define realm name parent members id ▸ hfactory)
  | newInstance cls =>
    refine ⟨_, .make .inst (fun v hv => hv) rfl rfl (fun u hu => ?_) trivial⟩
    exact .inr ⟨.cls cls, .inr (List.mem_singleton_self _), hu⟩
  | newException realm name message =>
    have hid := hstarted realm List.mem_cons_self
    refine ⟨_, .exception (fun v hv => hv) rfl ?_ (fun u hu => ?_) (hsound.proper_newException hid name message)⟩
    · exact .inl (.realm hid (Realm.holds_classFor _ _))
    · exact .inr ⟨message, .inr (List.mem_singleton_self _), hu⟩
  | makeException realm cls args =>
    have hid := hstarted realm List.mem_cons_self
    simp only [Thread.request, Request.answer, World.onHost, Host.makeException]
    split
    next hbase =>
      refine ⟨_, .exception (e := (w.host.realm realm).taxonomy.exception w.host.heap.next cls (Taxonomy.payload args))
        ?_ rfl (.inr List.mem_cons_self) (fun u hu => ?_) ?_⟩
      · rintro v ⟨e, ⟨⟩, rfl⟩
        rfl
      · cases args with
        | nil =>
          cases List.mem_singleton.1 hu
          exact .inl rfl
        | cons message rest => exact .inr ⟨message, .inr (List.mem_cons_of_mem _ List.mem_cons_self), hu⟩
      · exact hsound.proper_of_base_mem hid (Class.isSubclassOf_iff.1 hbase)
    next =>
      refine ⟨none, .idle ?_⟩
      rintro v ⟨e, ⟨⟩, -⟩
  | newFunction name arity code =>
    exact ⟨_, .make .function (fun v hv => hv) rfl rfl (List.forall_mem_nil _) (hstarted _ List.mem_cons_self)⟩
  | newMethod receiver callable =>
    refine ⟨_, .make .method (fun v hv => hv) rfl rfl (fun u hu => ?_) trivial⟩
    rcases List.mem_cons.1 hu with rfl | hu
    · exact .inr ⟨.function callable, .inr (List.mem_cons_of_mem _ List.mem_cons_self), List.mem_cons_self⟩
    · exact .inr ⟨receiver, .inr List.mem_cons_self, hu⟩
  | newModule fqName declaredName file cls =>
    refine ⟨_, .make .module (fun v hv => hv) rfl rfl (fun u hu => ?_) trivial⟩
    obtain ⟨c, hc, hu⟩ := List.mem_flatMap.1 hu
    exact .inr ⟨.cls c, .inr (List.mem_map_of_mem hc), hu⟩
  | setAttribute id name v =>
    refine ⟨none, .change (fun v hv => ?_) (fun _ => False.elim) fun _ _ _ => .inl⟩
    exact (Host.Holds.of_setAttribute hv).imp_right fun h => .inl (List.mem_singleton.2 h)
  | register realm name factory =>
    refine ⟨none, .change (fun v hv => .inl hv.of_register) (fun _ => False.elim) ?_⟩
    intro id name' factory' hfactory
    rcases Host.factories_of_register hfactory with hold | rfl
    · exact .inl hold
    · refine .inr (Nat.lt_of_lt_of_eq (hstarted _ (List.mem_cons_of_mem _ List.mem_cons_self)) ?_)
      exact (w.host.length_modifyRealm realm _).symm
  | boot config =>
    refine ⟨none, .change (fun v hv => (Host.Holds.of_boot hsound hv).imp_right .inr) (fun _ => False.elim) ?_⟩
    exact fun id name factory hfactory => .inl (Host.factories_of_boot hfactory)
  | call f args =>
    have hhost : (Thread.request g room w (.call f args) next).world.host = w.host := by
      simp only [Thread.request]
      split <;> rfl
    rw [hhost]
    refine ⟨none, .idle fun v hv => ?_⟩
    obtain ⟨failure, hfailure⟩ := World.call_runner_zero g f args w
    simp only [Request.Shows, Request.answer, hfailure, resultValues, Raised.values, List.not_mem_nil] at hv
  | load ctx =>
    obtain ⟨made, h⟩ := brings_obtain g room hsound .caching (hstarted _ List.mem_cons_self) next
    rw [← World.load_runner_zero g] at h
    exact ⟨made, h⟩
  | enter ctx =>
    obtain ⟨made, h⟩ := brings_obtain g room hsound .entry (hstarted _ List.mem_cons_self) next
    rw [← World.enter_runner_zero g] at h
    exact ⟨made, h⟩

theorem not_told {g : Guest σ} {t : Thread σ α} (h : t.asks? = none) {w : World σ} {v : Value} : ¬ t.Told g w v := by
  rintro ⟨request, hasks, -⟩
  cases h.symm.trans hasks

/-- What a step brings in, whichever body makes it. -/
theorem brings_step (g : Guest σ) (room : Option Nat) {t : Thread σ α} {w : World σ} (hsound : w.host.Sound)
    (hstarted : ∀ request, t.asks? = some request → ∀ id ∈ request.realms, id < w.host.realms.length) :
    ∃ made, Brings w.host t.offers (t.Told g w) made (t.step g room w).world.host := by
  induction t generalizing room with
  | active p =>
    cases p with
    | done a => exact ⟨none, .idle fun v hv => absurd hv (not_told rfl)⟩
    | ask request next =>
      obtain ⟨made, h⟩ := brings_request g room hsound request (hstarted request rfl) next
      refine ⟨made, h.held, ?_, h.fresh, h.proper, h.factories⟩
      rintro v ⟨request', ⟨⟩, hv⟩
      exact h.told v hv
  | calling body next ih =>
    cases hr : body.result? with
    | some r =>
      cases result?_eq_some.1 hr
      exact ⟨none, .idle fun v hv => absurd hv (not_told rfl)⟩
    | none =>
      simp only [step, hr, offers]
      exact ih (room.map (· - 1)) hstarted
  | running purpose ctx body next ih =>
    cases hr : body.result? with
    | some r =>
      cases result?_eq_some.1 hr
      refine ⟨none, .change (fun v hv => hv.of_closed.imp_right .inl) (fun v hv => absurd hv (not_told rfl)) ?_⟩
      intro id name factory hfactory
      exact .inl (w.host.factories_modifyLoader ctx.realm _ id ▸ hfactory)
    | none =>
      simp only [step, hr, offers]
      exact ih (room.map (· - 1)) hstarted

end Thread

end ObjectHost
