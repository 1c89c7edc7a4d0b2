-- SUMMARY: Registries side by side: which of them owns a class, when a definition is refused, and what it leaves alone.
import ObjectHost.Proofs.Class.WellFormed

/-!
# Registries side by side

Any number of registries can be in use at once, and a class of one can be
offered to another as a parent. A class belongs to the registry that defined it
and to no other, however alike the names are. A definition changes the one
registry it is made in, at its end, and nothing that was there before.
-/

namespace ObjectHost

namespace Registry

variable {r : Registry}

/-! ## Owned classes -/

theorem WellFormed.owns_iff (h : r.WellFormed) {c : Class} : r.owns c = true ↔ c ∈ r.classes := by
  unfold owns
  rw [decide_eq_true_iff, h.named]
  exact and_iff_left rfl

theorem WellFormed.get?_of_mem (h : r.WellFormed) {c : Class} (hc : c ∈ r.classes) : r.get? c.name = some c :=
  (h.named _ _).2 ⟨hc, rfl⟩

theorem WellFormed.mem_names_iff (h : r.WellFormed) {name : String} : name ∈ r.names ↔ r.contains name = true := by
  unfold names contains
  rw [List.mem_map, Option.isSome_iff_exists]
  constructor
  · rintro ⟨c, hc, rfl⟩
    exact ⟨c, h.get?_of_mem hc⟩
  · rintro ⟨c, hget⟩
    exact ⟨c, (h.named _ _).1 hget⟩

theorem WellFormed.contains_of_not_mem (h : r.WellFormed) {name : String} (hname : name ∉ r.names) :
    r.contains name = false :=
  Bool.eq_false_iff.2 fun hused => hname (h.mem_names_iff.2 hused)

/-- All classes of a registry go back to its own root. -/
theorem WellFormed.home_of_mem (h : r.WellFormed) {c : Class} (hc : c ∈ r.classes) : c.home = r.home := by
  have hroot := h.getLast?_ancestors hc
  rw [c.getLast?_ancestors] at hroot
  exact Class.root.inj (Option.some.inj hroot)

/-! ## Definitions -/

theorem define_of_contains {name : String} (parent : Option Class) (members : List (String × Value))
    (hname : r.contains name = true) : r.define name parent members = .error (.duplicateDefinition name) := by
  simp only [define, hname, if_true]

theorem define_of_owned {name : String} {parent : Option Class} (members : List (String × Value))
    (hname : r.contains name = false) (hparent : r.owns (parent.getD r.root) = true) :
    r.define name parent members =
      .ok (.sub r.size name (parent.getD r.root),
        r.append (.sub r.size name (parent.getD r.root)) (.ofList members)) := by
  simp only [define, hname, hparent, Bool.false_eq_true, if_false, if_true]
  rfl

theorem define_of_foreign {name : String} {parent : Option Class} (members : List (String × Value))
    (hname : r.contains name = false) (hparent : r.owns (parent.getD r.root) = false) :
    r.define name parent members = .error (.unknownClass (parent.getD r.root).name) := by
  simp only [define, hname, hparent, Bool.false_eq_true, if_false]

/-- A call that is not refused appends its class, beneath a parent that is there. -/
theorem of_define_eq_ok {name : String} {parent : Option Class} {members : List (String × Value)} {c : Class}
    {r' : Registry} (h : r.define name parent members = .ok (c, r')) :
    r.contains name = false ∧ r.owns (parent.getD r.root) = true ∧
      c = .sub r.size name (parent.getD r.root) ∧ r' = r.append c (.ofList members) := by
  unfold define at h
  simp only at h
  split at h
  next => cases h
  next hname =>
    split at h
    next hparent =>
      cases h
      exact ⟨Bool.eq_false_iff.2 hname, hparent, rfl, rfl⟩
    next => cases h

/-- A name in use is refused first, and then a parent from elsewhere. -/
theorem WellFormed.define_eq_error_iff (h : r.WellFormed) {name : String} {parent : Option Class}
    {members : List (String × Value)} {e : ObjectError} :
    r.define name parent members = .error e ↔
      (name ∈ r.names ∧ e = .duplicateDefinition name) ∨
        (name ∉ r.names ∧ ∃ p, parent = some p ∧ r.owns p = false ∧ e = .unknownClass p.name) := by
  rw [h.mem_names_iff]
  cases hname : r.contains name with
  | true =>
    rw [define_of_contains parent members hname]
    constructor
    · rintro ⟨⟩
      exact .inl ⟨rfl, rfl⟩
    · rintro (⟨-, rfl⟩ | ⟨hnew, -⟩)
      · rfl
      · exact absurd rfl hnew
  | false =>
    cases howned : r.owns (parent.getD r.root) with
    | true =>
      rw [define_of_owned members hname howned]
      constructor
      · rintro ⟨⟩
      · rintro (⟨⟨⟩, -⟩ | ⟨-, p, rfl, hforeign, -⟩)
        exact absurd howned (Bool.eq_false_iff.1 hforeign)
    | false =>
      rw [define_of_foreign members hname howned]
      cases parent with
      | none =>
        -- The root is always there, so a parent that is refused was given.
        exact absurd (h.owns_iff.2 h.root_mem) (Bool.eq_false_iff.1 howned)
      | some p =>
        constructor
        · rintro ⟨⟩
          exact .inr ⟨Bool.false_ne_true, p, rfl, howned, rfl⟩
        · rintro (⟨⟨⟩, -⟩ | ⟨-, q, ⟨⟩, -, rfl⟩)
          rfl

/-! ## What an appended class leaves alone -/

theorem members_append {cls c : Class} (members : Table Value) (hc : c ∈ r.classes) :
    (r.append cls members).members c = r.members c := by
  obtain ⟨e, he, rfl⟩ := List.mem_map.1 hc
  have hfound : (r.entries.find? fun entry => decide (entry.cls = e.cls)).isSome = true :=
    List.find?_isSome.2 ⟨e, he, decide_eq_true rfl⟩
  obtain ⟨found, hfind⟩ := Option.isSome_iff_exists.1 hfound
  unfold Registry.members append
  simp only [List.find?_append, hfind, Option.some_or]

/-- The members of a class and of all its ancestors are where they were. -/
theorem WellFormed.lookup?_append (h : r.WellFormed) {cls c : Class} (members : Table Value) (hc : c ∈ r.classes)
    (name : String) : (r.append cls members).lookup? c name = r.lookup? c name := by
  have hsame : ∀ a ∈ c.ancestors, (r.append cls members).member? a name = r.member? a name := by
    intro a ha
    unfold member?
    rw [members_append members (h.ancestors_subset hc a ha)]
  unfold lookup?
  generalize c.ancestors = chain at hsame
  induction chain with
  | nil => rfl
  | cons a chain ih =>
    rw [List.findSome?_cons, List.findSome?_cons, hsame a List.mem_cons_self,
      ih fun b hb => hsame b (List.mem_cons_of_mem _ hb)]

/-- One registry holds every class of the other and answers about it as the other does. -/
structure Extends (r' r : Registry) : Prop where
  home : r'.home = r.home
  entries : r.entries <+: r'.entries
  get : ∀ c ∈ r.classes, r'.get? c.name = r.get? c.name
  lookup : ∀ c ∈ r.classes, ∀ name, r'.lookup? c name = r.lookup? c name

theorem Extends.refl (r : Registry) : r.Extends r :=
  ⟨rfl, List.prefix_refl _, fun _ _ => rfl, fun _ _ _ => rfl⟩

theorem WellFormed.append_extends (h : r.WellFormed) {cls : Class} (members : Table Value)
    (hname : r.contains cls.name = false) : (r.append cls members).Extends r := by
  refine ⟨rfl, List.prefix_append _ _, ?_, fun c hc name => h.lookup?_append members hc name⟩
  intro c hc
  have hne : c.name ≠ cls.name := by
    intro heq
    have hused := h.mem_names_iff.1 (List.mem_map_of_mem hc)
    rw [heq, hname] at hused
    cases hused
  rw [get?_append, if_neg hne]

theorem WellFormed.attempt_extends (h : r.WellFormed) (d : Definition) : (r.attempt d).Extends r := by
  unfold Registry.attempt
  split
  next c r' hdefine =>
    obtain ⟨hname, -, rfl, rfl⟩ := of_define_eq_ok hdefine
    exact h.append_extends _ hname
  next => exact .refl r

end Registry

/-! ## Any number of registries -/

/-- Registries in the order they were made. The position of a registry is the home of its classes. -/
abbrev Registries := List Registry

/-- Makes one more registry, or asks one of them for a definition. -/
inductive RegistryCall where
  | create
  | define (home : RealmId) (d : Definition)

namespace Registries

def apply (rs : Registries) : RegistryCall → Registries
  | .create => rs ++ [.new rs.length]
  | .define home d => rs.modify home fun r => r.attempt d

/-- The registries that a sequence of calls makes, from none on. -/
def after (calls : List RegistryCall) : Registries := calls.foldl apply []

/-- Every registry is well-formed and knows its position. -/
def WellFormed (rs : Registries) : Prop :=
  ∀ (i : RealmId) (r : Registry), rs[i]? = some r → r.WellFormed ∧ r.home = i

variable {rs : Registries}

theorem getElem?_define (rs : Registries) (i j : RealmId) (d : Definition) :
    (rs.apply (.define i d))[j]? = if i = j then rs[j]?.map fun r => r.attempt d else rs[j]? := by
  unfold apply
  simp only [List.getElem?_modify]
  split <;> simp

theorem WellFormed.apply (h : rs.WellFormed) (call : RegistryCall) : (rs.apply call).WellFormed := by
  intro j r hr
  cases call with
  | create =>
    simp only [Registries.apply, List.getElem?_append] at hr
    split at hr
    next => exact h j r hr
    next hj =>
      -- Only the new registry stands behind the others.
      have hlast : j = rs.length := by
        have hlt : j - rs.length < 1 := (List.getElem?_eq_some_iff.1 hr).1
        exact Nat.le_antisymm (Nat.sub_eq_zero_iff_le.1 (Nat.lt_one_iff.1 hlt)) (Nat.le_of_not_lt hj)
      subst hlast
      simp only [Nat.sub_self, List.getElem?_cons_zero, Option.some.injEq] at hr
      subst hr
      exact ⟨.new _, rfl⟩
  | define i d =>
    rw [getElem?_define] at hr
    split at hr
    next =>
      obtain ⟨s, hs, rfl⟩ := Option.map_eq_some_iff.1 hr
      obtain ⟨hwf, hhome⟩ := h j s hs
      exact ⟨hwf.attempt d, (hwf.attempt_extends d).home.trans hhome⟩
    next => exact h j r hr

theorem WellFormed.after (calls : List RegistryCall) : (Registries.after calls).WellFormed := by
  have hrun : ∀ rs : Registries, rs.WellFormed → (calls.foldl Registries.apply rs).WellFormed := by
    induction calls with
    | nil => exact fun rs h => h
    | cons call calls ih => exact fun rs h => ih _ (h.apply call)
  exact hrun _ fun i r hr => by cases hr

/-- A class of one registry is owned by that registry alone. -/
theorem WellFormed.owns_iff (h : rs.WellFormed) {i j : RealmId} {r s : Registry} {c : Class} (hr : rs[i]? = some r)
    (hs : rs[j]? = some s) (hc : c ∈ r.classes) : s.owns c = true ↔ j = i := by
  obtain ⟨hwr, hhr⟩ := h i r hr
  obtain ⟨hws, hhs⟩ := h j s hs
  constructor
  · intro howns
    rw [← hhs, ← hhr, ← hws.home_of_mem (hws.owns_iff.1 howns), ← hwr.home_of_mem hc]
  · rintro rfl
    cases hr.symm.trans hs
    exact hwr.owns_iff.2 hc

/-- A definition is asked of one registry, and each of them answers about its classes as before. -/
theorem WellFormed.define_extends (h : rs.WellFormed) {j : RealmId} {s : Registry} (i : RealmId) (d : Definition)
    (hs : rs[j]? = some s) : ∃ s', (rs.apply (.define i d))[j]? = some s' ∧ s'.Extends s := by
  rw [getElem?_define, hs]
  split
  next => exact ⟨s.attempt d, rfl, (h j s hs).1.attempt_extends d⟩
  next => exact ⟨s, rfl, .refl s⟩

end Registries

/-- However calls on any number of registries are interleaved, and whatever parents they name, a class is owned by
    exactly one registry, which owns its ancestors too, and it is no subclass of a class of another registry. A
    definition is refused exactly if its name is in use, whatever its parent, or if not, if a parent is given that the
    registry does not own. Then no registry changes. Otherwise the registry it is asked of has one more class, at its
    end, and the others stay as they are. Either way every registry finds the classes that it had, the same as before,
    and they answer with the same ancestry, the same superclasses and the same members. -/
theorem registries_keep_apart (calls : List RegistryCall) :
    let rs := Registries.after calls
    (∀ (i : RealmId) (r : Registry) (c : Class), rs[i]? = some r → c ∈ r.classes →
      (∀ (j : RealmId) (s : Registry), rs[j]? = some s → (s.owns c = true ↔ j = i)) ∧
      (∀ a ∈ c.ancestors, r.owns a = true) ∧
      ∀ (j : RealmId) (s : Registry) (d : Class), rs[j]? = some s → d ∈ s.classes → j ≠ i →
        c.isSubclassOf d = false) ∧
    ∀ (i : RealmId) (r : Registry) (d : Definition), rs[i]? = some r →
      (∀ e, r.define d.name d.parent d.members = .error e ↔
        (d.name ∈ r.names ∧ e = .duplicateDefinition d.name) ∨
        (d.name ∉ r.names ∧ ∃ p, d.parent = some p ∧ r.owns p = false ∧ e = .unknownClass p.name)) ∧
      (∀ e, r.define d.name d.parent d.members = .error e → rs.apply (.define i d) = rs) ∧
      (∀ c r', r.define d.name d.parent d.members = .ok (c, r') →
        rs.apply (.define i d) = rs.set i r' ∧ c = .sub r.size d.name (d.parent.getD r.root) ∧
        r'.entries = r.entries ++ [⟨c, .ofList d.members⟩] ∧
        ∀ name, r'.get? name = if name = d.name then some c else r.get? name) ∧
      ∀ (j : RealmId) (s : Registry), rs[j]? = some s →
        ∃ s', (rs.apply (.define i d))[j]? = some s' ∧ ∀ c ∈ s.classes,
          s.get? c.name = some c ∧ s'.get? c.name = some c ∧
          (s'.get? c.name).map Class.ancestryNames = (s.get? c.name).map Class.ancestryNames ∧
          (∀ b, (s'.get? c.name).map (·.isSubclassOf b) = (s.get? c.name).map (·.isSubclassOf b)) ∧
          ∀ name, s'.lookup? c name = s.lookup? c name := by
  intro rs
  have h : rs.WellFormed := .after calls
  refine ⟨?_, ?_⟩
  · intro i r c hr hc
    obtain ⟨hwf, -⟩ := h i r hr
    refine ⟨fun j s hs => h.owns_iff hr hs hc, fun a ha => hwf.owns_iff.2 (hwf.ancestors_subset hc a ha), ?_⟩
    intro j s d hs hd hji
    rw [← Bool.not_eq_true, Class.isSubclassOf_iff]
    -- An ancestor of `c` is owned where `c` is.
    intro hancestor
    exact hji ((h.owns_iff hs hr hd).1 (hwf.owns_iff.2 (hwf.ancestors_subset hc d hancestor))).symm
  · intro i r d hr
    obtain ⟨hwf, -⟩ := h i r hr
    refine ⟨fun e => hwf.define_eq_error_iff, ?_, ?_, ?_⟩
    · intro e he
      have hsame : r.attempt d = r := by
        unfold Registry.attempt
        rw [he]
      refine List.ext_getElem? fun j => ?_
      rw [Registries.getElem?_define]
      split
      next hij => rw [← hij, hr, Option.map_some, hsame]
      next => rfl
    · intro c r' hok
      have hnew : r.attempt d = r' := by
        unfold Registry.attempt
        rw [hok]
      obtain ⟨-, -, hc, rfl⟩ := Registry.of_define_eq_ok hok
      refine ⟨?_, hc, rfl, ?_⟩
      · refine List.ext_getElem? fun j => ?_
        rw [Registries.getElem?_define, List.getElem?_set]
        split
        next hij =>
          rw [← hij, hr, if_pos (List.getElem?_eq_some_iff.1 hr).1, Option.map_some, hnew]
        next => rfl
      · intro name
        rw [Registry.get?_append, hc]
        rfl
    · intro j s hs
      obtain ⟨s', hs', hextends⟩ := h.define_extends i d hs
      refine ⟨s', hs', fun c hc => ?_⟩
      have hfound := (h j s hs).1.get?_of_mem hc
      have hget := hextends.get c hc
      exact ⟨hfound, hget.trans hfound, by rw [hget], fun b => by rw [hget], hextends.lookup c hc⟩

/-- Two registries, each with a class `A` of its own. -/
def twoRegistries : List RegistryCall :=
  [.create, .create, .define 0 ⟨"A", none, []⟩, .define 1 ⟨"A", none, [("x", .bool true)]⟩]

/-- The second registry takes the first one's `A` for no class of its own, and refuses it as a parent. Once it has a
    `B` beneath its own `A`, that `A` still answers with its member. -/
theorem registries_keep_apart_twoRegistries :
    let rs := Registries.after twoRegistries
    let first := Registry.after 0 [⟨"A", none, []⟩]
    let second := Registry.after 1 [⟨"A", none, [("x", .bool true)]⟩]
    let a := Class.sub 1 "A" (.root 0)
    let b := Class.sub 1 "A" (.root 1)
    rs[0]? = some first ∧ rs[1]? = some second ∧
      first.owns a = true ∧ second.owns a = false ∧ a.isSubclassOf b = false ∧
      second.define "B" (some a) [] = .error (.unknownClass "A") ∧ rs.apply (.define 1 ⟨"B", some a, []⟩) = rs ∧
      ∃ second', (rs.apply (.define 1 ⟨"B", some b, []⟩))[1]? = some second' ∧
        second'.get? "A" = some b ∧ second'.lookup? b "x" = some (.bool true) := by
  intro rs first second a b
  have hfirst : rs[0]? = some first := rfl
  have hsecond : rs[1]? = some second := rfl
  have ha : a ∈ first.classes := by decide
  have hb : b ∈ second.classes := by decide
  obtain ⟨hclasses, hdefine⟩ := registries_keep_apart twoRegistries
  obtain ⟨howner, -, happart⟩ := hclasses 0 first a hfirst ha
  have hforeign : second.owns a = false :=
    Bool.eq_false_iff.2 fun howns => absurd ((howner 1 second hsecond).1 howns) (by decide)
  obtain ⟨hrefused, hsame, -, -⟩ := hdefine 1 second ⟨"B", some a, []⟩ hsecond
  have herror := (hrefused (.unknownClass "A")).2 (.inr ⟨by decide, a, rfl, hforeign, rfl⟩)
  obtain ⟨-, -, -, hkept⟩ := hdefine 1 second ⟨"B", some b, []⟩ hsecond
  obtain ⟨second', hsecond', hanswers⟩ := hkept 1 second hsecond
  obtain ⟨-, hget, -, -, hlookup⟩ := hanswers b hb
  have hmember : second.lookup? b "x" = some (.bool true) := by decide
  exact ⟨hfirst, hsecond, (howner 0 first hfirst).2 rfl, hforeign, happart 1 second b hsecond hb (by decide), herror,
    hsame _ herror, second', hsecond', hget, (hlookup "x").trans hmember⟩

end ObjectHost
