-- SUMMARY: Members by way of the ancestry: the nearest definition, the last entry, and what later definitions keep.
import ObjectHost.Proofs.Class.Tree

/-!
# Members through the ancestry

A class answers with the member of the nearest class in its ancestry that
defines one. A class that is defined beneath another answers as that one does,
except under the names that it was given members for, and what a class answers
is settled once it is defined.
-/

namespace ObjectHost

/-! ## Lists of members -/

namespace Table

variable {α : Type} {name : String} {a : α}

/-- The last entry of the list for `name` is `a`. -/
def LastEntry (l : List (String × α)) (name : String) (a : α) : Prop :=
  ∃ before after, l = before ++ (name, a) :: after ∧ name ∉ after.map Prod.fst

theorem LastEntry.mem_keys {l : List (String × α)} (h : LastEntry l name a) : name ∈ l.map Prod.fst := by
  obtain ⟨before, after, rfl, -⟩ := h
  simp

theorem lastEntry_cons_iff {e : String × α} {l : List (String × α)} :
    LastEntry (e :: l) name a ↔ LastEntry l name a ∨ e = (name, a) ∧ name ∉ l.map Prod.fst := by
  constructor
  · rintro ⟨before, after, hl, hafter⟩
    cases before with
    | nil =>
      obtain ⟨rfl, rfl⟩ := List.cons.inj hl
      exact .inr ⟨rfl, hafter⟩
    | cons first before =>
      obtain ⟨-, rfl⟩ := List.cons.inj hl
      exact .inl ⟨before, after, rfl, hafter⟩
  · rintro (⟨before, after, rfl, hafter⟩ | ⟨rfl, hl⟩)
    · exact ⟨e :: before, after, rfl, hafter⟩
    · exact ⟨[], l, rfl, hl⟩

theorem get?_foldl_insert_iff_lastEntry (l : List (String × α)) (t : Table α) :
    (l.foldl (fun t e => t.insert e.1 e.2) t).get? name = some a ↔
      LastEntry l name a ∨ name ∉ l.map Prod.fst ∧ t.get? name = some a := by
  induction l generalizing t with
  | nil => simp [LastEntry]
  | cons e l ih =>
    obtain ⟨key, b⟩ := e
    rw [List.foldl_cons, ih, lastEntry_cons_iff, get?_insert, List.map_cons, List.mem_cons, Prod.mk.injEq]
    by_cases hkey : name = key
    · simp [hkey, and_comm]
    · simp [hkey, Ne.symm hkey]

theorem get?_ofList_iff_lastEntry {l : List (String × α)} : (ofList l).get? name = some a ↔ LastEntry l name a :=
  (get?_foldl_insert_iff_lastEntry l empty).trans (or_iff_left fun hout => nomatch hout.2)

theorem exists_lastEntry {l : List (String × α)} (h : name ∈ l.map Prod.fst) : ∃ a, LastEntry l name a := by
  induction l with
  | nil => cases h
  | cons e l ih =>
    by_cases hlater : name ∈ l.map Prod.fst
    · obtain ⟨a, ha⟩ := ih hlater
      exact ⟨a, lastEntry_cons_iff.2 (.inl ha)⟩
    · have hfirst : name = e.1 := (List.mem_cons.1 h).resolve_right hlater
      exact ⟨e.2, lastEntry_cons_iff.2 (.inr ⟨hfirst ▸ rfl, hlater⟩)⟩

theorem get?_ofList_of_not_mem {l : List (String × α)} (h : name ∉ l.map Prod.fst) : (ofList l).get? name = none :=
  Option.eq_none_iff_forall_ne_some.2 fun _ ha => h (get?_ofList_iff_lastEntry.1 ha).mem_keys

end Table

namespace Registry

variable {r r' r'' : Registry} {c : Class} {name : String}

/-! ## The nearest definition -/

/-- The nearest class in the ancestry of `c` that defines `name` defines it as `v`. -/
def Nearest (r : Registry) (c : Class) (name : String) (v : Value) : Prop :=
  ∃ near a far, c.ancestors = near ++ a :: far ∧ r.member? a name = some v ∧ ∀ b ∈ near, r.member? b name = none

theorem lookup?_eq_some_iff {v : Value} : r.lookup? c name = some v ↔ r.Nearest c name v :=
  List.findSome?_eq_some_iff

theorem lookup?_of_parent? {p : Class} (h : c.parent? = some p) (name : String) :
    r.lookup? c name = (r.member? c name).or (r.lookup? p name) := by
  unfold lookup?
  rw [Class.ancestors_of_parent? h, List.findSome?_cons]
  cases r.member? c name <;> rfl

/-! ## A class beneath another -/

theorem members_append_self {cls : Class} (members : Table Value) (hcls : cls ∉ r.classes) :
    (r.append cls members).members cls = members := by
  have hnone : (r.entries.find? fun e => decide (e.cls = cls)) = none := by
    refine List.find?_eq_none.2 fun e he hsame => hcls ?_
    exact of_decide_eq_true hsame ▸ List.mem_map_of_mem he
  unfold Registry.members append
  simp [List.find?_append, hnone]

/-- A new class answers with its own members, and beyond them as its parent does. -/
theorem WellFormed.lookup?_define (h : r.WellFormed) {parent : Option Class} {members : List (String × Value)}
    (hdefine : r.define name parent members = .ok (c, r')) (n : String) :
    r'.lookup? c n = ((Table.ofList members).get? n).or (r.lookup? (parent.getD r.root) n) := by
  obtain ⟨hname, howned, hc, rfl⟩ := of_define_eq_ok hdefine
  have hparent : c.parent? = some (parent.getD r.root) := by
    rw [hc]
    rfl
  have hnew : c ∉ r.classes := by
    intro hmem
    have hget := h.get?_of_mem hmem
    rw [hc] at hget
    exact Bool.eq_false_iff.1 hname (Option.isSome_iff_exists.2 ⟨_, hget⟩)
  rw [lookup?_of_parent? hparent, h.lookup?_append _ (h.owns_iff.1 howned), member?, members_append_self _ hnew]

/-- What a new class answers differs from what its parent answers under the names of its own members only. -/
theorem WellFormed.nearest_define (h : r.WellFormed) {parent : Option Class} {members : List (String × Value)}
    (hdefine : r.define name parent members = .ok (c, r')) (n : String) (v : Value) :
    (n ∈ members.map Prod.fst → (r'.Nearest c n v ↔ Table.LastEntry members n v)) ∧
      (n ∉ members.map Prod.fst → (r'.Nearest c n v ↔ r.Nearest (parent.getD r.root) n v)) := by
  rw [← lookup?_eq_some_iff, ← lookup?_eq_some_iff, h.lookup?_define hdefine]
  constructor
  · intro hn
    obtain ⟨u, hu⟩ := Table.exists_lastEntry hn
    rw [← Table.get?_ofList_iff_lastEntry, Table.get?_ofList_iff_lastEntry.2 hu, Option.some_or]
  · intro hn
    rw [Table.get?_ofList_of_not_mem hn, Option.none_or]

/-! ## Later definitions -/

theorem Extends.mem_classes (h : r'.Extends r) (hc : c ∈ r.classes) : c ∈ r'.classes :=
  (h.entries.map ClassEntry.cls).subset hc

theorem Extends.trans (h : r'.Extends r) (h' : r''.Extends r') : r''.Extends r where
  home := h'.home.trans h.home
  entries := h.entries.trans h'.entries
  get c hc := (h'.get c (h.mem_classes hc)).trans (h.get c hc)
  lookup c hc name := (h'.lookup c (h.mem_classes hc) name).trans (h.lookup c hc name)

theorem WellFormed.attempts_extends (h : r.WellFormed) (calls : List Definition) :
    (calls.foldl Registry.attempt r).Extends r := by
  induction calls generalizing r with
  | nil => exact .refl r
  | cons d calls ih => exact (h.attempt_extends d).trans (ih (h.attempt d))

end Registry

end ObjectHost
