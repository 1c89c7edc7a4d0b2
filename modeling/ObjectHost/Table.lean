-- SUMMARY: Finite tables keyed by names, each name bound at most once.

/-!
# Tables

A table binds names to entries. A name is bound at most once, so the number of
entries is the number of names; binding a name again replaces its entry and
leaves the others where they are.
-/

namespace ObjectHost

structure Table (α : Type) where
  entries : List (String × α)
  distinct : (entries.map Prod.fst).Nodup

namespace Table

variable {α β : Type}

def empty : Table α := ⟨[], .nil⟩

instance : Inhabited (Table α) := ⟨empty⟩

instance : EmptyCollection (Table α) := ⟨empty⟩

@[ext] theorem ext {t u : Table α} (h : t.entries = u.entries) : t = u := by
  cases t; cases u; cases h; rfl

instance [DecidableEq α] : DecidableEq (Table α) := fun t u =>
  if h : t.entries = u.entries then .isTrue (ext h) else .isFalse fun e => h (e ▸ rfl)

/-! ## Reading -/

/-- The entry at the first occurrence of `name`. -/
def findEntry (name : String) : List (String × α) → Option α
  | [] => none
  | e :: es => if e.1 = name then some e.2 else findEntry name es

def get? (t : Table α) (name : String) : Option α := findEntry name t.entries

def contains (t : Table α) (name : String) : Bool := (t.get? name).isSome

def keys (t : Table α) : List String := t.entries.map Prod.fst

def size (t : Table α) : Nat := t.entries.length

def isEmpty (t : Table α) : Bool := t.entries.isEmpty

/-- The bound names in the order of their characters. -/
def sortedKeys (t : Table α) : List String := t.keys.mergeSort (fun a b => decide (a ≤ b))

/-! ## Writing -/

/-- Puts `a` at the first occurrence of `name`, at the end if there is none. -/
def bindEntry (name : String) (a : α) : List (String × α) → List (String × α)
  | [] => [(name, a)]
  | e :: es => if e.1 = name then (name, a) :: es else e :: bindEntry name a es

theorem keys_bindEntry (name : String) (a : α) (es : List (String × α)) :
    (bindEntry name a es).map Prod.fst =
      if name ∈ es.map Prod.fst then es.map Prod.fst else es.map Prod.fst ++ [name] := by
  induction es with
  | nil => simp [bindEntry]
  | cons e es ih =>
    by_cases h : e.1 = name
    · simp [bindEntry, h]
    · have h' : ¬ name = e.1 := fun c => h c.symm
      simp only [bindEntry, h, if_false, List.map_cons, ih, List.mem_cons, h', false_or]
      split <;> simp

theorem nodup_bindEntry (name : String) (a : α) {es : List (String × α)}
    (h : (es.map Prod.fst).Nodup) : ((bindEntry name a es).map Prod.fst).Nodup := by
  rw [keys_bindEntry]
  split
  · exact h
  next hn =>
    refine List.nodup_append.2 ⟨h, by simp, fun x hx y hy => ?_⟩
    cases List.mem_singleton.1 hy
    exact fun c => hn (c ▸ hx)

/-- Binds `name` to `a`, replacing what it was bound to. -/
def insert (t : Table α) (name : String) (a : α) : Table α :=
  ⟨bindEntry name a t.entries, nodup_bindEntry name a t.distinct⟩

def erase (t : Table α) (name : String) : Table α :=
  ⟨t.entries.filter (fun e => !decide (e.1 = name)), (List.filter_sublist.map _).nodup t.distinct⟩

/-- A later binding of a name replaces an earlier one. -/
def ofList (l : List (String × α)) : Table α := l.foldl (fun t e => t.insert e.1 e.2) empty

/-! ## The table as a partial map -/

@[simp] theorem get?_empty (name : String) : (empty : Table α).get? name = none := rfl

theorem findEntry_bindEntry (name : String) (a : α) (es : List (String × α)) (other : String) :
    findEntry other (bindEntry name a es) =
      if other = name then some a else findEntry other es := by
  induction es with
  | nil =>
    by_cases h : other = name
    · simp [bindEntry, findEntry, h]
    · simp [bindEntry, findEntry, h, Ne.symm h]
  | cons e es ih =>
    by_cases h : e.1 = name
    · by_cases ho : other = name
      · simp [bindEntry, findEntry, h, ho]
      · simp [bindEntry, findEntry, h, ho, Ne.symm ho]
    · by_cases he : e.1 = other
      · have ho : other ≠ name := he ▸ h
        simp [bindEntry, findEntry, he, ho]
      · simp [bindEntry, findEntry, h, he, ih]

@[simp] theorem get?_insert (t : Table α) (name : String) (a : α) (other : String) :
    (t.insert name a).get? other = if other = name then some a else t.get? other :=
  findEntry_bindEntry name a t.entries other

theorem findEntry_filter (name : String) (es : List (String × α)) (other : String) :
    findEntry other (es.filter (fun e => !decide (e.1 = name))) =
      if other = name then none else findEntry other es := by
  induction es with
  | nil => simp [findEntry]
  | cons e es ih =>
    by_cases h : e.1 = name
    · by_cases ho : other = name
      · simp [h, ho] at ih ⊢
        exact ih
      · simp [findEntry, h, ho, Ne.symm ho] at ih ⊢
        exact ih
    · by_cases he : e.1 = other
      · have ho : other ≠ name := he ▸ h
        simp [findEntry, he, ho]
      · simp [findEntry, h, he, ih]

@[simp] theorem get?_erase (t : Table α) (name other : String) :
    (t.erase name).get? other = if other = name then none else t.get? other :=
  findEntry_filter name t.entries other

theorem findEntry_isSome (name : String) (es : List (String × α)) :
    (findEntry name es).isSome = true ↔ name ∈ es.map Prod.fst := by
  induction es with
  | nil => simp [findEntry]
  | cons e es ih =>
    by_cases h : e.1 = name
    · simp [findEntry, h]
    · simp only [findEntry, h, if_false, ih, List.map_cons, List.mem_cons, Ne.symm h, false_or]

theorem mem_keys_iff (t : Table α) (name : String) : name ∈ t.keys ↔ t.contains name = true :=
  (findEntry_isSome name t.entries).symm

/-- Distinct names are bound as the list says, whatever the table it is entered into binds them to. -/
theorem get?_foldl_insert_eq_some_iff {l : List (String × α)} (h : (l.map Prod.fst).Nodup) (t : Table α)
    {name : String} {a : α} :
    (l.foldl (fun t e => t.insert e.1 e.2) t).get? name = some a ↔
      (name, a) ∈ l ∨ name ∉ l.map Prod.fst ∧ t.get? name = some a := by
  induction l generalizing t with
  | nil => simp
  | cons e l ih =>
    obtain ⟨key, b⟩ := e
    obtain ⟨hnew, hrest⟩ := List.nodup_cons.1 h
    rw [List.foldl_cons, ih hrest, get?_insert, List.map_cons, List.mem_cons, List.mem_cons]
    by_cases hkey : name = key
    · subst hkey
      have hout : (name, a) ∉ l := fun hmem => hnew (List.mem_map.2 ⟨_, hmem, rfl⟩)
      simp [hnew, hout, eq_comm]
    · simp [hkey]

theorem get?_ofList_eq_some_iff {l : List (String × α)} (h : (l.map Prod.fst).Nodup) {name : String} {a : α} :
    (ofList l).get? name = some a ↔ (name, a) ∈ l :=
  (get?_foldl_insert_eq_some_iff h empty).trans (or_iff_left fun hout => nomatch hout.2)

/-- Names that are all bound to one value. -/
theorem get?_foldl_insert (names : List String) (a : α) (t : Table α) (name : String) :
    (names.foldl (fun t name => t.insert name a) t).get? name = if name ∈ names then some a else t.get? name := by
  induction names generalizing t with
  | nil => simp
  | cons first names ih =>
    rw [List.foldl_cons, ih, get?_insert]
    by_cases hname : name = first <;> simp [hname]

theorem length_keys (t : Table α) : t.keys.length = t.size := by
  simp [keys, size]

/-- Two tables without a common name have at most as many entries as a table that binds all their names. -/
theorem size_add_size_le {γ : Type} {t : Table α} {u : Table β} {v : Table γ}
    (hdisjoint : ∀ name, t.contains name = true → u.contains name = false)
    (ht : ∀ name, t.contains name = true → v.contains name = true)
    (hu : ∀ name, u.contains name = true → v.contains name = true) : t.size + u.size ≤ v.size := by
  have hnodup : (t.keys ++ u.keys).Nodup := by
    refine List.nodup_append.2 ⟨t.distinct, u.distinct, fun x hx y hy hxy => ?_⟩
    subst hxy
    have hout := hdisjoint x ((t.mem_keys_iff x).1 hx)
    rw [(u.mem_keys_iff x).1 hy] at hout
    cases hout
  have hsubset : t.keys ++ u.keys ⊆ v.keys := by
    intro x hx
    refine (v.mem_keys_iff x).2 ?_
    rcases List.mem_append.1 hx with hx | hx
    · exact ht x ((t.mem_keys_iff x).1 hx)
    · exact hu x ((u.mem_keys_iff x).1 hx)
  have hlength := hnodup.length_le_of_subset hsubset
  rwa [List.length_append, length_keys, length_keys, length_keys] at hlength

end Table

end ObjectHost
