-- SUMMARY: Cutting texts at a separator and joining them again.

/-!
# Splitting and joining

`splitAll` cuts at every separator and `joinWith` undoes it; `splitLast` cuts at
the last separator only. The separator belongs to none of the parts.
-/

namespace ObjectHost.Text

/-! ## The last separator -/

def splitLast (sep : Char) : List Char → Option (List Char × List Char)
  | [] => none
  | c :: cs =>
    match splitLast sep cs with
    | some (front, back) => some (c :: front, back)
    | none => if c = sep then some ([], cs) else none

variable {sep : Char}

theorem splitLast_eq_none_iff {cs : List Char} : splitLast sep cs = none ↔ sep ∉ cs := by
  induction cs with
  | nil => simp [splitLast]
  | cons c cs ih =>
    simp only [splitLast, List.mem_cons, not_or, ← ih]
    cases splitLast sep cs with
    | none => by_cases h : c = sep <;> simp [h, Ne.symm]
    | some parts => simp

theorem splitLast_append {front back : List Char} (h : sep ∉ back) :
    splitLast sep (front ++ sep :: back) = some (front, back) := by
  induction front with
  | nil => simp [splitLast, splitLast_eq_none_iff.2 h]
  | cons c front ih => simp [splitLast, ih]

theorem eq_append_of_splitLast {cs front back : List Char}
    (h : splitLast sep cs = some (front, back)) : cs = front ++ sep :: back ∧ sep ∉ back := by
  induction cs generalizing front with
  | nil => simp [splitLast] at h
  | cons c cs ih =>
    cases hs : splitLast sep cs with
    | none =>
      by_cases hc : c = sep
      · simp only [splitLast, hs, hc, if_true, Option.some.injEq, Prod.mk.injEq] at h
        obtain ⟨rfl, rfl⟩ := h
        exact ⟨by simp [hc], splitLast_eq_none_iff.1 hs⟩
      · simp [splitLast, hs, hc] at h
    | some parts =>
      obtain ⟨front', back'⟩ := parts
      simp only [splitLast, hs, Option.some.injEq, Prod.mk.injEq] at h
      obtain ⟨rfl, rfl⟩ := h
      obtain ⟨hcs, hb⟩ := ih hs
      exact ⟨by simp [hcs], hb⟩

theorem splitLast_eq_some_iff {cs front back : List Char} :
    splitLast sep cs = some (front, back) ↔ cs = front ++ sep :: back ∧ sep ∉ back :=
  ⟨eq_append_of_splitLast, fun ⟨h, hb⟩ => h ▸ splitLast_append hb⟩

/-! ## Every separator -/

/-- The parts between the separators, empty ones included. -/
def splitAll (sep : Char) : List Char → List (List Char)
  | [] => [[]]
  | c :: cs =>
    if c = sep then [] :: splitAll sep cs
    else
      match splitAll sep cs with
      | [] => [[c]]
      | part :: parts => (c :: part) :: parts

theorem splitAll_ne_nil (cs : List Char) : splitAll sep cs ≠ [] := by
  induction cs with
  | nil => simp [splitAll]
  | cons c cs ih =>
    by_cases h : c = sep
    · simp [splitAll, h]
    · cases hs : splitAll sep cs with
      | nil => exact absurd hs ih
      | cons part parts => simp [splitAll, h, hs]

/-- Only the empty text has nothing but an empty part. -/
theorem splitAll_ne_singleton_nil {cs : List Char} (h : cs ≠ []) : splitAll sep cs ≠ [[]] := by
  cases cs with
  | nil => exact absurd rfl h
  | cons c cs =>
    cases hs : splitAll sep cs with
    | nil => exact absurd hs (splitAll_ne_nil cs)
    | cons part parts => by_cases hc : c = sep <;> simp [splitAll, hc, hs]

theorem splitAll_of_not_mem {cs : List Char} (h : sep ∉ cs) : splitAll sep cs = [cs] := by
  induction cs with
  | nil => rfl
  | cons c cs ih =>
    simp only [List.mem_cons, not_or] at h
    simp [splitAll, Ne.symm h.1, ih h.2]

theorem splitAll_append {front back : List Char} (h : sep ∉ front) :
    splitAll sep (front ++ sep :: back) = front :: splitAll sep back := by
  induction front with
  | nil => simp [splitAll]
  | cons c front ih =>
    simp only [List.mem_cons, not_or] at h
    simp [splitAll, Ne.symm h.1, ih h.2]

/-- A separator between two texts only parts what is on its two sides. -/
theorem splitAll_append_cons (front back : List Char) :
    splitAll sep (front ++ sep :: back) = splitAll sep front ++ splitAll sep back := by
  induction front with
  | nil => simp [splitAll]
  | cons c front ih =>
    by_cases h : c = sep
    · simp [splitAll, h, ih]
    · cases hs : splitAll sep front with
      | nil => exact absurd hs (splitAll_ne_nil front)
      | cons part parts => simp [splitAll, h, ih, hs]

theorem not_mem_of_mem_splitAll {cs part : List Char} (h : part ∈ splitAll sep cs) : sep ∉ part := by
  induction cs generalizing part with
  | nil => simp_all [splitAll]
  | cons c cs ih =>
    cases hs : splitAll sep cs with
    | nil => exact absurd hs (splitAll_ne_nil cs)
    | cons first parts =>
      rw [hs] at ih
      by_cases hc : c = sep
      · simp only [splitAll, hc, if_true, hs, List.mem_cons] at h
        rcases h with rfl | h
        · simp
        · exact ih (List.mem_cons.2 h)
      · simp only [splitAll, hc, if_false, hs, List.mem_cons] at h
        rcases h with rfl | h
        · simp [Ne.symm hc, ih List.mem_cons_self]
        · exact ih (List.mem_cons_of_mem _ h)

/-- A text opens with an empty part, and has others, only if it opens with the separator. -/
theorem head?_of_splitAll {cs : List Char} {parts : List (List Char)} (h : splitAll sep cs = [] :: parts)
    (hparts : parts ≠ []) : cs.head? = some sep := by
  cases cs with
  | nil =>
    simp only [splitAll, List.cons.injEq, true_and] at h
    exact absurd h.symm hparts
  | cons c cs =>
    by_cases hc : c = sep
    · rw [List.head?_cons, hc]
    · cases hs : splitAll sep cs <;> simp [splitAll, hc, hs] at h

/-! ## Joining -/

def joinWith (sep : String) : List String → String
  | [] => ""
  | [part] => part
  | part :: parts => part ++ sep ++ joinWith sep parts

theorem joinWith_append (sep : String) {front back : List String} (hfront : front ≠ []) (hback : back ≠ []) :
    joinWith sep (front ++ back) = joinWith sep front ++ sep ++ joinWith sep back := by
  induction front with
  | nil => exact absurd rfl hfront
  | cons part front ih =>
    cases front with
    | nil =>
      cases back with
      | nil => exact absurd rfl hback
      | cons next back => rfl
    | cons next front =>
      have hrest := ih (by simp)
      simp only [List.cons_append] at hrest ⊢
      simp only [joinWith, hrest, String.append_assoc]

/-- What does not come from the separators comes from one of the parts. -/
theorem mem_joinWith_iff {c : Char} {sep : String} (hc : c ∉ sep.toList) (parts : List String) :
    c ∈ (joinWith sep parts).toList ↔ ∃ part ∈ parts, c ∈ part.toList := by
  induction parts with
  | nil => simp [joinWith]
  | cons part parts ih =>
    cases parts with
    | nil => simp [joinWith]
    | cons next rest =>
      rw [joinWith, String.toList_append, String.toList_append, List.mem_append, List.mem_append, ih]
      · simp [hc]
      · simp

theorem splitAll_joinWith (sep : Char) {parts : List String} (hne : parts ≠ [])
    (h : ∀ part ∈ parts, sep ∉ part.toList) :
    splitAll sep (joinWith (String.singleton sep) parts).toList = parts.map String.toList := by
  induction parts with
  | nil => exact absurd rfl hne
  | cons part parts ih =>
    cases parts with
    | nil => simp [joinWith, splitAll_of_not_mem (h part (by simp))]
    | cons next rest =>
      have hpart := h part (by simp)
      have hrest := ih (by simp) fun p hp => h p (List.mem_cons_of_mem _ hp)
      simp only [joinWith] at hrest ⊢
      simp only [String.toList_append, String.toList_singleton, List.append_assoc,
        List.singleton_append, splitAll_append hpart, List.map_cons]
      rw [hrest]
      simp

end ObjectHost.Text
