-- SUMMARY: Paths put beneath one another as texts, and the components that result.
import ObjectHost.Path.ModuleName

/-!
# Joined paths

A path is put beneath a base by writing it behind the base, with a slash in
between where there is none. What is read back are the components of the base
and then those of the path, as long as the path is made of ordinary names.
-/

namespace ObjectHost.Path

/-! ## Ordinary names -/

/-- A text that stands for one component, itself. -/
structure Ordinary (text : String) : Prop where
  nonempty : text ≠ ""
  noSlash : '/' ∉ text.toList
  notHere : text ≠ "."
  notUp : text ≠ ".."

instance : DecidablePred Ordinary := fun text =>
  decidable_of_iff (text ≠ "" ∧ '/' ∉ text.toList ∧ text ≠ "." ∧ text ≠ "..")
    ⟨fun ⟨h₁, h₂, h₃, h₄⟩ => ⟨h₁, h₂, h₃, h₄⟩, fun ⟨h₁, h₂, h₃, h₄⟩ => ⟨h₁, h₂, h₃, h₄⟩⟩

/-- The path has ordinary names for components and nothing else. -/
def Plain (path : Path) : Prop := ∀ c ∈ path, ∃ text, c = .name text

theorem Ordinary.component? {text : String} (h : Ordinary text) :
    Path.component? text.toList = some (.name text) := by
  have hne : ∀ other : String, text ≠ other → text.toList ≠ other.toList :=
    fun other hother heq => hother (String.toList_inj.1 heq)
  have hempty := hne "" h.nonempty
  have hhere := hne "." h.notHere
  have hup := hne ".." h.notUp
  unfold Path.component?
  split
  next heq => exact absurd heq hempty
  next heq => exact absurd heq hhere
  next heq => exact absurd heq hup
  next => rw [String.ofList_toList]

/-! ## Pieces -/

section Pieces

variable {piece : List Char} {pieces more : List (List Char)}

/-- The components that the first of several pieces stands for. -/
def opening : List Char → List Component
  | [] => [.root]
  | ['.'] => [.here]
  | piece => (component? piece).toList

theorem ofPieces_cons (h : piece ≠ [] ∨ pieces ≠ []) :
    ofPieces (piece :: pieces) = opening piece ++ pieces.filterMap component? := by
  fun_cases opening piece with
  | case1 =>
    cases pieces with
    | nil => simp at h
    | cons => rfl
  | case2 => rfl
  | case3 piece hroot hhere =>
    have hread : ofPieces (piece :: pieces) = (piece :: pieces).filterMap component? := by
      unfold ofPieces
      split <;> simp_all
    rw [hread]
    cases hpiece : component? piece <;> simp [hpiece]

/-- Only the first piece is read differently from the others, so what follows the others is read by itself. -/
theorem ofPieces_append (h : pieces ≠ []) (hmore : more ≠ []) :
    ofPieces (pieces ++ more) = ofPieces (pieces ++ [[]]) ++ more.filterMap component? := by
  obtain ⟨piece, pieces, rfl⟩ := List.exists_cons_of_ne_nil h
  simp only [List.cons_append]
  rw [ofPieces_cons (.inr (by simp [hmore])), ofPieces_cons (.inr (by simp))]
  simp [component?]

/-- A slash at the end leaves no trace, unless it is the whole path. -/
theorem ofPieces_append_nil (h : pieces ≠ []) (hempty : pieces ≠ [[]]) :
    ofPieces (pieces ++ [[]]) = ofPieces pieces := by
  obtain ⟨piece, pieces, rfl⟩ := List.exists_cons_of_ne_nil h
  have hshort : piece ≠ [] ∨ pieces ≠ [] :=
    Classical.not_and_iff_not_or_not.1 fun ⟨hpiece, hpieces⟩ => hempty (by rw [hpiece, hpieces])
  rw [List.cons_append, ofPieces_cons (.inr (by simp)), ofPieces_cons hshort]
  simp [component?]

/-- In a path of ordinary names the first piece is read like the others. -/
theorem Plain.ofPieces_eq (hplain : Plain (ofPieces pieces)) : ofPieces pieces = pieces.filterMap component? := by
  unfold ofPieces at hplain ⊢
  split at hplain
  next => rfl
  next =>
    obtain ⟨text, htext⟩ := hplain .root List.mem_cons_self
    cases htext
  next =>
    obtain ⟨text, htext⟩ := hplain .here List.mem_cons_self
    cases htext
  next => rfl

end Pieces

/-! ## Joining -/

/-- `rest` beneath `base`; an absolute `rest` stands for itself. -/
def join (base rest : String) : String :=
  if rest.toList.head? = some '/' then rest
  else if base = "" ∨ base.toList.getLast? = some '/' then base ++ rest
  else base ++ "/" ++ rest

/-- Each of the names beneath the ones before it, and all of them beneath `base`. -/
def joinAll (base : String) (names : List String) : String := names.foldl join base

theorem Ordinary.parse {text : String} (h : Ordinary text) : Path.parse text = [.name text] := by
  have hempty : text.toList ≠ [] := fun heq => h.nonempty (String.toList_inj.1 heq)
  have hhere : text.toList ≠ ['.'] := fun heq => h.notHere (String.toList_inj.1 heq)
  have hopening : opening text.toList = [.name text] := by
    unfold opening
    split
    next heq => exact absurd heq hempty
    next heq => exact absurd heq hhere
    next => rw [h.component?]; rfl
  rw [Path.parse, Text.splitAll_of_not_mem h.noSlash, ofPieces_cons (.inl hempty), hopening]
  rfl

theorem Ordinary.plain {text : String} (h : Ordinary text) : Plain (Path.parse text) := by
  intro c hc
  rw [h.parse, List.mem_singleton] at hc
  exact ⟨text, hc⟩

theorem root_mem_parse {path : String} (hslash : path.toList.head? = some '/') : Component.root ∈ parse path := by
  obtain ⟨back, hback⟩ := List.head?_eq_some_iff.1 hslash
  rw [parse, hback, ← List.nil_append ('/' :: back), Text.splitAll_append_cons]
  change _ ∈ ofPieces ([] :: Text.splitAll '/' back)
  rw [ofPieces_cons (.inr (Text.splitAll_ne_nil back))]
  exact List.mem_cons_self

theorem Plain.head?_ne {rest : String} (hplain : Plain (parse rest)) : rest.toList.head? ≠ some '/' := by
  intro hslash
  obtain ⟨text, htext⟩ := hplain .root (root_mem_parse hslash)
  cases htext

/-- A path of ordinary names adds its components to those of the base. -/
theorem parse_join (base : String) {rest : String} (hplain : Plain (parse rest)) :
    parse (join base rest) = parse base ++ parse rest := by
  have hrest : parse rest = (Text.splitAll '/' rest.toList).filterMap component? := Plain.ofPieces_eq hplain
  have hpieces : ∀ front : List Char, ofPieces (Text.splitAll '/' (front ++ '/' :: rest.toList)) =
      ofPieces (Text.splitAll '/' front ++ [[]]) ++ parse rest := fun front => by
    rw [Text.splitAll_append_cons, ofPieces_append (Text.splitAll_ne_nil front) (Text.splitAll_ne_nil _), hrest]
  rw [join, if_neg hplain.head?_ne]
  by_cases hempty : base = ""
  · subst hempty
    rw [if_pos (.inl rfl), String.empty_append]
    rfl
  · by_cases hslash : base.toList.getLast? = some '/'
    · obtain ⟨front, hfront⟩ := List.getLast?_eq_some_iff.1 hslash
      rw [if_pos (.inr hslash), parse, parse, String.toList_append, hfront, List.append_assoc, List.singleton_append,
        hpieces, Text.splitAll_append_cons]
      rfl
    · have hpath : Text.splitAll '/' base.toList ≠ [[]] :=
        Text.splitAll_ne_singleton_nil fun hnil => hempty (String.toList_inj.1 hnil)
      rw [if_neg (not_or.2 ⟨hempty, hslash⟩), parse, String.toList_append, String.toList_append, List.append_assoc]
      change ofPieces (Text.splitAll '/' (base.toList ++ '/' :: rest.toList)) = _
      rw [hpieces, ofPieces_append_nil (Text.splitAll_ne_nil _) hpath]
      rfl

theorem parse_joinAll (base : String) {names : List String} (h : ∀ name ∈ names, Ordinary name) :
    parse (joinAll base names) = parse base ++ names.map .name := by
  induction names generalizing base with
  | nil => exact (List.append_nil _).symm
  | cons name names ih =>
    have hname := h name List.mem_cons_self
    change parse (joinAll (join base name) names) = _
    rw [ih (join base name) fun other hother => h other (List.mem_cons_of_mem _ hother), parse_join base hname.plain,
      hname.parse, List.append_assoc]
    rfl

end ObjectHost.Path
