-- SUMMARY: What the tree beneath a class lists, in which order, and how the levels of its lines lead back up.
import ObjectHost.Proofs.Class.Order

/-!
# The tree beneath a class

A registry lists its classes in the order they were defined, so that the
children of one class stand between those of others. The tree puts each class
beneath its parent again. A child is always defined after its parent, which is
why the way down ends, and why it is enough to look for the children of a class
behind it.
-/

namespace ObjectHost

/-! ## The way up, from below and from above -/

namespace Class

theorem ancestors_of_parent? {c p : Class} (h : c.parent? = some p) : c.ancestors = c :: p.ancestors := by
  cases c with
  | root home => cases h
  | sub index name parent => cases h; rfl

theorem ancestors_injective {c d : Class} (h : c.ancestors = d.ancestors) : c = d := by
  cases c <;> cases d <;> simp_all [ancestors]

theorem ancestryNames_eq_cons (c : Class) : c.ancestryNames = c.name :: c.ancestryNames.tail := by
  cases c <;> rfl

/-- On one way up, no two classes have the same parent. -/
theorem eq_of_parent?_eq {c d e p : Class} (hc : c ∈ e.ancestors) (hd : d ∈ e.ancestors) (hcp : c.parent? = some p)
    (hdp : d.parent? = some p) : c = d := by
  have hlength : c.ancestors.length = d.ancestors.length := by
    simp only [ancestors_of_parent? hcp, ancestors_of_parent? hdp, List.length_cons]
  refine ancestors_injective ?_
  rcases List.suffix_or_suffix_of_suffix (ancestors_suffix_of_mem hc) (ancestors_suffix_of_mem hd) with h | h
  · exact h.eq_of_length hlength
  · exact (h.eq_of_length hlength.symm).symm

/-- The way up to a class comes by one of its children, unless it begins there. -/
theorem mem_ancestors_iff {c d : Class} : c ∈ d.ancestors ↔ d = c ∨ ∃ e ∈ d.ancestors, e.parent? = some c := by
  constructor
  · intro h
    induction d with
    | root home => exact .inl (List.mem_singleton.1 h).symm
    | sub index name parent ih =>
      rcases List.mem_cons.1 h with rfl | h
      · exact .inl rfl
      · refine .inr ?_
        rcases ih h with rfl | ⟨e, he, hparent⟩
        · exact ⟨_, List.mem_cons_self, rfl⟩
        · exact ⟨e, List.mem_cons_of_mem _ he, hparent⟩
  · rintro (rfl | ⟨e, he, hparent⟩)
    · exact d.self_mem_ancestors
    · refine (ancestors_suffix_of_mem he).subset ?_
      rw [ancestors_of_parent? hparent]
      exact List.mem_cons_of_mem _ c.self_mem_ancestors

end Class

/-! ## The way down -/

namespace Registry

variable {r : Registry}

theorem mem_children_iff {c d : Class} : d ∈ r.children c ↔ d ∈ r.classes ∧ d.parent? = some c := by
  simp [children]

/-- A way down through children comes to an end, since each of them was defined after the one before. -/
theorem WellFormed.wellFounded_children (h : r.WellFormed) : WellFounded fun d c => d ∈ r.children c := by
  refine Subrelation.wf (fun {d c} hd => ?_) (measure fun c => r.size - c.index).wf
  obtain ⟨hmem, hparent⟩ := mem_children_iff.1 hd
  have hlt := (h.parent_lt hmem hparent).2
  have hsize := h.index_lt hmem
  change r.size - d.index < r.size - c.index
  omega

theorem WellFormed.pairwise_classes (h : r.WellFormed) : r.classes.Pairwise fun c d => c.index < d.index := by
  rw [List.pairwise_iff_getElem]
  intro i j hi hj hij
  rw [h.index i _ (List.getElem?_eq_getElem hi), h.index j _ (List.getElem?_eq_getElem hj)]
  exact hij

theorem WellFormed.pairwise_children (h : r.WellFormed) (c : Class) :
    (r.children c).Pairwise fun d e => d.index < e.index :=
  h.pairwise_classes.filter _

/-! ## Descendants -/

/-- Classes that are no children of `c` are passed over. -/
theorem descendants_append {c : Class} {front : List Class} (h : ∀ d ∈ front, d.parent? ≠ some c) (depth : Nat)
    (later : List Class) : descendants c depth (front ++ later) = descendants c depth later := by
  induction front with
  | nil => rfl
  | cons d front ih =>
    rw [List.cons_append, descendants, if_neg (h d List.mem_cons_self)]
    exact ih fun e he => h e (List.mem_cons_of_mem _ he)

theorem descendants_eq_map (c : Class) (depth : Nat) (later : List Class) :
    descendants c (depth + 1) later = (descendants c depth later).map fun line => (line.1 + 1, line.2) := by
  induction later generalizing c depth with
  | nil => rfl
  | cons d later ih =>
    simp only [descendants]
    split <;> simp [ih]

/-- The class at a given depth, with its descendants beneath it. -/
def subtreeAt (r : Registry) (depth : Nat) (c : Class) : List (Nat × Class) :=
  (depth, c) :: descendants c (depth + 1) r.classes

theorem subtreeAt_succ (r : Registry) (depth : Nat) (c : Class) :
    r.subtreeAt (depth + 1) c = (r.subtreeAt depth c).map fun line => (line.1 + 1, line.2) := by
  rw [subtreeAt, descendants_eq_map]
  rfl

/-- A class and those that stand before it are no children of it. -/
theorem WellFormed.parent?_ne_of_before (h : r.WellFormed) {front later : List Class} {d : Class}
    (hclasses : r.classes = front ++ d :: later) : ∀ e ∈ front ++ [d], e.parent? ≠ some d := by
  intro e he hparent
  have hmem : e ∈ r.classes := by
    rw [hclasses, List.append_cons]
    exact List.mem_append_left _ he
  have hlt := (h.parent_lt hmem hparent).2
  have horder := h.pairwise_classes
  rw [hclasses, List.pairwise_append] at horder
  rcases List.mem_append.1 he with he | he
  · exact Nat.lt_asymm hlt (horder.2.2 e he d List.mem_cons_self)
  · cases List.mem_singleton.1 he
    exact Nat.lt_irrefl _ hlt

/-- The children of `c` among the later classes, each followed by its own tree. -/
theorem WellFormed.descendants_eq_flatMap (h : r.WellFormed) (depth : Nat) (c : Class) {front later : List Class}
    (hclasses : r.classes = front ++ later) :
    descendants c depth later =
      (later.filter fun d => decide (d.parent? = some c)).flatMap (r.subtreeAt depth) := by
  induction later generalizing front with
  | nil => rfl
  | cons d later ih =>
    have hrest := ih (hclasses.trans (List.append_cons front d later))
    rw [descendants, List.filter_cons]
    split
    next hchild =>
      -- The children of `d` are all behind it, so nothing is missed by looking for them there.
      have hbelow : descendants d (depth + 1) r.classes = descendants d (depth + 1) later := by
        rw [hclasses, List.append_cons, descendants_append (h.parent?_ne_of_before hclasses)]
      rw [if_pos (decide_eq_true hchild), List.flatMap_cons, ← hrest, subtreeAt, hbelow]
    next hchild => rw [if_neg (by simpa using hchild), hrest]

/-- A class is followed by the trees of its children, one after another. -/
theorem WellFormed.subtreeAt_eq (h : r.WellFormed) (depth : Nat) (c : Class) :
    r.subtreeAt depth c = (depth, c) :: (r.children c).flatMap (r.subtreeAt (depth + 1)) :=
  congrArg ((depth, c) :: ·) (h.descendants_eq_flatMap (depth + 1) c (List.nil_append _).symm)

/-- The tree lists the subclasses among the classes of the registry, each at the level of its ancestry. -/
theorem WellFormed.mem_subtreeAt_iff (h : r.WellFormed) {c : Class} (hc : c ∈ r.classes) {depth level : Nat}
    {d : Class} :
    (level, d) ∈ r.subtreeAt depth c ↔
      d ∈ r.classes ∧ c ∈ d.ancestors ∧ level + c.ancestors.length = depth + d.ancestors.length := by
  induction c using h.wellFounded_children.induction generalizing depth with
  | _ c ih =>
    have hbelow : (level, d) ∈ (r.children c).flatMap (r.subtreeAt (depth + 1)) ↔
        ∃ e ∈ d.ancestors, e.parent? = some c ∧ d ∈ r.classes ∧
          level + c.ancestors.length = depth + d.ancestors.length := by
      rw [List.mem_flatMap]
      constructor
      · rintro ⟨e, he, hmem⟩
        obtain ⟨hclass, hparent⟩ := mem_children_iff.1 he
        obtain ⟨hd, hancestor, hlevel⟩ := (ih e he hclass).1 hmem
        refine ⟨e, hancestor, hparent, hd, ?_⟩
        rw [Class.ancestors_of_parent? hparent, List.length_cons] at hlevel
        omega
      · rintro ⟨e, hancestor, hparent, hd, hlevel⟩
        have hclass := h.ancestors_subset hd e hancestor
        have he := mem_children_iff.2 ⟨hclass, hparent⟩
        refine ⟨e, he, (ih e he hclass).2 ⟨hd, hancestor, ?_⟩⟩
        rw [Class.ancestors_of_parent? hparent, List.length_cons]
        omega
    rw [h.subtreeAt_eq, List.mem_cons, hbelow, Class.mem_ancestors_iff (d := d)]
    constructor
    · rintro (heq | ⟨e, hancestor, hparent, hd, hlevel⟩)
      · cases heq
        exact ⟨hc, .inl rfl, rfl⟩
      · exact ⟨hd, .inr ⟨e, hancestor, hparent⟩, hlevel⟩
    · rintro ⟨hd, rfl | ⟨e, hancestor, hparent⟩, hlevel⟩
      · refine .inl ?_
        rw [Nat.add_right_cancel hlevel]
      · exact .inr ⟨e, hancestor, hparent, hd, hlevel⟩

theorem WellFormed.mem_map_subtreeAt (h : r.WellFormed) {c : Class} (hc : c ∈ r.classes) {depth : Nat} {d : Class}
    (hd : d ∈ (r.subtreeAt depth c).map Prod.snd) : c ∈ d.ancestors := by
  obtain ⟨⟨level, d⟩, hline, rfl⟩ := List.mem_map.1 hd
  exact ((h.mem_subtreeAt_iff hc).1 hline).2.1

/-- No class is listed twice: it is beneath one child at most. -/
theorem WellFormed.nodup_subtreeAt (h : r.WellFormed) {c : Class} (hc : c ∈ r.classes) (depth : Nat) :
    ((r.subtreeAt depth c).map Prod.snd).Nodup := by
  induction c using h.wellFounded_children.induction generalizing depth with
  | _ c ih =>
    have hchild : ∀ {d e}, e ∈ r.children c → d ∈ (r.subtreeAt (depth + 1) e).map Prod.snd → e ∈ d.ancestors :=
      fun he hd => h.mem_map_subtreeAt (mem_children_iff.1 he).1 hd
    rw [h.subtreeAt_eq, List.map_cons, List.map_flatMap, List.nodup_cons]
    constructor
    · intro hmem
      obtain ⟨e, he, hd⟩ := List.mem_flatMap.1 hmem
      -- A class would be an ancestor of its parent.
      have hle := (Class.ancestors_suffix_of_mem (hchild he hd)).length_le
      rw [Class.ancestors_of_parent? (mem_children_iff.1 he).2, List.length_cons] at hle
      exact absurd hle (Nat.not_succ_le_self _)
    · rw [List.Nodup, List.pairwise_flatMap]
      refine ⟨fun e he => ih e he (mem_children_iff.1 he).1 (depth + 1), ?_⟩
      refine (h.pairwise_children c).imp_of_mem ?_
      rintro e e' he he' hlt d hd _ hd' rfl
      cases Class.eq_of_parent?_eq (hchild he hd) (hchild he' hd') (mem_children_iff.1 he).2 (mem_children_iff.1 he').2
      exact Nat.lt_irrefl _ hlt

/-! ## Back up -/

/-- What is met from a line on the given level by going to the nearest line before it on a smaller level, from there
    again to the nearest on a still smaller one, and so on. The lines before are listed latest first. -/
def climb {α : Type} (level : Nat) : List (Nat × α) → List α
  | [] => []
  | line :: before => if line.1 < level then line.2 :: climb line.1 before else climb level before

theorem climb_map {α β : Type} (f : α → β) (level : Nat) (before : List (Nat × α)) :
    climb level (before.map fun line => (line.1, f line.2)) = (climb level before).map f := by
  induction before generalizing level with
  | nil => rfl
  | cons line before ih =>
    simp only [List.map_cons, climb]
    split <;> simp [ih]

theorem climb_append {α : Type} {level : Nat} {high : List (Nat × α)} (h : ∀ line ∈ high, level ≤ line.1)
    (before : List (Nat × α)) : climb level (high ++ before) = climb level before := by
  induction high with
  | nil => rfl
  | cons line high ih =>
    rw [List.cons_append, climb, if_neg (Nat.not_lt.2 (h line List.mem_cons_self))]
    exact ih fun other hother => h other (List.mem_cons_of_mem _ hother)

theorem le_of_mem_descendants {c : Class} {depth : Nat} {later : List Class} {line : Nat × Class}
    (h : line ∈ descendants c depth later) : depth ≤ line.1 := by
  induction later generalizing c depth with
  | nil => cases h
  | cons d later ih =>
    rw [descendants] at h
    split at h
    next =>
      rcases List.mem_append.1 h with h | h
      · rcases List.mem_cons.1 h with rfl | h
        · exact Nat.le_refl _
        · exact Nat.le_of_succ_le (ih h)
      · exact ih h
    next => exact ih h

theorem le_of_mem_subtreeAt {c : Class} {depth : Nat} {line : Nat × Class} (h : line ∈ r.subtreeAt depth c) :
    depth ≤ line.1 := by
  rcases List.mem_cons.1 h with rfl | h
  · exact Nat.le_refl _
  · exact Nat.le_of_succ_le (le_of_mem_descendants h)

/-- A line of several trees is a line of one of them, behind all lines of those before. -/
theorem split_of_flatMap {α β : Type} {f : α → List β} {l : List α} {before after : List β} {b : β}
    (h : l.flatMap f = before ++ b :: after) :
    ∃ front a back inside rest, l = front ++ a :: back ∧ f a = inside ++ b :: rest ∧
      before = front.flatMap f ++ inside := by
  induction l generalizing before with
  | nil => cases before <;> cases h
  | cons a l ih =>
    rw [List.flatMap_cons, List.append_eq_append_iff] at h
    rcases h with ⟨more, hbefore, hrest⟩ | ⟨more, hhead, hrest⟩
    · obtain ⟨front, a', back, inside, rest, rfl, hinside, rfl⟩ := ih hrest
      exact ⟨a :: front, a', back, inside, rest, rfl, hinside, by simp [hbefore]⟩
    · cases more with
      | nil =>
        have hnone : l.flatMap f = [] ++ b :: after := hrest.symm
        obtain ⟨front, a', back, inside, rest, rfl, hinside, hnil⟩ := ih hnone
        exact ⟨a :: front, a', back, inside, rest, rfl, hinside, by simp [hhead, ← hnil]⟩
      | cons b' more =>
        cases hrest
        exact ⟨[], a, l, before, more, rfl, hhead, rfl⟩

/-- From a line of the tree of `c`, whatever lines come before that tree, the way up is the ancestry of its class as
    far as `c`, and goes on from there as it would from the line of `c`. -/
theorem WellFormed.climb_subtreeAt (h : r.WellFormed) {depth level : Nat} {c d : Class}
    {inside after : List (Nat × Class)} (hline : r.subtreeAt depth c = inside ++ (level, d) :: after)
    (before : List (Nat × Class)) :
    ∃ up, d.ancestors = up ++ c.ancestors ∧
      d :: climb level (inside.reverse ++ before) = up ++ c :: climb depth before := by
  induction c using h.wellFounded_children.induction generalizing depth level d inside after before with
  | _ c ih =>
    rw [h.subtreeAt_eq] at hline
    cases inside with
    | nil =>
      cases hline
      exact ⟨[], rfl, rfl⟩
    | cons first inside =>
      obtain ⟨rfl, hrest⟩ := List.cons.inj hline
      obtain ⟨front, e, back, within, rest, hchildren, hbelow, rfl⟩ :=
        split_of_flatMap (show _ = inside ++ _ from hrest)
      have he : e ∈ r.children c := hchildren ▸ by simp
      obtain ⟨up, hancestors, hclimb⟩ :=
        ih e he hbelow ((front.flatMap (r.subtreeAt (depth + 1))).reverse ++ (depth, c) :: before)
      -- Between `c` and its child there are only lines of other children, which are on the same level or deeper.
      have hhigh : ∀ line ∈ (front.flatMap (r.subtreeAt (depth + 1))).reverse, depth + 1 ≤ line.1 := by
        intro line hmem
        obtain ⟨other, -, hother⟩ := List.mem_flatMap.1 (List.mem_reverse.1 hmem)
        exact le_of_mem_subtreeAt hother
      rw [climb_append hhigh, climb, if_pos (Nat.lt_succ_self depth)] at hclimb
      refine ⟨up ++ [e], ?_, ?_⟩
      · rw [hancestors, Class.ancestors_of_parent? (mem_children_iff.1 he).2, List.append_cons]
      · simpa using hclimb

/-! ## The text -/

theorem renderTree_eq_join (r : Registry) (c : Class) :
    r.renderTree c = String.join ((r.subtree c).map fun line => treeLine line.1 line.2) := by
  rw [renderTree, String.join, List.foldl_map]

/-- A class without children is alone on its tree. -/
theorem WellFormed.renderTree_of_not_mem (h : r.WellFormed) {c : Class} (hc : c ∉ r.classes) :
    r.renderTree c = c.name ++ "\n" := by
  have hnone : r.children c = [] := by
    refine List.eq_nil_iff_forall_not_mem.2 fun d hd => hc ?_
    obtain ⟨hmem, hparent⟩ := mem_children_iff.1 hd
    exact (h.parent_lt hmem hparent).1
  have hsubtree : r.subtree c = [(0, c)] := by
    refine (h.subtreeAt_eq 0 c).trans ?_
    rw [hnone]
    rfl
  rw [renderTree_eq_join, hsubtree]
  simp [treeLine]

end Registry

/-- However the classes of any number of registries were defined, the tree beneath a class of a registry is printed as
    one line for each of its subclasses there and no other, none twice. A line is the name of its class, indented by
    two blanks for each level, and the level is by how much the ancestry of the class is longer. The class comes first
    and the trees of its children follow, one level deeper, in the order in which the children were defined; ways down
    from child to child end, so that this tells all of the tree. From any line, going to the nearest line before it on a
    smaller level, and from there on in the same way, spells the ancestry of its class as far as the class the tree is
    beneath. Of a class from another registry there is one line, its own. -/
theorem tree_lists_subclasses_in_pre_order (calls : List RegistryCall) (i : RealmId) (r : Registry)
    (hr : (Registries.after calls)[i]? = some r) :
    (∀ c ∈ r.classes,
      r.renderTree c = String.join ((r.subtree c).map fun line =>
        String.ofList (List.replicate (2 * line.1) ' ') ++ line.2.name ++ "\n") ∧
      ((r.subtree c).map Prod.snd).Nodup ∧
      (∀ level d, (level, d) ∈ r.subtree c ↔ d ∈ r.classes ∧ d.isSubclassOf c = true ∧
        level = d.ancestryNames.length - c.ancestryNames.length) ∧
      r.subtree c =
        (0, c) :: (r.children c).flatMap (fun d => (r.subtree d).map fun line => (line.1 + 1, line.2)) ∧
      ((∀ d, d ∈ r.children c ↔ d ∈ r.classes ∧ d.parent? = some c) ∧
        (r.children c).Pairwise fun d e => d.index < e.index) ∧
      ∀ before level d after, r.subtree c = before ++ (level, d) :: after →
        d.name :: Registry.climb level (before.reverse.map fun line => (line.1, line.2.name)) ++ c.ancestryNames.tail =
          d.ancestryNames) ∧
    (WellFounded fun d c => d ∈ r.children c) ∧
    ∀ (j : RealmId) (s : Registry) (c : Class), (Registries.after calls)[j]? = some s → c ∈ s.classes → j ≠ i →
      r.renderTree c = c.name ++ "\n" := by
  have hwf : (Registries.after calls).WellFormed := .after calls
  obtain ⟨h, -⟩ := hwf i r hr
  refine ⟨fun c hc => ⟨r.renderTree_eq_join c, h.nodup_subtreeAt hc 0, ?_, ?_, ⟨fun d => Registry.mem_children_iff,
    h.pairwise_children c⟩, ?_⟩, h.wellFounded_children, ?_⟩
  · intro level d
    refine (h.mem_subtreeAt_iff hc).trans (and_congr_right fun hd => ?_)
    rw [Class.isSubclassOf_iff]
    refine and_congr_right fun hancestor => ?_
    have hle := (Class.ancestors_suffix_of_mem hancestor).length_le
    simp only [Class.ancestryNames, List.length_map]
    omega
  · have hdeeper : r.subtreeAt (0 + 1) = fun d => (r.subtree d).map fun line => (line.1 + 1, line.2) :=
      funext (r.subtreeAt_succ 0)
    exact hdeeper ▸ h.subtreeAt_eq 0 c
  · intro before level d after hline
    obtain ⟨up, hancestors, hclimb⟩ := h.climb_subtreeAt (show r.subtreeAt 0 c = _ from hline) []
    rw [List.append_nil, Registry.climb] at hclimb
    calc d.name :: Registry.climb level (before.reverse.map fun line => (line.1, line.2.name)) ++ c.ancestryNames.tail
        = (d :: Registry.climb level before.reverse).map Class.name ++ c.ancestryNames.tail := by
          rw [Registry.climb_map, List.map_cons]
      _ = up.map Class.name ++ c.name :: c.ancestryNames.tail := by
          rw [hclimb, List.map_append, List.append_assoc]
          rfl
      _ = d.ancestryNames := by
          rw [← c.ancestryNames_eq_cons, Class.ancestryNames, Class.ancestryNames, hancestors, List.map_append]
  · intro j s c hs hc hji
    refine h.renderTree_of_not_mem fun hmem => hji ?_
    exact ((hwf.owns_iff hr hs hmem).1 ((hwf j s hs).1.owns_iff.2 hc))

/-- Definitions by which the children of `A` come before and after the child of `B`. -/
def interleaved : List Definition :=
  let a := Class.sub 1 "A" (.root 0)
  let b := Class.sub 2 "B" (.root 0)
  [⟨"A", none, []⟩, ⟨"B", none, []⟩, ⟨"X", some a, []⟩, ⟨"Y", some b, []⟩, ⟨"Z", some a, []⟩]

/-- `Z` is defined last and printed before `B`. From its line the way up passes `X` by, which is on the same level.
    Another registry has an `A` as well, and nothing of this tree is beneath it. -/
theorem tree_lists_subclasses_in_pre_order_interleaved :
    let calls := [.create, .create, .define 1 ⟨"A", none, []⟩] ++ interleaved.map (RegistryCall.define 0)
    let r := Registry.after 0 interleaved
    let root := Class.root 0
    let z := Class.sub 5 "Z" (.sub 1 "A" root)
    (Registries.after calls)[0]? = some r ∧ root ∈ r.classes ∧ z ∈ r.classes ∧
      r.renderTree root = "object\n  A\n    X\n    Z\n  B\n    Y\n" ∧ (2, z) ∈ r.subtree root ∧
      "Z" :: Registry.climb 2 [(2, "X"), (1, "A"), (0, "object")] = z.ancestryNames ∧
      r.renderTree (.sub 1 "A" (.root 1)) = "A\n" := by
  intro calls r root z
  have hr : (Registries.after calls)[0]? = some r := rfl
  have hroot : root ∈ r.classes := by decide
  have hother : .sub 1 "A" (.root 1) ∈ (Registry.after 1 [⟨"A", none, []⟩]).classes := by decide
  obtain ⟨htree, -, hforeign⟩ := tree_lists_subclasses_in_pre_order calls 0 r hr
  obtain ⟨htext, -, hlines, -, -, hclimb⟩ := htree root hroot
  refine ⟨hr, hroot, by decide, htext.trans (by decide), (hlines 2 z).2 (by decide), ?_, ?_⟩
  · let a := Class.sub 1 "A" root
    let b := Class.sub 2 "B" root
    exact hclimb [(0, root), (1, a), (2, .sub 3 "X" a)] 2 z [(1, b), (2, .sub 4 "Y" b)] (by decide)
  · exact hforeign 1 _ _ rfl hother (by decide)

end ObjectHost
