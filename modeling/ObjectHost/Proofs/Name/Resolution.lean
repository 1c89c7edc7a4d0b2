-- SUMMARY: What a requested name may mean to its caller, and that the first registered candidate is found.
import ObjectHost.Name.Resolution

/-!
# Candidates

What a request may mean is said here rule by rule, without the order in which
the candidates are tried. The tiers have an order of their own, and the search
comes to the registered candidate of the earliest tier.
-/

namespace ObjectHost.Name

/-- A name that a request from `caller` may mean. The caller's siblings are in the package that the caller is in, and
    its children beneath the caller itself. -/
inductive Candidate (requested caller : String) : Resolution → Prop where
  | absolute : Candidate requested caller ⟨requested, .absolute⟩
  | sibling (package leaf : String) (hleaf : separator ∉ leaf.toList) (hcaller : caller = child package leaf) :
      Candidate requested caller ⟨child package requested, .sibling⟩
  | child (hcaller : caller ≠ "") : Candidate requested caller ⟨child caller requested, .child⟩

def Tier.rank : Tier → Nat
  | .absolute => 0
  | .sibling => 1
  | .child => 2

theorem Tier.rank_injective {t u : Tier} (h : t.rank = u.rank) : t = u := by
  cases t <;> cases u <;> cases h <;> rfl

/-- The registered candidate of the earliest tier. -/
structure First (isRegistered : String → Bool) (requested caller : String) (r : Resolution) : Prop where
  candidate : Candidate requested caller r
  registered : isRegistered r.name = true
  earliest : ∀ c, Candidate requested caller c → c.tier.rank < r.tier.rank → isRegistered c.name = false

variable {requested caller : String}

theorem mem_candidates_iff {r : Resolution} : r ∈ candidates requested caller ↔ Candidate requested caller r := by
  simp only [candidates, sibling?, List.mem_cons, List.mem_append, Option.mem_toList]
  constructor
  · rintro (rfl | hsibling | hchild)
    · exact .absolute
    · obtain ⟨name, hname, rfl⟩ := Option.map_eq_some_iff.1 hsibling
      obtain ⟨package, hpackage, rfl⟩ := Option.map_eq_some_iff.1 hname
      obtain ⟨leaf, hleaf, hcaller⟩ := eq_child_of_parent? hpackage
      exact .sibling package leaf hleaf hcaller
    · split at hchild
      next => cases hchild
      next hcaller =>
        cases List.mem_singleton.1 hchild
        exact .child hcaller
  · rintro (_ | ⟨package, leaf, hleaf, rfl⟩ | hcaller)
    · exact .inl rfl
    · refine .inr (.inl ?_)
      rw [parent?_child package hleaf]
      rfl
    · refine .inr (.inr ?_)
      rw [if_neg hcaller]
      exact List.mem_singleton_self _

/-- The candidates are tried in the order of their tiers. -/
theorem pairwise_candidates (requested caller : String) :
    (candidates requested caller).Pairwise fun c d => c.tier.rank < d.tier.rank := by
  unfold candidates
  cases sibling? caller requested with
  | none => split <;> simp [Tier.rank]
  | some name => split <;> simp [Tier.rank]

theorem resolve?_eq_find? (isRegistered : String → Bool) :
    resolve? isRegistered requested caller =
      (candidates requested caller).find? fun c => isRegistered c.name :=
  List.idRun_findM? _ _

theorem resolve?_eq_none_iff {isRegistered : String → Bool} :
    resolve? isRegistered requested caller = none ↔
      ∀ c, Candidate requested caller c → isRegistered c.name = false := by
  rw [resolve?_eq_find?, List.find?_eq_none]
  simp only [mem_candidates_iff, Bool.not_eq_true]

theorem resolve?_eq_some_iff {isRegistered : String → Bool} {r : Resolution} :
    resolve? isRegistered requested caller = some r ↔ First isRegistered requested caller r := by
  have horder := pairwise_candidates requested caller
  rw [resolve?_eq_find?, List.find?_eq_some_iff_append]
  constructor
  · rintro ⟨hregistered, before, after, hsplit, hbefore⟩
    rw [hsplit, List.pairwise_append, List.pairwise_cons] at horder
    obtain ⟨-, ⟨hafter, -⟩, -⟩ := horder
    refine ⟨mem_candidates_iff.1 (hsplit ▸ by simp), hregistered, fun c hc hlt => ?_⟩
    have hmem := mem_candidates_iff.2 hc
    rw [hsplit, List.mem_append, List.mem_cons] at hmem
    -- What is tried at the same time or later has no earlier tier.
    rcases hmem with hmem | rfl | hmem
    · simpa using hbefore c hmem
    · exact absurd hlt (Nat.lt_irrefl _)
    · exact absurd (hafter c hmem) (Nat.lt_asymm hlt)
  · rintro ⟨hcandidate, hregistered, hearliest⟩
    obtain ⟨before, after, hsplit⟩ := List.append_of_mem (mem_candidates_iff.2 hcandidate)
    rw [hsplit, List.pairwise_append] at horder
    refine ⟨hregistered, before, after, hsplit, fun c hc => ?_⟩
    have hmem : c ∈ candidates requested caller := hsplit ▸ List.mem_append_left _ hc
    have hlt := horder.2.2 c hc r List.mem_cons_self
    rw [hearliest c (mem_candidates_iff.1 hmem) hlt]
    rfl

end ObjectHost.Name
