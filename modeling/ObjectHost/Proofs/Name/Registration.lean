-- SUMMARY: Which names a resolution asks about, in which order, and what becomes of it when more names are registered.
import ObjectHost.Host.Basic
import ObjectHost.Proofs.Name.Resolution

/-!
# Resolution and registration

A resolution asks about one candidate after another, each longer than the one
before, and stops at the first that is registered. Names that are registered
later can bring it to stop earlier, and only candidates can.
-/

namespace ObjectHost

namespace Name

variable {requested caller : String}

/-! ## Candidates by length -/

theorem length_child (parent requested : String) :
    (child parent requested).length = parent.length + 1 + requested.length := by
  simp only [child, String.length_append]
  rfl

theorem utf8ByteSize_child (parent requested : String) :
    (child parent requested).utf8ByteSize = parent.utf8ByteSize + 1 + requested.utf8ByteSize := by
  simp only [child, String.utf8ByteSize_append]
  rfl

/-- A string is shorter than another in characters and in bytes. -/
def Shorter (s t : String) : Prop := s.length < t.length ∧ s.utf8ByteSize < t.utf8ByteSize

theorem shorter_child (parent requested : String) : Shorter requested (child parent requested) := by
  rw [Shorter, length_child, utf8ByteSize_child]
  omega

/-- What is beneath a name is longer than what is beside it. -/
theorem shorter_child_child (package leaf requested : String) :
    Shorter (child package requested) (child (child package leaf) requested) := by
  simp only [Shorter, length_child, utf8ByteSize_child]
  omega

namespace Candidate

variable {c d : Resolution}

/-- Candidates of later tiers are longer. -/
theorem shorter (hc : Candidate requested caller c) (hd : Candidate requested caller d)
    (h : c.tier.rank < d.tier.rank) : Shorter c.name d.name := by
  cases hc with
  | absolute =>
    cases hd with
    | absolute => exact absurd h (Nat.lt_irrefl _)
    | sibling package leaf hleaf hcaller => exact shorter_child package requested
    | child hcaller => exact shorter_child caller requested
  | sibling package leaf hleaf hcaller =>
    cases hd with
    | absolute => exact absurd h (Nat.not_lt_zero _)
    | sibling => exact absurd h (Nat.lt_irrefl _)
    | child => exact hcaller ▸ shorter_child_child package leaf requested
  | child hcaller =>
    cases hd with
    | absolute => exact absurd h (Nat.not_lt_zero _)
    | sibling => exact absurd h (Nat.not_lt.2 (Nat.le_succ 1))
    | child => exact absurd h (Nat.lt_irrefl _)

theorem eq_of_tier_eq (hc : Candidate requested caller c) (hd : Candidate requested caller d)
    (h : c.tier = d.tier) : c = d := by
  cases hc with
  | absolute =>
    cases hd with
    | absolute => rfl
    | _ => cases h
  | sibling package leaf hleaf hcaller =>
    cases hd with
    | sibling package' leaf' hleaf' hcaller' =>
      -- The caller is in one package only, the one before its last dot.
      have hpackage := parent?_child package hleaf
      rw [← hcaller, hcaller', parent?_child package' hleaf'] at hpackage
      rw [Option.some.inj hpackage]
    | _ => cases h
  | child hcaller =>
    cases hd with
    | child => rfl
    | _ => cases h

/-- A candidate is told by its name. -/
theorem eq_of_name_eq (hc : Candidate requested caller c) (hd : Candidate requested caller d)
    (h : c.name = d.name) : c = d := by
  rcases Nat.lt_trichotomy c.tier.rank d.tier.rank with hlt | heq | hgt
  · exact absurd (hc.shorter hd hlt).1 (by rw [h]; exact Nat.lt_irrefl _)
  · exact hc.eq_of_tier_eq hd (Tier.rank_injective heq)
  · exact absurd (hd.shorter hc hgt).1 (by rw [h]; exact Nat.lt_irrefl _)

end Candidate

theorem pairwise_shorter_candidates (requested caller : String) :
    (candidates requested caller).Pairwise fun c d => c.tier.rank < d.tier.rank ∧ Shorter c.name d.name := by
  refine (pairwise_candidates requested caller).imp_of_mem fun {c d} hc hd hlt => ⟨hlt, ?_⟩
  exact (mem_candidates_iff.1 hc).shorter (mem_candidates_iff.1 hd) hlt

theorem nodup_candidates (requested caller : String) : ((candidates requested caller).map Resolution.name).Nodup := by
  rw [List.Nodup, List.pairwise_map]
  refine (pairwise_shorter_candidates requested caller).imp fun {c d} h heq => ?_
  rw [heq] at h
  exact Nat.lt_irrefl _ h.2.1

theorem length_candidates_le (requested caller : String) : (candidates requested caller).length ≤ 3 := by
  unfold candidates
  cases sibling? caller requested <;> split <;> simp

/-! ## Names asked about -/

/-- Asks about a name and notes it down. -/
def asking (isRegistered : String → Bool) (name : String) : StateM (List String) Bool := do
  modify (· ++ [name])
  return isRegistered name

section

variable {isRegistered : String → Bool}

theorem probes_eq :
    probes isRegistered requested caller =
      (((candidates requested caller).findM? fun c => asking isRegistered c.name).run []).2 :=
  rfl

theorem findM?_cons {m : Type → Type} [Monad m] {α : Type} (p : α → m Bool) (a : α) (as : List α) :
    (a :: as).findM? p = p a >>= fun found => if found = true then pure (some a) else as.findM? p :=
  congrArg (p a >>= ·) (funext fun found => by cases found <;> rfl)

theorem run_findM?_cons (c : Resolution) (rest : List Resolution) (asked : List String) :
    ((c :: rest).findM? fun c => asking isRegistered c.name).run asked =
      if isRegistered c.name = true then (some c, asked ++ [c.name])
      else (rest.findM? fun c => asking isRegistered c.name).run (asked ++ [c.name]) := by
  rw [findM?_cons]
  change StateT.run (if isRegistered c.name = true then _ else _) (asked ++ [c.name]) = _
  split <;> rfl

/-- Candidates that are not registered are asked about, and then the search goes on with the others. -/
theorem run_findM?_append {before : List Resolution} (h : ∀ c ∈ before, isRegistered c.name = false)
    (rest : List Resolution) (asked : List String) :
    ((before ++ rest).findM? fun c => asking isRegistered c.name).run asked =
      (rest.findM? fun c => asking isRegistered c.name).run (asked ++ before.map Resolution.name) := by
  induction before generalizing asked with
  | nil => rw [List.nil_append, List.map_nil, List.append_nil]
  | cons c before ih =>
    rw [List.cons_append, run_findM?_cons, if_neg (by rw [h c List.mem_cons_self]; exact Bool.false_ne_true),
      ih fun d hd => h d (List.mem_cons_of_mem _ hd), List.append_assoc]
    rfl

theorem probes_of_resolve?_eq_none (h : resolve? isRegistered requested caller = none) :
    probes isRegistered requested caller = (candidates requested caller).map Resolution.name := by
  have hnone := resolve?_eq_none_iff.1 h
  have hrun := run_findM?_append (fun c hc => hnone c (mem_candidates_iff.1 hc)) [] []
  rw [List.append_nil] at hrun
  rw [probes_eq, hrun]
  rfl

theorem probes_of_resolve?_eq_some {r : Resolution} (h : resolve? isRegistered requested caller = some r) :
    ∃ before after, candidates requested caller = before ++ r :: after ∧
      (∀ c ∈ before, isRegistered c.name = false) ∧ isRegistered r.name = true ∧
      probes isRegistered requested caller = (before ++ [r]).map Resolution.name := by
  rw [resolve?_eq_find?, List.find?_eq_some_iff_append] at h
  obtain ⟨hregistered, before, after, hsplit, hbefore⟩ := h
  have hnone : ∀ c ∈ before, isRegistered c.name = false := by simpa using hbefore
  refine ⟨before, after, hsplit, hnone, hregistered, ?_⟩
  rw [probes_eq, hsplit, run_findM?_append hnone, run_findM?_cons, if_pos hregistered, List.map_append]
  rfl

end

/-! ## More names -/

section

variable {P Q : String → Bool}

/-- Where more names are registered, the same candidate is found or one of an earlier tier. -/
theorem resolve?_mono (h : ∀ name, P name = true → Q name = true) {r : Resolution}
    (hP : resolve? P requested caller = some r) :
    ∃ r', resolve? Q requested caller = some r' ∧ (r' = r ∨ r'.tier.rank < r.tier.rank) := by
  have hfirst := resolve?_eq_some_iff.1 hP
  have hQ := h _ hfirst.registered
  cases hr : resolve? Q requested caller with
  | none =>
    rw [resolve?_eq_none_iff.1 hr r hfirst.candidate] at hQ
    cases hQ
  | some r' =>
    have hfirst' := resolve?_eq_some_iff.1 hr
    refine ⟨r', rfl, ?_⟩
    rcases Nat.lt_trichotomy r'.tier.rank r.tier.rank with hlt | heq | hgt
    · exact .inr hlt
    · exact .inl (hfirst'.candidate.eq_of_tier_eq hfirst.candidate (Tier.rank_injective heq))
    · rw [hfirst'.earliest r hfirst.candidate hgt] at hQ
      cases hQ

/-- It is another candidate, or a candidate where there was none, exactly if one is registered that comes earlier. -/
theorem resolve?_ne_iff (h : ∀ name, P name = true → Q name = true) :
    resolve? P requested caller ≠ resolve? Q requested caller ↔
      ∃ c, Candidate requested caller c ∧ Q c.name = true ∧
        (resolve? P requested caller = none ∨
          ∃ r, resolve? P requested caller = some r ∧ c.tier.rank < r.tier.rank) := by
  constructor
  · intro hne
    cases hP : resolve? P requested caller with
    | none =>
      cases hQ : resolve? Q requested caller with
      | none => exact absurd (hP.trans hQ.symm) hne
      | some r' =>
        have hfirst := resolve?_eq_some_iff.1 hQ
        exact ⟨r', hfirst.candidate, hfirst.registered, .inl rfl⟩
    | some r =>
      obtain ⟨r', hQ, hsame | hlt⟩ := resolve?_mono h hP
      · exact absurd (hP.trans (hsame ▸ hQ.symm)) hne
      · have hfirst := resolve?_eq_some_iff.1 hQ
        exact ⟨r', hfirst.candidate, hfirst.registered, .inr ⟨r, rfl, hlt⟩⟩
  · rintro ⟨c, hc, hQ, hnone | ⟨r, hr, hlt⟩⟩ heq
    · rw [resolve?_eq_none_iff.1 (heq.symm.trans hnone) c hc] at hQ
      cases hQ
    · rw [(resolve?_eq_some_iff.1 (heq.symm.trans hr)).earliest c hc hlt] at hQ
      cases hQ

theorem First.congr (h : ∀ c, Candidate requested caller c → P c.name = Q c.name) {r : Resolution}
    (hr : First P requested caller r) : First Q requested caller r where
  candidate := hr.candidate
  registered := (h r hr.candidate).symm.trans hr.registered
  earliest c hc hlt := (h c hc).symm.trans (hr.earliest c hc hlt)

/-- Nothing but the candidates matters. -/
theorem resolve?_congr (h : ∀ c, Candidate requested caller c → P c.name = Q c.name) :
    resolve? P requested caller = resolve? Q requested caller := by
  refine Option.ext fun r => ?_
  rw [resolve?_eq_some_iff, resolve?_eq_some_iff]
  exact ⟨First.congr h, First.congr fun c hc => (h c hc).symm⟩

end

end Name

/-- Registering a name leaves the others as they are. -/
theorem Host.contains_register (h : Host) (id : RealmId) (name : String) (factory : Code) (other : RealmId)
    {n : String} (hn : n ≠ name) :
    ((h.register id name factory).2.realm other).factories.contains n = (h.realm other).factories.contains n := by
  unfold register
  rw [realm_modifyRealm]
  split
  next hid =>
    rw [hid.1, Table.contains, Table.contains, Table.get?_insert, if_neg hn]
  next => rfl

/-- For all strings, what a request may mean to its caller comes in tiers, three at most, each name longer than the one
    before, in characters and in bytes. So no two candidates have the same name, and the name that is found tells the
    tier. The names asked about are those of the candidates in order, up to the first that is registered and with it,
    or all of them if there is none. Where more names are registered, a request that resolves still does, to the same
    candidate or to one of an earlier tier, and it comes to something else exactly if a candidate is registered that
    comes before the one found, or any where none was. To register what is no candidate changes nothing about it. -/
theorem resolution_moves_to_earlier_tiers (requested caller : String) (P Q : String → Bool)
    (hPQ : ∀ name, P name = true → Q name = true) :
    let candidates := Name.candidates requested caller
    let resolve? isRegistered := Name.resolve? isRegistered requested caller
    let probes isRegistered := Name.probes isRegistered requested caller
    (∀ c, c ∈ candidates ↔ Name.Candidate requested caller c) ∧ candidates.length ≤ 3 ∧
    candidates.Pairwise (fun c d => c.tier.rank < d.tier.rank ∧ c.name.length < d.name.length ∧
      c.name.utf8ByteSize < d.name.utf8ByteSize) ∧
    (candidates.map Name.Resolution.name).Nodup ∧
    (∀ R S r r', resolve? R = some r → resolve? S = some r' → r.name = r'.name → r.tier = r'.tier) ∧
    (∀ r, resolve? P = some r → ∃ before after, candidates = before ++ r :: after ∧
      (∀ c ∈ before, P c.name = false) ∧ P r.name = true ∧
      probes P = (before ++ [r]).map Name.Resolution.name) ∧
    (resolve? P = none → (∀ c ∈ candidates, P c.name = false) ∧ probes P = candidates.map Name.Resolution.name) ∧
    (∀ r, resolve? P = some r → ∃ r', resolve? Q = some r' ∧ (r' = r ∨ r'.tier.rank < r.tier.rank)) ∧
    (resolve? P ≠ resolve? Q ↔ ∃ c ∈ candidates, Q c.name = true ∧
      (resolve? P = none ∨ ∃ r, resolve? P = some r ∧ c.tier.rank < r.tier.rank)) ∧
    ∀ (h : Host) (id other : RealmId) (name : String) (factory : Code), (∀ c ∈ candidates, c.name ≠ name) →
      ((h.register id name factory).2.realm other).resolve? requested caller =
        (h.realm other).resolve? requested caller := by
  intro candidates resolve? probes
  have hmem : ∀ c, c ∈ candidates ↔ Name.Candidate requested caller c := fun c => Name.mem_candidates_iff
  refine ⟨hmem, Name.length_candidates_le requested caller, Name.pairwise_shorter_candidates requested caller,
    Name.nodup_candidates requested caller, ?_, fun r => Name.probes_of_resolve?_eq_some, ?_,
    fun r => Name.resolve?_mono hPQ, ?_, ?_⟩
  · intro R S r r' hr hr' hname
    have hc := (Name.resolve?_eq_some_iff.1 hr).candidate
    have hc' := (Name.resolve?_eq_some_iff.1 hr').candidate
    rw [hc.eq_of_name_eq hc' hname]
  · intro hnone
    exact ⟨fun c hc => Name.resolve?_eq_none_iff.1 hnone c ((hmem c).1 hc), Name.probes_of_resolve?_eq_none hnone⟩
  · simp only [hmem]
    exact Name.resolve?_ne_iff hPQ
  · intro h id other name factory hname
    exact Name.resolve?_congr fun c hc => h.contains_register id name factory other (hname c ((hmem c).2 hc))

/-- Beside the caller `.m` is `.x`, and beneath it `.m.x`. A request for `x` that was resolved to the one beneath stops
    at the other as soon as that is registered, and `y` has no part in it. -/
theorem resolution_moves_to_earlier_tiers_leadingDot :
    let P name := decide (name = ".m.x")
    let Q name := decide (name = ".m.x") || decide (name = ".x")
    let r : Name.Resolution := ⟨".m.x", .child⟩
    (∀ name, P name = true → Q name = true) ∧
      Name.resolve? P "x" ".m" = some r ∧ Name.resolve? Q "x" ".m" = some ⟨".x", .sibling⟩ ∧
      (∃ before after, Name.candidates "x" ".m" = before ++ r :: after ∧
        Name.probes P "x" ".m" = (before ++ [r]).map Name.Resolution.name) ∧
      (∃ c ∈ Name.candidates "x" ".m", Q c.name = true ∧ c.tier.rank < r.tier.rank) ∧
      ∀ (h : Host) (factory : Code),
        ((h.register 0 "y" factory).2.realm 0).resolve? "x" ".m" = (h.realm 0).resolve? "x" ".m" := by
  intro P Q r
  have hPQ : ∀ name, P name = true → Q name = true := fun name h => Bool.or_eq_true_iff.2 (.inl h)
  have hstate : Name.resolve? P "x" ".m" = some r ∧ Name.resolve? Q "x" ".m" = some ⟨".x", .sibling⟩ ∧
      ∀ c ∈ Name.candidates "x" ".m", c.name ≠ "y" := by
    decide +kernel
  obtain ⟨hP, hQ, hname⟩ := hstate
  obtain ⟨-, -, -, -, -, hprobes, -, -, hne, hregister⟩ := resolution_moves_to_earlier_tiers "x" ".m" P Q hPQ
  obtain ⟨before, after, hsplit, -, -, hasked⟩ := hprobes r hP
  have hdiffer : Name.resolve? P "x" ".m" ≠ Name.resolve? Q "x" ".m" := by
    rw [hP, hQ]
    decide
  obtain ⟨c, hc, hQc, hnone | ⟨r', hr', hlt⟩⟩ := hne.1 hdiffer
  · cases hP.symm.trans hnone
  · cases hP.symm.trans hr'
    exact ⟨hPQ, hP, hQ, ⟨before, after, hsplit, hasked⟩, ⟨c, hc, hQc, hlt⟩, fun h factory =>
      hregister h 0 0 "y" factory hname⟩

end ObjectHost
