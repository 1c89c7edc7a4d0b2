-- SUMMARY: Clauses tried in order: the first that a failure belongs to catches it, normalised once for all of them.
import ObjectHost.Proofs.Host.Exceptions

/-!
# Clauses in order

A failure is offered to one clause after another, and each clause normalises it
before it looks at its class. Only a bad reference is changed by that, and what
comes of it is never changed again. So the exception that is made for the first
clause is the one that all later clauses see.
-/

namespace ObjectHost

variable {σ : Type}

/-- Offers a failure to clauses, by their classes, in order. What a clause does not catch goes on to the next. The
    exception that is caught comes with the number of its clause. -/
def catchFirst (realm : RealmId) : Raised → List Class → Program σ (Except Raised (Nat × Exception))
  | r, [] => return .error r
  | r, cls :: clauses => do
    match ← catchAs realm r cls with
    | .ok e => return .ok (0, e)
    | .error r => return (← catchFirst realm r clauses).map fun caught => (caught.1 + 1, caught.2)

/-! ## Normalised failures -/

namespace Raised

/-- The failure is no bad reference. -/
def Normalised (r : Raised) : Prop := ∀ message, r ≠ .host (.reference message)

/-- What a clause makes of a normalised failure. -/
def caughtAs (r : Raised) (cls : Class) : Except Raised Exception :=
  match r with
  | .exception e => if e.isInstanceOf cls then .ok e else .error (.exception e)
  | .host failure => .error (.host failure)

/-- What clauses make of a normalised failure. -/
def caughtBy (r : Raised) (clauses : List Class) : Except Raised (Nat × Exception) :=
  match r with
  | .exception e => (clauses.findIdx? e.isInstanceOf).elim (.error (.exception e)) fun i => .ok (i, e)
  | .host failure => .error (.host failure)

end Raised

theorem Exception.isInstanceOf_iff {e : Exception} {c : Class} : e.isInstanceOf c = true ↔ c ∈ e.cls.ancestors :=
  Class.isSubclassOf_iff

namespace Raised

variable {r : Raised} {c d : Class} {e : Exception} {clauses : List Class}

theorem normalised_exception (e : Exception) : (exception e).Normalised := fun _ => (nomatch ·)

theorem normalised_or_reference (r : Raised) : r.Normalised ∨ ∃ message, r = .host (.reference message) :=
  or_iff_not_imp_right.2 fun h message hr => h ⟨message, hr⟩

theorem caughtAs_exception (e : Exception) (c : Class) :
    (exception e).caughtAs c = if e.isInstanceOf c = true then .ok e else .error (.exception e) :=
  rfl

theorem caughtBy_exception (e : Exception) (clauses : List Class) :
    (exception e).caughtBy clauses =
      (clauses.findIdx? e.isInstanceOf).elim (.error (.exception e)) fun i => .ok (i, e) :=
  rfl

theorem caughtAs_eq_ok_iff : r.caughtAs c = .ok e ↔ r = .exception e ∧ c ∈ e.cls.ancestors := by
  cases r with
  | host failure => exact ⟨nofun, fun h => nomatch h.1⟩
  | exception e' =>
    simp only [caughtAs_exception, Exception.isInstanceOf_iff]
    split
    next hmem =>
      constructor
      · rintro ⟨⟩
        exact ⟨rfl, hmem⟩
      · rintro ⟨⟨⟩, -⟩
        rfl
    next hmem =>
      constructor
      · rintro ⟨⟩
      · rintro ⟨⟨⟩, hc⟩
        exact absurd hc hmem

/-- What a clause does not catch, it gives back. -/
theorem eq_of_caughtAs_eq_error {r' : Raised} (h : r.caughtAs c = .error r') : r' = r := by
  cases r with
  | host failure => cases h; rfl
  | exception e =>
    rw [caughtAs_exception] at h
    split at h <;> cases h
    rfl

/-- A class above one that catches catches the same exception. -/
theorem caughtAs_mono (h : r.caughtAs c = .ok e) (hcd : d ∈ c.ancestors) : r.caughtAs d = .ok e := by
  obtain ⟨hr, hc⟩ := caughtAs_eq_ok_iff.1 h
  exact caughtAs_eq_ok_iff.2 ⟨hr, Class.ancestors_trans hc hcd⟩

/-- A clause that does not catch leaves a normalised failure to the others as it is. -/
theorem caughtBy_cons (r : Raised) (c : Class) (clauses : List Class) :
    r.caughtBy (c :: clauses) = match r.caughtAs c with
      | .ok e => .ok (0, e)
      | .error r => (r.caughtBy clauses).map fun caught => (caught.1 + 1, caught.2) := by
  cases r with
  | host failure => rfl
  | exception e =>
    rw [caughtBy_exception, caughtAs_exception, List.findIdx?_cons]
    cases e.isInstanceOf c with
    | true => rfl
    | false =>
      change _ = ((exception e).caughtBy clauses).map _
      rw [caughtBy_exception]
      cases clauses.findIdx? e.isInstanceOf <;> rfl

/-- The first clause catches whose class is above that of the exception. -/
theorem caughtBy_eq_ok_iff {i : Nat} :
    r.caughtBy clauses = .ok (i, e) ↔ r = .exception e ∧ (∃ cls, clauses[i]? = some cls ∧ cls ∈ e.cls.ancestors) ∧
      ∀ j < i, ∀ cls, clauses[j]? = some cls → cls ∉ e.cls.ancestors := by
  have hfound : r.caughtBy clauses = .ok (i, e) ↔
      r = .exception e ∧ clauses.findIdx? e.isInstanceOf = some i := by
    cases r with
    | host failure => exact ⟨nofun, fun h => nomatch h.1⟩
    | exception e' =>
      rw [caughtBy_exception]
      cases hindex : clauses.findIdx? e'.isInstanceOf with
      | none =>
        constructor
        · rintro ⟨⟩
        · rintro ⟨⟨⟩, hsome⟩
          cases hindex.symm.trans hsome
      | some k =>
        constructor
        · rintro ⟨⟩
          exact ⟨rfl, hindex⟩
        · rintro ⟨⟨⟩, hsome⟩
          cases hindex.symm.trans hsome
          rfl
  rw [hfound, List.findIdx?_eq_some_iff_getElem]
  refine and_congr_right fun _ => ?_
  constructor
  · rintro ⟨hi, hcatches, hbefore⟩
    refine ⟨⟨_, List.getElem?_eq_getElem hi, Exception.isInstanceOf_iff.1 hcatches⟩, fun j hj cls hcls => ?_⟩
    obtain ⟨-, rfl⟩ := List.getElem?_eq_some_iff.1 hcls
    intro hmem
    exact hbefore j hj (Exception.isInstanceOf_iff.2 hmem)
  · rintro ⟨⟨cls, hcls, hmem⟩, hbefore⟩
    obtain ⟨hi, rfl⟩ := List.getElem?_eq_some_iff.1 hcls
    refine ⟨hi, Exception.isInstanceOf_iff.2 hmem, fun j hj hcatches => ?_⟩
    exact hbefore j hj _ (List.getElem?_eq_getElem (Nat.lt_trans hj hi)) (Exception.isInstanceOf_iff.1 hcatches)

theorem caughtBy_of_forall (h : ∀ cls ∈ clauses, ∀ e, r = .exception e → cls ∉ e.cls.ancestors) :
    r.caughtBy clauses = .error r := by
  cases r with
  | host failure => rfl
  | exception e =>
    have hnone : clauses.findIdx? e.isInstanceOf = none := by
      refine List.findIdx?_eq_none_iff.2 fun cls hcls => Bool.eq_false_iff.2 fun hcatches => ?_
      exact h cls hcls e rfl (Exception.isInstanceOf_iff.1 hcatches)
    rw [caughtBy_exception, hnone, Option.elim_none]

end Raised

/-! ## Normalising and catching -/

section

variable {r : Raised} (realm : RealmId)

theorem exceptionify_of_normalised (h : r.Normalised) : (exceptionify realm r : Program σ Raised) = .done r := by
  cases r with
  | exception e => rfl
  | host failure =>
    cases failure with
    | reference message => exact absurd rfl (h message)
    | arity function expected got => rfl
    | other message => rfl

/-- What a failure is normalised to can be told beforehand, and making that is all that happens. -/
theorem run_exceptionify (r : Raised) (w : World σ) :
    ∃ r' w', r'.Normalised ∧ (r.Normalised → r' = r ∧ w' = w) ∧
      ∀ runner, (exceptionify realm r).run runner w = (r', w') := by
  rcases r.normalised_or_reference with h | ⟨message, rfl⟩
  · refine ⟨r, w, h, fun _ => ⟨rfl, rfl⟩, fun runner => ?_⟩
    rw [exceptionify_of_normalised realm h]
    rfl
  · exact ⟨.exception _, w.grown, Raised.normalised_exception _, fun h => absurd rfl (h message), fun _ => rfl⟩

theorem catchAs_eq (r : Raised) (cls : Class) :
    (catchAs realm r cls : Program σ _) = (exceptionify realm r).bind fun r => .done (r.caughtAs cls) := by
  cases r with
  | exception e => rfl
  | host failure => cases failure <;> rfl

theorem catchFirst_of_normalised (h : r.Normalised) (clauses : List Class) :
    (catchFirst realm r clauses : Program σ _) = .done (r.caughtBy clauses) := by
  induction clauses with
  | nil => cases r <;> rfl
  | cons cls clauses ih =>
    have hcatch : (catchAs realm r cls : Program σ _) = .done (r.caughtAs cls) := by
      rw [catchAs_eq, exceptionify_of_normalised realm h]
      rfl
    unfold catchFirst
    rw [hcatch, Raised.caughtBy_cons]
    cases hcaught : r.caughtAs cls with
    | ok e => rfl
    | error r' =>
      cases Raised.eq_of_caughtAs_eq_error hcaught
      change (catchFirst realm r clauses).bind _ = _
      rw [ih]
      rfl

/-- Clauses normalise a failure once, however many they are. -/
theorem catchFirst_cons (r : Raised) (cls : Class) (clauses : List Class) :
    (catchFirst realm r (cls :: clauses) : Program σ _) =
      (exceptionify realm r).bind fun r => .done (r.caughtBy (cls :: clauses)) := by
  rcases r.normalised_or_reference with h | ⟨message, rfl⟩
  · rw [catchFirst_of_normalised realm h, exceptionify_of_normalised realm h]
    rfl
  · refine congrArg (Program.ask _) (funext fun e => ?_)
    exact catchFirst_of_normalised realm (Raised.normalised_exception e) (cls :: clauses)

end

/-- Whatever a failure is and wherever it is caught, it comes to be normalised to `r'`, the same at every clause.
    Nothing but a bad reference is changed by that, so that an exception stays the object that it is; what comes of it
    is no bad reference, and normalising it again gives it back and makes nothing new. Of clauses that are tried in
    order, each of them handing on what it does not catch, the first one catches whose class is in the ancestry of the
    class of `r'`, and it is `r'` itself that it delivers. If there is none, then `r'` itself is handed on by the last
    clause; where no clause was tried at all, it is still to be made of what was raised. If one class catches a failure,
    all classes above it do. -/
theorem first_matching_clause_catches (id : RealmId) (r : Raised) (w : World σ) :
    ∃ r' w', (∀ runner, (exceptionify id r).run runner w = (r', w')) ∧
      ((∀ message, r ≠ .host (.reference message)) → r' = r ∧ w' = w) ∧
      (∀ message, r' ≠ .host (.reference message)) ∧
      (∀ runner w'', (exceptionify id r').run runner w'' = (r', (w'' : World σ))) ∧
      (∀ clauses runner i e w'', (catchFirst id r clauses).run runner w = (.ok (i, e), w'') ↔
        w'' = w' ∧ r' = .exception e ∧ (∃ cls, clauses[i]? = some cls ∧ cls ∈ e.cls.ancestors) ∧
        ∀ j < i, ∀ cls, clauses[j]? = some cls → cls ∉ e.cls.ancestors) ∧
      (∀ clauses runner, (∀ cls ∈ clauses, ∀ e, r' = .exception e → cls ∉ e.cls.ancestors) →
        ∃ q w'', (catchFirst id r clauses).run runner w = (.error q, w'') ∧ (clauses ≠ [] → q = r' ∧ w'' = w') ∧
          (exceptionify id q).run runner w'' = (r', w')) ∧
      ∀ c d runner e w'', (catchAs id r c).run runner w = (.ok e, w'') → c.isSubclassOf d = true →
        (catchAs id r d).run runner w = (.ok e, w'') := by
  obtain ⟨r', w', hnormalised, hsame, hrun⟩ := run_exceptionify id r w
  have hclause : ∀ c runner, (catchAs id r c).run runner w = (r'.caughtAs c, w') := by
    intro c runner
    rw [catchAs_eq, Program.run_bind, hrun]
    rfl
  have hclauses : ∀ c clauses runner, (catchFirst id r (c :: clauses)).run runner w =
      (r'.caughtBy (c :: clauses), w') := by
    intro c clauses runner
    rw [catchFirst_cons, Program.run_bind, hrun]
    rfl
  have hagain : ∀ runner w'', (exceptionify id r').run runner w'' = (r', (w'' : World σ)) := by
    intro runner w''
    rw [exceptionify_of_normalised id hnormalised]
    rfl
  refine ⟨r', w', hrun, hsame, hnormalised, hagain, ?_, ?_, ?_⟩
  · intro clauses runner i e w''
    cases clauses with
    | nil => exact ⟨nofun, fun h => nomatch h.2.2.1⟩
    | cons c clauses =>
      rw [hclauses, Prod.mk.injEq, Raised.caughtBy_eq_ok_iff]
      exact and_comm.trans (and_congr_left' eq_comm)
  · intro clauses runner hnone
    cases clauses with
    | nil => exact ⟨r, w, rfl, fun h => absurd rfl h, hrun runner⟩
    | cons c clauses =>
      refine ⟨r', w', ?_, fun _ => ⟨rfl, rfl⟩, hagain runner w'⟩
      rw [hclauses, Raised.caughtBy_of_forall hnone]
  · intro c d runner e w'' hcaught hcd
    rw [hclause, Prod.mk.injEq] at hcaught
    obtain ⟨hcaught, rfl⟩ := hcaught
    rw [hclause, Raised.caughtAs_mono hcaught (Class.isSubclassOf_iff.1 hcd)]

/-- A bad reference that neither `ValueError` nor `KeyError` catches goes on as a `NameError`, and a third clause, for
    `StandardError`, gets that very object. -/
theorem first_matching_clause_catches_badReference :
    let w := (moments bodiless none defineAppError () 1).world
    let r := Raised.host (.reference "x")
    ∃ value key standard e, (w.host.realm 0).classes.get? "ValueError" = some value ∧
      (w.host.realm 0).classes.get? "KeyError" = some key ∧
      (w.host.realm 0).classes.get? "StandardError" = some standard ∧
      (w.host.realm 0).classes.get? "NameError" = some e.cls ∧
      ∀ runner, (catchFirst 0 r [value, key]).run runner w = (.error (.exception e), w.grown) ∧
        (catchFirst 0 r [value, key, standard]).run runner w = (.ok (2, e), w.grown) := by
  have hstate : ∃ value ∈ ((moments bodiless none defineAppError () 1).world.host.realm 0).classes.get? "ValueError",
      ∃ key ∈ ((moments bodiless none defineAppError () 1).world.host.realm 0).classes.get? "KeyError",
      ∃ standard ∈ ((moments bodiless none defineAppError () 1).world.host.realm 0).classes.get? "StandardError",
      ∃ name ∈ ((moments bodiless none defineAppError () 1).world.host.realm 0).classes.get? "NameError",
        ((moments bodiless none defineAppError () 1).world.host.realm 0).taxonomy.classFor "NameError" = name ∧
        value ∉ name.ancestors ∧ key ∉ name.ancestors ∧ standard ∈ name.ancestors := by
    decide +kernel
  obtain ⟨value, hvalue, key, hkey, standard, hstandard, name, hname, hcls, hnotValue, hnotKey, habove⟩ := hstate
  obtain ⟨r', w', hrun, -, -, -, hcaught, hnone, -⟩ :=
    first_matching_clause_catches 0 (.host (.reference "x")) (moments bodiless none defineAppError () 1).world
  dsimp only
  generalize (moments bodiless none defineAppError () 1).world = w at *
  -- What a bad reference is normalised to does not depend on the runner.
  obtain ⟨hr', hw'⟩ := Prod.mk.inj (hrun (bodiless.runner 0))
  subst hr' hw' hcls
  let made := (w.host.newException 0 "NameError" (.str (HostFailure.reference "x").message)).1
  refine ⟨value, key, standard, made, hvalue, hkey, hstandard, hname, fun runner => ⟨?_, ?_⟩⟩
  · have hmissed : ∀ cls ∈ [value, key], cls ∉ made.cls.ancestors :=
      List.forall_mem_cons.2 ⟨hnotValue, List.forall_mem_singleton.2 hnotKey⟩
    obtain ⟨q, w'', hpropagates, hsame, -⟩ := hnone [value, key] runner (by rintro cls hc e ⟨⟩; exact hmissed cls hc)
    obtain ⟨rfl, rfl⟩ := hsame (List.cons_ne_nil _ _)
    exact hpropagates
  · refine (hcaught [value, key, standard] runner 2 _ _).2 ⟨rfl, rfl, ⟨standard, rfl, habove⟩, fun j hj cls hcls => ?_⟩
    match j, hj with
    | 0, _ => cases hcls; exact hnotValue
    | 1, _ => cases hcls; exact hnotKey

end ObjectHost
