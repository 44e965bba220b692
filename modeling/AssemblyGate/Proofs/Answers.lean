import AssemblyGate.Proofs.Hereditary

/-!
# Answers under any cache

What is asked of an assembly is asked while the cache fills, and its contents depend on the
order of all that was asked before.  Under any two caches that do not lie the answers are the
same, unless the nesting limit stops one of them.  So each token has one type, and each row of
the members one outcome, whichever cache it was that they came from.
-/

namespace AssemblyGate

open Fallible

namespace Metadata

variable {metadata : Metadata} {α : Type} {action : Resolve α} {result result' : Except Error α}

def BothSound (metadata : Metadata) (left right : Cache) : Prop :=
  metadata.CacheSound left ∧ metadata.CacheSound right

theorem uniform_typeReference (rid : Nat) :
    Uniform .limit metadata.BothSound (metadata.typeReference rid) := by
  rintro left right ⟨hleft, hright⟩
  have hafter : metadata.BothSound ((metadata.typeReference rid).runOn left).2
      ((metadata.typeReference rid).runOn right).2 :=
    ⟨((referenceRun metadata rid left).sound hleft).1,
      ((referenceRun metadata rid right).sound hright).1⟩
  rcases hrun : (metadata.typeReference rid).runOn left with ⟨result, left'⟩
  rcases hrun' : (metadata.typeReference rid).runOn right with ⟨result', right'⟩
  rw [hrun, hrun'] at hafter
  -- A reference is a matter of the rows alone, and so is the failure where there is none.
  by_cases hrefers : ∃ rows reference, metadata.Refers rows rid reference
  · obtain ⟨rows, reference, hrefers⟩ := hrefers
    have hresult := typeReference_of_refers hleft hrefers
    have hresult' := typeReference_of_refers hright hrefers
    rw [hrun] at hresult
    rw [hrun'] at hresult'
    rcases hresult with rfl | ⟨rfl, -⟩
    · rcases hresult' with rfl | ⟨rfl, -⟩
      · exact .ok rfl hafter
      · exact .excusedOther rfl
    · exact .excused rfl
  · have hnot : ∀ rows reference, ¬ metadata.Refers rows rid reference :=
      fun rows reference h => hrefers ⟨rows, reference, h⟩
    have hsame := (typeReference_of_not_refers hleft hnot).trans
      (typeReference_of_not_refers hright hnot).symm
    rw [hrun, hrun'] at hsame
    cases hsame
    cases result with
    | ok reference => exact .ok rfl hafter
    | error error => exact .error hafter

/-! ## Answers -/

/--
What comes of an action under some cache that does not lie, and under every such cache, unless
the limit stops it.
-/
structure Answers (metadata : Metadata) (action : Resolve α) (result : Except Error α) : Prop where
  somewhere : ∃ cache, metadata.CacheSound cache ∧ (action.runOn cache).1 = result
  everywhere : ∀ cache, metadata.CacheSound cache →
    (action.runOn cache).1 = result ∨ (action.runOn cache).1 = .error .nestingLimit

theorem Answers.unique (h : metadata.Answers action result) (h' : metadata.Answers action result')
    (hresult : result ≠ .error .nestingLimit) : result = result' := by
  obtain ⟨cache, hcache, rfl⟩ := h.somewhere
  rcases h'.everywhere cache hcache with hsame | hlimit
  · exact hsame
  · exact absurd hlimit hresult

theorem answers_of_runOn (h : Uniform .limit metadata.BothSound action) {cache : Cache}
    (hcache : metadata.CacheSound cache) (hrun : (action.runOn cache).1 = result)
    (hresult : result ≠ .error .nestingLimit) : metadata.Answers action result := by
  refine ⟨⟨cache, hcache, hrun⟩, fun cache' hcache' => ?_⟩
  have hruns := h cache cache' ⟨hcache, hcache'⟩
  generalize action.runOn cache = run at hruns hrun
  generalize action.runOn cache' = run' at hruns
  subst hrun
  cases hruns with
  | ok hsame =>
      cases hsame
      exact .inl rfl
  | error => exact .inl rfl
  | excused hlimit => exact absurd (congrArg Except.error hlimit) hresult
  | excusedOther hlimit => exact .inr (congrArg Except.error hlimit)

inductive OutcomeOf (metadata : Metadata) (action : Resolve α) : Outcome α → Prop
  | kept {value : α} (h : metadata.Answers action (.ok value)) : OutcomeOf metadata action (.kept value)
  | refused {cause : Unmodelled} (h : metadata.Answers action (.error (.unmodelled cause))) :
      OutcomeOf metadata action (.refused (.unmodelled cause))

theorem OutcomeOf.unique {outcome outcome' : Outcome α} (h : metadata.OutcomeOf action outcome)
    (h' : metadata.OutcomeOf action outcome') : outcome = outcome' := by
  cases h with
  | kept h =>
      cases h' with
      | kept h' => cases h.unique h' nofun; rfl
      | refused h' => cases h.unique h' nofun
  | refused h =>
      cases h' with
      | kept h' => cases h.unique h' nofun
      | refused h' => cases h.unique h' nofun; rfl

theorem ensures_outcomeOf (h : Uniform .limit metadata.BothSound action)
    (hsound : Ensures metadata.CacheSound (fun _ => True) action) :
    Ensures metadata.CacheSound (metadata.OutcomeOf action) action.modelled := by
  intro cache hcache
  refine ⟨(hsound.modelled cache hcache).1, fun outcome houtcome => ?_⟩
  rcases Resolve.modelled_eq_ok houtcome with ⟨value, hvalue, rfl⟩ | ⟨cause, hcause, rfl⟩
  · exact .kept (answers_of_runOn h hcache hvalue nofun)
  · exact .refused (answers_of_runOn h hcache hcause nofun)

theorem hereditary_true (metadata : Metadata) : metadata.Hereditary fun _ => True :=
  ⟨fun _ _ _ => trivial, fun _ _ _ _ => trivial, fun _ _ => trivial⟩

theorem ensures_resolve_outcomeOf (token : Token) :
    Ensures metadata.CacheSound (metadata.OutcomeOf (metadata.resolve token))
      (metadata.resolve token).modelled :=
  ensures_outcomeOf (uniform_resolve uniform_typeReference token)
    (metadata.hereditary_true.ensures_resolve token)

end Metadata

end AssemblyGate
