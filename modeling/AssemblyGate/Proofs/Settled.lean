import AssemblyGate.Proofs.Definitions
import AssemblyGate.Proofs.Resolution
import AssemblyGate.Proofs.Scopes

/-!
# The cache once it is settled

All rows of the references are resolved before anything else is.  If that goes well,
then there is nothing left for the cache to learn: from then on it stays as it is, and
all that is read is read under one and the same cache.
-/

namespace AssemblyGate

open Fallible

namespace Metadata

variable {metadata : Metadata} {before after cache : Cache} {rid : Nat}

theorem Refers.range {rows : Nat} {reference : TypeReference}
    (h : metadata.Refers rows rid reference) : 1 ≤ rid ∧ rid ≤ metadata.rowCount .typeRef := by
  have hlink : ∃ link, metadata.scopeLink rid = .ok link := by
    cases h with
    | top hlink => exact ⟨_, hlink⟩
    | inside hlink _ => exact ⟨_, hlink⟩
  obtain ⟨link, hlink⟩ := hlink
  obtain ⟨row, hrow, -⟩ := bind_eq_ok_iff.mp hlink
  exact range_of_row_eq_ok hrow

/-! ## Resolving all rows -/

inductive ReferenceOutcome (metadata : Metadata) (rid : Nat) : Outcome TypeReference → Prop
  | kept {rows : Nat} {reference : TypeReference} (h : metadata.Refers rows rid reference) :
      ReferenceOutcome metadata rid (.kept reference)
  | refused {cause : Unmodelled} (h : ∀ rows reference, ¬ metadata.Refers rows rid reference) :
      ReferenceOutcome metadata rid (.refused (.unmodelled cause))

def Holds (metadata : Metadata) (cache : Cache) (items : List Nat) : Prop :=
  cache.isSome → ∀ rid ∈ items, ∀ rows reference,
    metadata.Refers rows rid reference → cache.find? rid = some reference

theorem Holds.mono {items : List Nat} (h : metadata.Holds before items)
    (hextends : before.Extends after) : metadata.Holds after items := by
  intro henabled rid hrid rows reference hrefers
  rw [← hextends.isSome_eq] at henabled
  exact hextends.find? (h henabled rid hrid rows reference hrefers)

theorem modelled_typeReference {outcome : Outcome TypeReference}
    (hbefore : metadata.CacheSound before)
    (h : (metadata.typeReference rid).modelled.runOn before = (.ok outcome, after)) :
    metadata.CacheSound after ∧ before.Extends after ∧
      metadata.ReferenceOutcome rid outcome ∧ metadata.Holds after [rid] := by
  have hrun := referenceRun metadata rid before
  have hrefers : ∀ {rows reference}, metadata.Refers rows rid reference → _ :=
    fun h => typeReference_of_refers hbefore h
  simp only [Resolve.modelled, runOn] at h
  simp only [runOn] at hrun hrefers
  rcases hresult : metadata.typeReference rid before with ⟨result, after'⟩
  rw [hresult] at h hrun
  simp only [hresult] at hrefers
  cases result with
  | ok reference =>
      cases h
      obtain ⟨hafter, hchain⟩ := hrun.sound hbefore
      obtain ⟨rows, hreference⟩ := hchain rfl
      refine ⟨hafter, hrun.extends_before, .kept hreference, ?_⟩
      intro henabled rid' hrid' rows' reference' hrefers'
      obtain rfl := List.mem_singleton.mp hrid'
      rw [← hrun.extends_before.isSome_eq] at henabled
      rw [← (hreference.unique hrefers').2]
      exact hrun.kept hbefore henabled rfl
  | error error =>
      obtain rfl : after' = before := hrun.unchanged_of_error rfl
      cases error with
      | unmodelled cause =>
          cases h
          have hnone : ∀ rows reference, ¬ metadata.Refers rows rid reference := by
            intro rows reference hreference
            rcases hrefers hreference with hok | ⟨hlimit, -⟩
            · cases hok
            · cases hlimit
          refine ⟨hbefore, .refl _, .refused hnone, ?_⟩
          intro _ rid' hrid' rows reference hreference
          obtain rfl := List.mem_singleton.mp hrid'
          exact absurd hreference (hnone rows reference)
      | _ => cases h

theorem mapM_typeReference {items : List Nat} {outcomes : List (Outcome TypeReference)}
    (hbefore : metadata.CacheSound before)
    (h : (items.mapM fun rid => (metadata.typeReference rid).modelled).runOn before =
      (.ok outcomes, after)) :
    metadata.CacheSound after ∧ before.Extends after ∧
      List.Forall₂ metadata.ReferenceOutcome items outcomes ∧ metadata.Holds after items := by
  -- Each row is resolved in the cache that the rows before it have left.
  induction items generalizing before outcomes with
  | nil =>
      cases h
      exact ⟨hbefore, .refl _, .nil, by simp [Holds]⟩
  | cons rid items ih =>
      rw [List.mapM_cons, runOn_bind] at h
      rcases hfirst : (metadata.typeReference rid).modelled.runOn before with ⟨result, middle⟩
      rw [hfirst] at h
      cases result with
      | error error => cases h
      | ok outcome =>
          simp only [runOn_bind] at h
          rcases hothers : (items.mapM fun rid => (metadata.typeReference rid).modelled).runOn
            middle with ⟨result, last⟩
          rw [hothers] at h
          cases result with
          | error error => cases h
          | ok others =>
              cases h
              obtain ⟨hmiddle, hextends, houtcome, hholds⟩ := modelled_typeReference hbefore hfirst
              obtain ⟨hafter, hextends', houtcomes, hholds'⟩ := ih hmiddle hothers
              refine ⟨hafter, hextends.trans hextends', .cons houtcome houtcomes, ?_⟩
              intro henabled rid' hrid'
              rcases List.mem_cons.mp hrid' with rfl | hmem
              · exact hholds.mono hextends' henabled rid' (by simp)
              · exact hholds' henabled rid' hmem

end Metadata

theorem CheckOptions.cacheSound (options : CheckOptions) (metadata : Metadata) :
    metadata.CacheSound options.cache := by
  unfold CheckOptions.cache
  split
  · exact Metadata.cacheSound_empty
  · exact Metadata.cacheSound_disabled

/-! ## Settled caches -/

/-- A cache that holds all there is to hold and nothing else, or that is not kept. -/
structure Metadata.Settled (metadata : Metadata) (cache : Cache) : Prop where
  sound : metadata.CacheSound cache
  full : cache.isSome → ∀ {rows rid reference},
    metadata.Refers rows rid reference → cache.find? rid = some reference

namespace Metadata

variable {metadata : Metadata} {before after cache : Cache} {rid : Nat}

theorem settled_disabled : metadata.Settled Cache.disabled := ⟨cacheSound_disabled, nofun⟩

theorem Settled.still (h : metadata.Settled cache) (rid : Nat) :
    Still cache (metadata.typeReference rid) := by
  have hrun := referenceRun metadata rid cache
  rcases hresult : ((metadata.typeReference rid).runOn cache).1 with error | reference
  · exact hrun.unchanged_of_error hresult
  · cases cache with
    | none => exact hrun.extends_before.eq_disabled
    | some entries =>
        -- What can be resolved is in the cache already, so it is only looked up.
        obtain ⟨rows, hrefers⟩ := (hrun.sound h.sound).2 hresult
        exact congrArg Prod.snd (runOn_typeReferenceIn_of_find? (h.full rfl hrefers))

def settledCache (metadata : Metadata) (cache : Cache) : Cache :=
  (metadata.typeReferences.runOn cache).2

theorem settled_of_typeReferences {outcomes : List (Outcome TypeReference)}
    (hcache : metadata.CacheSound cache)
    (h : (metadata.typeReferences.runOn cache).1 = .ok outcomes) :
    metadata.Settled (metadata.settledCache cache) ∧
      List.Forall₂ metadata.ReferenceOutcome (rids (metadata.rowCount .typeRef)) outcomes := by
  have hrun : metadata.typeReferences.runOn cache = (.ok outcomes, metadata.settledCache cache) :=
    Prod.ext h rfl
  obtain ⟨hsound, -, houtcomes, hholds⟩ := mapM_typeReference hcache hrun
  refine ⟨⟨hsound, ?_⟩, houtcomes⟩
  intro henabled rows rid reference hrefers
  exact hholds henabled rid (mem_rids.mpr hrefers.range) rows reference hrefers

/-! ## Reading under a settled cache -/

namespace Settled

variable (h : metadata.Settled cache)

include h

theorem respects (rid : Nat) :
    Respects (fun left right => left = cache ∧ right = cache) (metadata.typeReference rid) :=
  (h.still rid).respects

theorem still_modelled (token : Token) : Still cache (metadata.resolve token).modelled :=
  .of_respects ((uniform_resolve h.respects token).modelled .never)

theorem still_memberParent (row : MemberRefRow) (name : String) :
    Still cache (metadata.memberParent row name) :=
  .of_respects (uniform_memberParent h.respects .never row name)

theorem still_memberReference (rid : Nat) : Still cache (metadata.memberReference rid) :=
  .of_respects (uniform_memberReference h.respects .never rid)

theorem still_inheritedFrom (index : CodedIndex) : Still cache (metadata.inheritedFrom index) :=
  .of_respects (uniform_inheritedFrom h.respects .never index)

theorem still_inheritedType (implementations : List (Nat × CodedIndex)) (rid : Nat) :
    Still cache (metadata.inheritedType implementations rid) :=
  .of_respects (uniform_inheritedType h.respects .never implementations rid)

theorem result_memberReferences :
    (metadata.memberReferences.runOn cache).1 =
      (rids (metadata.rowCount .memberRef)).mapM fun rid =>
        ((metadata.memberReference rid).runOn cache).1 :=
  Still.result_mapM fun rid _ => h.still_memberReference rid

theorem result_memberReferencesIn (schedule : Schedule) :
    ((metadata.memberReferencesIn schedule).runOn cache).1 =
      (schedule.rows (rids (metadata.rowCount .memberRef))).mapM fun rid =>
        (((metadata.memberReference rid).runOn cache).1).map (rid, ·) := by
  have hstill := h.still_memberReference
  unfold memberReferencesIn
  rw [Still.result_mapM]
  · congr
    funext rid
    rw [(hstill rid).result_bind]
    cases ((metadata.memberReference rid).runOn cache).1 <;> rfl
  · intro rid _
    exact .of_respects (.bind (hstill rid).respects fun _ => .pure rfl)

end Settled

theorem references_eq_ok_iff {schedule : Schedule} {references : References}
    (hcache : metadata.CacheSound cache) :
    ((metadata.references schedule).runOn cache).1 = .ok references ↔
      ∃ types members inherited refused,
        (metadata.typeReferences.runOn cache).1 = .ok types ∧
        ((metadata.memberReferencesIn schedule).runOn (metadata.settledCache cache)).1 =
          .ok members ∧
        (metadata.inheritedTypes.runOn (metadata.settledCache cache)).1 =
          .ok (inherited, refused) ∧
        references = {
          types := Outcome.keptOf types
          members := Outcome.keptOf (Outcome.inRowOrder members)
          inherited
          refused :=
            Outcome.refusedOf types ++ Outcome.refusedOf (members.map Prod.snd) ++ refused } := by
  unfold Metadata.references settledCache
  rw [runOn_bind]
  rcases hrun : metadata.typeReferences.runOn cache with ⟨error | types, settled⟩
  · simp
  · have hsettled : metadata.Settled settled := by
      have := (settled_of_typeReferences hcache (congrArg Prod.fst hrun)).1
      rwa [settledCache, hrun] at this
    have hmembers : Still settled (metadata.memberReferencesIn schedule) :=
      .of_respects (uniform_memberReferencesIn hsettled.respects .never schedule)
    have hinherited : Still settled metadata.inheritedTypes :=
      .of_respects (uniform_inheritedTypes hsettled.respects .never)
    simp only [hmembers.result_bind, hinherited.result_bind, bind_eq_ok_iff, Except.ok.injEq]
    constructor
    · rintro ⟨members, hmembers, ⟨inherited, refused⟩, hinherited, hreferences⟩
      cases hreferences
      exact ⟨types, members, inherited, refused, rfl, hmembers, hinherited, rfl⟩
    · rintro ⟨_, members, inherited, refused, rfl, hmembers, hinherited, rfl⟩
      exact ⟨members, hmembers, (inherited, refused), hinherited, rfl⟩

end Metadata

end AssemblyGate
