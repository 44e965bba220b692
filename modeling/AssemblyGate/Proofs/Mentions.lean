import AssemblyGate.Proofs.Hereditary
import AssemblyGate.Proofs.Verdict

/-!
# What an assembly mentions

The scans of members and of bases look only at the type that a member belongs to and at
the type that is derived from.  Many more types are mentioned in them, in signatures, as
arguments and around nested types.  All of these are rows of the references as well, so
the scan of the references sees every one of them.
-/

namespace AssemblyGate

open Fallible

/-! ## Types that are mentioned -/

mutual
def TypeReference.mentioned : TypeReference → List TypeReference
  | .top assembly ns name => [.top assembly ns name]
  | .nested scope ns name => .nested scope ns name :: scope.mentioned

def TypeExpr.mentioned : TypeExpr → List TypeReference
  | .primitive _ => []
  | .defined _ _ => []
  | .definedIn enclosing _ _ => enclosing.mentioned
  | .referenced reference => reference.mentioned
  | .generic definition arguments => definition.mentioned ++ TypeExpr.mentionedIn arguments
  | .modified underlying modifier _ => underlying.mentioned ++ modifier.mentioned
  | .array element _ => element.mentioned
  | .szArray element => element.mentioned
  | .pointer element => element.mentioned
  | .byRef element => element.mentioned
  | .typeParameter _ => []
  | .methodParameter _ => []
  | .functionPointer _ returnType _ _ parameters =>
      returnType.mentioned ++ TypeExpr.mentionedIn parameters
  | .parsed _ _ => []
  | .parsedIn parent _ _ => parent.mentioned

def TypeExpr.mentionedIn : List TypeExpr → List TypeReference
  | [] => []
  | type :: types => type.mentioned ++ TypeExpr.mentionedIn types
end

def References.mentioned (references : References) : List TypeReference :=
  TypeExpr.mentionedIn
    (references.members.flatMap MemberRef.types ++ references.inherited.flatMap InheritedType.bases)

section

variable {p : TypeReference → Prop}

def TypeExpr.MentionsOnly (p : TypeReference → Prop) (type : TypeExpr) : Prop :=
  ∀ reference ∈ type.mentioned, p reference

@[simp] theorem TypeExpr.forall_mem_mentionedIn_iff {types : List TypeExpr} :
    (∀ reference ∈ mentionedIn types, p reference) ↔ ∀ type ∈ types, type.MentionsOnly p := by
  induction types with
  | nil => simp [mentionedIn]
  | cons type types ih =>
      rw [mentionedIn, List.forall_mem_append, ih, List.forall_mem_cons]
      rfl

theorem SigType.Over.mentionsOnly {type : SigType TypeExpr}
    (h : type.Over (TypeExpr.MentionsOnly p)) : type.toTypeExpr.MentionsOnly p := by
  have happend : ∀ {type : TypeExpr} {types : List (SigType TypeExpr)}, type.MentionsOnly p →
      (∀ type ∈ types, type.toTypeExpr.MentionsOnly p) →
      ∀ reference ∈ type.mentioned ++ TypeExpr.mentionedIn (toTypeExprs types), p reference := by
    intro type types htype htypes
    rw [List.forall_mem_append, TypeExpr.forall_mem_mentionedIn_iff, toTypeExprs_eq_map]
    exact ⟨htype, List.forall_mem_map.mpr htypes⟩
  induction h with
  | handle hleaf => exact hleaf
  | primitive | typeParameter | methodParameter => exact List.forall_mem_nil _
  | pointer _ ih | byRef _ ih | array _ ih | szArray _ ih | pinned _ ih => exact ih
  | generic _ _ _ ihdefinition iharguments => exact happend ihdefinition iharguments
  | functionPointer _ _ ihreturn ihparameters => exact happend ihreturn ihparameters
  | modified hmodifier _ ih => exact List.forall_mem_append.mpr ⟨ih, hmodifier⟩

end

@[simp] theorem TypeExpr.IsDefinition.mentioned_eq_nil {type : TypeExpr} (h : type.IsDefinition) :
    type.mentioned = [] := by
  induction h with
  | defined => rfl
  | definedIn _ ih => exact ih

/-! ## Rows -/

namespace Metadata

variable {metadata : Metadata}

def HasRow (metadata : Metadata) (reference : TypeReference) : Prop :=
  ∃ rows rid, metadata.Refers rows rid reference

theorem Refers.hasRow_of_mem {rows rid : Nat} {reference other : TypeReference}
    (h : metadata.Refers rows rid reference) (hother : other ∈ reference.mentioned) :
    metadata.HasRow other := by
  induction h with
  | top hlink =>
      obtain rfl := List.mem_singleton.mp hother
      exact ⟨_, _, .top hlink⟩
  | inside hlink houter ih =>
      rcases List.mem_cons.mp hother with rfl | hother
      · exact ⟨_, _, .inside hlink houter⟩
      · exact ih hother

theorem hereditary_mentionsOnly (metadata : Metadata) :
    metadata.Hereditary (TypeExpr.MentionsOnly metadata.HasRow) where
  definition := by
    intro rid type htype reference hmentioned
    simp [isDefinition_of_typeDefinitionIn htype] at hmentioned
  reference := fun _ _ _ hrefers _ hmentioned => hrefers.hasRow_of_mem hmentioned
  signature := fun _ htype => htype.mentionsOnly

/-! ## The scan of the references -/

theorem Refers.mem_keptOf {rows rid : Nat} {reference : TypeReference} {items : List Nat}
    {outcomes : List (Outcome TypeReference)} (h : metadata.Refers rows rid reference)
    (hrid : rid ∈ items) (houtcomes : List.Forall₂ metadata.ReferenceOutcome items outcomes) :
    reference ∈ Outcome.keptOf outcomes := by
  induction houtcomes with
  | nil => simp at hrid
  | cons houtcome _ ih =>
      rcases List.mem_cons.mp hrid with rfl | hrid
      · cases houtcome with
        | kept hkept =>
            rw [(h.unique hkept).2]
            exact List.mem_cons_self
        | refused hnone => exact absurd h (hnone rows reference)
      · cases houtcome with
        | kept => exact List.mem_cons_of_mem _ (ih hrid)
        | refused => exact ih hrid

theorem hasRow_of_mem_mentioned {schedule : Schedule} {cache : Cache} {references : References}
    (hcache : metadata.CacheSound cache)
    (h : ((metadata.references schedule).runOn cache).1 = .ok references) :
    ∀ reference ∈ references.mentioned, metadata.HasRow reference := by
  obtain ⟨types, members, inherited, refused, htypes, hmembers, hinherited, rfl⟩ :=
    (references_eq_ok_iff hcache).mp h
  have hsound : metadata.CacheSound (metadata.settledCache cache) :=
    (settled_of_typeReferences hcache htypes).1.sound
  rw [References.mentioned, TypeExpr.forall_mem_mentionedIn_iff, List.forall_mem_append,
    List.forall_mem_flatMap, List.forall_mem_flatMap]
  exact ⟨(metadata.hereditary_mentionsOnly.ensures_memberReferencesIn schedule _ hsound).2
      members hmembers,
    (metadata.hereditary_mentionsOnly.ensures_inheritedTypes _ hsound).2 _ hinherited⟩

theorem HasRow.mem_types {schedule : Schedule} {cache : Cache} {references : References}
    (hcache : metadata.CacheSound cache)
    (h : ((metadata.references schedule).runOn cache).1 = .ok references)
    {reference : TypeReference} (hrow : metadata.HasRow reference) :
    reference ∈ references.types := by
  obtain ⟨types, members, inherited, refused, htypes, -, -, rfl⟩ :=
    (references_eq_ok_iff hcache).mp h
  obtain ⟨rows, rid, hrefers⟩ := hrow
  exact hrefers.mem_keptOf (mem_rids.mpr hrefers.range)
    (settled_of_typeReferences hcache htypes).2

/--
Whatever an assembly mentions, at any place of a member, a base or an interface, is one of
the references that are scanned, if no cache is kept or an empty one to begin with.  So a
policy that finds nothing wrong with those allows every type that is mentioned.
-/
theorem mem_types_of_mem_mentioned {schedule : Schedule} {cache : Cache} {references : References}
    (hcache : cache = Cache.disabled ∨ cache = Cache.empty)
    (h : ((metadata.references schedule).runOn cache).1 = .ok references) :
    (∀ reference ∈ references.mentioned, reference ∈ references.types) ∧
    ∀ (policy : Policy) (assembly : String), policy.checkTypes assembly references.types = [] →
      ∀ reference ∈ references.mentioned, (policy.access reference).isSome := by
  have hsound : metadata.CacheSound cache := by
    rcases hcache with rfl | rfl
    · exact cacheSound_disabled
    · exact cacheSound_empty
  have hmem : ∀ reference ∈ references.mentioned, reference ∈ references.types :=
    fun reference hmentioned =>
      (hasRow_of_mem_mentioned hsound h reference hmentioned).mem_types hsound h
  refine ⟨hmem, ?_⟩
  intro policy assembly hpasses reference hmentioned
  exact Policy.checkTypes_eq_nil_iff.mp hpasses reference (hmem reference hmentioned)

/-- A field of a type of `L` holds an array of a type that is nested in that one. -/
def nestedField : Metadata :=
  .ofTables [(.module, 1), (.typeRef, 2), (.memberRef, 1), (.assemblyRef, 1)]
    #[0, 0, 1, 0, 0, 0, 0, 0, 0, 0,
      6, 0, 3, 0, 0, 0,
      7, 0, 3, 0, 0, 0,
      9, 0, 3, 0, 1, 0,
      0, 0, 0, 0, 0, 0, 0, 0, 0, 0, 0, 0, 0, 0, 5, 0, 0, 0, 0, 0]
    #[0, 77, 0, 84, 0, 76, 0] #[0, 4, 6, 0x1d, 0x12, 9]

theorem access_nestedField :
    ∃ references, ((nestedField.references .inOrder).runOn Cache.disabled).1 = .ok references ∧
      references.mentioned.length = 3 ∧
      (∀ reference ∈ references.mentioned, reference ∈ references.types) ∧
      ∀ reference ∈ references.mentioned, (Policy.trustingPolicy.access reference).isSome := by
  let outer : TypeReference := .top "L" none "T"
  let inner : TypeReference := .nested (.referenced outer) none "T"
  let field : MemberRef :=
    .field (TableId.memberRef.token 1) (.referenced outer) "T" (.szArray (.referenced inner))
  have hmember : ((nestedField.memberReference 1).runOn Cache.disabled).1 = .ok (.kept field) := by
    have hkept : ((nestedField.memberReference 1).runOn Cache.disabled).1.toOption.bind
        Outcome.kept? = some field := by decide +kernel
    cases hresult : ((nestedField.memberReference 1).runOn Cache.disabled).1 with
    | error error => simp [hresult, Except.toOption] at hkept
    | ok outcome => cases outcome <;> simp_all [Except.toOption, Outcome.kept?]
  have hmembers : ((nestedField.memberReferencesIn .inOrder).runOn Cache.disabled).1 =
      .ok [(1, .kept field)] := by
    rw [settled_disabled.result_memberReferencesIn]
    refine mapM_eq_ok_iff.mpr (.cons ?_ .nil)
    rw [hmember]
    rfl
  have h : ((nestedField.references .inOrder).runOn Cache.disabled).1 =
      .ok ⟨[outer, inner], [field], [], []⟩ := by
    refine (references_eq_ok_iff cacheSound_disabled).mpr
      ⟨[.kept outer, .kept inner], [(1, .kept field)], [], [], rfl, hmembers, rfl, ?_⟩
    simp only [Outcome.inRowOrder, List.mergeSort_singleton]
    rfl
  obtain ⟨hmem, haccess⟩ := mem_types_of_mem_mentioned (.inl rfl) h
  exact ⟨_, h, rfl, hmem, haccess Policy.trustingPolicy "M" (by decide +kernel)⟩

end Metadata

end AssemblyGate
