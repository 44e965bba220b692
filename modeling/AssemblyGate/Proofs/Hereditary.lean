import AssemblyGate.Proofs.Leaves
import AssemblyGate.Proofs.Resolution
import AssemblyGate.Proofs.Scopes

/-!
# What holds of all types that are read

Every type that is read of an assembly is a definition, a reference, or built by a
signature over such types.  A property that all three have is hereditary: it holds of
every type of every member and of every base, at whatever depth of specifications and
under whatever cache it was resolved, as long as the cache does not lie.
-/

namespace AssemblyGate

open Fallible

def MemberRef.types : MemberRef → List TypeExpr
  | .field _ parent _ type => [parent, type]
  | .method _ parent _ returnType parameters _ => parent :: returnType :: parameters

def InheritedType.bases (inherited : InheritedType) : List TypeExpr :=
  inherited.base.toList ++ inherited.interfaces

inductive TypeExpr.IsDefinition : TypeExpr → Prop
  | defined {ns : Option String} {name : String} : IsDefinition (.defined ns name)
  | definedIn {enclosing : TypeExpr} {ns : Option String} {name : String}
      (henclosing : IsDefinition enclosing) : IsDefinition (.definedIn enclosing ns name)

namespace Metadata

variable {metadata : Metadata} {p : TypeExpr → Prop}

theorem isDefinition_of_typeDefinitionIn {levels rid : Nat} {chain : List Nat} {type : TypeExpr}
    (h : metadata.typeDefinitionIn levels chain rid = .ok type) : type.IsDefinition := by
  induction levels generalizing chain rid type with
  | zero =>
      rw [typeDefinitionIn.eq_def] at h
      dsimp only at h
      split at h <;> cases h
  | succ levels ih =>
      rw [typeDefinitionIn.eq_def] at h
      dsimp only at h
      split at h
      · cases h
      · obtain ⟨row, -, h⟩ := bind_eq_ok_iff.mp h
        split at h
        · obtain ⟨name, -, h⟩ := bind_eq_ok_iff.mp h
          obtain ⟨ns, -, h⟩ := bind_eq_ok_iff.mp h
          cases h
          exact .defined
        · obtain ⟨outer, houter, h⟩ := bind_eq_ok_iff.mp h
          obtain ⟨name, -, h⟩ := bind_eq_ok_iff.mp h
          obtain ⟨ns, -, h⟩ := bind_eq_ok_iff.mp h
          cases h
          exact .definedIn (ih houter)

/-- All definitions and references have a property, and signatures over types that have it. -/
structure Hereditary (metadata : Metadata) (p : TypeExpr → Prop) : Prop where
  definition : ∀ rid type, metadata.typeDefinition rid = .ok type → p type
  reference : ∀ rows rid reference, metadata.Refers rows rid reference → p (.referenced reference)
  signature : ∀ type : SigType TypeExpr, type.Over p → p type.toTypeExpr

namespace Hereditary

variable (h : metadata.Hereditary p)

include h

/-! ## Resolving -/

theorem ensures_typeDefinition (rid : Nat) :
    Ensures metadata.CacheSound p (Fallible.ofExcept (metadata.typeDefinition rid)) :=
  .ofExcept (h.definition rid)

theorem ensures_typeReference (rid : Nat) :
    Ensures metadata.CacheSound (fun reference => p (.referenced reference))
      (metadata.typeReference rid) := by
  intro cache hcache
  obtain ⟨hafter, hrefers⟩ := (referenceRun metadata rid cache).sound hcache
  refine ⟨hafter, ?_⟩
  intro reference hreference
  obtain ⟨rows, hrow⟩ := hrefers hreference
  exact h.reference rows rid reference hrow

theorem ensures_specification {leaf : Signature.Resolver Cache TypeExpr}
    (hleaf : ∀ token mark, Ensures metadata.CacheSound p (leaf token mark)) (rid : Nat) :
    Ensures metadata.CacheSound p (metadata.specification rid leaf) := by
  refine .bind (.any _) fun row _ => .bind (.any _) fun blob _ => ?_
  exact .bind (Signature.Decoder.ensures_type hleaf _)
    fun type htype => .pure (h.signature type htype)

theorem ensures_resolveAt (levels : Nat) (token : Token) :
    Ensures metadata.CacheSound p (metadata.resolveAt levels token) := by
  -- The tokens inside of a specification are resolved one level below it.
  induction levels generalizing token with
  | zero =>
      rw [resolveAt]
      split
      · exact h.ensures_typeDefinition token.row
      · exact .bind (h.ensures_typeReference token.row) fun _ hreference => .pure hreference
      · exact .throw _
      · exact .throw _
  | succ levels ih =>
      rw [resolveAt]
      split
      · exact h.ensures_typeDefinition token.row
      · exact .bind (h.ensures_typeReference token.row) fun _ hreference => .pure hreference
      · exact h.ensures_specification (fun token _ => ih token) token.row
      · exact .throw _

theorem ensures_resolve (token : Token) :
    Ensures metadata.CacheSound p (metadata.resolve token) :=
  h.ensures_resolveAt nestingLimit token

/-! ## Members -/

theorem ensures_memberParent (row : MemberRefRow) (name : String) :
    Ensures metadata.CacheSound (Outcome.Keeps p) (metadata.memberParent row name) := by
  have hresolve := (h.ensures_resolve row.parent.token).modelled
  unfold memberParent
  split
  · exact hresolve
  · exact hresolve
  · refine .bind hresolve fun outcome houtcome => ?_
    split
    · refine .pure ?_
      split
      · exact Outcome.keeps_skipped
      · exact houtcome
    · exact .pure houtcome
  · exact .pure Outcome.keeps_refused
  · exact .pure Outcome.keeps_refused
  · exact .pure Outcome.keeps_refused

theorem ensures_memberOfSignature (token : Token) {parent : TypeExpr} (hparent : p parent)
    (name : String) (signature : Bytes) :
    Ensures metadata.CacheSound (fun member => ∀ type ∈ member.types, p type)
      (metadata.memberOfSignature token parent name signature) := by
  have hleaf : ∀ token mark, Ensures metadata.CacheSound p (metadata.leaf token mark) :=
    fun token _ => h.ensures_resolve token
  unfold memberOfSignature
  split
  · exact .throw _
  · refine .ite ?_ fun _ => ?_
    · refine .bind (Signature.Decoder.ensures_field hleaf _)
        fun type htype => .pure ?_
      simpa [MemberRef.types] using ⟨hparent, h.signature type htype⟩
    · refine .bind (Signature.Decoder.ensures_method hleaf _)
        fun method hmethod => .pure ?_
      have hparameters : ∀ parameter ∈ method.parameters, p parameter.toTypeExpr :=
        fun parameter hparameter => h.signature parameter (hmethod.parameters parameter hparameter)
      simpa [MemberRef.types] using
        ⟨hparent, h.signature _ hmethod.returnType, hparameters⟩

theorem ensures_memberReference (rid : Nat) :
    Ensures metadata.CacheSound (Outcome.Keeps fun member => ∀ type ∈ member.types, p type)
      (metadata.memberReference rid) := by
  refine .bind (.any _) fun row _ => .bind (.any _) fun name _ => ?_
  refine .bind (h.ensures_memberParent row name) fun outcome houtcome => ?_
  split
  · exact .pure Outcome.keeps_refused
  · exact .pure Outcome.keeps_skipped
  · refine .bind (.any _) fun signature _ => .modelled ?_
    exact h.ensures_memberOfSignature _ (Outcome.keeps_kept.mp houtcome) _ _

theorem ensures_memberReferencesIn (schedule : Schedule) :
    Ensures metadata.CacheSound
      (fun found => ∀ member ∈ Outcome.keptOf (Outcome.inRowOrder found),
        ∀ type ∈ member.types, p type)
      (metadata.memberReferencesIn schedule) := by
  have hrow : ∀ rid, Ensures metadata.CacheSound
      (fun found => found.2.Keeps fun member => ∀ type ∈ member.types, p type)
      (do pure (rid, ← metadata.memberReference rid)) :=
    fun rid => .bind (h.ensures_memberReference rid) fun _ houtcome => .pure houtcome
  refine .mono (.mapM fun rid _ => hrow rid) fun found hfound => ?_
  rw [Outcome.forall_mem_keptOf_iff]
  intro outcome houtcome
  simp only [Outcome.inRowOrder, List.mem_map, List.mem_mergeSort] at houtcome
  obtain ⟨⟨rid, outcome⟩, hmem, rfl⟩ := houtcome
  exact hfound (rid, outcome) hmem

/-! ## Bases -/

theorem ensures_inheritedFrom (index : CodedIndex) :
    Ensures metadata.CacheSound (Outcome.Keeps p) (metadata.inheritedFrom index) :=
  .ite (.pure Outcome.keeps_skipped) fun _ => (h.ensures_resolve index.token).modelled

theorem ensures_inheritedType (implementations : List (Nat × CodedIndex)) (rid : Nat) :
    Ensures metadata.CacheSound (fun found => ∀ type ∈ found.1.bases, p type)
      (metadata.inheritedType implementations rid) := by
  refine .bind (.any _) fun row _ => .bind (h.ensures_inheritedFrom row.base) fun base hbase => ?_
  refine .bind (.mapM fun interface _ => h.ensures_inheritedFrom interface.2)
    fun interfaces hinterfaces => .bind (.any _) fun type _ => .pure ?_
  rw [InheritedType.bases, List.forall_mem_append]
  refine ⟨?_, Outcome.forall_mem_keptOf_iff.mpr hinterfaces⟩
  intro type htype
  exact hbase type (Option.mem_toList.mp htype)

theorem ensures_inheritedTypes :
    Ensures metadata.CacheSound
      (fun found => ∀ inherited ∈ found.1, ∀ type ∈ inherited.bases, p type)
      metadata.inheritedTypes := by
  refine .bind (.any _) fun implementations _ => ?_
  refine .bind (.mapM fun rid _ => h.ensures_inheritedType implementations rid)
    fun found hfound => .pure ?_
  exact List.forall_mem_map.mpr hfound

end Hereditary

end Metadata

end AssemblyGate
