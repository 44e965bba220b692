import AssemblyGate.Check
import AssemblyGate.Proofs.Decoding

/-!
# What resolving makes of the cache

All that is read of an assembly touches the cache only through the references that it
resolves.  So if these cannot tell two caches apart, then nothing that is read can.
-/

namespace AssemblyGate

open Fallible

theorem Fallible.Uniform.modelled {α : Type} {excuse : Excuse} {related : Cache → Cache → Prop}
    {action : Resolve α} (hstrict : excuse.Strict) (h : Uniform excuse related action) :
    Uniform excuse related action.modelled := by
  intro left right hrelated
  have hruns := h left right hrelated
  simp only [Resolve.modelled, runOn] at hruns ⊢
  generalize action left = run at hruns
  generalize action right = run' at hruns
  cases hruns with
  | ok hsame hafter =>
      cases hsame
      exact .ok rfl hafter
  | @error error _ _ hafter =>
      cases error with
      | unmodelled cause => exact .ok rfl hafter
      | _ => exact .error hafter
  | @excused error _ _ hexcuse =>
      cases error with
      | unmodelled cause => exact absurd hexcuse (hstrict cause)
      | _ => exact .excused hexcuse
  | @excusedOther error _ _ hexcuse =>
      cases error with
      | unmodelled cause => exact absurd hexcuse (hstrict cause)
      | _ => exact .excusedOther hexcuse

theorem Resolve.modelled_eq_ok {α : Type} {action : Resolve α} {cache : Cache}
    {outcome : Outcome α} (h : (action.modelled.runOn cache).1 = .ok outcome) :
    (∃ value, (action.runOn cache).1 = .ok value ∧ outcome = .kept value) ∨
      ∃ cause, (action.runOn cache).1 = .error (.unmodelled cause) ∧
        outcome = .refused (.unmodelled cause) := by
  simp only [Resolve.modelled, runOn] at h ⊢
  rcases hrun : action cache with ⟨result, after⟩
  rw [hrun] at h
  cases result with
  | ok value =>
      cases h
      exact .inl ⟨value, rfl, rfl⟩
  | error error =>
      cases error with
      | unmodelled cause =>
          cases h
          exact .inr ⟨cause, rfl, rfl⟩
      | _ => cases h

theorem Fallible.Ensures.modelled {α : Type} {inv : Cache → Prop} {post : α → Prop}
    {action : Resolve α} (h : Ensures inv post action) :
    Ensures inv (Outcome.Keeps post) action.modelled := by
  intro cache hinv
  obtain ⟨hcache, hvalue⟩ := h cache hinv
  constructor
  · simp only [Resolve.modelled, runOn] at hcache ⊢
    rcases hrun : action cache with ⟨error | value, after⟩ <;> rw [hrun] at hcache
    · cases error <;> exact hcache
    · exact hcache
  · intro outcome houtcome
    rcases Resolve.modelled_eq_ok houtcome with ⟨value, hresult, rfl⟩ | ⟨cause, -, rfl⟩
    · exact Outcome.keeps_kept.mpr (hvalue value hresult)
    · exact Outcome.keeps_refused

namespace Metadata

variable {metadata : Metadata} {excuse : Excuse} {related : Cache → Cache → Prop}

theorem uniform_specification {leaf : Signature.Resolver Cache TypeExpr}
    (h : ∀ token mark, Uniform excuse related (leaf token mark)) (rid : Nat) :
    Uniform excuse related (metadata.specification rid leaf) := by
  refine .bind (.ofExcept _) fun row => .bind (.ofExcept _) fun blob => ?_
  exact .bind (Signature.Decoder.uniform_type h _) fun type => .pure rfl

section

variable (h : ∀ rid, Uniform excuse related (metadata.typeReference rid))

include h

theorem uniform_resolveAt (levels : Nat) (token : Token) :
    Uniform excuse related (metadata.resolveAt levels token) := by
  induction levels generalizing token with
  | zero =>
      rw [resolveAt]
      split
      · exact .ofExcept _
      · exact .bind (h token.row) fun _ => .pure rfl
      · exact .throw _
      · exact .throw _
  | succ levels ih =>
      rw [resolveAt]
      split
      · exact .ofExcept _
      · exact .bind (h token.row) fun _ => .pure rfl
      · exact uniform_specification (fun token _ => ih token) token.row
      · exact .throw _

theorem uniform_resolve (token : Token) : Uniform excuse related (metadata.resolve token) :=
  uniform_resolveAt h nestingLimit token

theorem uniform_memberOfSignature (token : Token) (parent : TypeExpr) (name : String)
    (signature : Bytes) :
    Uniform excuse related (metadata.memberOfSignature token parent name signature) := by
  have hleaf : ∀ token mark, Uniform excuse related (metadata.leaf token mark) :=
    fun token _ => uniform_resolve h token
  unfold memberOfSignature
  split
  · exact .throw _
  · refine .ite (.bind ?_ fun type => .pure rfl) (.bind ?_ fun method => .pure rfl)
    · exact Signature.Decoder.uniform_field hleaf _
    · exact Signature.Decoder.uniform_method hleaf _

variable (hstrict : excuse.Strict)

include hstrict

theorem uniform_memberParent (row : MemberRefRow) (name : String) :
    Uniform excuse related (metadata.memberParent row name) := by
  have hresolve := (uniform_resolve h row.parent.token).modelled hstrict
  unfold memberParent
  split
  · exact hresolve
  · exact hresolve
  · refine .bind hresolve fun outcome => ?_
    split <;> exact .pure rfl
  · exact .pure rfl
  · exact .pure rfl
  · exact .pure rfl

theorem uniform_memberReference (rid : Nat) :
    Uniform excuse related (metadata.memberReference rid) := by
  refine .bind (.ofExcept _) fun row => .bind (.ofExcept _) fun name => ?_
  refine .bind (uniform_memberParent h hstrict row name) fun outcome => ?_
  split
  · exact .pure rfl
  · exact .pure rfl
  · exact .bind (.ofExcept _) fun signature =>
      (uniform_memberOfSignature h _ _ _ _).modelled hstrict

theorem uniform_memberReferencesIn (schedule : Schedule) :
    Uniform excuse related (metadata.memberReferencesIn schedule) :=
  .mapM fun rid _ => .bind (uniform_memberReference h hstrict rid) fun _ => .pure rfl

theorem uniform_inheritedFrom (index : CodedIndex) :
    Uniform excuse related (metadata.inheritedFrom index) :=
  .ite (.pure rfl) ((uniform_resolve h index.token).modelled hstrict)

theorem uniform_inheritedType (implementations : List (Nat × CodedIndex)) (rid : Nat) :
    Uniform excuse related (metadata.inheritedType implementations rid) := by
  refine .bind (.ofExcept _) fun row => ?_
  refine .bind (uniform_inheritedFrom h hstrict row.base) fun base => ?_
  refine .bind (.mapM fun interface _ => uniform_inheritedFrom h hstrict interface.2)
    fun interfaces => ?_
  exact .bind (.ofExcept _) fun type => .pure rfl

theorem uniform_inheritedTypes : Uniform excuse related metadata.inheritedTypes := by
  refine .bind (.ofExcept _) fun implementations => ?_
  exact .bind (.mapM fun rid _ => uniform_inheritedType h hstrict implementations rid)
    fun _ => .pure rfl

theorem uniform_typeReferences : Uniform excuse related metadata.typeReferences :=
  .mapM fun rid _ => (h rid).modelled hstrict

theorem uniform_references (schedule : Schedule) :
    Uniform excuse related (metadata.references schedule) := by
  refine .bind (uniform_typeReferences h hstrict) fun types => ?_
  refine .bind (uniform_memberReferencesIn h hstrict schedule) fun members => ?_
  exact .bind (uniform_inheritedTypes h hstrict) fun inherited => .pure rfl

end

end Metadata

end AssemblyGate
