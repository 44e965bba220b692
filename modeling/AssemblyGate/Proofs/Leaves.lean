import AssemblyGate.Proofs.Decoding

/-!
# The leaves of what is decoded

A decoder gets its leaves from its resolver and from nowhere else.  So what the resolver
ensures of every leaf that it gives holds of all leaves of a decoded tree, and an
invariant of the resolver's state is kept, wherever the blob ends or fails.
-/

namespace AssemblyGate

open Fallible

/--
A tree as it can be decoded: all its leaves have a property, modifiers included, and every
instantiation has arguments.
-/
inductive SigType.Over {η : Type} (p : η → Prop) : SigType η → Prop
  | primitive {builtin : Primitive} : Over p (.primitive builtin)
  | pointer {element : SigType η} (helement : Over p element) : Over p (.pointer element)
  | byRef {element : SigType η} (helement : Over p element) : Over p (.byRef element)
  | handle {leaf : η} (hleaf : p leaf) : Over p (.handle leaf)
  | typeParameter {index : Nat} : Over p (.typeParameter index)
  | methodParameter {index : Nat} : Over p (.methodParameter index)
  | array {element : SigType η} {shape : ArrayShape} (helement : Over p element) :
      Over p (.array element shape)
  | szArray {element : SigType η} (helement : Over p element) : Over p (.szArray element)
  | generic {definition : SigType η} {arguments : List (SigType η)}
      (hdefinition : Over p definition) (hnonempty : arguments ≠ [])
      (harguments : ∀ argument ∈ arguments, Over p argument) :
      Over p (.generic definition arguments)
  | functionPointer {header : SignatureHeader} {returnType : SigType η} {required arity : Nat}
      {parameters : List (SigType η)} (hreturn : Over p returnType)
      (hparameters : ∀ parameter ∈ parameters, Over p parameter) :
      Over p (.functionPointer header returnType required arity parameters)
  | modified {modifier : η} {underlying : SigType η} {required : Bool} (hmodifier : p modifier)
      (hunderlying : Over p underlying) : Over p (.modified modifier underlying required)
  | pinned {element : SigType η} (helement : Over p element) : Over p (.pinned element)

structure MethodSignature.All {τ : Type} (p : τ → Prop) (signature : MethodSignature τ) : Prop where
  returnType : p signature.returnType
  parameters : ∀ parameter ∈ signature.parameters, p parameter

theorem eq_of_forall₂_only {τ : Type} {p : τ → Prop} {items items' : List τ}
    (h : List.Forall₂ (Only p) items items') : items = items' ∧ ∀ item ∈ items, p item := by
  induction h with
  | nil => simp
  | cons hfirst _ ih =>
      obtain ⟨rfl, hfirst⟩ := hfirst
      obtain ⟨rfl, hothers⟩ := ih
      exact ⟨rfl, List.forall_mem_cons.mpr ⟨hfirst, hothers⟩⟩

theorem MethodSignature.eq_of_alike_only {τ : Type} {p : τ → Prop}
    {signature signature' : MethodSignature τ} (h : signature.Alike (Only p) signature') :
    Only (MethodSignature.All p) signature signature' := by
  obtain ⟨hheader, ⟨hreturn, hp⟩, hrequired, harity, hparameters⟩ := h
  obtain ⟨heq, hall⟩ := eq_of_forall₂_only hparameters
  have hsame : signature = signature' :=
    MethodSignature.eq_of_alike ⟨hheader, hreturn, hrequired, harity, by simp [heq]⟩
  exact ⟨hsame, hp, hall⟩

theorem SigType.congruent_over {η : Type} (p : η → Prop) :
    SigType.Congruent (Only p) (Only (SigType.Over p)) where
  primitive _ := ⟨rfl, .primitive⟩
  pointer h := ⟨congrArg _ h.1, .pointer h.2⟩
  byRef h := ⟨congrArg _ h.1, .byRef h.2⟩
  handle h := ⟨congrArg _ h.1, .handle h.2⟩
  typeParameter _ := ⟨rfl, .typeParameter⟩
  methodParameter _ := ⟨rfl, .methodParameter⟩
  array _ h := ⟨congrArg (SigType.array · _) h.1, .array h.2⟩
  szArray h := ⟨congrArg _ h.1, .szArray h.2⟩
  generic h hnonempty harguments := by
    obtain ⟨rfl, hall⟩ := eq_of_forall₂_only harguments
    exact ⟨congrArg (SigType.generic · _) h.1, .generic h.2 hnonempty hall⟩
  functionPointer h := by
    obtain ⟨rfl, hall⟩ := MethodSignature.eq_of_alike_only h
    exact ⟨rfl, .functionPointer hall.returnType hall.parameters⟩
  modified _ hleaf h := by
    obtain ⟨rfl, hleaf⟩ := hleaf
    obtain ⟨rfl, h⟩ := h
    exact ⟨rfl, .modified hleaf h⟩
  pinned h := ⟨congrArg _ h.1, .pinned h.2⟩

namespace Signature.Decoder

variable {σ η : Type} {inv : σ → Prop} {p : η → Prop} {resolve : Resolver σ η}
  (hresolve : ∀ token mark, Ensures inv p (resolve token mark)) (blob : List UInt8)

include hresolve

theorem ensures_type : Ensures inv (SigType.Over p) (onBlob (type resolve) blob) :=
  ensures_iff_alike.mpr <| alike_onBlob (alike_type (SigType.congruent_over p) fun token mark =>
    ensures_iff_alike.mp (hresolve token mark)) blob

theorem ensures_field : Ensures inv (SigType.Over p) (onBlob (field resolve) blob) :=
  ensures_iff_alike.mpr <| alike_onBlob (alike_field (SigType.congruent_over p) fun token mark =>
    ensures_iff_alike.mp (hresolve token mark)) blob

theorem ensures_method :
    Ensures inv (MethodSignature.All (SigType.Over p)) (onBlob (method resolve) blob) := by
  have hmethod := alike_onBlob (alike_method (SigType.congruent_over p) fun token mark =>
    ensures_iff_alike.mp (hresolve token mark)) blob
  exact ensures_iff_alike.mpr (hmethod.mono MethodSignature.eq_of_alike_only)

end Signature.Decoder

end AssemblyGate
