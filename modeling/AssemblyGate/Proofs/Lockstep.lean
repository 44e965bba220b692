import Mathlib.Data.List.Forall2
import AssemblyGate.Signature.Decode

/-!
# Decoders in lockstep

Two decoders with resolvers of their own go through the same bytes in the same steps: no step
looks at the leaves, or at the types that are made of them.  Whatever relates them step by step
and is kept by composition relates what they make of a whole type or signature.
-/

namespace AssemblyGate

structure MethodSignature.Alike {τ τ' : Type} (types : τ → τ' → Prop)
    (signature : MethodSignature τ) (signature' : MethodSignature τ') : Prop where
  header : signature.header = signature'.header
  returnType : types signature.returnType signature'.returnType
  required : signature.required = signature'.required
  arity : signature.arity = signature'.arity
  parameters : List.Forall₂ types signature.parameters signature'.parameters

theorem MethodSignature.eq_of_alike {τ : Type} {signature signature' : MethodSignature τ}
    (h : signature.Alike Eq signature') : signature = signature' := by
  obtain ⟨hheader, hreturn, hrequired, harity, hparameters⟩ := h
  rw [List.forall₂_eq_eq_eq] at hparameters
  cases signature
  cases signature'
  simp_all only

structure SigType.Congruent {η η' : Type} (leaves : η → η' → Prop)
    (types : SigType η → SigType η' → Prop) : Prop where
  primitive : ∀ builtin, types (.primitive builtin) (.primitive builtin)
  pointer : ∀ {type type'}, types type type' → types (.pointer type) (.pointer type')
  byRef : ∀ {type type'}, types type type' → types (.byRef type) (.byRef type')
  handle : ∀ {leaf leaf'}, leaves leaf leaf' → types (.handle leaf) (.handle leaf')
  typeParameter : ∀ index, types (.typeParameter index) (.typeParameter index)
  methodParameter : ∀ index, types (.methodParameter index) (.methodParameter index)
  array : ∀ {type type'} (shape), types type type' → types (.array type shape) (.array type' shape)
  szArray : ∀ {type type'}, types type type' → types (.szArray type) (.szArray type')
  generic : ∀ {type type' arguments arguments'}, types type type' → arguments ≠ [] →
    List.Forall₂ types arguments arguments' →
      types (.generic type arguments) (.generic type' arguments')
  functionPointer : ∀ {signature : MethodSignature (SigType η)}
    {signature' : MethodSignature (SigType η')}, signature.Alike types signature' → types
      (.functionPointer signature.header signature.returnType signature.required
        signature.arity signature.parameters)
      (.functionPointer signature'.header signature'.returnType signature'.required
        signature'.arity signature'.parameters)
  modified : ∀ {leaf leaf' type type'} (required), leaves leaf leaf' → types type type' →
    types (.modified leaf type required) (.modified leaf' type' required)
  pinned : ∀ {type type'}, types type type' → types (.pinned type) (.pinned type')

theorem SigType.congruent_eq {η : Type} : @SigType.Congruent η η Eq Eq where
  primitive _ := rfl
  pointer := congrArg _
  byRef := congrArg _
  handle := congrArg _
  typeParameter _ := rfl
  methodParameter _ := rfl
  array _ := congrArg (SigType.array · _)
  szArray := congrArg _
  generic htype _ harguments := by
    rw [List.forall₂_eq_eq_eq] at harguments
    rw [htype, harguments]
  functionPointer h := by rw [MethodSignature.eq_of_alike h]
  modified _ hleaf htype := by rw [hleaf, htype]
  pinned := congrArg _

theorem SigType.congruent_any {η η' : Type} :
    @SigType.Congruent η η' (fun _ _ => True) fun _ _ => True := by
  constructor <;> intros <;> trivial

namespace Signature

abbrev Relation (σ σ' : Type) :=
  ⦃α α' : Type⦄ → (α → α' → Prop) → Decoder σ α → Decoder σ' α' → Prop

/-- A relation that holds of steps that read the same, and that composes. -/
structure Lockstep {σ σ' : Type} (related : Relation σ σ') : Prop where
  pure : ∀ {α α' : Type} {same : α → α' → Prop} {value : α} {value' : α'}, same value value' →
    related same (pure value) (pure value')
  throw : ∀ {α α' : Type} {same : α → α' → Prop} (error : Error),
    related same (throw error) (throw error)
  bind : ∀ {α α' β β' : Type} {same : α → α' → Prop} {same' : β → β' → Prop}
    {first : Decoder σ α} {first' : Decoder σ' α'} {next : α → Decoder σ β}
    {next' : α' → Decoder σ' β'}, related same first first' →
      (∀ value value', same value value' → related same' (next value) (next' value')) →
        related same' (first >>= next) (first' >>= next')
  byte : related Eq Decoder.byte Decoder.byte
  peek : related Eq Decoder.peek Decoder.peek
  number : related Eq Decoder.number Decoder.number

theorem Lockstep.forall {σ σ' ι : Type} {related : ι → Relation σ σ'}
    (h : ∀ index, Lockstep (related index)) :
    Lockstep fun _ _ same step step' => ∀ index, related index same step step' where
  pure hsame index := (h index).pure hsame
  throw error index := (h index).throw error
  bind hfirst hnext index :=
    (h index).bind (hfirst index) fun value value' hsame => hnext value value' hsame index
  byte index := (h index).byte
  peek index := (h index).peek
  number index := (h index).number

namespace Lockstep

variable {σ σ' α α' β β' τ τ' η η' : Type} {related : Relation σ σ'} {same : α → α' → Prop}
  {same' : β → β' → Prop} (h : Lockstep related)

include h

theorem after {first : Decoder σ α} {first' : Decoder σ' α} {next : α → Decoder σ β}
    {next' : α → Decoder σ' β'} (hfirst : related Eq first first')
    (hnext : ∀ value, related same' (next value) (next' value)) :
    related same' (first >>= next) (first' >>= next') := by
  refine h.bind hfirst ?_
  rintro value _ rfl
  exact hnext value

theorem map {step : Decoder σ α} {step' : Decoder σ' α'} {f : α → β} {f' : α' → β'}
    (hstep : related same step step')
    (hvalue : ∀ {value value'}, same value value' → same' (f value) (f' value')) :
    related same' (step >>= fun value => Pure.pure (f value))
      (step' >>= fun value => Pure.pure (f' value)) :=
  h.bind hstep fun _ _ hsame => h.pure (hvalue hsame)

theorem given (result : Except Error α) :
    related Eq (Fallible.ofExcept result) (Fallible.ofExcept result) := by
  cases result with
  | ok value => exact h.pure rfl
  | error error => exact h.throw error

theorem guarded {condition : Prop} [Decidable condition] {error : Error}
    {next : Unit → Decoder σ α} {next' : Unit → Decoder σ' α'}
    (hnext : ¬ condition → related same (next ()) (next' ())) :
    related same (if condition then MonadExcept.throw error >>= next else next ())
      (if condition then MonadExcept.throw error >>= next' else next' ()) := by
  split
  · exact h.throw error
  · next hnot => exact hnext hnot

theorem token : related Eq Decoder.token Decoder.token :=
  h.after h.number fun _ => h.given _

theorem times {item : Decoder σ α} {item' : Decoder σ' α'} (hitem : related same item item') :
    (count : Nat) → related
      (fun values values' => values.length = count ∧ List.Forall₂ same values values')
      (Decoder.times item count) (Decoder.times item' count)
  | 0 => h.pure ⟨rfl, .nil⟩
  | count + 1 => h.bind hitem fun _ _ hfirst => h.map (times hitem count) fun hothers =>
      ⟨congrArg (· + 1) hothers.1, .cons hfirst hothers.2⟩

theorem numbers (count : Nat) :
    related Eq (Decoder.times Decoder.number count) (Decoder.times Decoder.number count) := by
  have hnumbers : related Eq (Decoder.times Decoder.number count >>= Pure.pure)
      (Decoder.times Decoder.number count >>= Pure.pure) := by
    refine h.bind (h.times h.number count) ?_
    rintro values values' ⟨-, hvalues⟩
    rw [List.forall₂_eq_eq_eq] at hvalues
    exact h.pure hvalues
  rwa [bind_pure, bind_pure] at hnumbers

theorem arrayShape : related Eq Decoder.arrayShape Decoder.arrayShape := by
  refine h.after h.number fun rank => h.after h.number fun sizeCount => h.guarded fun _ => ?_
  refine h.after (h.numbers _) fun sizes => h.after h.number fun boundCount => ?_
  exact h.guarded fun _ => h.after (h.numbers _) fun lowerBounds => h.pure rfl

section

variable {types : τ → τ' → Prop} {type : Decoder σ τ} {type' : Decoder σ' τ'}
  (htype : related types type type')

include htype

theorem parameters (count : Nat) : (remaining required : Nat) →
    related (fun found found' => List.Forall₂ types found.1 found'.1 ∧ found.2 = found'.2)
      (Decoder.parameters type count remaining required)
      (Decoder.parameters type' count remaining required)
  | 0, required => h.pure ⟨.nil, rfl⟩
  | remaining + 1, required => by
      have hrest : ∀ required, related
          (fun found found' => List.Forall₂ types found.1 found'.1 ∧ found.2 = found'.2)
          (do
            let first ← type
            let others ← Decoder.parameters type count remaining required
            Pure.pure (first :: others.1, others.2))
          (do
            let first ← type'
            let others ← Decoder.parameters type' count remaining required
            Pure.pure (first :: others.1, others.2)) := fun required =>
        h.bind htype fun _ _ hfirst => h.map (parameters count remaining required)
          fun hothers => ⟨.cons hfirst hothers.1, hothers.2⟩
      refine h.after h.peek fun next => ?_
      split
      · split
        · exact h.throw _
        · exact h.after h.byte fun _ => h.after (h.pure rfl) hrest
      · exact h.after (h.pure rfl) hrest

theorem methodSignature : related (MethodSignature.Alike types) (Decoder.methodSignature type)
    (Decoder.methodSignature type') := by
  refine h.after h.byte fun header => h.guarded fun _ => ?_
  have hrest : ∀ arity, related (MethodSignature.Alike types)
      (do
        let count ← Decoder.number
        let returnType ← type
        let found ← Decoder.parameters type count count count
        Pure.pure ⟨⟨header⟩, returnType, found.2, arity, found.1⟩)
      (do
        let count ← Decoder.number
        let returnType ← type'
        let found ← Decoder.parameters type' count count count
        Pure.pure ⟨⟨header⟩, returnType, found.2, arity, found.1⟩) := fun arity =>
    h.after h.number fun count => h.bind htype fun _ _ hreturn =>
      h.map (h.parameters htype count count count) fun hfound =>
        ⟨rfl, hreturn, hfound.2, rfl, hfound.1⟩
  split
  · exact h.after h.number hrest
  · exact h.after (h.pure rfl) hrest

theorem fieldSignature :
    related types (Decoder.fieldSignature type) (Decoder.fieldSignature type') :=
  h.after h.byte fun _ => h.guarded fun _ => htype

end

section

variable {leaves : η → η' → Prop} {types : SigType η → SigType η' → Prop}
  (htypes : SigType.Congruent leaves types) {resolve : Resolver σ η} {resolve' : Resolver σ' η'}
  (hleaf : ∀ token mark, related leaves (Decoder.resolving (resolve token mark))
    (Decoder.resolving (resolve' token mark)))

include htypes hleaf

theorem exists_behind {type : Decoder σ (SigType η)} {type' : Decoder σ' (SigType η')}
    (htype : related types type type') :
    ∃ (behind : UInt8 → Decoder σ (SigType η)) (behind' : UInt8 → Decoder σ' (SigType η')),
      Decoder.typeBody resolve type = Decoder.byte >>= behind ∧
      Decoder.typeBody resolve' type' = Decoder.byte >>= behind' ∧
      ∀ lead, related types (behind lead) (behind' lead) := by
  refine ⟨_, _, rfl, rfl, fun lead => ?_⟩
  generalize Element.ofByte? lead = element
  rcases element with _ | element
  · exact h.throw _
  cases element with
  | primitive builtin => exact h.pure (htypes.primitive builtin)
  | pointer => exact h.map htype htypes.pointer
  | byRef => exact h.map htype htypes.byRef
  | handle mark => exact h.after h.token fun token => h.map (hleaf token mark) htypes.handle
  | typeParameter => exact h.after h.number fun index => h.pure (htypes.typeParameter index)
  | methodParameter => exact h.after h.number fun index => h.pure (htypes.methodParameter index)
  | array =>
      refine h.bind htype fun _ _ helement => ?_
      exact h.after h.arrayShape fun shape => h.pure (htypes.array shape helement)
  | szArray => exact h.map htype htypes.szArray
  | generic =>
      refine h.after h.peek fun next => h.guarded fun _ => h.bind htype fun _ _ hdefinition => ?_
      -- An instantiation without arguments was refused, so there are `count > 0` of them.
      refine h.after h.number fun count => h.guarded fun hcount => h.map (h.times htype count) ?_
      rintro arguments arguments' ⟨hlength, harguments⟩
      exact htypes.generic hdefinition (List.ne_nil_of_length_pos (by omega)) harguments
  | functionPointer => exact h.map (h.methodSignature htype) htypes.functionPointer
  | modifier required =>
      refine h.after h.token fun token => h.bind (hleaf token false) fun _ _ hmodifier => ?_
      exact h.map htype (htypes.modified required hmodifier)
  | pinned => exact h.map htype htypes.pinned

theorem typeBody {type : Decoder σ (SigType η)} {type' : Decoder σ' (SigType η')}
    (htype : related types type type') :
    related types (Decoder.typeBody resolve type) (Decoder.typeBody resolve' type') := by
  obtain ⟨behind, behind', hbody, hbody', hbehind⟩ := h.exists_behind htypes hleaf htype
  rw [hbody, hbody']
  exact h.after h.byte hbehind

/-- What is said of the limit, maybe with more levels on one side, is said of any levels. -/
theorem typeAt
    (hwithin : ∀ {step step'}, related types step step' →
      related types (Decoder.within step) (Decoder.within step')) (extra : Nat)
    (hlimit : related types (Decoder.typeAt resolve 0) (Decoder.typeAt resolve' extra)) :
    (levels : Nat) →
      related types (Decoder.typeAt resolve levels) (Decoder.typeAt resolve' (levels + extra))
  | 0 => by rwa [Nat.zero_add]
  | levels + 1 => by
      rw [Nat.add_right_comm]
      exact hwithin (h.typeBody htypes hleaf (typeAt hwithin extra hlimit levels))

end

end Lockstep

end Signature

end AssemblyGate
