import AssemblyGate.Proofs.Fallible
import AssemblyGate.Proofs.Lockstep

/-!
# What a decoder makes of its resolver

A decoder touches the state of its resolver only through the resolver.  So two decoders at the
same place of the same blob come to like results whenever their resolvers do.  In particular a
decoder cannot tell states apart that its resolver cannot tell apart.
-/

namespace AssemblyGate.Signature

open Fallible

def SamePlace {σ σ' : Type} (states : σ → σ' → Prop) (left : Cursor × σ)
    (right : Cursor × σ') : Prop :=
  left.1 = right.1 ∧ states left.2 right.2

namespace Decoder

variable {σ σ' η η' α α' : Type} {excuse excuse' : Excuse} {states : σ → σ' → Prop}
  {same : α → α' → Prop}

/-! ## Two decoders over the same bytes -/

/-- Places with the same bytes left, which stay related while both take the same bytes away. -/
structure ReadAlike (places : Cursor × σ → Cursor × σ' → Prop) : Prop where
  rest : ∀ {left right}, places left right → left.1.rest = right.1.rest
  advance : ∀ {left right}, places left right → ∀ rest,
    places ({ left.1 with rest }, left.2) ({ right.1 with rest }, right.2)

theorem ReadAlike.read {places : Cursor × σ → Cursor × σ' → Prop} (h : ReadAlike places)
    (parse : List UInt8 → Except Error α × List UInt8) :
    Alike excuse excuse' places Eq (Decoder.read parse) (Decoder.read parse) := by
  intro left right hplaces
  have hafter := h.advance hplaces
  simp only [runOn, Decoder.read, h.rest hplaces]
  rcases parse right.1.rest with ⟨_ | value, rest⟩
  · exact .error (hafter rest)
  · exact .ok rfl (hafter rest)

theorem ReadAlike.lockstep {places : Cursor × σ → Cursor × σ' → Prop} (h : ReadAlike places)
    (excuse excuse' : Excuse) :
    Lockstep fun _ _ same step step' => Alike excuse excuse' places same step step' where
  pure := .pure
  throw := .throw
  bind := .bind
  byte := h.read _
  peek := h.read _
  number := h.read _

theorem readAlike_samePlace (states : σ → σ' → Prop) : ReadAlike (SamePlace states) where
  rest hplaces := congrArg Cursor.rest hplaces.1
  advance hplaces rest := ⟨congrArg (fun cursor : Cursor => { cursor with rest }) hplaces.1,
    hplaces.2⟩

theorem alike_resolving {action : Fallible σ α} {action' : Fallible σ' α'}
    (h : Alike excuse excuse' states same action action') :
    Alike excuse excuse' (SamePlace states) same (resolving action) (resolving action') := by
  rintro ⟨cursor, state⟩ ⟨_, state'⟩ ⟨rfl, hstates⟩
  exact (h state state' hstates).imp id fun hafter => ⟨rfl, hafter⟩

def enter (place : Cursor × σ) : Cursor × σ :=
  ({ place.1 with depth := place.1.depth + 1 }, place.2)

def leave (place : Cursor × σ) : Cursor × σ :=
  ({ place.1 with depth := place.1.depth - 1 }, place.2)

@[simp] theorem runOn_within (step : Decoder σ α) (place : Cursor × σ) :
    (within step).runOn place =
      ((step.runOn (enter place)).1, leave (step.runOn (enter place)).2) :=
  rfl

@[simp] theorem runOn_withLevels (step : Nat → Decoder σ α) (place : Cursor × σ) :
    (withLevels step).runOn place = (step (nestingLimit - place.1.depth)).runOn place := rfl

theorem alike_within {step : Decoder σ α} {step' : Decoder σ' α'}
    (h : Alike excuse excuse' (SamePlace states) same step step') :
    Alike excuse excuse' (SamePlace states) same (within step) (within step') := by
  rintro ⟨cursor, state⟩ ⟨_, state'⟩ ⟨rfl, hstates⟩
  have hleave : ∀ {left right}, SamePlace states left right →
      SamePlace states (leave left) (leave right) :=
    fun hplaces => ⟨by simp only [leave, hplaces.1], hplaces.2⟩
  rw [runOn_within, runOn_within]
  exact (h (enter (cursor, state)) (enter (cursor, state')) ⟨rfl, hstates⟩).imp id hleave

theorem alike_withLevels {step : Nat → Decoder σ α} {step' : Nat → Decoder σ' α'}
    (h : ∀ levels, Alike excuse excuse' (SamePlace states) same (step levels) (step' levels)) :
    Alike excuse excuse' (SamePlace states) same (withLevels step) (withLevels step') := by
  rintro ⟨cursor, state⟩ ⟨_, state'⟩ ⟨rfl, hstates⟩
  exact h (nestingLimit - cursor.depth) (cursor, state) (cursor, state') ⟨rfl, hstates⟩

theorem alike_onBlob {step : Decoder σ α} {step' : Decoder σ' α'}
    (h : Alike excuse excuse' (SamePlace states) same step step') (blob : List UInt8) :
    Alike excuse excuse' states same (onBlob step blob) (onBlob step' blob) := by
  intro state state' hstates
  exact (h (Cursor.start blob, state) (Cursor.start blob, state') ⟨rfl, hstates⟩).imp id And.right

section

variable {leaves : η → η' → Prop} {types : SigType η → SigType η' → Prop}
  (htypes : SigType.Congruent leaves types) {resolve : Resolver σ η} {resolve' : Resolver σ' η'}
  (hresolve : ∀ token mark,
    Alike excuse excuse' states leaves (resolve token mark) (resolve' token mark))

include htypes hresolve

theorem alike_typeAt (levels : Nat) :
    Alike excuse excuse' (SamePlace states) types (typeAt resolve levels)
      (typeAt resolve' levels) := by
  refine ((readAlike_samePlace states).lockstep excuse excuse').typeAt htypes
    (fun token mark => alike_resolving (hresolve token mark)) alike_within 0 ?_ levels
  rintro ⟨cursor, state⟩ ⟨_, state'⟩ ⟨rfl, hstates⟩
  exact .error ⟨rfl, hstates⟩

theorem alike_type :
    Alike excuse excuse' (SamePlace states) types (type resolve) (type resolve') :=
  alike_withLevels (alike_typeAt htypes hresolve)

theorem alike_field :
    Alike excuse excuse' (SamePlace states) types (field resolve) (field resolve') :=
  alike_withLevels fun levels =>
    ((readAlike_samePlace states).lockstep excuse excuse').fieldSignature
      (alike_typeAt htypes hresolve levels)

theorem alike_method :
    Alike excuse excuse' (SamePlace states) (MethodSignature.Alike types) (method resolve)
      (method resolve') :=
  alike_withLevels fun levels =>
    ((readAlike_samePlace states).lockstep excuse excuse').methodSignature
      (alike_typeAt htypes hresolve levels)

end

/-! ## States that cannot be told apart -/

section

variable {related : σ → σ → Prop} {resolve : Resolver σ η}
  (hresolve : ∀ token mark, Uniform excuse related (resolve token mark)) (blob : List UInt8)

include hresolve

theorem uniform_type : Uniform excuse related (onBlob (type resolve) blob) :=
  alike_onBlob (alike_type SigType.congruent_eq hresolve) blob

theorem uniform_field : Uniform excuse related (onBlob (field resolve) blob) :=
  alike_onBlob (alike_field SigType.congruent_eq hresolve) blob

theorem uniform_method : Uniform excuse related (onBlob (method resolve) blob) :=
  (alike_onBlob (alike_method SigType.congruent_eq hresolve) blob).mono MethodSignature.eq_of_alike

end

end Decoder

end AssemblyGate.Signature
