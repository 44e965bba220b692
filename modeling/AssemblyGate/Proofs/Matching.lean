import Mathlib.Data.List.Forall2
import AssemblyGate.TypeExpr.Match
import AssemblyGate.TypeExpr.Spelling

/-!
# What matching means

`TypeExpr.Matches` gives the rules by which two types agree, one for each pair of shapes.
`TypeExpr.agrees` decides it.  Types that match are spelled the same way.
-/

namespace AssemblyGate

namespace TypeExpr

/-! ## The rules -/

inductive Matches : TypeExpr → TypeExpr → Prop
  | modifiedLeft {underlying modifier other : TypeExpr} {required : Bool}
      (h : Matches underlying other) : Matches (.modified underlying modifier required) other
  | modifiedRight {type underlying modifier : TypeExpr} {required : Bool}
      (h : Matches type underlying) : Matches type (.modified underlying modifier required)
  | primitive {builtin : Primitive} : Matches (.primitive builtin) (.primitive builtin)
  | referenced {reference : TypeReference} :
      Matches (.referenced reference) (.referenced reference)
  | parsed {ns : Option String} {name : String} : Matches (.parsed ns name) (.parsed ns name)
  | referencedParsed {assembly : String} {ns : Option String} {name : String} :
      Matches (.referenced (.top assembly ns name)) (.parsed ns name)
  | parsedReferenced {assembly : String} {ns : Option String} {name : String} :
      Matches (.parsed ns name) (.referenced (.top assembly ns name))
  | parsedIn {parent parent' : TypeExpr} {ns : Option String} {name : String}
      (h : Matches parent parent') : Matches (.parsedIn parent ns name) (.parsedIn parent' ns name)
  | nestedParsedIn {scope parent : TypeExpr} {ns : Option String} {name : String}
      (h : Matches scope parent) :
      Matches (.referenced (.nested scope ns name)) (.parsedIn parent ns name)
  | parsedInNested {parent scope : TypeExpr} {ns : Option String} {name : String}
      (h : Matches parent scope) :
      Matches (.parsedIn parent ns name) (.referenced (.nested scope ns name))
  | generic {definition definition' : TypeExpr} {arguments arguments' : List TypeExpr}
      (hdefinition : Matches definition definition')
      (hlength : arguments.length = arguments'.length)
      (harguments : ∀ pair ∈ arguments.zip arguments', Matches pair.1 pair.2) :
      Matches (.generic definition arguments) (.generic definition' arguments')
  | szArray {element element' : TypeExpr} (h : Matches element element') :
      Matches (.szArray element) (.szArray element')
  | pointer {element element' : TypeExpr} (h : Matches element element') :
      Matches (.pointer element) (.pointer element')
  | byRef {element element' : TypeExpr} (h : Matches element element') :
      Matches (.byRef element) (.byRef element')
  | typeParameter {index : Nat} : Matches (.typeParameter index) (.typeParameter index)
  | methodParameter {index : Nat} : Matches (.methodParameter index) (.methodParameter index)

/-! ## Modifiers -/

@[simp] theorem unmodified_unmodified (type : TypeExpr) :
    type.unmodified.unmodified = type.unmodified := by
  cases type with
  | modified underlying modifier required => exact unmodified_unmodified underlying
  | _ => rfl

@[simp] theorem agrees_unmodified (type other : TypeExpr) :
    type.agrees other.unmodified = type.agrees other := by
  cases type with
  | modified underlying modifier required => exact agrees_unmodified underlying other
  | _ => simp only [agrees, unmodified_unmodified]

theorem Matches.of_unmodified {type other : TypeExpr} (h : Matches type other.unmodified) :
    Matches type other := by
  cases other with
  | modified underlying modifier required => exact .modifiedRight (of_unmodified h)
  | _ => exact h

end TypeExpr

/-! ## The rules decide -/

mutual
theorem TypeReference.matches_of_agrees {reference : TypeReference} {other : TypeExpr}
    (h : reference.agrees other = true) : TypeExpr.Matches (.referenced reference) other := by
  unfold TypeReference.agrees at h
  split at h
  · cases beq_iff_eq.mp h
    exact .referenced
  · simp only [Bool.and_eq_true, beq_iff_eq] at h
    obtain ⟨rfl, rfl⟩ := h
    exact .referencedParsed
  · simp only [Bool.and_eq_true, beq_iff_eq] at h
    obtain ⟨⟨rfl, rfl⟩, h⟩ := h
    exact .nestedParsedIn (TypeExpr.matches_of_agrees h)
  · cases h

theorem TypeExpr.matches_of_agrees {type other : TypeExpr} (h : type.agrees other = true) :
    TypeExpr.Matches type other := by
  -- Only what is under the modifiers of the other type is looked at.
  refine .of_unmodified ?_
  have hbare := other.unmodified_unmodified
  rw [← TypeExpr.agrees_unmodified] at h
  generalize other.unmodified = bare at h hbare ⊢
  cases type with
  | modified underlying modifier required => exact .modifiedLeft (TypeExpr.matches_of_agrees h)
  | referenced reference =>
      rw [TypeExpr.agrees, hbare] at h
      exact TypeReference.matches_of_agrees h
  | primitive builtin =>
      rw [TypeExpr.agrees, hbare] at h
      split at h <;> simp only [beq_iff_eq, reduceCtorEq] at h
      subst h
      exact .primitive
  | parsed ns name =>
      rw [TypeExpr.agrees, hbare] at h
      split at h <;> simp only [Bool.and_eq_true, beq_iff_eq, reduceCtorEq] at h <;>
        obtain ⟨rfl, rfl⟩ := h
      · exact .parsed
      · exact .parsedReferenced
  | parsedIn parent ns name =>
      rw [TypeExpr.agrees, hbare] at h
      split at h <;> simp only [Bool.and_eq_true, beq_iff_eq, reduceCtorEq] at h <;>
        obtain ⟨⟨rfl, rfl⟩, h⟩ := h
      · exact .parsedIn (TypeExpr.matches_of_agrees h)
      · exact .parsedInNested (TypeExpr.matches_of_agrees h)
  | generic definition arguments =>
      rw [TypeExpr.agrees, hbare] at h
      split at h <;> simp only [Bool.and_eq_true, reduceCtorEq] at h
      obtain ⟨hlength, hall⟩ := List.forall₂_iff_zip.mp (TypeExpr.matches_of_agreeAll h.2)
      exact .generic (TypeExpr.matches_of_agrees h.1) hlength fun _ hpair => hall hpair
  | szArray element =>
      rw [TypeExpr.agrees, hbare] at h
      split at h
      · exact .szArray (TypeExpr.matches_of_agrees h)
      · cases h
  | pointer element =>
      rw [TypeExpr.agrees, hbare] at h
      split at h
      · exact .pointer (TypeExpr.matches_of_agrees h)
      · cases h
  | byRef element =>
      rw [TypeExpr.agrees, hbare] at h
      split at h
      · exact .byRef (TypeExpr.matches_of_agrees h)
      · cases h
  | typeParameter index =>
      rw [TypeExpr.agrees, hbare] at h
      split at h <;> simp only [beq_iff_eq, reduceCtorEq] at h
      subst h
      exact .typeParameter
  | methodParameter index =>
      rw [TypeExpr.agrees, hbare] at h
      split at h <;> simp only [beq_iff_eq, reduceCtorEq] at h
      subst h
      exact .methodParameter
  | defined | definedIn | array | functionPointer => cases h

theorem TypeExpr.matches_of_agreeAll {types others : List TypeExpr}
    (h : TypeExpr.agreeAll types others = true) :
    List.Forall₂ TypeExpr.Matches types others := by
  unfold TypeExpr.agreeAll at h
  split at h
  · exact .nil
  · simp only [Bool.and_eq_true] at h
    exact .cons (TypeExpr.matches_of_agrees h.1) (TypeExpr.matches_of_agreeAll h.2)
  · cases h
end

namespace TypeExpr

theorem agreeAll_of_forall₂ {types others : List TypeExpr}
    (h : List.Forall₂ (fun type other => type.agrees other = true) types others) :
    agreeAll types others = true := by
  induction h with
  | nil => rfl
  | cons hfirst _ ih => simp [agreeAll, hfirst, ih]

theorem Matches.agrees {type other : TypeExpr} (h : Matches type other) :
    type.agrees other = true := by
  induction h with
  | modifiedLeft _ ih => simpa only [TypeExpr.agrees] using ih
  | modifiedRight _ ih =>
      rw [← agrees_unmodified] at ih ⊢
      exact ih
  | generic _ hlength _ hdefinition harguments =>
      have hall := agreeAll_of_forall₂ (List.forall₂_iff_zip.mpr ⟨hlength, harguments _⟩)
      simp [TypeExpr.agrees, unmodified, hdefinition, hall]
  | _ => simp_all [TypeExpr.agrees, TypeReference.agrees, unmodified]

theorem agrees_iff {type other : TypeExpr} : type.agrees other = true ↔ Matches type other :=
  ⟨matches_of_agrees, Matches.agrees⟩

/-! ## Spellings -/

theorem spellings_eq_of_forall₂ {types others : List TypeExpr}
    (h : List.Forall₂ (fun type other => type.spelling = other.spelling) types others) :
    types.map spelling = others.map spelling := by
  rwa [← List.forall₂_eq_eq_eq, List.forall₂_map_left_iff, List.forall₂_map_right_iff]

theorem Matches.spelling_eq {type other : TypeExpr} (h : Matches type other) :
    type.spelling = other.spelling := by
  induction h with
  | generic _ hlength _ hdefinition harguments =>
      have hall := spellings_eq_of_forall₂ (List.forall₂_iff_zip.mpr ⟨hlength, harguments _⟩)
      simp only [spelling, spellings_eq_map, hdefinition, hall]
  | _ => simp_all [spelling, TypeReference.spelling]

/-- No match confuses two types that a policy would write differently. -/
theorem spelling_eq_of_agrees {type other : TypeExpr} (h : type.agrees other = true) :
    type.spelling = other.spelling :=
  (agrees_iff.mp h).spelling_eq

/-- A nested type of a library over an array with a modifier on it. -/
def volatileEnumerator : TypeExpr :=
  .generic (.referenced (.nested (.referenced (.top "Lib" (some "System") "List")) none "Enumerator"))
    [.szArray (.modified (.primitive .int32) (.referenced (.top "Lib" none "IsVolatile")) true)]

def writtenEnumerator : TypeExpr :=
  .generic (.parsedIn (.parsed (some "System") "List") none "Enumerator")
    [.szArray (.primitive .int32)]

theorem spelling_volatileEnumerator :
    volatileEnumerator.agrees writtenEnumerator = true ∧
      volatileEnumerator.spelling = writtenEnumerator.spelling := by
  have hagrees : volatileEnumerator.agrees writtenEnumerator = true := by decide
  exact ⟨hagrees, spelling_eq_of_agrees hagrees⟩

end TypeExpr

end AssemblyGate
