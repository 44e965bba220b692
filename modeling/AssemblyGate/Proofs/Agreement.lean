import Mathlib.Tactic.TFAE
import AssemblyGate.Policy.Basic
import AssemblyGate.Proofs.Matching

/-!
# Laws of matching

Matching is symmetric.  Of a type it looks at some places only: under a modifier, at the
element of an array, a pointer or a by-reference, at the definition and the arguments of a
generic type, and at the type around a written one (`TypeExpr.children`).  A modifier at such
a place does not count, and an internal type there keeps the whole type from matching.
-/

namespace AssemblyGate

namespace TypeExpr

/-! ## Symmetry -/

theorem Matches.symm {type other : TypeExpr} (h : Matches type other) : Matches other type := by
  induction h with
  | modifiedLeft _ ih => exact .modifiedRight ih
  | modifiedRight _ ih => exact .modifiedLeft ih
  | primitive => exact .primitive
  | referenced => exact .referenced
  | parsed => exact .parsed
  | referencedParsed => exact .parsedReferenced
  | parsedReferenced => exact .referencedParsed
  | parsedIn _ ih => exact .parsedIn ih
  | nestedParsedIn _ ih => exact .parsedInNested ih
  | parsedInNested _ ih => exact .nestedParsedIn ih
  | @generic _ _ arguments arguments' _ hlength _ ihdefinition iharguments =>
      have hall : List.Forall₂ (flip Matches) arguments arguments' :=
        List.forall₂_iff_zip.mpr ⟨hlength, iharguments _⟩
      obtain ⟨hlength', hzip⟩ := List.forall₂_iff_zip.mp hall.flip
      exact .generic ihdefinition hlength' fun _ hpair => hzip hpair
  | szArray _ ih => exact .szArray ih
  | pointer _ ih => exact .pointer ih
  | byRef _ ih => exact .byRef ih
  | typeParameter => exact .typeParameter
  | methodParameter => exact .methodParameter

theorem matches_comm {type other : TypeExpr} : Matches type other ↔ Matches other type :=
  ⟨Matches.symm, Matches.symm⟩

theorem agrees_comm (type other : TypeExpr) : type.agrees other = other.agrees type := by
  rw [Bool.eq_iff_iff, agrees_iff, agrees_iff, matches_comm]

-- A written type may as well be compared with a nested reference from the reference's side.
theorem agrees_parsedIn_nested (parent scope : TypeExpr) (ns ns' : Option String)
    (name name' : String) :
    (parsedIn parent ns name).agrees (.referenced (.nested scope ns' name')) =
      (ns == ns' && name == name' && scope.agrees parent) := by
  rw [Bool.eq_iff_iff, Bool.and_eq_true, Bool.and_eq_true, @agrees_iff scope,
    matches_comm, ← agrees_iff]
  simp [agrees, unmodified, and_assoc]

/-! ## Places -/

def children : TypeExpr → List TypeExpr
  | .modified underlying _ _ => [underlying]
  | .generic definition arguments => definition :: arguments
  | .array element _ => [element]
  | .szArray element => [element]
  | .pointer element => [element]
  | .byRef element => [element]
  | .parsedIn parent _ _ => [parent]
  | _ => []

theorem sizeOf_lt_of_mem_children {type child : TypeExpr} (h : child ∈ type.children) :
    sizeOf child < sizeOf type := by
  cases type with
  | generic definition arguments =>
      rcases List.mem_cons.mp h with rfl | hargument
      · simp +arith
      · have hlt := List.sizeOf_lt_of_mem hargument
        simp
        omega
  | modified | array | szArray | pointer | byRef | parsedIn =>
      obtain rfl := List.mem_singleton.mp h
      simp +arith
  | _ => simp [children] at h

-- Arguments stand in a list, so the recursor of the type does not give this form directly.
@[elab_as_elim] theorem children_induction {motive : TypeExpr → Prop} (type : TypeExpr)
    (step : ∀ type, (∀ child ∈ type.children, motive child) → motive type) : motive type :=
  step type fun child hchild =>
    have := sizeOf_lt_of_mem_children hchild
    children_induction child step
termination_by sizeOf type

inductive Within (part : TypeExpr) : TypeExpr → Prop
  | here : Within part part
  | inside {type child : TypeExpr} (hchild : child ∈ type.children) (h : Within part child) :
      Within part type

def Free (shape : TypeExpr → Bool) (type : TypeExpr) : Prop :=
  ∀ part, Within part type → shape part = false

theorem free_iff {shape : TypeExpr → Bool} {type : TypeExpr} :
    type.Free shape ↔ shape type = false ∧ ∀ child ∈ type.children, child.Free shape := by
  constructor
  · intro h
    exact ⟨h type .here, fun child hchild part hpart => h part (.inside hchild hpart)⟩
  · rintro ⟨hshape, hchildren⟩ part hpart
    cases hpart with
    | here => exact hshape
    | inside hchild hpart => exact hchildren _ hchild part hpart

/-! ## Modifiers -/

def isModified : TypeExpr → Bool
  | .modified _ _ _ => true
  | _ => false

mutual
/--
The type without the modifiers at the places that matching looks at.  The scope of a reference
is kept as it is: two references match only if they are the same.
-/
def bare : TypeExpr → TypeExpr
  | .modified underlying _ _ => underlying.bare
  | .generic definition arguments => .generic definition.bare (bareAll arguments)
  | .array element rank => .array element.bare rank
  | .szArray element => .szArray element.bare
  | .pointer element => .pointer element.bare
  | .byRef element => .byRef element.bare
  | .parsedIn parent ns name => .parsedIn parent.bare ns name
  | type => type

def bareAll : List TypeExpr → List TypeExpr
  | [] => []
  | type :: types => type.bare :: bareAll types
end

@[simp] theorem bareAll_eq_map (types : List TypeExpr) : bareAll types = types.map bare := by
  induction types with
  | nil => rfl
  | cons type types ih => simp [bareAll, ih]

theorem free_bare (type : TypeExpr) : type.bare.Free isModified := by
  induction type using children_induction with
  | step type ih =>
      cases type with
      | modified underlying modifier required => exact ih underlying (by simp [children])
      | generic definition arguments =>
          refine free_iff.mpr ⟨rfl, ?_⟩
          simpa [children, bare] using ih
      | array | szArray | pointer | byRef | parsedIn =>
          refine free_iff.mpr ⟨rfl, ?_⟩
          simpa [children, bare] using ih
      | _ => exact free_iff.mpr ⟨rfl, by simp [children, bare]⟩

theorem agreeAll_map_bare {types : List TypeExpr}
    (h : ∀ type ∈ types, ∀ other, type.bare.agrees other = type.agrees other)
    (others : List TypeExpr) : agreeAll (types.map bare) others = agreeAll types others := by
  induction types generalizing others with
  | nil => rfl
  | cons type types ih =>
      rw [List.forall_mem_cons] at h
      cases others with
      | nil => rfl
      | cons other others => simp [agreeAll, h.1, ih h.2]

@[simp] theorem agrees_bare_left (type other : TypeExpr) :
    type.bare.agrees other = type.agrees other := by
  induction type using children_induction generalizing other with
  | step type ih =>
      cases type with
      | modified underlying modifier required => exact ih underlying (by simp [children]) other
      | generic definition arguments =>
          simp only [children, List.forall_mem_cons] at ih
          simp only [bare, bareAll_eq_map, agrees, ih.1, agreeAll_map_bare ih.2]
      | szArray | pointer | byRef | parsedIn =>
          simp only [children, List.forall_mem_singleton] at ih
          simp only [bare, agrees, ih]
      | _ => rfl

@[simp] theorem matches_bare {type other : TypeExpr} :
    Matches type.bare other ↔ Matches type other := by
  rw [← agrees_iff, agrees_bare_left, agrees_iff]

@[simp] theorem spelling_bare (type : TypeExpr) : type.bare.spelling = type.spelling := by
  induction type using children_induction with
  | step type ih =>
      cases type with
      | modified underlying modifier required => exact ih underlying (by simp [children])
      | generic definition arguments =>
          simp only [children, List.forall_mem_cons] at ih
          have harguments : arguments.map (spelling ∘ bare) = arguments.map spelling :=
            List.map_congr_left ih.2
          simp only [bare, bareAll_eq_map, spelling, spellings_eq_map, List.map_map, ih.1,
            harguments]
      | array | szArray | pointer | byRef | parsedIn =>
          simp only [children, List.forall_mem_singleton] at ih
          simp only [bare, spelling, ih]
      | _ => rfl

/--
Without its modifiers a type matches the same types, is spelled in the same way, and as the
type of a field, a result or a parameter it is allowed by the same rules of a policy.
-/
theorem modifiers_are_transparent (type other : TypeExpr) :
    type.bare.Free isModified ∧
      type.bare.agrees other.bare = type.agrees other ∧
      type.bare.spelling = type.spelling ∧
      ∀ (policy : TypePolicy) (name : String),
        policy.allowsField name type.bare = policy.allowsField name type ∧
          ∀ (parameters : List TypeExpr) (arity : Nat),
            policy.allowsMethod name type.bare (parameters.map bare) arity =
              policy.allowsMethod name type parameters arity := by
  refine ⟨free_bare type, ?_, spelling_bare type, ?_⟩
  · rw [Bool.eq_iff_iff, agrees_iff, agrees_iff, matches_bare, matches_comm, matches_bare,
      matches_comm]
  · intro policy name
    constructor
    · simp only [TypePolicy.allowsField, agrees_bare_left]
    · intro parameters arity
      simp only [TypePolicy.allowsMethod, agrees_bare_left,
        agreeAll_map_bare fun parameter _ => agrees_bare_left parameter]

/-! ## Internal types -/

def isInternal : TypeExpr → Bool
  | .defined _ _ => true
  | .definedIn _ _ _ => true
  | .array _ _ => true
  | .functionPointer _ _ _ _ _ => true
  | _ => false

theorem matches_self {type : TypeExpr} (h : type.Free isInternal) : Matches type type := by
  induction type using children_induction with
  | step type ih =>
      obtain ⟨hshape, hchildren⟩ := free_iff.mp h
      have hself : ∀ child ∈ type.children, Matches child child :=
        fun child hchild => ih child hchild (hchildren child hchild)
      cases type with
      | modified underlying modifier required =>
          exact .modifiedLeft (.modifiedRight (hself underlying (by simp [children])))
      | generic definition arguments =>
          simp only [children, List.forall_mem_cons] at hself
          obtain ⟨-, hzip⟩ := List.forall₂_iff_zip.mp (List.forall₂_same.mpr hself.2)
          exact .generic hself.1 rfl fun _ hpair => hzip hpair
      | parsedIn parent ns name => exact .parsedIn (hself parent (by simp [children]))
      | szArray element => exact .szArray (hself element (by simp [children]))
      | pointer element => exact .pointer (hself element (by simp [children]))
      | byRef element => exact .byRef (hself element (by simp [children]))
      | primitive => exact .primitive
      | referenced => exact .referenced
      | parsed => exact .parsed
      | typeParameter => exact .typeParameter
      | methodParameter => exact .methodParameter
      | defined | definedIn | array | functionPointer => simp [isInternal] at hshape

theorem Matches.free {type other : TypeExpr} (h : Matches type other) : type.Free isInternal := by
  induction h with
  | modifiedRight _ ih => exact ih
  | @generic definition _ arguments arguments' _ hlength _ ihdefinition iharguments =>
      -- Each argument has a partner, since the lists are of one length.
      have hall : ∀ argument ∈ arguments, argument.Free isInternal := by
        rw [← List.map_fst_zip (Nat.le_of_eq hlength), List.forall_mem_map]
        exact iharguments
      exact free_iff.mpr ⟨rfl, List.forall_mem_cons.mpr ⟨ihdefinition, hall⟩⟩
  | modifiedLeft _ ih | parsedIn _ ih | parsedInNested _ ih | szArray _ ih | pointer _ ih
  | byRef _ ih => exact free_iff.mpr ⟨rfl, by simpa [children] using ih⟩
  | _ => exact free_iff.mpr ⟨rfl, by simp [children]⟩

/--
A type matches something, on either side, exactly if it matches itself, and that is exactly if
no internal type hides in it.
-/
theorem free_of_internal_tfae (type : TypeExpr) :
    List.TFAE [type.Free isInternal, type.agrees type = true,
      ∃ other : TypeExpr, type.agrees other = true,
      ∃ other : TypeExpr, other.agrees type = true] := by
  simp only [agrees_iff]
  tfae_have 1 → 2 := matches_self
  tfae_have 2 → 3 := fun h => ⟨type, h⟩
  tfae_have 3 → 4 := fun ⟨other, h⟩ => ⟨other, h.symm⟩
  tfae_have 4 → 1 := fun ⟨_, h⟩ => h.symm.free
  tfae_finish

example : (generic (parsed (some "System") "List") [szArray (defined none "Own")]).agrees
    (generic (parsed (some "System") "List") [szArray (defined none "Own")]) = false := by
  decide

end TypeExpr

end AssemblyGate
