import AssemblyGate.Proofs.Declarations
import Mathlib.Logic.Function.Iterate

/-!
# Declarations of members

A field is declared by its type and its name, a method by its return type, its name, the commas
of its generic parameters and the types of its parameters.  Both are read back from what they
spell.
-/

namespace AssemblyGate

/-! ## Spelling -/

def arityMark : Nat → String
  | 0 => ""
  | commas + 1 => "<" ++ String.ofList (List.replicate commas ',') ++ ">"

def FieldRule.spelling (rule : FieldRule) : String :=
  rule.type.spelling ++ " " ++ rule.name

def MethodRule.spelling (rule : MethodRule) : String :=
  rule.returnType.spelling ++ " " ++ rule.name ++ arityMark rule.arity ++ "(" ++
    commaSeparated (rule.parameters.map TypeExpr.spelling) ++ ")"

namespace Declaration

/-! ## Names and arities -/

def EndsName (rest : List Char) : Prop :=
  ∀ c, rest.head? = some c → isMemberChar c = false

theorem memberName_append {name rest : List Char} (hne : name ≠ [])
    (hname : ∀ c ∈ name, isMemberChar c = true) (hrest : EndsName rest) :
    memberName (name ++ rest) = .ok (String.ofList name, rest) := by
  obtain ⟨htake, hdrop⟩ := scan_append hname hrest
  simp [memberName, htake, hdrop, hne]

@[simp] theorem arity_arityMark (count : Nat) (rest : List Char) :
    arity ((arityMark count).toList ++ '(' :: rest) = .ok (count, '(' :: rest) := by
  cases count with
  | zero => rfl
  | succ commas =>
      have hcommas : ∀ c ∈ List.replicate commas ',', isBlankOrComma c = true := by
        simp [isBlankOrComma]
      have hend : ∀ c, ('>' :: '(' :: rest).head? = some c → isBlankOrComma c = false := by
        rintro c ⟨⟩
        decide
      have hmark : (arityMark (commas + 1)).toList ++ '(' :: rest =
          '<' :: (List.replicate commas ',' ++ '>' :: '(' :: rest) := by
        simp [arityMark]
      obtain ⟨htake, hdrop⟩ := scan_append hcommas hend
      rw [hmark, arity, htake, hdrop, List.count_replicate_self]
      rfl

theorem endsName_arityMark (count : Nat) (rest : List Char) :
    EndsName ((arityMark count).toList ++ '(' :: rest) := by
  cases count with
  | zero =>
      rintro c ⟨⟩
      decide
  | succ commas =>
      intro c hc
      simp only [arityMark, String.toList_append, List.append_assoc] at hc
      cases hc
      decide

/-! ## Parameters -/

def Opens (text : List Char) : Prop :=
  ∃ c behind, text = c :: behind ∧ Text.isBlank c = false ∧ c ≠ ')'

@[simp] theorem opens_cons {c : Char} {text : List Char} :
    Opens (c :: text) ↔ Text.isBlank c = false ∧ c ≠ ')' := by
  simp [Opens]

theorem Opens.append {text : List Char} (h : Opens text) (rest : List Char) :
    Opens (text ++ rest) := by
  obtain ⟨c, behind, rfl, hc⟩ := h
  exact opens_cons.mpr hc

theorem Path.opens (path : Path) : Opens path.text := by
  obtain ⟨c, text, htext, hc⟩ := path.exists_cons
  rw [htext, opens_cons]
  refine ⟨isBlank_of_isIdentifierChar hc, ?_⟩
  rintro rfl
  revert hc
  decide

theorem Declared.opens {inner : TypeExpr} (h : Declared inner) : Opens inner.spelling.toList := by
  induction h with
  | primitive builtin => cases builtin <;> simp [TypeExpr.spelling, Primitive.name] <;> decide
  | typeParameter h => simp [TypeExpr.spelling]; decide
  | methodParameter h => simp [TypeExpr.spelling]; decide
  | named path h => simpa using path.opens
  | generic path hne h ih => simpa [TypeExpr.spelling] using path.opens.append _
  | szArray h hvalue ih => simpa [TypeExpr.spelling] using ih.append _
  | pointer h hvalue ih => simpa [TypeExpr.spelling] using ih.append _
  | byRef h ih => simp [TypeExpr.spelling]; decide

theorem readsItem_type {inner : TypeExpr} (h : Declared inner) : ReadsItem type inner := by
  intro front rest hfront hends hblank
  rw [h.type_spelling hfront (.of_ends hends hblank), suffixes_of_ends inner hends]

theorem parameters_of_opens {text : List Char} (h : Opens text) :
    parameters ('(' :: text) = typesUntil type ')' (text.length + 1) text := by
  obtain ⟨c, behind, rfl, hblank, hclose⟩ := h
  have hparen : skipBlanks ('(' :: c :: behind) = '(' :: c :: behind :=
    skipBlanks_cons (by decide) _
  simp only [parameters, hparen, character, if_true, bind, Except.bind, skipBlanks_cons hblank]
  split
  · simp_all
  · rfl

theorem parameters_spellings {types : List TypeExpr} (h : ∀ item ∈ types, Declared item)
    (rest : List Char) :
    parameters ('(' :: ((commaSeparated (types.map TypeExpr.spelling)).toList ++ ')' :: rest)) =
      .ok (types, rest) := by
  cases types with
  | nil => rfl
  | cons first others =>
      have hopens : Opens (commaSeparated ((first :: others).map TypeExpr.spelling)).toList := by
        have hfirst := (h first List.mem_cons_self).opens
        cases others with
        | nil => simpa [commaSeparated] using hfirst
        | cons second others =>
            rw [List.map_cons, List.map_cons, toList_commaSeparated_cons]
            exact hfirst.append _
      obtain ⟨hcount, -⟩ := length_le_commaSeparated (first :: others)
      rw [parameters_of_opens (hopens.append _)]
      refine typesUntil_spellings (.inr rfl) (List.cons_ne_nil _ _)
        (fun item hitem => readsItem_type (h item hitem)) ?_ (List.forall_mem_nil _) rest
      simp only [List.length_append, String.length_toList]
      omega

/-! ## A type and a name -/

theorem endsInRef_iff_levels {inner : TypeExpr} :
    endsInRef inner = true ↔ ∃ levels, inner = TypeExpr.byRef^[levels] (.parsed none "ref") := by
  constructor
  · intro h
    fun_induction endsInRef inner with
    | case1 element ih =>
        obtain ⟨levels, rfl⟩ := ih h
        exact ⟨levels + 1, (Function.iterate_succ_apply' _ _ _).symm⟩
    | case2 name =>
        have hname : name = "ref" := String.toList_injective (beq_iff_eq.mp h)
        exact ⟨0, congrArg (TypeExpr.parsed none) hname⟩
    | case3 => cases h
  · rintro ⟨levels, rfl⟩
    induction levels with
    | zero => decide
    | succ levels ih => rwa [Function.iterate_succ_apply', endsInRef]

structure Spellable (name : String) (inner : TypeExpr) : Prop where
  nonempty : name ≠ ""
  chars : ∀ c ∈ name.toList, isMemberChar c = true
  read : ∃ text, parseType text = .ok inner
  bare : ∀ levels, inner ≠ TypeExpr.byRef^[levels] (.parsed none "ref")

namespace Spellable

variable {name : String} {inner : TypeExpr} {rest : List Char}

theorem type_eq (h : Spellable name inner) (text : List Char) :
    type (inner.spelling.toList ++ ' ' :: text) = .ok (inner, ' ' :: text) := by
  obtain ⟨text', hread⟩ := h.read
  have hends : Ends typeMarks (' ' :: text) := ends_cons.mpr (by decide)
  have href : endsInRef inner = false := by
    rw [← Bool.not_eq_true, endsInRef_iff_levels, not_exists]
    exact h.bare
  have hafter : EndsAfter inner (' ' :: text) :=
    ⟨hends.mono (by decide), fun _ => href, fun _ _ => hends⟩
  have htype := (declared_of_parseType hread).type_spelling (List.forall_mem_nil _) hafter
  rwa [List.nil_append, suffixes_of_ends inner hends] at htype

theorem name_ne_nil (h : Spellable name inner) : name.toList ≠ [] := by
  simpa using h.nonempty

theorem blanks_eq (h : Spellable name inner) (rest : List Char) :
    blanks (' ' :: (name.toList ++ rest)) = .ok ((), name.toList ++ rest) := by
  obtain ⟨c, text, htext⟩ := List.exists_cons_of_ne_nil h.name_ne_nil
  have hc := isBlank_of_isMemberChar (h.chars c (by simp [htext]))
  have hskip : skipBlanks (name.toList ++ rest) = name.toList ++ rest := by
    rw [htext]
    exact skipBlanks_cons hc _
  have hblank : Text.isBlank ' ' = true := by decide
  simp only [blanks, hblank, if_true, hskip]

theorem memberName_eq (h : Spellable name inner) (hrest : EndsName rest) :
    memberName (name.toList ++ rest) = .ok (name, rest) := by
  rw [memberName_append h.name_ne_nil h.chars hrest, String.ofList_toList]

theorem field_eq (h : Spellable name inner) :
    field (inner.spelling.toList ++ ' ' :: name.toList) = .ok (⟨name, inner⟩, []) := by
  have hblanks := h.blanks_eq []
  have hname : memberName (name.toList ++ []) = .ok (name, []) := h.memberName_eq nofun
  rw [List.append_nil] at hblanks hname
  simp only [field, h.type_eq, hblanks, hname, bind, Except.bind]
  rfl

theorem method_eq (h : Spellable name inner) {types : List TypeExpr}
    (htypes : ∀ item ∈ types, Declared item) (count : Nat) :
    method (inner.spelling.toList ++ ' ' :: (name.toList ++ ((arityMark count).toList ++
        '(' :: ((commaSeparated (types.map TypeExpr.spelling)).toList ++ [')'])))) =
      .ok (⟨name, inner, types, count⟩, []) := by
  simp only [method, h.type_eq, h.blanks_eq, h.memberName_eq (endsName_arityMark count _),
    arity_arityMark, parameters_spellings htypes, bind, Except.bind]
  rfl

end Spellable

end Declaration

open Declaration

theorem parseField_spelling {rule : FieldRule} (h : Spellable rule.name rule.type) :
    parseField rule.spelling = .ok rule := by
  refine complete_eq_ok_iff.mpr ⟨[], ?_, rfl⟩
  simpa [FieldRule.spelling] using h.field_eq

theorem parseMethod_spelling {rule : MethodRule} (h : Spellable rule.name rule.returnType)
    (hparameters : ∀ item ∈ rule.parameters, Declared item) :
    parseMethod rule.spelling = .ok rule := by
  refine complete_eq_ok_iff.mpr ⟨[], ?_, rfl⟩
  simpa [MethodRule.spelling] using h.method_eq hparameters rule.arity

/-- Methods and fields are read back from what they spell, whatever their types and however
many their parameters.  Only a return type that ends in the bare word `ref` is left out, which
the blank behind it would turn into a mark. -/
theorem members_read_back {rule : MethodRule} (h : Spellable rule.name rule.returnType)
    (hparameters : ∀ item ∈ rule.parameters, ∃ text, parseType text = .ok item) :
    parseMethod rule.spelling = .ok rule ∧
      parseField (FieldRule.spelling ⟨rule.name, rule.returnType⟩) =
        .ok ⟨rule.name, rule.returnType⟩ := by
  refine ⟨parseMethod_spelling h ?_, parseField_spelling h⟩
  intro item hitem
  obtain ⟨text, htext⟩ := hparameters item hitem
  exact declared_of_parseType htext

/-- A name with every kind of mark, and parameters that are the word `ref`. -/
def swapRows : MethodRule where
  name := ".Swap$_`1"
  returnType := rowType
  parameters := [.parsed none "ref", .byRef (.byRef (.parsed none "ref")), .primitive .boolean]
  arity := 3

theorem swapRows_read_back :
    swapRows.spelling = "ref Game.Table`2/Row<Int32, ref[]*, int/ref<!!7>> " ++
        ".Swap$_`1<,,>(ref, ref ref ref, Boolean)" ∧
      Spellable swapRows.name swapRows.returnType ∧
      (∀ item ∈ swapRows.parameters, ∃ text, parseType text = .ok item) ∧
      parseMethod swapRows.spelling = .ok swapRows ∧
      parseField (FieldRule.spelling ⟨swapRows.name, swapRows.returnType⟩) =
        .ok ⟨swapRows.name, swapRows.returnType⟩ := by
  have hspellable : Spellable swapRows.name swapRows.returnType := by
    have hname : swapRows.name.toList.all isMemberChar = true := by decide
    refine ⟨by decide, List.all_eq_true.mp hname, ⟨rowDeclaration, by decide +kernel⟩, ?_⟩
    intro levels hlevels
    cases endsInRef_iff_levels.mpr ⟨levels, hlevels⟩
  have hparameters : ∀ item ∈ swapRows.parameters, ∃ text, parseType text = .ok item := by
    simp only [swapRows, List.forall_mem_cons]
    exact ⟨⟨"ref", by decide +kernel⟩, ⟨"ref ref ref", by decide +kernel⟩,
      ⟨"Boolean", by decide +kernel⟩, List.forall_mem_nil _⟩
  exact ⟨by decide +kernel, hspellable, hparameters, members_read_back hspellable hparameters⟩

end AssemblyGate
