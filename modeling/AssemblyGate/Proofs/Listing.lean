import AssemblyGate.Proofs.Declarations
import AssemblyGate.Proofs.Matching

/-!
# Types that a listing can name

A listing prints the spelling of each type that an assembly refers to, so that it can be
copied into a policy.  `Nameable` says for which types this works: names have to be words,
and a name that stands alone must not be read as a builtin.  For each of them there is a
written type that matches it (`exists_declared`); matching types are spelled the same, and
written types are read back from their spelling, so the entry that is copied is the one
that matches.
-/

namespace AssemblyGate

/-! ## Modifiers in front -/

namespace TypeExpr

theorem Matches.of_unmodified_left {type other : TypeExpr} (h : Matches type.unmodified other) :
    Matches type other := by
  cases type with
  | modified underlying modifier required => exact .modifiedLeft (of_unmodified_left h)
  | _ => exact h

theorem Matches.unmodified_eq_byRef {type element : TypeExpr} (h : Matches type (.byRef element)) :
    ∃ inner, type.unmodified = .byRef inner := by
  cases h with
  | modifiedLeft h => exact h.unmodified_eq_byRef
  | byRef h => exact ⟨_, rfl⟩

theorem Matches.ne_byRef {type other : TypeExpr} (h : Matches type other)
    (hne : ∀ inner, type.unmodified ≠ .byRef inner) (element : TypeExpr) :
    other ≠ .byRef element := by
  rintro rfl
  obtain ⟨inner, hinner⟩ := h.unmodified_eq_byRef
  exact hne inner hinner

end TypeExpr

namespace Declaration

open TypeExpr

/-! ## Names -/

def IsDotted (text : String) : Prop :=
  ∃ words : List String, words ≠ [] ∧ (∀ word ∈ words, IsWord word.toList) ∧
    text = String.intercalate "." words

def NamesBuiltin (ns : Option String) (name : String) : Prop :=
  ∃ builtin : Primitive,
    ns = none ∧ (builtin.keyword? = some name ∨ builtin.name = name) ∨
      ns = some "System" ∧ builtin.name = name

inductive Worded : TypeReference → Prop
  | top {assembly name : String} {ns : Option String} (hname : IsWord name.toList)
      (hns : ∀ text, ns = some text → IsDotted text) : Worded (.top assembly ns name)
  | nested {scope : TypeExpr} {outer : TypeReference} {name : String}
      (hscope : scope.unmodified = .referenced outer) (houter : Worded outer)
      (hname : IsWord name.toList) : Worded (.nested scope none name)

theorem keyword?_of_ofKeyword? {name : String} {builtin : Primitive}
    (h : Primitive.ofKeyword? name = some builtin) : builtin.keyword? = some name := by
  simpa using List.find?_some h

theorem name_of_ofName? {name : String} {builtin : Primitive}
    (h : Primitive.ofName? name = some builtin) : builtin.name = name := by
  simpa using List.find?_some h

theorem namesBuiltin_of_builtin? {first : String} {others : List String} {builtin : Primitive}
    (h : builtin? first others = some builtin) :
    ∃ ns name, dottedType first others = .parsed ns name ∧ NamesBuiltin ns name := by
  match others with
  | [] =>
      refine ⟨none, first, rfl, builtin, .inl ⟨rfl, ?_⟩⟩
      simp only [builtin?, Option.or_eq_some_iff] at h
      rcases h with hkeyword | ⟨-, hname⟩
      · exact .inl (keyword?_of_ofKeyword? hkeyword)
      · exact .inr (name_of_ofName? hname)
  | [name] =>
      simp only [builtin?] at h
      split at h
      · next hsystem =>
          refine ⟨some "System", name, ?_, builtin, .inr ⟨rfl, name_of_ofName? h⟩⟩
          simp [dottedType, hsystem]
      · cases h
  | _ :: _ :: _ => cases h

namespace Path

def inside (path : Path) (name : String) (hname : IsWord name.toList) : Path where
  first := path.first
  others := path.others
  nested := path.nested ++ [name.toList]
  isWord := by
    have hword := path.isWord
    simp only [List.forall_mem_cons, List.forall_mem_append] at hword ⊢
    exact ⟨hword.1, hword.2.1, hword.2.2, hname, List.forall_mem_nil _⟩

@[simp] theorem type_inside (path : Path) (name : String) (hname : IsWord name.toList) :
    (path.inside name hname).type = .parsedIn path.type none name := by
  simp [type, inside, nestedType, List.foldl_append]

theorem nested_inside_ne_nil (path : Path) (name : String) (hname : IsWord name.toList) :
    (path.inside name hname).nested ≠ [] := by
  simp [inside]

end Path

theorem exists_path_of_name {ns : Option String} {name : String} (hname : IsWord name.toList)
    (hns : ∀ text, ns = some text → IsDotted text) :
    ∃ path : Path, path.nested = [] ∧ path.type = .parsed ns name := by
  cases ns with
  | none =>
      refine ⟨⟨name.toList, [], [], by simpa using hname⟩, rfl, ?_⟩
      simp [Path.type, nestedType, dottedType]
  | some text =>
      obtain ⟨words, hne, hwords, rfl⟩ := hns text rfl
      obtain ⟨first, others, rfl⟩ := List.exists_cons_of_ne_nil hne
      rw [List.forall_mem_cons] at hwords
      refine ⟨⟨first.toList, others.map String.toList ++ [name.toList], [], ?_⟩, rfl, ?_⟩
      · simp only [List.append_nil, List.forall_mem_cons, List.forall_mem_append, List.forall_mem_map]
        exact ⟨hwords.1, hwords.2, hname, List.forall_mem_nil _⟩
      · simp [Path.type, nestedType, dottedType]

theorem Path.builtin?_eq_none {path : Path} {ns : Option String} {name : String}
    (hnil : path.nested = []) (htype : path.type = .parsed ns name)
    (h : ¬ NamesBuiltin ns name) : path.builtin? = none := by
  cases hbuiltin : path.builtin? with
  | none => rfl
  | some builtin =>
      obtain ⟨ns', name', hdotted, hnames⟩ := namesBuiltin_of_builtin? hbuiltin
      simp only [Path.type, hnil, List.map_nil, nestedType, List.foldl_nil, hdotted] at htype
      cases htype
      exact absurd hnames h

theorem Worded.exists_path {reference : TypeReference} (h : Worded reference) :
    ∃ path : Path, Matches (.referenced reference) path.type := by
  induction h with
  | top hname hns =>
      obtain ⟨path, -, htype⟩ := exists_path_of_name hname hns
      exact ⟨path, htype ▸ .referencedParsed⟩
  | @nested scope outer name hscope houter hname ih =>
      obtain ⟨path, hmatches⟩ := ih
      rw [← hscope] at hmatches
      refine ⟨path.inside name hname, ?_⟩
      rw [Path.type_inside]
      exact .nestedParsedIn hmatches.of_unmodified_left

/-! ## Types -/

/--
A type that can be written down.  Modifiers do not count anywhere.  A reference that is
neither nested nor instantiated must not be read as a builtin, and a suffix cannot stand
behind a reference to a place.
-/
inductive Nameable : TypeExpr → Prop
  | primitive (builtin : Primitive) : Nameable (.primitive builtin)
  | typeParameter {index : Nat} (h : index < wordLimit) : Nameable (.typeParameter index)
  | methodParameter {index : Nat} (h : index < wordLimit) : Nameable (.methodParameter index)
  | referenced {reference : TypeReference} (h : Worded reference)
      (hbuiltin : ∀ assembly ns name, reference = .top assembly ns name → ¬ NamesBuiltin ns name) :
      Nameable (.referenced reference)
  | generic {definition : TypeExpr} {reference : TypeReference} {arguments : List TypeExpr}
      (hdefinition : definition.unmodified = .referenced reference) (h : Worded reference)
      (hne : arguments ≠ []) (harguments : ∀ argument ∈ arguments, Nameable argument) :
      Nameable (.generic definition arguments)
  | szArray {element : TypeExpr} (h : Nameable element)
      (hvalue : ∀ inner, element.unmodified ≠ .byRef inner) : Nameable (.szArray element)
  | pointer {element : TypeExpr} (h : Nameable element)
      (hvalue : ∀ inner, element.unmodified ≠ .byRef inner) : Nameable (.pointer element)
  | byRef {element : TypeExpr} (h : Nameable element) : Nameable (.byRef element)
  | modified {underlying modifier : TypeExpr} {required : Bool} (h : Nameable underlying) :
      Nameable (.modified underlying modifier required)

theorem exists_declared_of_worded {reference : TypeReference} (h : Worded reference)
    (hbuiltin : ∀ assembly ns name, reference = .top assembly ns name → ¬ NamesBuiltin ns name) :
    ∃ written, Declared written ∧ Matches (.referenced reference) written := by
  cases h with
  | @top assembly name ns hname hns =>
      obtain ⟨path, hnil, htype⟩ := exists_path_of_name hname hns
      have hnone := Path.builtin?_eq_none hnil htype (hbuiltin assembly ns name rfl)
      exact ⟨path.type, .named path fun _ => hnone, htype ▸ .referencedParsed⟩
  | @nested scope outer name hscope houter hname =>
      obtain ⟨path, hmatches⟩ := houter.exists_path
      rw [← hscope] at hmatches
      refine ⟨(path.inside name hname).type, .named _ ?_, ?_⟩
      · intro hnil
        exact absurd hnil (path.nested_inside_ne_nil name hname)
      · rw [Path.type_inside]
        exact .nestedParsedIn hmatches.of_unmodified_left

theorem exists_forall₂ {types : List TypeExpr}
    (h : ∀ type ∈ types, ∃ written, Declared written ∧ Matches type written) :
    ∃ others, (∀ written ∈ others, Declared written) ∧ List.Forall₂ Matches types others := by
  induction types with
  | nil => exact ⟨[], List.forall_mem_nil _, .nil⟩
  | cons type types ih =>
      rw [List.forall_mem_cons] at h
      obtain ⟨⟨written, hdeclared, hmatches⟩, htypes⟩ := h
      obtain ⟨others, hothers, hall⟩ := ih htypes
      exact ⟨written :: others, List.forall_mem_cons.mpr ⟨hdeclared, hothers⟩, .cons hmatches hall⟩

theorem Nameable.exists_declared {type : TypeExpr} (h : Nameable type) :
    ∃ written, Declared written ∧ Matches type written := by
  induction h with
  | primitive builtin => exact ⟨_, .primitive builtin, .primitive⟩
  | typeParameter hindex => exact ⟨_, .typeParameter hindex, .typeParameter⟩
  | methodParameter hindex => exact ⟨_, .methodParameter hindex, .methodParameter⟩
  | referenced hworded hbuiltin => exact exists_declared_of_worded hworded hbuiltin
  | @generic definition reference arguments hdefinition hworded hne _ ih =>
      obtain ⟨path, hpath⟩ := hworded.exists_path
      rw [← hdefinition] at hpath
      obtain ⟨others, hothers, hall⟩ := exists_forall₂ ih
      obtain ⟨hlength, hzip⟩ := List.forall₂_iff_zip.mp hall
      have hothersNe : others ≠ [] := by
        rintro rfl
        exact hne (List.length_eq_zero_iff.mp hlength)
      exact ⟨.generic path.type others, .generic path hothersNe hothers,
        .generic hpath.of_unmodified_left hlength fun _ hpair => hzip hpair⟩
  | szArray _ hne ih =>
      obtain ⟨written, hdeclared, hmatches⟩ := ih
      exact ⟨.szArray written, .szArray hdeclared (hmatches.ne_byRef hne), .szArray hmatches⟩
  | pointer _ hne ih =>
      obtain ⟨written, hdeclared, hmatches⟩ := ih
      exact ⟨.pointer written, .pointer hdeclared (hmatches.ne_byRef hne), .pointer hmatches⟩
  | byRef _ ih =>
      obtain ⟨written, hdeclared, hmatches⟩ := ih
      exact ⟨.byRef written, .byRef hdeclared, .byRef hmatches⟩
  | modified _ ih =>
      obtain ⟨written, hdeclared, hmatches⟩ := ih
      exact ⟨written, hdeclared, .modifiedLeft hmatches⟩

end Declaration

open Declaration

/--
What a listing prints for a type is a declaration, the type matches what is read from it, and
it matches nothing else that can be read from a declaration.
-/
theorem parseType_spelling_agrees {type : TypeExpr} (h : Nameable type) :
    ∃ written, parseType type.spelling = .ok written ∧ type.agrees written = true ∧
      ∀ text other, parseType text = .ok other → type.agrees other = true → other = written := by
  obtain ⟨written, hdeclared, hmatches⟩ := h.exists_declared
  have hread : parseType type.spelling = .ok written := by
    rw [hmatches.spelling_eq]
    exact hdeclared.parseType
  refine ⟨written, hread, hmatches.agrees, ?_⟩
  intro text other hother hagrees
  have hspelling := (TypeExpr.agrees_iff.mp hagrees).spelling_eq
  have hback := (declared_of_parseType hother).parseType
  rw [← hspelling, hread] at hback
  exact (Except.ok.inj hback).symm

private def isVolatile : TypeExpr := .referenced (.top "Lib" none "IsVolatile")

/-- Modifiers at every place, a keyword around a nested type, and the word `ref` as a name. -/
def volatileRow : TypeExpr :=
  .byRef (.generic
    (.modified (.referenced (.nested (.modified
      (.referenced (.top "Lib" (some "Game.Data") "Table`2")) isVolatile true) none "Row"))
      isVolatile false)
    [.szArray (.modified (.primitive .int32) isVolatile true),
      .pointer (.referenced (.top "Lib" none "ref")),
      .referenced (.nested (.referenced (.top "Lib" none "int")) none "Max"), .methodParameter 7])

theorem volatileRow_agrees :
    volatileRow.spelling = "ref Game.Data.Table`2/Row<Int32[], ref*, int/Max, !!7>" ∧
      ∃ written, parseType volatileRow.spelling = .ok written ∧
        volatileRow.agrees written = true := by
  have hword : ∀ word ∈ ["Game", "Data", "Table`2", "Row", "ref", "int", "Max"],
      IsWord word.toList := by
    simp [IsWord]
    decide
  have hdotted : IsDotted "Game.Data" :=
    ⟨["Game", "Data"], by simp, fun word hmem => hword word (by simp at hmem ⊢; tauto), rfl⟩
  have htable : Worded (.top "Lib" (some "Game.Data") "Table`2") :=
    .top (hword _ (by simp)) (by simpa using hdotted)
  have hint : Worded (.top "Lib" none "int") := .top (hword _ (by simp)) (by simp)
  have href : Nameable (.referenced (.top "Lib" none "ref")) := by
    refine .referenced (.top (hword _ (by simp)) (by simp)) ?_
    rintro _ _ _ ⟨⟩ ⟨builtin, h⟩
    revert h
    cases builtin <;> decide
  have hnameable : Nameable volatileRow := by
    refine .byRef (.generic rfl (.nested rfl htable (hword _ (by simp))) (by simp) ?_)
    simp only [List.forall_mem_cons]
    exact ⟨.szArray (.modified (.primitive _)) (by simp [TypeExpr.unmodified]),
      .pointer href (by simp [TypeExpr.unmodified]),
      .referenced (.nested rfl hint (hword _ (by simp))) (by simp),
      .methodParameter (by decide), List.forall_mem_nil _⟩
  obtain ⟨written, hread, hagrees, -⟩ := parseType_spelling_agrees hnameable
  exact ⟨by decide +kernel, written, hread, hagrees⟩

end AssemblyGate
