import AssemblyGate.Proofs.Fallible
import AssemblyGate.Proofs.Words

/-!
# Types that declarations name

`Declared` gives the types that a declaration can name.  Whatever is read from a declaration
is one of them, and each of them is read back from its spelling, provided that the text behind
the spelling cannot go on with it (`EndsAfter`).
-/

namespace AssemblyGate

namespace Declaration

/-! ## Names -/

structure Path where
  first : List Char
  others : List (List Char)
  nested : List (List Char)
  isWord : ∀ word ∈ first :: (others ++ nested), IsWord word

namespace Path

def text (path : Path) : List Char :=
  path.first ++ separated '.' path.others ++ separated '/' path.nested

def builtin? (path : Path) : Option Primitive :=
  Declaration.builtin? (String.ofList path.first) (path.others.map String.ofList)

def type (path : Path) : TypeExpr :=
  nestedType (dottedType (String.ofList path.first) (path.others.map String.ofList))
    (path.nested.map String.ofList)

end Path

@[simp] theorem toList_spelling_dottedType (first : List Char) (others : List (List Char)) :
    (dottedType (String.ofList first) (others.map String.ofList)).spelling.toList =
      first ++ separated '.' others := by
  rcases List.eq_nil_or_concat others with rfl | ⟨init, last, rfl⟩
  · simp [dottedType, TypeExpr.spelling, qualified]
  · simp [dottedType, TypeExpr.spelling, qualified, intercalate_eq_separated]

@[simp] theorem toList_spelling_nestedType (outer : TypeExpr) (nested : List (List Char)) :
    (nestedType outer (nested.map String.ofList)).spelling.toList =
      outer.spelling.toList ++ separated '/' nested := by
  induction nested generalizing outer with
  | nil => simp [nestedType]
  | cons name nested ih =>
      have hinner := ih (.parsedIn outer none (String.ofList name))
      simp only [nestedType, List.map_cons, List.foldl_cons] at hinner ⊢
      simp [hinner, TypeExpr.spelling, qualified]

@[simp] theorem Path.toList_spelling (path : Path) : path.type.spelling.toList = path.text := by
  rw [Path.type, toList_spelling_nestedType, toList_spelling_dottedType, Path.text]

@[simp] theorem display_dottedType (first : String) (others : List String) :
    (dottedType first others).display = (dottedType first others).spelling := by
  unfold dottedType
  split <;> rfl

theorem display_nestedType {outer : TypeExpr} (houter : outer.display = outer.spelling)
    (names : List String) : (nestedType outer names).display = (nestedType outer names).spelling := by
  induction names generalizing outer with
  | nil => exact houter
  | cons name names ih =>
      refine ih ?_
      simp [TypeExpr.display, TypeExpr.spelling, qualified, houter]

/-! ## Types -/

inductive Declared : TypeExpr → Prop
  | primitive (builtin : Primitive) : Declared (.primitive builtin)
  | typeParameter {index : Nat} (h : index < wordLimit) : Declared (.typeParameter index)
  | methodParameter {index : Nat} (h : index < wordLimit) : Declared (.methodParameter index)
  | named (path : Path) (h : path.nested = [] → path.builtin? = none) : Declared path.type
  | generic (path : Path) {arguments : List TypeExpr} (hne : arguments ≠ [])
      (harguments : ∀ argument ∈ arguments, Declared argument) :
      Declared (.generic path.type arguments)
  | szArray {element : TypeExpr} (h : Declared element) (hvalue : ∀ inner, element ≠ .byRef inner) :
      Declared (.szArray element)
  | pointer {element : TypeExpr} (h : Declared element) (hvalue : ∀ inner, element ≠ .byRef inner) :
      Declared (.pointer element)
  | byRef {element : TypeExpr} (h : Declared element) : Declared (.byRef element)

@[simp] theorem Path.display_eq (path : Path) : path.type.display = path.type.spelling :=
  display_nestedType (display_dottedType _ _) _

theorem Declared.display_eq {type : TypeExpr} (h : Declared type) :
    type.display = type.spelling := by
  induction h with
  | named path _ => exact path.display_eq
  | generic path _ _ ih =>
      simp [TypeExpr.display, TypeExpr.spelling, List.map_congr_left ih]
  | _ => simp_all [TypeExpr.display, TypeExpr.spelling]

/-! ## Reading names -/

def Ends (marks : List Char) (rest : List Char) : Prop :=
  ∀ c, rest.head? = some c → isIdentifierChar c = false ∧ c ∉ marks

@[simp] theorem ends_nil (marks : List Char) : Ends marks [] := nofun

@[simp] theorem ends_cons {marks : List Char} {c : Char} {rest : List Char} :
    Ends marks (c :: rest) ↔ isIdentifierChar c = false ∧ c ∉ marks := by
  simp [Ends]

theorem Ends.mono {marks marks' rest : List Char} (h : Ends marks rest) (hsub : marks' ⊆ marks) :
    Ends marks' rest :=
  fun c hc => ⟨(h c hc).1, fun hmark => (h c hc).2 (hsub hmark)⟩

theorem Ends.head?_ne {marks rest : List Char} (h : Ends marks rest) {mark : Char}
    (hmark : mark ∈ marks) : rest.head? ≠ some mark :=
  fun hhead => (h mark hhead).2 hmark

theorem Ends.endsWords {marks rest : List Char} (h : Ends marks rest) {separator : Char}
    (hseparator : separator ∈ marks) : EndsWords separator rest := by
  rintro c text rfl
  obtain ⟨hc, hmarks⟩ := ends_cons.mp h
  exact ⟨hc, fun hseparator' => hmarks (hseparator'.1 ▸ hseparator)⟩

def nameMarks : List Char := ['.', '/']

theorem endsWords_nested {rest : List Char} (h : Ends nameMarks rest)
    (nested : List (List Char)) : EndsWords '.' (separated '/' nested ++ rest) := by
  cases nested with
  | nil => exact h.endsWords (by decide)
  | cons name nested =>
      rintro c text htext
      simp only [separated_cons, List.cons_append, List.cons.injEq] at htext
      rw [← htext.1]
      exact ⟨by decide, by simp⟩

variable {type : Parser TypeExpr} {fuel : Nat}

theorem words_path (path : Path) {rest : List Char} (hrest : Ends nameMarks rest) :
    words '.' (path.text ++ rest) =
        (path.first, path.others, separated '/' path.nested ++ rest) ∧
      words '/' (separated '/' path.nested ++ rest) = ([], path.nested, rest) := by
  have hword := path.isWord
  simp only [List.forall_mem_cons, List.forall_mem_append] at hword
  obtain ⟨hfirst, hothers, hnested⟩ := hword
  constructor
  · rw [Path.text, List.append_assoc]
    exact words_separated (by decide) hfirst.2 hothers (endsWords_nested hrest path.nested)
  · exact words_separated (by decide) (List.forall_mem_nil _) hnested (hrest.endsWords (by decide))

theorem continues_iff (nested : List (List Char)) {rest : List Char} (hrest : Ends nameMarks rest) :
    ((separated '/' nested ++ rest).head? = some '/' ∨
      (separated '/' nested ++ rest).head? = some '<') ↔
        nested ≠ [] ∨ rest.head? = some '<' := by
  cases nested with
  | nil =>
      have hslash : rest.head? ≠ some '/' := hrest.head?_ne (by decide)
      simp [hslash]
  | cons name nested => simp

@[simp] theorem Path.first_ne_nil (path : Path) : path.first ≠ [] :=
  (path.isWord path.first (by simp)).1

theorem named_builtin (path : Path) {builtin : Primitive} (hnil : path.nested = [])
    (hbuiltin : path.builtin? = some builtin) {rest : List Char} (hrest : Ends nameMarks rest)
    (hgeneric : rest.head? ≠ some '<') :
    named type fuel (path.text ++ rest) = .ok (.primitive builtin, rest) := by
  obtain ⟨houter, -⟩ := words_path path hrest
  rw [Path.builtin?] at hbuiltin
  have hslash : rest.head? ≠ some '/' := hrest.head?_ne (by decide)
  simp only [named, houter, List.isEmpty_iff, path.first_ne_nil, if_false, hnil, separated_nil,
    List.nil_append, hslash, hgeneric, or_false, hbuiltin]
  rfl

theorem named_type (path : Path) (h : path.nested = [] → path.builtin? = none) {rest : List Char}
    (hrest : Ends nameMarks rest) (hgeneric : rest.head? ≠ some '<') :
    named type fuel (path.text ++ rest) = .ok (path.type, rest) := by
  obtain ⟨houter, hnested⟩ := words_path path hrest
  have hnone : (if path.nested ≠ [] ∨ rest.head? = some '<' then none
      else builtin? (String.ofList path.first) (path.others.map String.ofList)) = none := by
    split
    · rfl
    · next hnot => exact h (by simpa using fun hne => hnot (.inl hne))
  simp only [named, houter, hnested, List.isEmpty_iff, path.first_ne_nil, if_false,
    continues_iff _ hrest, hnone]
  cases rest with
  | nil => rfl
  | cons c rest =>
      have hslash : (c :: rest).head? ≠ some '/' := hrest.head?_ne (by decide)
      split
      · simp_all
      · simp_all
      · rfl

theorem named_generic (path : Path) {text rest : List Char} {arguments : List TypeExpr}
    (h : typesUntil type '>' fuel text = .ok (arguments, rest)) :
    named type fuel (path.text ++ '<' :: text) = .ok (.generic path.type arguments, rest) := by
  have hrest : Ends nameMarks ('<' :: text) := ends_cons.mpr (by decide)
  obtain ⟨houter, hnested⟩ := words_path path hrest
  simp only [named, houter, hnested, List.isEmpty_iff, path.first_ne_nil, if_false,
    continues_iff _ hrest, List.head?_cons, or_true, if_true, h]
  rfl

/-! ## Reading types back -/

def coreMarks : List Char := '<' :: nameMarks

def typeMarks : List Char := '[' :: '*' :: coreMarks

@[simp] theorem suffixes_of_ends (inner : TypeExpr) {rest : List Char} (h : Ends typeMarks rest) :
    suffixes inner rest = (inner, rest) := by
  have hbracket : rest.head? ≠ some '[' := h.head?_ne (by decide)
  have hstar : rest.head? ≠ some '*' := h.head?_ne (by decide)
  unfold suffixes
  split <;> simp_all

theorem typesUntil_last {close : Char} {text rest behind : List Char} {first : TypeExpr}
    (hfirst : type text = .ok (first, rest)) (hclose : skipBlanks rest = close :: behind)
    (hcomma : close ≠ ',') : typesUntil type close (fuel + 1) text = .ok ([first], behind) := by
  simp only [typesUntil, hfirst, hclose, bind, Except.bind]
  split
  · simp_all
  · simp [character, pure, Except.pure]

theorem typesUntil_comma {close : Char} {text rest behind rest' : List Char} {first : TypeExpr}
    {others : List TypeExpr} (hfirst : type text = .ok (first, rest))
    (hcomma : skipBlanks rest = ',' :: behind)
    (hothers : typesUntil type close fuel behind = .ok (others, rest')) :
    typesUntil type close (fuel + 1) text = .ok (first :: others, rest') := by
  simp only [typesUntil, hfirst, hcomma, hothers, bind, Except.bind]
  rfl

@[simp] theorem toList_commaSeparated_cons (first second : String) (others : List String) :
    (commaSeparated (first :: second :: others)).toList =
      first.toList ++ ',' :: ' ' :: (commaSeparated (second :: others)).toList := by
  simp [commaSeparated]

/-- The parser reads the type from its spelling wherever a list goes on or ends behind it. -/
def ReadsItem (type : Parser TypeExpr) (item : TypeExpr) : Prop :=
  ∀ front rest, (∀ c ∈ front, Text.isBlank c = true) → Ends typeMarks rest →
    rest.head? ≠ some ' ' → type (front ++ (item.spelling.toList ++ rest)) = .ok (item, rest)

theorem typesUntil_spellings {close : Char} (hclose : close = '>' ∨ close = ')')
    {types : List TypeExpr} (hne : types ≠ []) (hread : ∀ item ∈ types, ReadsItem type item)
    (hfuel : types.length ≤ fuel) {front : List Char} (hfront : ∀ c ∈ front, Text.isBlank c = true)
    (rest : List Char) :
    typesUntil type close fuel
        (front ++ ((commaSeparated (types.map TypeExpr.spelling)).toList ++ close :: rest)) =
      .ok (types, rest) := by
  have hends : Ends typeMarks (close :: rest) ∧ (close :: rest).head? ≠ some ' ' := by
    rcases hclose with rfl | rfl <;> exact ⟨ends_cons.mpr (by decide), by simp⟩
  have hskip : skipBlanks (close :: rest) = close :: rest := by
    rcases hclose with rfl | rfl <;> exact skipBlanks_cons (by decide) rest
  have hcomma : close ≠ ',' := by
    rcases hclose with rfl | rfl <;> decide
  induction types generalizing fuel front with
  | nil => exact absurd rfl hne
  | cons first others ih =>
      obtain ⟨hfirst, hothers⟩ := List.forall_mem_cons.mp hread
      cases fuel with
      | zero => simp at hfuel
      | succ fuel =>
          cases others with
          | nil =>
              have hlast := hfirst front (close :: rest) hfront hends.1 hends.2
              simpa [commaSeparated] using typesUntil_last hlast hskip hcomma
          | cons second others =>
              have hblank : ∀ c ∈ [' '], Text.isBlank c = true := by
                rw [List.forall_mem_singleton]
                decide
              refine typesUntil_comma ?_ (skipBlanks_cons (by decide) _)
                (ih (by simp) hothers (by simpa using hfuel) hblank)
              simp only [List.map_cons, toList_commaSeparated_cons, List.append_assoc]
              exact hfirst front _ hfront (ends_cons.mpr (by decide)) (by simp)

def refWord : List Char := ['r', 'e', 'f']

theorem Path.mem_text {path : Path} {c : Char} (h : c ∈ path.text) :
    isIdentifierChar c = true ∨ c = '.' ∨ c = '/' := by
  have hword := path.isWord
  simp only [List.forall_mem_cons, List.forall_mem_append] at hword
  obtain ⟨hfirst, hothers, hnested⟩ := hword
  simp only [Path.text, separated, List.mem_append, List.mem_flatMap, List.mem_cons] at h
  rcases h with (h | ⟨word, hword, h⟩) | ⟨word, hword, h⟩
  · exact .inl (hfirst.2 c h)
  · rcases h with h | h
    · exact .inr (.inl h)
    · exact .inl ((hothers word hword).2 c h)
  · rcases h with h | h
    · exact .inr (.inr h)
    · exact .inl ((hnested word hword).2 c h)

theorem Path.exists_cons (path : Path) :
    ∃ c text, path.text = c :: text ∧ isIdentifierChar c = true := by
  obtain ⟨hne, hchars⟩ := path.isWord path.first (by simp)
  obtain ⟨c, first, hfirst⟩ := List.exists_cons_of_ne_nil hne
  refine ⟨c, first ++ separated '.' path.others ++ separated '/' path.nested, ?_, ?_⟩
  · rw [Path.text, hfirst]
    rfl
  · exact hchars c (by simp [hfirst])

theorem Path.not_ref (path : Path) {rest : List Char} (hrest : Ends nameMarks rest)
    (href : rest.head? = some ' ' → path.text ≠ refWord) (behind : List Char) :
    path.text ++ rest ≠ 'r' :: 'e' :: 'f' :: ' ' :: behind := by
  intro h
  have hblank : ' ' ∉ path.text := fun hmem => absurd (Path.mem_text hmem) (by decide)
  have hletters : ¬ Ends nameMarks ('e' :: 'f' :: ' ' :: behind) ∧
      ¬ Ends nameMarks ('f' :: ' ' :: behind) := by
    simp only [ends_cons]
    decide
  obtain ⟨c, text, htext, -⟩ := path.exists_cons
  rw [htext] at h href hblank
  match text, h, href, hblank with
  | [], h, _, _ => exact hletters.1 (by simp_all)
  | [_], h, _, _ => exact hletters.2 (by simp_all)
  | [_, _], h, href, _ => simp_all [refWord]
  | _ :: _ :: _ :: _, h, _, hblank => simp_all

theorem typeAt_of_core {text rest : List Char} {inner : TypeExpr}
    (hblank : skipBlanks text = text) (href : ∀ behind, text ≠ 'r' :: 'e' :: 'f' :: ' ' :: behind)
    (hcore : core (typeAt fuel) fuel text = .ok (inner, rest)) :
    typeAt (fuel + 1) text = .ok (suffixes inner rest) := by
  rw [typeAt, hblank]
  split
  · exact absurd rfl (href _)
  · simp only [hcore, bind, Except.bind]
    rfl

theorem core_of_named {text : List Char} (h : text.head? ≠ some '!') :
    core type fuel text = named type fuel text := by
  unfold core
  split <;> simp_all

theorem core_typeParameter {text rest : List Char} {index : Nat}
    (h : parameterIndex text = .ok (index, rest)) (hmark : text.head? ≠ some '!') :
    core type fuel ('!' :: text) = .ok (.typeParameter index, rest) := by
  unfold core
  split
  · simp_all
  · next htext =>
      cases htext
      simp only [h, bind, Except.bind]
      rfl
  · simp_all

theorem Path.typeAt_of_named (path : Path) {rest behind : List Char} {inner : TypeExpr}
    (hrest : Ends nameMarks rest) (href : rest.head? = some ' ' → path.text ≠ refWord)
    (h : named (typeAt fuel) fuel (path.text ++ rest) = .ok (inner, behind)) :
    typeAt (fuel + 1) (path.text ++ rest) = .ok (suffixes inner behind) := by
  obtain ⟨c, text, htext, hc⟩ := path.exists_cons
  refine typeAt_of_core ?_ (path.not_ref hrest href) ?_
  · rw [htext]
    exact skipBlanks_cons (isBlank_of_isIdentifierChar hc) _
  · rw [core_of_named, h]
    rw [htext]
    rintro ⟨⟩
    revert hc
    decide

def Path.ofBuiltin (builtin : Primitive) : Path where
  first := builtin.name.toList
  others := []
  nested := []
  isWord := by
    cases builtin <;> simp [Primitive.name, IsWord] <;> decide

@[simp] theorem Path.builtin?_ofBuiltin (builtin : Primitive) :
    (Path.ofBuiltin builtin).builtin? = some builtin := by
  cases builtin <;> rfl

def endsInRef : TypeExpr → Bool
  | .byRef element => endsInRef element
  | .parsed none name => name.toList == refWord
  | _ => false

theorem Path.endsInRef_of_text {path : Path} (h : path.text = refWord) :
    endsInRef path.type = true := by
  have hdot : '.' ∉ path.text := by
    rw [h]
    decide
  have hslash : '/' ∉ path.text := by
    rw [h]
    decide
  obtain ⟨first, others, nested, isWord⟩ := path
  cases others with
  | cons => simp [Path.text] at hdot
  | nil =>
      cases nested with
      | cons => simp [Path.text] at hslash
      | nil =>
        simp [Path.text] at h
        simp [h, Path.type, nestedType, dottedType, endsInRef]

theorem typeAt_blanks {front : List Char} (hfront : ∀ c ∈ front, Text.isBlank c = true)
    (text : List Char) : typeAt (fuel + 1) (front ++ text) = typeAt (fuel + 1) text := by
  have hskip : skipBlanks (front ++ text) = skipBlanks text := List.dropWhile_append_of_pos hfront
  simp only [typeAt, hskip]

structure EndsAfter (inner : TypeExpr) (rest : List Char) : Prop where
  core : Ends coreMarks rest
  ref : rest.head? = some ' ' → endsInRef inner = false
  suffix : ∀ element, inner = .byRef element → Ends typeMarks rest

theorem EndsAfter.of_ends {inner : TypeExpr} {rest : List Char} (h : Ends typeMarks rest)
    (hblank : rest.head? ≠ some ' ') : EndsAfter inner rest where
  core := h.mono (by decide)
  ref := fun hhead => absurd hhead hblank
  suffix := fun _ _ => h

theorem EndsAfter.of_value {inner : TypeExpr} (hvalue : ∀ element, inner ≠ .byRef element)
    {rest : List Char} (h : Ends coreMarks rest) (hblank : rest.head? ≠ some ' ') :
    EndsAfter inner rest where
  core := h
  ref := fun hhead => absurd hhead hblank
  suffix := fun element helement => absurd helement (hvalue element)

@[simp] theorem length_commaSeparated_cons (first second : String) (others : List String) :
    (commaSeparated (first :: second :: others)).length =
      first.length + 2 + (commaSeparated (second :: others)).length := by
  have h := congrArg List.length (toList_commaSeparated_cons first second others)
  simp only [List.length_append, List.length_cons, String.length_toList] at h
  omega

theorem length_le_commaSeparated (types : List TypeExpr) :
    types.length ≤ (commaSeparated (types.map TypeExpr.spelling)).length + 1 ∧
      ∀ item ∈ types,
        item.spelling.length ≤ (commaSeparated (types.map TypeExpr.spelling)).length := by
  induction types with
  | nil => simp
  | cons first others ih =>
      cases others with
      | nil => simp [commaSeparated]
      | cons second others =>
          obtain ⟨hcount, hitems⟩ := ih
          simp only [List.map_cons, length_commaSeparated_cons, List.length_cons] at *
          refine ⟨by omega, List.forall_mem_cons.mpr ⟨by omega, ?_⟩⟩
          intro item hitem
          exact Nat.le_trans (hitems item hitem) (by omega)

theorem typeAt_builtin (builtin : Primitive) {rest : List Char} (hrest : Ends coreMarks rest) :
    typeAt (fuel + 1) (builtin.name.toList ++ rest) =
      .ok (suffixes (.primitive builtin) rest) := by
  have hname : Ends nameMarks rest := hrest.mono (by decide)
  have htext : (Path.ofBuiltin builtin).text = builtin.name.toList := by
    simp [Path.text, Path.ofBuiltin]
  rw [← htext]
  refine (Path.ofBuiltin builtin).typeAt_of_named hname ?_ (named_builtin _ rfl
    (Path.builtin?_ofBuiltin builtin) hname (hrest.head?_ne (by decide)))
  rw [htext]
  intro _
  cases builtin <;> decide

theorem typeAt_typeParameter {index : Nat} (hindex : index < wordLimit) {rest : List Char}
    (hrest : Ends coreMarks rest) :
    typeAt (fuel + 1) ('!' :: (Nat.toDigits 10 index ++ rest)) =
      .ok (suffixes (.typeParameter index) rest) := by
  have hdigits := parameterIndex_toDigits hindex fun c hc => (hrest c hc).1
  have hmark : (Nat.toDigits 10 index ++ rest).head? ≠ some '!' := by
    obtain ⟨digit, digits, htext⟩ := List.exists_cons_of_ne_nil (Nat.toDigits_ne_nil (n := index))
    rw [htext]
    rintro ⟨⟩
    cases isDigit_of_mem_toDigits (htext ▸ List.mem_cons_self)
  exact typeAt_of_core rfl (by simp) (core_typeParameter hdigits hmark)

theorem typeAt_methodParameter {index : Nat} (hindex : index < wordLimit) {rest : List Char}
    (hrest : Ends coreMarks rest) :
    typeAt (fuel + 1) ('!' :: '!' :: (Nat.toDigits 10 index ++ rest)) =
      .ok (suffixes (.methodParameter index) rest) := by
  have hdigits := parameterIndex_toDigits hindex fun c hc => (hrest c hc).1
  refine typeAt_of_core rfl (by simp) ?_
  simp only [core, hdigits, bind, Except.bind]
  rfl

theorem typeAt_byRef {text rest : List Char} {inner : TypeExpr}
    (h : typeAt fuel text = .ok (inner, rest)) :
    typeAt (fuel + 1) ('r' :: 'e' :: 'f' :: ' ' :: text) = .ok (.byRef inner, rest) := by
  have hskip : skipBlanks ('r' :: 'e' :: 'f' :: ' ' :: text) = 'r' :: 'e' :: 'f' :: ' ' :: text :=
    skipBlanks_cons (by decide) _
  simp only [typeAt, hskip, h, bind, Except.bind]
  rfl

theorem Declared.typeAt_spelling {inner : TypeExpr} (h : Declared inner) {rest : List Char}
    (hfuel : inner.spelling.length ≤ fuel) (hrest : EndsAfter inner rest) :
    typeAt (fuel + 1) (inner.spelling.toList ++ rest) = .ok (suffixes inner rest) := by
  induction h generalizing fuel rest with
  | primitive builtin => exact typeAt_builtin builtin hrest.core
  | typeParameter hindex =>
      simpa [TypeExpr.spelling] using typeAt_typeParameter hindex hrest.core
  | methodParameter hindex =>
      simpa [TypeExpr.spelling] using typeAt_methodParameter hindex hrest.core
  | named path hbuiltin =>
      have hname : Ends nameMarks rest := hrest.core.mono (by decide)
      rw [path.toList_spelling]
      refine path.typeAt_of_named hname ?_
        (named_type path hbuiltin hname (hrest.core.head?_ne (by decide)))
      intro hhead htext
      cases (hrest.ref hhead).symm.trans (Path.endsInRef_of_text htext)
  | @generic path arguments hne hargs ih =>
      obtain ⟨hcount, hitems⟩ := length_le_commaSeparated arguments
      have htext : (TypeExpr.generic path.type arguments).spelling.toList ++ rest =
          path.text ++
            '<' :: ((commaSeparated (arguments.map TypeExpr.spelling)).toList ++ '>' :: rest) := by
        simp [TypeExpr.spelling]
      have hlength : (commaSeparated (arguments.map TypeExpr.spelling)).length + 2 ≤ fuel := by
        simp only [TypeExpr.spelling, TypeExpr.spellings_eq_map, String.length_append] at hfuel
        have : "<".length = 1 := rfl
        have : ">".length = 1 := rfl
        omega
      obtain ⟨fuel, rfl⟩ : ∃ n, fuel = n + 1 := ⟨fuel - 1, by omega⟩
      rw [htext]
      refine path.typeAt_of_named (ends_cons.mpr (by decide)) (by simp) (named_generic path ?_)
      refine typesUntil_spellings (.inl rfl) hne ?_ (by omega) (List.forall_mem_nil _) rest
      intro item hitem front rest hfront hends hblank
      have hle := hitems item hitem
      rw [typeAt_blanks hfront, ih item hitem (by omega) (.of_ends hends hblank),
        suffixes_of_ends item hends]
  | @szArray element h hvalue ih =>
      have hlength : element.spelling.length ≤ fuel := by
        simp only [TypeExpr.spelling, String.length_append] at hfuel
        omega
      have helement : typeAt (fuel + 1) (element.spelling.toList ++ '[' :: ']' :: rest) =
          .ok (suffixes element ('[' :: ']' :: rest)) :=
        ih hlength (.of_value hvalue (ends_cons.mpr (by decide)) (by simp))
      simpa [TypeExpr.spelling, suffixes] using helement
  | @pointer element h hvalue ih =>
      have hlength : element.spelling.length ≤ fuel := by
        simp only [TypeExpr.spelling, String.length_append] at hfuel
        omega
      have helement : typeAt (fuel + 1) (element.spelling.toList ++ '*' :: rest) =
          .ok (suffixes element ('*' :: rest)) :=
        ih hlength (.of_value hvalue (ends_cons.mpr (by decide)) (by simp))
      simpa [TypeExpr.spelling, suffixes] using helement
  | @byRef element h ih =>
      have hends := hrest.suffix element rfl
      have hlength : element.spelling.length + 4 ≤ fuel := by
        simp only [TypeExpr.spelling, String.length_append] at hfuel
        have hmark : "ref ".length = 4 := rfl
        omega
      obtain ⟨fuel, rfl⟩ : ∃ n, fuel = n + 1 := ⟨fuel - 1, by omega⟩
      have helement : typeAt (fuel + 1) (element.spelling.toList ++ rest) = .ok (element, rest) := by
        rw [ih (by omega) ⟨hrest.core, hrest.ref, fun _ _ => hends⟩, suffixes_of_ends element hends]
      rw [suffixes_of_ends _ hends]
      simpa [TypeExpr.spelling] using typeAt_byRef helement

theorem Declared.type_spelling {inner : TypeExpr} (h : Declared inner) {front rest : List Char}
    (hfront : ∀ c ∈ front, Text.isBlank c = true) (hrest : EndsAfter inner rest) :
    Declaration.type (front ++ (inner.spelling.toList ++ rest)) = .ok (suffixes inner rest) := by
  rw [Declaration.type, typeAt_blanks hfront]
  refine h.typeAt_spelling ?_ hrest
  simp only [List.length_append, String.length_toList]
  omega

/-! ## What is read -/

theorem dottedType_ne_byRef (first : String) (others : List String) (element : TypeExpr) :
    dottedType first others ≠ .byRef element := by
  unfold dottedType
  split <;> exact nofun

theorem nestedType_ne_byRef {outer : TypeExpr} (houter : ∀ element, outer ≠ .byRef element)
    (names : List String) (element : TypeExpr) : nestedType outer names ≠ .byRef element := by
  induction names generalizing outer with
  | nil => exact houter element
  | cons name names ih => exact ih nofun

theorem declared_of_typesUntil {close : Char}
    (hread : ∀ {text rest inner}, type text = .ok (inner, rest) → Declared inner)
    {text rest : List Char} {types : List TypeExpr}
    (h : typesUntil type close fuel text = .ok (types, rest)) :
    types ≠ [] ∧ ∀ item ∈ types, Declared item := by
  induction fuel generalizing text types rest with
  | zero => cases h
  | succ fuel ih =>
      obtain ⟨⟨first, behind⟩, hfirst, h⟩ := bind_eq_ok_iff.mp h
      dsimp only at h
      split at h
      · obtain ⟨⟨others, rest'⟩, hothers, h⟩ := bind_eq_ok_iff.mp h
        cases h
        exact ⟨by simp, List.forall_mem_cons.mpr ⟨hread hfirst, (ih hothers).2⟩⟩
      · obtain ⟨⟨⟨⟩, rest'⟩, -, h⟩ := bind_eq_ok_iff.mp h
        cases h
        exact ⟨by simp, by simpa using hread hfirst⟩

theorem declared_of_named
    (hread : ∀ {text rest inner}, type text = .ok (inner, rest) → Declared inner)
    {text rest : List Char} {inner : TypeExpr} (h : named type fuel text = .ok (inner, rest)) :
    Declared inner ∧ ∀ element, inner ≠ .byRef element := by
  rcases hwords : words '.' text with ⟨first, others, behind⟩
  rcases hnested : words '/' behind with ⟨first', nested, rest'⟩
  obtain ⟨hfirst, hothers, hends⟩ := isWord_of_words hwords
  obtain ⟨-, hnames, -⟩ := isWord_of_words hnested
  simp only [named, hwords, hnested, List.isEmpty_iff] at h
  split at h
  · cases h
  next hne =>
  have hpath : ∀ word ∈ first :: (others ++ nested), IsWord word := by
    simp only [List.forall_mem_cons, List.forall_mem_append]
    exact ⟨⟨hne, hfirst⟩, hothers, hnames⟩
  let path : Path := ⟨first, others, nested, hpath⟩
  split at h
  · cases h
    exact ⟨.primitive _, nofun⟩
  next hbuiltin =>
  split at h
  · cases h
  · obtain ⟨⟨arguments, rest'⟩, harguments, h⟩ := bind_eq_ok_iff.mp h
    cases h
    obtain ⟨hne, hall⟩ := declared_of_typesUntil hread harguments
    exact ⟨.generic path hne hall, nofun⟩
  · next hslash hangle =>
    cases h
    refine ⟨.named path ?_, nestedType_ne_byRef (dottedType_ne_byRef _ _) _⟩
    intro hnil
    -- Nothing is nested, so the name is followed by what stands behind the whole type.
    obtain rfl : behind = _ := rest_eq_of_words (fun c text htext => (hends c text htext).1)
      ((show nested = [] from hnil) ▸ hnested)
    have hnot : ¬ (behind.head? = some '/' ∨ behind.head? = some '<') := by
      simp only [List.head?_eq_some_iff, not_or, not_exists]
      exact ⟨hslash, hangle⟩
    rwa [if_neg hnot] at hbuiltin

theorem declared_of_core
    (hread : ∀ {text rest inner}, type text = .ok (inner, rest) → Declared inner)
    {text rest : List Char} {inner : TypeExpr} (h : core type fuel text = .ok (inner, rest)) :
    Declared inner ∧ ∀ element, inner ≠ .byRef element := by
  unfold core at h
  split at h
  · obtain ⟨⟨index, rest'⟩, hindex, h⟩ := bind_eq_ok_iff.mp h
    cases h
    exact ⟨.methodParameter (index_lt_of_parameterIndex hindex), nofun⟩
  · obtain ⟨⟨index, rest'⟩, hindex, h⟩ := bind_eq_ok_iff.mp h
    cases h
    exact ⟨.typeParameter (index_lt_of_parameterIndex hindex), nofun⟩
  · exact declared_of_named hread h

theorem Declared.suffixes {inner : TypeExpr} (h : Declared inner)
    (hvalue : ∀ element, inner ≠ .byRef element) (text : List Char) :
    Declared (suffixes inner text).1 := by
  fun_induction Declaration.suffixes inner text with
  | case1 inner rest ih => exact ih (.szArray h hvalue) nofun
  | case2 inner rest ih => exact ih (.pointer h hvalue) nofun
  | case3 => exact h

theorem declared_of_typeAt {text rest : List Char} {inner : TypeExpr}
    (h : typeAt fuel text = .ok (inner, rest)) : Declared inner := by
  induction fuel generalizing text rest inner with
  | zero => cases h
  | succ fuel ih =>
      rw [typeAt] at h
      split at h
      · obtain ⟨⟨element, rest'⟩, helement, h⟩ := bind_eq_ok_iff.mp h
        cases h
        exact .byRef (ih helement)
      · obtain ⟨⟨value, rest'⟩, hvalue, h⟩ := bind_eq_ok_iff.mp h
        obtain ⟨hdeclared, hbyRef⟩ := declared_of_core ih hvalue
        have hsuffixes : suffixes value rest' = (inner, rest) := Except.ok.inj h
        simpa [hsuffixes] using hdeclared.suffixes hbyRef rest'

/-! ## Whole declarations -/

theorem complete_eq_ok_iff {α : Type} {parser : Parser α} {text : String} {value : α} :
    complete parser text = .ok value ↔
      ∃ rest, parser text.toList = .ok (value, rest) ∧ skipBlanks rest = [] := by
  simp only [complete, bind, Except.bind]
  cases hparser : parser text.toList with
  | error stop => simp [Except.mapError]
  | ok result =>
      obtain ⟨found, rest⟩ := result
      cases hskip : skipBlanks rest with
      | nil => simp [finished, hskip, Except.mapError, pure, Except.pure]
      | cons c behind => simp [finished, hskip, Except.mapError]

end Declaration

open Declaration

theorem declared_of_parseType {text : String} {inner : TypeExpr} (h : parseType text = .ok inner) :
    Declared inner := by
  obtain ⟨rest, hread, -⟩ := complete_eq_ok_iff.mp h
  exact declared_of_typeAt hread

theorem Declaration.Declared.parseType {inner : TypeExpr} (h : Declared inner) :
    parseType inner.spelling = .ok inner := by
  have hends := ends_nil typeMarks
  have hspelling := h.type_spelling (List.forall_mem_nil _) (.of_ends hends (by simp))
  rw [suffixes_of_ends inner hends, List.nil_append, List.append_nil] at hspelling
  exact complete_eq_ok_iff.mpr ⟨[], hspelling, rfl⟩

/-- A type that was read from a declaration is read back from its spelling, and shows nothing
that the spelling hides. -/
theorem parseType_spelling_of_parseType {text : String} {inner : TypeExpr}
    (h : parseType text = .ok inner) :
    parseType inner.spelling = .ok inner ∧ inner.display = inner.spelling := by
  have hdeclared := declared_of_parseType h
  exact ⟨hdeclared.parseType, hdeclared.display_eq⟩

/-- Keywords and the word `ref` as names, blanks, and an index with zeros in front. -/
def rowDeclaration : String := "  ref Game.Table`2/Row< int , ref[]*, int/ref<!!007> >"

def rowType : TypeExpr :=
  .byRef (.generic (.parsedIn (.parsed (some "Game") "Table`2") none "Row")
    [.primitive .int32, .pointer (.szArray (.parsed none "ref")),
      .generic (.parsedIn (.parsed none "int") none "ref") [.methodParameter 7]])

theorem parseType_spelling_rowType :
    parseType rowDeclaration = .ok rowType ∧
      parseType rowType.spelling = .ok rowType ∧ rowType.display = rowType.spelling := by
  have hparse : parseType rowDeclaration = .ok rowType := by
    decide +kernel
  exact ⟨hparse, parseType_spelling_of_parseType hparse⟩

end AssemblyGate
