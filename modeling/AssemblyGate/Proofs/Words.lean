import AssemblyGate.Policy.Declaration
import AssemblyGate.TypeExpr.Spelling

/-!
# Words of a declaration

What the scanners of a declaration take from a text: the digits of an index, and runs of
words with a separator between them.  Both are read back from a text that starts with them,
provided that the rest of the text cannot go on with them.
-/

namespace AssemblyGate

/-! ## Characters -/

namespace Text

@[simp] theorem isAlphanumeric_of_isDigit {c : Char} (h : c.isDigit = true) :
    isAlphanumeric c = true := by
  have hlast : c.toNat ≤ '9'.toNat := by
    simp only [Char.isDigit, Bool.and_eq_true, decide_eq_true_eq] at h
    exact UInt32.le_iff_toNat_le.mp h.2
  have hascii : c.toNat < 0x80 := Nat.lt_of_le_of_lt hlast (by decide)
  simp [isAlphanumeric, hascii, Char.isAlphanum, h]

@[simp] theorem isAlphanumeric_of_isBlank {c : Char} (h : isBlank c = true) :
    isAlphanumeric c = false := by
  have hblanks : ∀ range ∈ blankRanges, ∀ code ∈ List.range' range.1 (range.2 + 1 - range.1),
      isAlphanumeric (Char.ofNat code) = false := by
    decide +kernel
  simp only [isBlank, List.any_eq_true, Bool.and_eq_true, decide_eq_true_eq] at h
  obtain ⟨⟨first, last⟩, hrange, hfirst, hlast⟩ := h
  have hcode := hblanks _ hrange c.toNat (List.mem_range'_1.mpr ⟨hfirst, by dsimp only; omega⟩)
  rwa [Char.ofNat_toNat] at hcode

end Text

namespace Declaration

@[simp] theorem isIdentifierChar_of_isDigit {c : Char} (h : c.isDigit = true) :
    isIdentifierChar c = true := by
  simp [isIdentifierChar, h]

@[simp] theorem isBlank_of_isIdentifierChar {c : Char} (h : isIdentifierChar c = true) :
    Text.isBlank c = false := by
  cases hblank : Text.isBlank c with
  | false => rfl
  | true =>
      simp only [isIdentifierChar, Text.isAlphanumeric_of_isBlank hblank, Bool.false_or,
        Bool.or_eq_true, beq_iff_eq] at h
      rcases h with rfl | rfl <;> revert hblank <;> decide

@[simp] theorem skipBlanks_cons {c : Char} (h : Text.isBlank c = false) (text : List Char) :
    skipBlanks (c :: text) = c :: text := by
  simp [skipBlanks, h]

@[simp] theorem isBlank_of_isMemberChar {c : Char} (h : isMemberChar c = true) :
    Text.isBlank c = false := by
  simp only [isMemberChar, Bool.or_eq_true, beq_iff_eq] at h
  rcases h with (h | rfl) | rfl
  · exact isBlank_of_isIdentifierChar h
  · decide
  · decide

theorem scan_append {accept : Char → Bool} {front rest : List Char}
    (hfront : ∀ c ∈ front, accept c = true)
    (hrest : ∀ c, rest.head? = some c → accept c = false) :
    (front ++ rest).takeWhile accept = front ∧ (front ++ rest).dropWhile accept = rest := by
  rw [List.takeWhile_append_of_pos hfront, List.dropWhile_append_of_pos hfront]
  cases rest with
  | nil => simp
  | cons c rest => simp [hrest c rfl]

/-! ## Indexes -/

@[simp] theorem digitsValue_toDigits (index : Nat) :
    digitsValue (Nat.toDigits 10 index) = index := by
  have hfold : digitsValue (Nat.toDigits 10 index) =
      Nat.ofDigitChars 10 (Nat.toDigits 10 index) 0 := by
    simp only [digitsValue, Nat.ofDigitChars_eq_foldl, Nat.mul_comm]
  rw [hfold, Nat.ofDigitChars_ten_toDigits]

theorem isDigit_of_mem_toDigits {index : Nat} {c : Char} (h : c ∈ Nat.toDigits 10 index) :
    c.isDigit = true :=
  Nat.isDigit_of_mem_toDigits (by decide) (by decide) h

theorem parameterIndex_toDigits {index : Nat} (hindex : index < wordLimit) {rest : List Char}
    (hrest : ∀ c, rest.head? = some c → isIdentifierChar c = false) :
    parameterIndex (Nat.toDigits 10 index ++ rest) = .ok (index, rest) := by
  have hdigits : ∀ c ∈ Nat.toDigits 10 index, c.isDigit = true :=
    fun c hc => isDigit_of_mem_toDigits hc
  have hend : ∀ c, rest.head? = some c → c.isDigit = false := by
    intro c hc
    rw [← Bool.not_eq_true]
    intro hdigit
    cases (hrest c hc).symm.trans (isIdentifierChar_of_isDigit hdigit)
  obtain ⟨htake, hdrop⟩ := scan_append hdigits hend
  have hnot : ¬ ((Nat.toDigits 10 index).isEmpty = true ∨ wordLimit ≤ index) := by
    simp [Nat.toDigits_ne_nil, hindex]
  simp only [parameterIndex, htake, hdrop, digitsValue_toDigits, ge_iff_le, if_neg hnot]

theorem index_lt_of_parameterIndex {text rest : List Char} {index : Nat}
    (h : parameterIndex text = .ok (index, rest)) : index < wordLimit := by
  simp only [parameterIndex] at h
  split at h
  · cases h
  · next hlimit =>
      cases h
      exact Nat.lt_of_not_le fun hge => hlimit (.inr hge)

/-! ## Runs of words -/

def IsWord (word : List Char) : Prop :=
  word ≠ [] ∧ ∀ c ∈ word, isIdentifierChar c = true

def separated (separator : Char) (others : List (List Char)) : List Char :=
  others.flatMap (separator :: ·)

@[simp] theorem separated_nil (separator : Char) : separated separator [] = [] := rfl

@[simp] theorem separated_cons (separator : Char) (word : List Char) (others : List (List Char)) :
    separated separator (word :: others) = separator :: word ++ separated separator others := by
  simp [separated]

@[simp] theorem separated_append (separator : Char) (front back : List (List Char)) :
    separated separator (front ++ back) = separated separator front ++ separated separator back := by
  simp [separated]

theorem intercalate_eq_separated (separator : Char) (first : List Char)
    (others : List (List Char)) :
    [separator].intercalate (first :: others) = first ++ separated separator others := by
  induction others generalizing first with
  | nil => simp
  | cons word others ih => simp [List.intercalate_cons_cons, ih word]

/-- A text with which a run of words cannot go on. -/
def EndsWords (separator : Char) (rest : List Char) : Prop :=
  ∀ c text, rest = c :: text →
    isIdentifierChar c = false ∧ ¬ (c = separator ∧ text.head?.any isIdentifierChar = true)

@[simp] theorem words_of_ends {separator : Char} {rest : List Char} (h : EndsWords separator rest) :
    words separator rest = ([], [], rest) := by
  cases rest with
  | nil => rfl
  | cons c text =>
      obtain ⟨hc, hseparator⟩ := h c text rfl
      simp [words, hc, hseparator]

@[simp] theorem words_append {separator : Char} {word text : List Char}
    (hword : ∀ c ∈ word, isIdentifierChar c = true) :
    words separator (word ++ text) =
      (word ++ (words separator text).1, (words separator text).2) := by
  induction word with
  | nil => rfl
  | cons c word ih =>
      rw [List.forall_mem_cons] at hword
      simp [words, hword.1, ih hword.2]

theorem words_separated {separator : Char} (hseparator : isIdentifierChar separator = false)
    {first : List Char} (hfirst : ∀ c ∈ first, isIdentifierChar c = true)
    {others : List (List Char)} (hothers : ∀ word ∈ others, IsWord word) {rest : List Char}
    (hrest : EndsWords separator rest) :
    words separator (first ++ separated separator others ++ rest) = (first, others, rest) := by
  induction others generalizing first with
  | nil => simp [words_append hfirst, words_of_ends hrest]
  | cons word others ih =>
      rw [List.forall_mem_cons] at hothers
      obtain ⟨⟨hne, hword⟩, hothers⟩ := hothers
      have hhead :
          (word ++ separated separator others ++ rest).head?.any isIdentifierChar = true := by
        obtain ⟨c, word, rfl⟩ := List.exists_cons_of_ne_nil hne
        exact hword c (by simp)
      have htext : first ++ separated separator (word :: others) ++ rest =
          first ++ separator :: (word ++ separated separator others ++ rest) := by
        simp
      rw [htext, words_append hfirst, words, if_neg (by simp [hseparator]),
        if_pos ⟨rfl, hhead⟩, ih hword hothers]
      simp

theorem first_ne_nil_of_head {separator : Char} {text : List Char}
    (h : text.head?.any isIdentifierChar = true) : (words separator text).1 ≠ [] := by
  cases text with
  | nil => cases h
  | cons c text =>
      rw [List.head?_cons, Option.any_some] at h
      simp [words, h]

theorem rest_eq_of_words {separator : Char} {text first rest : List Char}
    (htext : ∀ c behind, text = c :: behind → isIdentifierChar c = false)
    (h : words separator text = (first, [], rest)) : text = rest := by
  cases text with
  | nil =>
      cases h
      rfl
  | cons c behind =>
      rw [words, if_neg (by simp [htext c behind rfl])] at h
      split at h
      · cases h
      · cases h
        rfl

theorem isWord_of_words {separator : Char} {text first rest : List Char}
    {others : List (List Char)} (h : words separator text = (first, others, rest)) :
    (∀ c ∈ first, isIdentifierChar c = true) ∧ (∀ word ∈ others, IsWord word) ∧
      EndsWords separator rest := by
  induction text generalizing first others rest with
  | nil =>
      cases h
      simp [EndsWords]
  | cons c text ih =>
      obtain ⟨hfirst, hothers, hrest⟩ := ih rfl
      rw [words] at h
      split at h
      · next hc =>
          cases h
          exact ⟨List.forall_mem_cons.mpr ⟨hc, hfirst⟩, hothers, hrest⟩
      · next hc =>
          split at h
          · next hseparator =>
              cases h
              have hword : IsWord (words separator text).1 :=
                ⟨first_ne_nil_of_head hseparator.2, hfirst⟩
              exact ⟨by simp, List.forall_mem_cons.mpr ⟨hword, hothers⟩, hrest⟩
          · next hseparator =>
              cases h
              refine ⟨by simp, by simp, ?_⟩
              rintro _ _ ⟨⟩
              exact ⟨by simpa using hc, hseparator⟩

end Declaration

end AssemblyGate
