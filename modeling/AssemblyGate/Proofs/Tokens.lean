import AssemblyGate.Metadata.Resolve
import Mathlib.Data.Nat.Bitwise

/-!
# Tokens of coded indexes

A coded index of four bytes has room for rows of up to 31 bits, a token only for rows of
24 bits.  The row is laid over the table byte of the token, so that its upper bits end up
in the number of the table.  An index and its token name the same row exactly if the row
fits; then whoever chooses by the table of the index and goes on with its token stays with
one row.
-/

namespace AssemblyGate

/-! ## Words -/

namespace Token

theorem rowLimit_eq : rowLimit = 2 ^ 24 := rfl

@[simp] theorem toNat_value_ofNat {value : Nat} (h : value < wordLimit) :
    (ofNat value).value.toNat = value :=
  UInt32.toNat_ofNat_of_lt h

end Token

namespace TableId

theorem number_lt (table : TableId) : table.number < 64 := by
  cases table <;> decide

theorem tokenBase_or_lt (table : TableId) {row : Nat} (h : row < wordLimit) :
    table.tokenBase ||| row < wordLimit := by
  have hbase : table.tokenBase < wordLimit := by
    have hnumber := table.number_lt
    rw [tokenBase, Token.rowLimit, wordLimit]
    omega
  exact Nat.or_lt_two_pow (n := 32) hbase h

@[simp] theorem tokenBase_or_div (table : TableId) (row : Nat) :
    (table.tokenBase ||| row) / Token.rowLimit = table.number ||| row / Token.rowLimit := by
  have hbase : table.tokenBase >>> 24 = table.number := by
    rw [Nat.shiftRight_eq_div_pow, tokenBase, Token.rowLimit_eq]
    exact Nat.mul_div_cancel _ (by decide)
  rw [Token.rowLimit_eq, ← Nat.shiftRight_eq_div_pow, ← Nat.shiftRight_eq_div_pow,
    Nat.shiftRight_or_distrib, hbase]

@[simp] theorem tokenBase_or_mod (table : TableId) (row : Nat) :
    (table.tokenBase ||| row) % Token.rowLimit = row % Token.rowLimit := by
  have hbase : table.tokenBase % 2 ^ 24 = 0 := Nat.mul_mod_left _ _
  rw [Token.rowLimit_eq, Nat.or_mod_two_pow, hbase, Nat.zero_or]

end TableId

/-! ## Indexes -/

namespace CodedIndex

variable {kind : CodedKind} {value : Nat} {index : CodedIndex}

def NamesRow (index : CodedIndex) : Prop :=
  index.token.table = index.table.number ∧ index.token.row = index.row

instance (index : CodedIndex) : Decidable index.NamesRow := inferInstanceAs (Decidable (_ ∧ _))

@[simp] theorem table_token (h : index.row < wordLimit) :
    index.token.table = index.table.number ||| index.row / Token.rowLimit := by
  rw [Token.table, token, Token.toNat_value_ofNat (index.table.tokenBase_or_lt h),
    TableId.tokenBase_or_div]

@[simp] theorem row_token (h : index.row < wordLimit) :
    index.token.row = index.row % Token.rowLimit := by
  rw [Token.row, token, Token.toNat_value_ofNat (index.table.tokenBase_or_lt h),
    TableId.tokenBase_or_mod]

@[simp] theorem namesRow_iff (h : index.row < wordLimit) :
    index.NamesRow ↔ index.row < Token.rowLimit := by
  have hpos : 0 < Token.rowLimit := by decide
  rw [NamesRow, table_token h, row_token h]
  constructor
  · rintro ⟨-, hrow⟩
    rw [← hrow]
    exact Nat.mod_lt _ hpos
  · intro hlt
    rw [Nat.div_eq_of_lt hlt, Nat.mod_eq_of_lt hlt, Nat.or_zero]
    exact ⟨rfl, rfl⟩

example : (CodedIndex.mk .typeSpec 0xffffff).NamesRow ∧
    ¬ (CodedIndex.mk .typeSpec 0x1000000).NamesRow := by decide

theorem row_eq_of_decode (h : decode kind value = .ok index) :
    index.row = value / kind.tagLimit := by
  rw [decode] at h
  split at h
  · cases h
    rfl
  · cases h

theorem tagLimit_pos (kind : CodedKind) : 0 < kind.tagLimit := by
  cases kind <;> decide

end CodedIndex

/-! ## What a token resolves to -/

def Metadata.typeOfRow (metadata : Metadata) (table : TableId) (rid : Nat) : Resolve TypeExpr :=
  match table with
  | .typeDef => Fallible.ofExcept (metadata.typeDefinition rid)
  | .typeRef => do pure (.referenced (← metadata.typeReference rid))
  | .typeSpec => metadata.typeSpecification rid
  | table => throw (.inconsistent (.notAType (table.token rid)))

@[simp] theorem TableId.token_row {table : TableId} {token : Token}
    (h : token.table = table.number) :
    table.token token.row = token := by
  have hvalue : token.table * Token.rowLimit + token.row = token.value.toNat :=
    Nat.div_add_mod' _ _
  rw [TableId.token, tokenBase, ← h, hvalue, Token.ofNat, UInt32.ofNat_toNat]

theorem Metadata.resolve_eq_typeOfRow (metadata : Metadata) {table : TableId} {token : Token}
    (h : token.table = table.number) :
    metadata.resolve token = metadata.typeOfRow table token.row := by
  have htoken := TableId.token_row h
  rw [resolve, resolveAt.eq_def]
  simp only [h, TableId.ofNumber?_number]
  -- Past the table the token counts only as a pair of its parts.
  clear h
  generalize token.row = row at htoken ⊢
  subst htoken
  cases table <;> rfl

namespace CodedIndex

variable {kind : CodedKind} {value : Nat} {index : CodedIndex}

theorem NamesRow.resolve_eq (h : index.NamesRow) (metadata : Metadata) :
    metadata.resolve index.token = metadata.typeOfRow index.table index.row := by
  rw [metadata.resolve_eq_typeOfRow h.1, h.2]

/--
The table and the row of the token of a decoded index, whatever the word.  They are those of
the index exactly if the word leaves the row 24 bits; then to resolve the token is to resolve
the row of the index.
-/
theorem decode_namesRow_iff (hvalue : value < wordLimit) (h : decode kind value = .ok index) :
    index.token.table = index.table.number ||| index.row / Token.rowLimit ∧
      index.token.row = index.row % Token.rowLimit ∧
      (index.NamesRow ↔ value < Token.rowLimit * kind.tagLimit) ∧
      (index.NamesRow → ∀ metadata : Metadata,
        metadata.resolve index.token = metadata.typeOfRow index.table index.row) := by
  have hrow : index.row = value / kind.tagLimit := row_eq_of_decode h
  have hlt : index.row < wordLimit := by
    rw [hrow]
    exact (Nat.div_le_self _ _).trans_lt hvalue
  refine ⟨table_token hlt, row_token hlt, ?_, NamesRow.resolve_eq⟩
  rw [namesRow_iff hlt, hrow, Nat.div_lt_iff_lt_mul (tagLimit_pos kind)]

/-- A word past the limit: its index points to row 0x1000001 and its token to row 1. -/
theorem token_of_longRow :
    decode .typeDefOrRef 0x4000005 = .ok ⟨.typeRef, 0x1000001⟩ ∧
      (CodedIndex.mk .typeRef 0x1000001).token.table = TableId.typeRef.number ∧
      (CodedIndex.mk .typeRef 0x1000001).token.row = 1 ∧
      ¬ (CodedIndex.mk .typeRef 0x1000001).NamesRow := by
  have hdecode : decode .typeDefOrRef 0x4000005 = .ok ⟨.typeRef, 0x1000001⟩ := by rfl
  obtain ⟨htable, hrow, hnames, -⟩ := decode_namesRow_iff (by decide) hdecode
  refine ⟨hdecode, htable.trans (by decide), hrow.trans (by decide), ?_⟩
  rw [hnames]
  decide

end CodedIndex

end AssemblyGate
