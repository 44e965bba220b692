import AssemblyGate.Proofs.Encoding
import AssemblyGate.Proofs.Tokens

/-!
# Compressed numbers and tokens

A compressed number has up to 29 bits.  As a token it gives two of them to the tag and so up to
27 to the row, which are laid over a table byte above 24 bits.  Such a token is the token of a
coded index: it names the table of its tag and its row exactly if the row leaves that byte alone,
and the numbers above this limit are those that share their tokens with numbers below it.
-/

namespace AssemblyGate

theorem compressedNumber_lt {bytes rest : List UInt8} {value : Nat}
    (h : compressedNumber bytes = (.ok value, rest)) : value < compressedLimit := by
  have hbyte : ∀ byte : UInt8, byte.toNat < 0x100 := UInt8.toNat_lt
  rw [compressedLimit]
  unfold compressedNumber at h
  split at h
  · cases h
  next lead _ =>
  have hlead := hbyte lead
  split at h
  · cases h
    omega
  split at h
  · next low _ _ =>
      split at h
      · next low _ =>
          cases h
          have hlow := hbyte low
          omega
      · cases h
  split at h
  · next hfour =>
      split at h
      · next high mid low _ =>
          cases h
          have hhigh := hbyte high
          have hmid := hbyte mid
          have hlow := hbyte low
          have hlead := UInt8.lt_iff_toNat_lt.mp hfour
          change lead.toNat < 0xe0 at hlead
          omega
      · cases h
  · cases h

theorem compressedToken_eq_ok_iff {value : Nat} {token : Token} :
    compressedToken value = .ok token ↔
      ∃ table, compressedTables[value % 4]? = some table ∧
        (CodedIndex.mk table (value / 4)).token = token := by
  rw [compressedToken]
  cases compressedTables[value % 4]? with
  | none => simp
  | some table => simp [CodedIndex.token]

/-! ## Tokens that are read -/

namespace Signature

structure StartsWith (bytes : List UInt8) (value : Nat) (token : Token) : Prop where
  number : (compressedNumber bytes).1 = .ok value
  token : compressedToken value = .ok token

theorem StartsWith.lt {bytes : List UInt8} {value : Nat} {token : Token}
    (h : StartsWith bytes value token) : value < compressedLimit :=
  compressedNumber_lt (Prod.ext h.number rfl)

theorem runOn_token_eq_ok_iff {σ : Type} {cursor : Cursor} {state : σ} {token : Token} :
    (Decoder.token.runOn (cursor, state)).1 = .ok token ↔
      ∃ value, StartsWith cursor.rest value token := by
  have hnumber : Decoder.number.runOn (cursor, state) =
      ((compressedNumber cursor.rest).1,
        ({ cursor with rest := (compressedNumber cursor.rest).2 }, state)) := rfl
  rw [Decoder.token, Fallible.runOn_bind, hnumber]
  constructor
  · intro h
    cases hresult : (compressedNumber cursor.rest).1 with
    | error error =>
        rw [hresult] at h
        cases h
    | ok value =>
        rw [hresult] at h
        exact ⟨value, hresult, h⟩
  · rintro ⟨value, hvalue, htoken⟩
    rw [hvalue]
    exact htoken

/-- The numbers below it leave the table byte of their token alone. -/
def directLimit : Nat := 4 * Token.rowLimit

/-- Some bit of every table number hides a bit of the row. -/
theorem exists_hidden_bit : ∀ table ∈ compressedTables, ∀ high < 8, ∃ other < 8,
    other ≠ high ∧ table.number ||| other = table.number ||| high := by
  decide

theorem tokenBase_or_eq {table : TableId} {row row' : Nat}
    (hhigh : table.number ||| row / Token.rowLimit = table.number ||| row' / Token.rowLimit)
    (hlow : row % Token.rowLimit = row' % Token.rowLimit) :
    table.tokenBase ||| row = table.tokenBase ||| row' := by
  rw [← Nat.div_add_mod (table.tokenBase ||| row) Token.rowLimit,
    ← Nat.div_add_mod (table.tokenBase ||| row') Token.rowLimit, TableId.tokenBase_or_div,
    TableId.tokenBase_or_div, TableId.tokenBase_or_mod, TableId.tokenBase_or_mod, hhigh, hlow]

@[simp] theorem div_directLimit (value : Nat) : value / 4 / Token.rowLimit = value / directLimit :=
  Nat.div_div_eq_div_mul value 4 Token.rowLimit

def withHigh (high value : Nat) : Nat := high * directLimit + value % directLimit

theorem withHigh_lt {high : Nat} (h : high < 8) (value : Nat) :
    withHigh high value < compressedLimit := by
  simp only [withHigh, directLimit, Token.rowLimit, compressedLimit]
  omega

@[simp] theorem withHigh_div (high value : Nat) : withHigh high value / directLimit = high := by
  simp only [withHigh, directLimit, Token.rowLimit]
  omega

@[simp] theorem withHigh_mod_four (high value : Nat) : withHigh high value % 4 = value % 4 := by
  simp only [withHigh, directLimit, Token.rowLimit]
  omega

@[simp] theorem withHigh_div_four_mod (high value : Nat) :
    withHigh high value / 4 % Token.rowLimit = value / 4 % Token.rowLimit := by
  simp only [withHigh, directLimit, Token.rowLimit]
  omega

theorem exists_same_token {value : Nat} {token : Token} (hlt : value < compressedLimit)
    (h : compressedToken value = .ok token) :
    ∃ other < compressedLimit, other ≠ value ∧ compressedToken other = .ok token := by
  have hhigh : value / directLimit < 8 := Nat.div_lt_of_lt_mul hlt
  rw [compressedToken] at h
  split at h
  · next table htable =>
      obtain ⟨high, hlt', hne, hor⟩ :=
        exists_hidden_bit table (List.mem_of_getElem? htable) _ hhigh
      refine ⟨withHigh high value, withHigh_lt hlt' value, ?_, ?_⟩
      · intro heq
        rw [← heq, withHigh_div] at hne
        exact hne rfl
      · have hbase : table.tokenBase ||| withHigh high value / 4 =
            table.tokenBase ||| value / 4 := by
          refine tokenBase_or_eq ?_ (withHigh_div_four_mod high value)
          rw [div_directLimit, div_directLimit, withHigh_div, hor]
        rw [compressedToken, withHigh_mod_four, htable]
        simpa only [hbase] using h
  · cases h

theorem namesRow_iff_lt {value : Nat} (table : TableId) (h : value < compressedLimit) :
    (CodedIndex.mk table (value / 4)).NamesRow ↔ value < directLimit := by
  have hrow : value / 4 < wordLimit :=
    Nat.lt_of_le_of_lt (Nat.div_le_self _ _) (Nat.lt_trans h (by decide))
  rw [CodedIndex.namesRow_iff hrow, Nat.div_lt_iff_lt_mul (by decide), Nat.mul_comm]
  rfl

theorem eq_of_same_token {value other : Nat} {token : Token}
    (h : compressedToken value = .ok token) (hother : compressedToken other = .ok token)
    (hlt : value < directLimit) (hlt' : other < directLimit) : other = value := by
  have hlimit : directLimit < compressedLimit := by decide
  obtain ⟨table, htag, rfl⟩ := compressedToken_eq_ok_iff.mp h
  obtain ⟨table', htag', heq⟩ := compressedToken_eq_ok_iff.mp hother
  obtain ⟨htable, hrow⟩ := (namesRow_iff_lt table (Nat.lt_trans hlt hlimit)).mpr hlt
  obtain ⟨htable', hrow'⟩ := (namesRow_iff_lt table' (Nat.lt_trans hlt' hlimit)).mpr hlt'
  rw [heq] at htable' hrow'
  have hsame : table' = table := by
    have hnumber : TableId.ofNumber? table'.number = TableId.ofNumber? table.number :=
      congrArg _ (htable'.symm.trans htable)
    simpa using hnumber
  have hnodup : compressedTables.Nodup := by decide
  have htags : other % 4 = value % 4 :=
    (List.getElem?_inj (List.getElem?_eq_some_iff.mp htag').1 hnodup).mp
      (htag'.trans (hsame ▸ htag.symm))
  have hrows : other / 4 = value / 4 := hrow'.symm.trans hrow
  omega

/--
The table and the row of a token that is read, whatever bytes it is read from.  They are those
that its number names exactly if the number is below the limit; then to resolve the token is to
resolve that row, and no other number below the limit has the same token.  Without the limit
every token stands for several numbers.
-/
theorem token_namesRow_iff {σ : Type} {cursor : Cursor} {state : σ} {token : Token}
    (h : (Decoder.token.runOn (cursor, state)).1 = .ok token) :
    ∃ value table, StartsWith cursor.rest value token ∧ value < compressedLimit ∧
      compressedTables[value % 4]? = some table ∧
      token.table = table.number ||| value / directLimit ∧
      token.row = value / 4 % Token.rowLimit ∧
      (token.table = table.number ∧ token.row = value / 4 ↔ value < directLimit) ∧
      (value < directLimit →
        (∀ metadata : Metadata,
          metadata.resolve token = metadata.typeOfRow table (value / 4)) ∧
        ∀ bytes other, StartsWith bytes other token → other < directLimit → other = value) ∧
      ∃ other < compressedLimit, other ≠ value ∧ compressedToken other = .ok token := by
  obtain ⟨value, hstarts⟩ := runOn_token_eq_ok_iff.mp h
  obtain ⟨table, htag, rfl⟩ := compressedToken_eq_ok_iff.mp hstarts.token
  have hlt := hstarts.lt
  have hrow : value / 4 < wordLimit :=
    Nat.lt_of_le_of_lt (Nat.div_le_self _ _) (Nat.lt_trans hlt (by decide))
  refine ⟨value, table, hstarts, hlt, htag, ?_, CodedIndex.row_token hrow,
    namesRow_iff_lt table hlt, fun hdirect => ⟨?_, ?_⟩, exists_same_token hlt hstarts.token⟩
  · rw [← div_directLimit]
    exact CodedIndex.table_token hrow
  · exact ((namesRow_iff_lt table hlt).mpr hdirect).resolve_eq
  · intro bytes other hother hdirect'
    exact eq_of_same_token hstarts.token hother.token hdirect hdirect'

theorem token_longRow :
    StartsWith (encodeCompressed 0x4000005) 0x4000005 ⟨0x01000001⟩ ∧
      StartsWith (encodeCompressed 5) 5 ⟨0x01000001⟩ ∧
      ¬ (Token.table ⟨0x01000001⟩ = TableId.typeRef.number ∧
        Token.row ⟨0x01000001⟩ = 0x4000005 / 4) := by
  have hstarts : ∀ value < compressedLimit, ∀ token, compressedToken value = .ok token →
      StartsWith (encodeCompressed value) value token := by
    intro value hlt token htoken
    have hnumber := compressedNumber_encodeCompressed hlt []
    rw [List.append_nil] at hnumber
    exact ⟨congrArg Prod.fst hnumber, htoken⟩
  have hlong := hstarts 0x4000005 (by decide) ⟨0x01000001⟩ (by rfl)
  refine ⟨hlong, hstarts 5 (by decide) ⟨0x01000001⟩ (by rfl), ?_⟩
  obtain ⟨value, table, hvalue, -, htag, -, -, hnames, -, -⟩ :=
    token_namesRow_iff ((@runOn_token_eq_ok_iff Unit (.start _) () _).mpr ⟨_, hlong⟩)
  cases hlong.number.symm.trans hvalue.number
  cases htag
  rw [hnames]
  decide

end Signature

end AssemblyGate
