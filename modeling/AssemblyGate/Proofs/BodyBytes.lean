import AssemblyGate.Body.Basic
import AssemblyGate.Proofs.Fallible
import AssemblyGate.Proofs.Parts

/-!
# The bytes of method bodies

How a body is laid out as bytes: a short header or a long one, the code, and behind a long
header the sections with the clauses, each in the short layout or in the long one.  Whatever
follows these bytes, reading gives back the body that was laid out.
-/

namespace AssemblyGate.MethodBody

variable {data : Bytes} {start : Nat}

/-! ## Clauses -/

def fields (clause : ExceptionClause) : List Nat :=
  [clause.flags, clause.tryOffset, clause.tryLength, clause.handlerOffset, clause.handlerLength,
    clause.classOrFilter]

def clauseWidths (isLong : Bool) : List Nat :=
  if isLong then [4, 4, 4, 4, 4, 4] else [2, 2, 1, 2, 1, 4]

def clauseBytes (isLong : Bool) (clause : ExceptionClause) : List UInt8 :=
  Bytes.ofNumbers (clauseWidths isLong) (fields clause)

def ClauseFits (isLong : Bool) (clause : ExceptionClause) : Prop :=
  List.Forall₂ (fun width field => field < Nat.pow 256 width) (clauseWidths isLong) (fields clause)

instance (isLong : Bool) (clause : ExceptionClause) : Decidable (ClauseFits isLong clause) :=
  inferInstanceAs (Decidable (List.Forall₂ ..))

def entrySize (isLong : Bool) : Nat := if isLong then 24 else 12

@[simp] theorem length_clauseBytes (isLong : Bool) (clause : ExceptionClause) :
    (clauseBytes isLong clause).length = entrySize isLong := by
  cases isLong <;> simp [clauseBytes, Bytes.ofNumbers, clauseWidths, fields, entrySize]

theorem clause_of_has {isLong : Bool} {clause : ExceptionClause}
    (h : data.Has start (clauseBytes isLong clause)) (hfits : ClauseFits isLong clause) :
    (if isLong then longClause data start else shortClause data start) = .ok clause := by
  cases isLong
  all_goals
    refine mapError_bind_eq_ok (h.number_ofNumbers hfits 0 rfl rfl) ?_
    refine mapError_bind_eq_ok (h.number_ofNumbers hfits 1 rfl rfl) ?_
    refine mapError_bind_eq_ok (h.number_ofNumbers hfits 2 rfl rfl) ?_
    refine mapError_bind_eq_ok (h.number_ofNumbers hfits 3 rfl rfl) ?_
    refine mapError_bind_eq_ok (h.number_ofNumbers hfits 4 rfl rfl) ?_
    refine mapError_bind_eq_ok (h.number_ofNumbers hfits 5 rfl rfl) ?_
    rfl

/-! ## Sections -/

structure Section where
  isLong : Bool
  clauses : List ExceptionClause
  fits : ∀ clause ∈ clauses, ClauseFits isLong clause
  /-- A short section states its size in one byte, a long one in three. -/
  size_lt : if isLong then 4 + 24 * clauses.length < Nat.pow 256 3 else clauses.length ≤ 20

namespace Section

variable (table : Section)

def size : Nat := 4 + entrySize table.isLong * table.clauses.length

def lead (hasMore : Bool) : Nat :=
  1 + (if table.isLong then 0x40 else 0) + (if hasMore then 0x80 else 0)

def sizeBytes : List UInt8 :=
  if table.isLong then Bytes.ofNumber 3 table.size else Bytes.ofNumber 1 table.size ++ [0, 0]

def bytes (hasMore : Bool) : List UInt8 :=
  Bytes.ofNumber 1 (table.lead hasMore) ++
    (table.sizeBytes ++ (table.clauses.map (clauseBytes table.isLong)).flatten)

variable {table} {hasMore : Bool}

@[simp] theorem length_sizeBytes : table.sizeBytes.length = 3 := by
  unfold sizeBytes
  split <;> simp

theorem width_of_mem {part : List UInt8}
    (h : part ∈ table.clauses.map (clauseBytes table.isLong)) :
    part.length = entrySize table.isLong := by
  obtain ⟨clause, -, rfl⟩ := List.mem_map.mp h
  exact length_clauseBytes _ _

@[simp] theorem length_bytes : (table.bytes hasMore).length = table.size := by
  rw [bytes, List.length_append, List.length_append, Bytes.length_flatten fun _ => width_of_mem,
    Bytes.length_ofNumber, length_sizeBytes, List.length_map, size]
  omega

theorem lead_lt : table.lead hasMore < Nat.pow 256 1 := by
  unfold lead
  cases table.isLong <;> cases hasMore <;> decide

theorem testBit_lead : (table.lead hasMore).testBit 0 = true ∧
    (table.lead hasMore).testBit 6 = table.isLong ∧ (table.lead hasMore).testBit 7 = hasMore := by
  unfold lead
  cases table.isLong <;> cases hasMore <;> decide

theorem sectionSize_of_has (h : data.Has (start + 1) table.sizeBytes) :
    sectionSize data start table.isLong = .ok table.size := by
  have hsize := table.size_lt
  unfold sizeBytes size at *
  cases hlong : table.isLong <;>
    simp only [hlong, entrySize, if_true, Bool.false_eq_true, if_false] at h hsize ⊢
  · have hlt : 4 + 12 * table.clauses.length < Nat.pow 256 1 := by
      have hpow : Nat.pow 256 1 = 256 := rfl
      omega
    have hlow := (Bytes.has_append.mp h).1.number_ofNumber hlt
    exact mapError_bind_eq_ok hlow rfl
  · -- The lowest byte is read apart from the two others.
    generalize 4 + 24 * table.clauses.length = size at h hsize
    obtain ⟨hlow, hhigh⟩ := Bytes.has_cons.mp h
    have hlt : size / 256 < Nat.pow 256 2 := Nat.div_lt_of_lt_mul hsize
    refine mapError_bind_eq_ok hlow.number ?_
    refine mapError_bind_eq_ok (hhigh.number_ofNumber hlt) ?_
    have hbyte : Bytes.littleEndian [UInt8.ofNat size] = size % 256 := rfl
    rw [hbyte]
    exact congrArg Except.ok (by omega)

theorem clauses_of_has
    (h : data.Has start (table.clauses.map (clauseBytes table.isLong)).flatten) :
    (List.range table.clauses.length).mapM (fun position =>
        if table.isLong then longClause data (start + position * entrySize table.isLong)
        else shortClause data (start + position * entrySize table.isLong)) =
      .ok table.clauses := by
  refine mapM_eq_ok_iff.mpr (List.forall₂_iff_get.mpr ⟨List.length_range, ?_⟩)
  intro position hposition hposition'
  have hclause := h.getElem_flatten (fun _ => width_of_mem)
    (show position < _ by rwa [List.length_map])
  rw [List.getElem_map, Nat.mul_comm] at hclause
  rw [List.get_eq_getElem, List.get_eq_getElem, List.getElem_range]
  exact clause_of_has hclause (table.fits _ (List.getElem_mem hposition'))

theorem count_of_size : (table.size - 4) % entrySize table.isLong = 0 ∧
    (table.size - 4) / entrySize table.isLong = table.clauses.length := by
  have hpos : 0 < entrySize table.isLong := by
    unfold entrySize
    split <;> decide
  rw [size, Nat.add_sub_cancel_left]
  exact ⟨Nat.mul_mod_right _ _, Nat.mul_div_cancel_left _ hpos⟩

theorem sectionClauses_of_has (h : data.Has start (table.bytes hasMore)) :
    sectionClauses data start = .ok (table.lead hasMore, table.size, table.clauses) := by
  have hfits := h.le_size
  rw [length_bytes] at hfits
  obtain ⟨hlead, hbehind⟩ := Bytes.has_append.mp h
  obtain ⟨hsize, hentries⟩ := Bytes.has_append.mp hbehind
  rw [Bytes.length_ofNumber] at hsize hentries
  rw [length_sizeBytes, Nat.add_assoc] at hentries
  obtain ⟨hmod, hcount⟩ := @count_of_size table
  have hguard : ¬ (table.size < 4 ∨ (table.size - 4) % entrySize table.isLong ≠ 0 ∨
      start + table.size > data.size) := by
    have hhead : 4 ≤ table.size := Nat.le_add_right _ _
    omega
  have hclauses := clauses_of_has hentries
  rw [← hcount] at hclauses
  obtain ⟨hkind, hlong, -⟩ := @testBit_lead table hasMore
  refine mapError_bind_eq_ok (hlead.number_ofNumber lead_lt) ?_
  simp only [hkind, hlong, Bool.not_true, Bool.false_eq_true, if_false]
  refine bind_eq_ok_iff.mpr ⟨_, sectionSize_of_has hsize, ?_⟩
  refine (if_neg hguard).trans ?_
  exact bind_eq_ok_iff.mpr ⟨_, hclauses, rfl⟩

@[simp] theorem size_mod_four : table.size % 4 = 0 := by
  unfold size entrySize
  split <;> omega

end Section

def sectionsBytes : List Section → List UInt8
  | [] => []
  | table :: tables => table.bytes (!tables.isEmpty) ++ sectionsBytes tables

@[simp] theorem align4_of_mod (h : start % 4 = 0) : align4 start = start := by
  unfold align4
  omega

theorem length_le_length_sectionsBytes (tables : List Section) :
    tables.length ≤ (sectionsBytes tables).length := by
  induction tables with
  | nil => exact Nat.le_refl _
  | cons table tables ih =>
      have hsize : 4 ≤ table.size := Nat.le_add_right _ _
      rw [sectionsBytes, List.length_append, Section.length_bytes, List.length_cons]
      omega

theorem allClauses_of_has {tables : List Section} {fuel : Nat} (hne : tables ≠ [])
    (h : data.Has start (sectionsBytes tables)) (hstart : start % 4 = 0)
    (hfuel : tables.length ≤ fuel) :
    allClauses data fuel start = .ok (tables.flatMap Section.clauses) := by
  induction tables generalizing start fuel with
  | nil => exact absurd rfl hne
  | cons table tables ih =>
      obtain ⟨hfirst, hothers⟩ := Bytes.has_append.mp h
      obtain ⟨fuel, rfl⟩ := Nat.exists_eq_add_of_le' (Nat.le_trans (Nat.le_add_left 1 _) hfuel)
      obtain ⟨-, -, hmore⟩ := @Section.testBit_lead table (!tables.isEmpty)
      refine bind_eq_ok_iff.mpr ⟨_, Section.sectionClauses_of_has hfirst, ?_⟩
      simp only [hmore]
      cases tables with
      | nil => exact congrArg Except.ok (List.append_nil _).symm
      | cons next tables =>
          -- A section fills words of four bytes, so the next one starts right behind it.
          have hsize := @Section.size_mod_four table
          rw [Section.length_bytes] at hothers
          have hnext := ih nofun hothers (by omega) (Nat.le_of_succ_le_succ hfuel)
          rw [← align4_of_mod (show (start + table.size) % 4 = 0 by omega)] at hnext
          exact bind_eq_ok_iff.mpr ⟨_, hnext, rfl⟩

/-! ## Bodies -/

structure LongForm where
  code : Bytes
  maxStack : Nat
  locals : Nat
  /-- Whether locals start as zero; nothing that is read depends on it. -/
  zeroesLocals : Bool
  tables : List Section
  size_lt : code.size < Nat.pow 256 4
  maxStack_lt : maxStack < Nat.pow 256 2
  locals_lt : locals < Nat.pow 256 4

namespace LongForm

variable (form : LongForm)

def flags : Nat :=
  0x3003 + (if form.tables.isEmpty then 0 else 8) + (if form.zeroesLocals then 0x10 else 0)

def sectionsBehind : List UInt8 :=
  if form.tables.isEmpty then []
  else List.replicate (align4 form.code.size - form.code.size) 0 ++ sectionsBytes form.tables

def header : List Nat := [form.flags, form.maxStack, form.code.size, form.locals]

def bytes : List UInt8 :=
  Bytes.ofNumbers [2, 2, 4, 4] form.header ++ (form.code.toList ++ form.sectionsBehind)

def body : MethodBody where
  code := form.code
  maxStack := form.maxStack
  locals := form.locals
  clauses := form.tables.flatMap Section.clauses

variable {form}

theorem flags_spec : form.flags < Nat.pow 256 2 ∧ form.flags % 256 % 4 = 3 ∧
    form.flags / 0x1000 * 4 = longHeaderSize ∧ form.flags.testBit 3 = !form.tables.isEmpty := by
  unfold flags
  cases form.tables.isEmpty <;> cases form.zeroesLocals <;> decide

theorem clauses_of_has (h : data.Has (longHeaderSize + form.code.size) form.sectionsBehind)
    (hflag : form.flags.testBit 3 = true) :
    allClauses data (data.size + 1) (align4 (longHeaderSize + form.code.size)) =
      .ok (form.tables.flatMap Section.clauses) := by
  rw [flags_spec.2.2.2, Bool.not_eq_true'] at hflag
  have hne : form.tables ≠ [] := List.isEmpty_eq_false_iff.mp hflag
  rw [sectionsBehind, hflag, if_neg Bool.false_ne_true] at h
  have hsections := (Bytes.has_append.mp h).2
  have hstart : longHeaderSize + form.code.size + (align4 form.code.size - form.code.size) =
      align4 (longHeaderSize + form.code.size) := by
    unfold align4 longHeaderSize
    omega
  rw [List.length_replicate, hstart] at hsections
  have hfuel := length_le_length_sectionsBytes form.tables
  have hle := hsections.le_size
  exact allClauses_of_has hne hsections (Nat.mul_mod_left _ 4) (by omega)

theorem no_clauses_of_flags (hflag : ¬ form.flags.testBit 3 = true) :
    form.tables.flatMap Section.clauses = [] := by
  rw [flags_spec.2.2.2, Bool.not_eq_true', Bool.not_eq_false, List.isEmpty_iff] at hflag
  rw [hflag, List.flatMap_nil]

theorem readLong_of_has (h : data.Has 0 form.bytes) : readLong data = .ok form.body := by
  obtain ⟨hnumbers, hbehind⟩ := Bytes.has_append.mp h
  obtain ⟨hcode, hsections⟩ := Bytes.has_append.mp hbehind
  obtain ⟨hlt, -, hheader, -⟩ := @flags_spec form
  have hfits : List.Forall₂ (fun width value => value < Nat.pow 256 width) [2, 2, 4, 4]
      form.header :=
    .cons hlt (.cons form.maxStack_lt (.cons form.size_lt (.cons form.locals_lt .nil)))
  have hlength : (Bytes.ofNumbers [2, 2, 4, 4] form.header).length = longHeaderSize := by
    simp [Bytes.ofNumbers, header, longHeaderSize]
  rw [hlength, Nat.zero_add] at hcode hsections
  refine mapError_bind_eq_ok (hnumbers.number_ofNumbers hfits 0 rfl rfl) ?_
  refine mapError_bind_eq_ok (hnumbers.number_ofNumbers hfits 1 rfl rfl) ?_
  refine mapError_bind_eq_ok (hnumbers.number_ofNumbers hfits 2 rfl rfl) ?_
  refine mapError_bind_eq_ok (hnumbers.number_ofNumbers hfits 3 rfl rfl) ?_
  refine (if_neg (not_not_intro hheader)).trans ?_
  refine mapError_bind_eq_ok hcode.slice ?_
  by_cases hflag : form.flags.testBit 3 = true
  · refine (if_pos hflag).trans ?_
    exact bind_eq_ok_iff.mpr ⟨_, clauses_of_has hsections hflag, rfl⟩
  · refine (if_neg hflag).trans ?_
    rw [body, no_clauses_of_flags hflag]
    rfl

end LongForm

inductive Form
  | short (code : Bytes) (hsize : code.size < 64)
  | long (form : LongForm)

namespace Form

def bytes : Form → List UInt8
  | short code _ => Bytes.ofNumber 1 (code.size * 4 + 2) ++ code.toList
  | long form => form.bytes

def body : Form → MethodBody
  | short code _ => { code, maxStack := 8, locals := 0, clauses := [] }
  | long form => form.body

theorem read_of_has {form : Form} (h : data.Has 0 form.bytes) : read data = .ok form.body := by
  cases form with
  | short code hsize =>
      obtain ⟨hlead, hcode⟩ := Bytes.has_append.mp h
      have hlt : code.size * 4 + 2 < 256 := by omega
      have hbyte : (UInt8.ofNat (code.size * 4 + 2)).toNat = code.size * 4 + 2 :=
        Nat.mod_eq_of_lt hlt
      have hformat : (code.size * 4 + 2) % 4 = 2 := by omega
      have hquarter : (code.size * 4 + 2) / 4 = code.size := by omega
      rw [Bytes.length_ofNumber, Nat.zero_add] at hcode
      simp only [read, Bytes.getElem?_eq_some_iff_has.mpr hlead, hbyte, hformat, if_true]
      rw [readShort, hquarter]
      exact mapError_bind_eq_ok hcode.slice rfl
  | long form =>
      have hlead := (Bytes.has_cons.mp (Bytes.has_append.mp h).1).1
      have hbyte : (UInt8.ofNat form.flags).toNat = form.flags % 256 := rfl
      have hformat := (@LongForm.flags_spec form).2.1
      simp only [read, Bytes.getElem?_eq_some_iff_has.mpr hlead, hbyte, hformat]
      exact LongForm.readLong_of_has h

end Form

/-! ## The two layouts of clauses -/

theorem ClauseFits.lengthen {isLong : Bool} {clause : ExceptionClause}
    (h : ClauseFits isLong clause) : ClauseFits true clause := by
  cases isLong with
  | true => exact h
  | false =>
      have hbyte : Nat.pow 256 1 ≤ Nat.pow 256 4 := by decide
      have hhalf : Nat.pow 256 2 ≤ Nat.pow 256 4 := by decide
      simp only [ClauseFits, clauseWidths, fields, if_true, Bool.false_eq_true, if_false,
        List.forall₂_cons, List.forall₂_nil_left_iff, and_true] at h ⊢
      obtain ⟨hflags, htry, htryLength, hhandler, hhandlerLength, hclass⟩ := h
      exact ⟨Nat.lt_of_lt_of_le hflags hhalf, Nat.lt_of_lt_of_le htry hhalf,
        Nat.lt_of_lt_of_le htryLength hbyte, Nat.lt_of_lt_of_le hhandler hhalf,
        Nat.lt_of_lt_of_le hhandlerLength hbyte, hclass⟩

namespace Section

def lengthen (table : Section) : Section where
  isLong := true
  clauses := table.clauses
  fits clause hclause := (table.fits clause hclause).lengthen
  size_lt := by
    have hsize := table.size_lt
    have hpow : Nat.pow 256 3 = 0x1000000 := rfl
    split at hsize <;> simp only [if_true] <;> omega

end Section

namespace LongForm

def lengthen (form : LongForm) : LongForm :=
  { form with tables := form.tables.map Section.lengthen }

@[simp] theorem body_lengthen (form : LongForm) : form.lengthen.body = form.body := by
  simp only [body, lengthen, List.flatMap_map, Section.lengthen]

end LongForm

/--
Reading gives back every body that was laid out, whatever follows its bytes, so the layout of the
clauses makes no difference to what is read.
-/
theorem read_layouts :
    (∀ (form : Form) (trailing : List UInt8),
      read (form.bytes ++ trailing).toArray = .ok form.body) ∧
    ∀ (form : LongForm) (trailing others : List UInt8),
      read (form.lengthen.bytes ++ others).toArray = read (form.bytes ++ trailing).toArray := by
  have hread (form : Form) (trailing : List UInt8) :
      read (form.bytes ++ trailing).toArray = .ok form.body :=
    Form.read_of_has ⟨[], trailing, rfl, rfl⟩
  refine ⟨hread, ?_⟩
  intro form trailing others
  calc read (form.lengthen.bytes ++ others).toArray
    _ = .ok form.lengthen.body := hread (.long form.lengthen) others
    _ = .ok form.body := by rw [form.body_lengthen]
    _ = read (form.bytes ++ trailing).toArray := (hread (.long form) trailing).symm

example :
    (LongForm.mk #[0x00, 0xde, 0x00, 0x2a] 2 0x11000001 true
      [⟨false, [⟨2, 0, 1, 3, 1, 0⟩], by decide, by decide⟩] (by decide) (by decide)
      (by decide)).bytes =
      [0x1b, 0x30, 0x02, 0x00, 0x04, 0x00, 0x00, 0x00, 0x01, 0x00, 0x00, 0x11,
        0x00, 0xde, 0x00, 0x2a, 0x01, 0x10, 0x00, 0x00, 0x02, 0x00, 0x00, 0x00, 0x01,
        0x03, 0x00, 0x01, 0x00, 0x00, 0x00, 0x00] := by decide

end AssemblyGate.MethodBody
