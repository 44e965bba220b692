import AssemblyGate.Proofs.Parts
import AssemblyGate.Proofs.Tokens
import AssemblyGate.Table.Layout

/-!
# Widths of coded indexes

A coded index packs the tag of a table under a row of it.  The layout chooses its width from
the number of bits that the rows of all its tables need.  Every row that the layout counts fits
in this width, is read back from it, and would not fit in a narrower one.
-/

namespace AssemblyGate

/-! ## Packing -/

namespace CodedKind

theorem length_tables_le (kind : CodedKind) : kind.tables.length ≤ kind.tagLimit := by
  cases kind <;> decide

theorem tagBits_bounds (kind : CodedKind) : 1 ≤ kind.tagBits ∧ kind.tagBits ≤ 5 := by
  cases kind <;> decide

theorem tag_lt {kind : CodedKind} {tag : Nat} {table : TableId}
    (h : kind.tables[tag]? = some table) : tag < kind.tagLimit :=
  Nat.lt_of_lt_of_le (List.getElem?_eq_some_iff.mp h).1 kind.length_tables_le

end CodedKind

namespace CodedIndex

variable {kind : CodedKind} {tag row : Nat} {table : TableId}

def pack (kind : CodedKind) (tag row : Nat) : Nat := row <<< kind.tagBits ||| tag

theorem pack_eq (htag : tag < kind.tagLimit) : pack kind tag row = row * kind.tagLimit + tag := by
  have hlow : tag < 2 ^ kind.tagBits := htag
  rw [pack, ← Nat.shiftLeft_add_eq_or_of_lt hlow, Nat.shiftLeft_eq]
  rfl

theorem pack_lt {bits : Nat} (htag : tag < kind.tagLimit) (hrow : row < 2 ^ bits) :
    pack kind tag row < 2 ^ (bits + kind.tagBits) := by
  have hrows : (row + 1) * kind.tagLimit ≤ 2 ^ bits * kind.tagLimit :=
    Nat.mul_le_mul_right _ hrow
  have hpow : 2 ^ (bits + kind.tagBits) = 2 ^ bits * kind.tagLimit := Nat.pow_add 2 _ _
  rw [pack_eq htag, hpow]
  rw [Nat.succ_mul] at hrows
  omega

theorem lt_of_pack_lt {bits : Nat} (hbits : kind.tagBits ≤ bits) (htag : tag < kind.tagLimit)
    (h : pack kind tag row < 2 ^ bits) : row < 2 ^ (bits - kind.tagBits) := by
  have hpow : 2 ^ bits = 2 ^ (bits - kind.tagBits) * kind.tagLimit := by
    rw [← Nat.sub_add_cancel hbits, Nat.pow_add, Nat.add_sub_cancel]
    rfl
  rw [pack_eq htag, hpow] at h
  exact Nat.lt_of_mul_lt_mul_right (Nat.lt_of_le_of_lt (Nat.le_add_right _ _) h)

@[simp] theorem decode_pack (h : kind.tables[tag]? = some table) :
    decode kind (pack kind tag row) = .ok ⟨table, row⟩ := by
  have htag := CodedKind.tag_lt h
  have hmod : (row * kind.tagLimit + tag) % kind.tagLimit = tag := by
    rw [Nat.mul_add_mod_self_right, Nat.mod_eq_of_lt htag]
  have hdiv : (row * kind.tagLimit + tag) / kind.tagLimit = row := by
    rw [Nat.add_comm, Nat.add_mul_div_right _ _ (tagLimit_pos kind), Nat.div_eq_of_lt htag,
      Nat.zero_add]
  simp only [decode, pack_eq htag, hmod, hdiv, h]

theorem read_of_has {layout : Layout} {data : Bytes} {offset : Nat}
    (h : kind.tables[tag]? = some table)
    (hfits : pack kind tag row < 256 ^ layout.width (.coded kind))
    (hhas : data.Has offset (Bytes.ofNumber (layout.width (.coded kind)) (pack kind tag row))) :
    read layout kind data offset = (.ok ⟨table, row⟩, offset + layout.width (.coded kind)) := by
  simp only [read, hhas.number_ofNumber hfits, decode_pack h]

end CodedIndex

/-! ## Widths -/

namespace Layout

variable {layout : Layout} {kind : CodedKind} {table : TableId}

@[simp] theorem bits_le_iff {bits : Nat} (hbits : 0 < bits) :
    layout.bits table ≤ bits ↔ layout.rows table < 2 ^ bits := by
  rw [Layout.bits, rows]
  cases layout.count? table with
  | none => exact iff_of_true (Nat.zero_le _) (Nat.two_pow_pos _)
  | some count =>
      rcases Nat.eq_zero_or_pos count with rfl | hpos
      · simp only [Nat.log2_zero, Option.getD_some]
        exact iff_of_true hbits (Nat.two_pow_pos bits)
      · exact Nat.log2_lt (Nat.ne_of_gt hpos)

def mostRows (layout : Layout) (kind : CodedKind) : Nat :=
  (kind.tables.map layout.rows).foldl max 0

@[simp] theorem mostRows_lt_iff {bound : Nat} (hbound : 0 < bound) :
    layout.mostRows kind < bound ↔ ∀ table ∈ kind.tables, layout.rows table < bound := by
  have hiff : layout.mostRows kind ≤ bound - 1 ↔
      ∀ table ∈ kind.tables, layout.rows table ≤ bound - 1 := by
    simp [mostRows]
  simpa only [Nat.le_sub_one_iff_lt hbound] using hiff

theorem codedBits_le_iff :
    layout.codedBits kind ≤ 16 ↔ layout.mostRows kind < 2 ^ (16 - kind.tagBits) := by
  obtain ⟨-, htag⟩ := kind.tagBits_bounds
  rw [mostRows_lt_iff (Nat.two_pow_pos _), codedBits, ← Nat.le_sub_iff_add_le (by omega),
    foldl_max_le_iff]
  have hbits : 0 < 16 - kind.tagBits := by omega
  simp only [Nat.zero_le, true_and, List.forall_mem_map, bits_le_iff hbits]

theorem width_coded (layout : Layout) (kind : CodedKind) :
    layout.width (.coded kind) = if layout.codedBits kind ≤ 16 then 2 else 4 := by
  rw [width, indexWidth]
  split <;> simp_all

@[simp] theorem width_coded_eq_two_iff :
    layout.width (.coded kind) = 2 ↔ layout.mostRows kind < 2 ^ (16 - kind.tagBits) := by
  rw [width_coded, ← codedBits_le_iff]
  split <;> simp_all

theorem width_coded_cases (layout : Layout) (kind : CodedKind) :
    layout.width (.coded kind) = 2 ∨ layout.width (.coded kind) = 4 := by
  rw [width_coded]
  split <;> simp

end Layout

namespace CodedIndex

variable {layout : Layout} {kind : CodedKind} {tag row : Nat} {table : TableId}

theorem pack_lt_of_le_rows (hrows : ∀ table ∈ kind.tables, layout.rows table < 2 ^ 27)
    (h : kind.tables[tag]? = some table) (hrow : row ≤ layout.rows table) :
    pack kind tag row < 256 ^ layout.width (.coded kind) := by
  have htag := CodedKind.tag_lt h
  have hmem := List.mem_of_getElem? h
  obtain ⟨-, hbits⟩ := kind.tagBits_bounds
  rcases layout.width_coded_cases kind with hwidth | hwidth
  · have hmost := Layout.width_coded_eq_two_iff.mp hwidth
    have hlt := (Layout.mostRows_lt_iff (Nat.two_pow_pos _)).mp hmost table hmem
    have hpack := pack_lt htag (Nat.lt_of_le_of_lt hrow hlt)
    rw [Nat.sub_add_cancel (by omega)] at hpack
    rwa [hwidth]
  · have hpack := pack_lt htag (Nat.lt_of_le_of_lt hrow (hrows table hmem))
    have hpow : 2 ^ (27 + kind.tagBits) ≤ 2 ^ 32 := Nat.pow_le_pow_right (by decide) (by omega)
    rw [hwidth]
    omega

theorem width_eq_two_iff_fits :
    layout.width (.coded kind) = 2 ↔
      ∀ tag table row, kind.tables[tag]? = some table → row ≤ layout.rows table →
        pack kind tag row < 256 ^ 2 := by
  obtain ⟨-, hbits⟩ := kind.tagBits_bounds
  rw [Layout.width_coded_eq_two_iff, Layout.mostRows_lt_iff (Nat.two_pow_pos _)]
  constructor
  · intro hrows tag table row h hrow
    have hlt := hrows table (List.mem_of_getElem? h)
    have hpack := pack_lt (CodedKind.tag_lt h) (Nat.lt_of_le_of_lt hrow hlt)
    rwa [Nat.sub_add_cancel (by omega)] at hpack
  · intro hfits table hmem
    obtain ⟨tag, h⟩ := List.mem_iff_getElem?.mp hmem
    have hpack := hfits tag table (layout.rows table) h (Nat.le_refl _)
    exact lt_of_pack_lt (by omega) (CodedKind.tag_lt h) hpack

/--
Every row that is counted fits, with its tag, in the width that the layout chooses, and is read
back from there with the offset behind it.  The width is two bytes exactly if all rows of all
tables fit in two bytes, which the most rows that one of the tables has decide.
-/
theorem packed_at_chosen_width (hrows : ∀ table ∈ kind.tables, layout.rows table < 2 ^ 27) :
    (∀ tag table row, kind.tables[tag]? = some table → row ≤ layout.rows table →
      pack kind tag row < 256 ^ layout.width (.coded kind) ∧
      ∀ (data : Bytes) (offset : Nat),
        data.Has offset (Bytes.ofNumber (layout.width (.coded kind)) (pack kind tag row)) →
          read layout kind data offset =
            (.ok ⟨table, row⟩, offset + layout.width (.coded kind))) ∧
    (layout.width (.coded kind) = 2 ∨ layout.width (.coded kind) = 4) ∧
    (layout.width (.coded kind) = 2 ↔
      ∀ tag table row, kind.tables[tag]? = some table → row ≤ layout.rows table →
        pack kind tag row < 256 ^ 2) ∧
    (layout.width (.coded kind) = 2 ↔ layout.mostRows kind < 2 ^ (16 - kind.tagBits)) := by
  refine ⟨fun tag table row h hrow => ?_, layout.width_coded_cases kind, width_eq_two_iff_fits,
    Layout.width_coded_eq_two_iff⟩
  have hfits := pack_lt_of_le_rows hrows h hrow
  exact ⟨hfits, fun data offset hhas => read_of_has h hfits hhas⟩

/-- One row more than a coded index of two bytes can point at. -/
def manyReferences : Layout := Layout.ofRows [(.typeDef, 5), (.typeRef, 0x4000)] false false false

theorem packed_lastReference :
    (∀ table ∈ CodedKind.typeDefOrRef.tables, manyReferences.rows table < 2 ^ 27) ∧
      manyReferences.width (.coded .typeDefOrRef) = 4 ∧
      read manyReferences .typeDefOrRef #[0xff, 1, 0, 1, 0, 0xff] 1 =
        (.ok ⟨.typeRef, 0x4000⟩, 5) := by
  have hrows : ∀ table ∈ CodedKind.typeDefOrRef.tables, manyReferences.rows table < 2 ^ 27 := by
    decide
  obtain ⟨hread, -, -, hwidth⟩ := packed_at_chosen_width hrows
  refine ⟨hrows, by decide, ?_⟩
  exact (hread 1 .typeRef 0x4000 rfl (by decide)).2 _ 1 ⟨[0xff], [0xff], rfl, rfl⟩

end CodedIndex

end AssemblyGate
