import AssemblyGate.Proofs.Fallible
import AssemblyGate.Proofs.Parts
import AssemblyGate.Table.Header

/-!
# Tables and their rows

Once the header of the table stream was read, the tables lie one behind the other inside the
stream, and every row that the header counts can be read.  A row is read from its own bytes,
which are as many as the layout says, and the only thing that can be wrong with it is a coded
index with a tag that selects no table.
-/

namespace AssemblyGate

/-! ## Numbers inside some bytes -/

namespace Bytes

variable {data : Bytes}

def numberAt (data : Bytes) (offset width : Nat) : Nat :=
  littleEndian (data.extract offset (offset + width)).toList

theorem number_eq_ok {offset width : Nat} (h : offset + width ≤ data.size) :
    data.number offset width = .ok (data.numberAt offset width) := by
  rw [number, slice, if_pos h]
  rfl

@[simp] theorem numberAt_extract {start stop offset width : Nat}
    (h : start + offset + width ≤ stop) :
    numberAt (data.extract start stop) offset width = data.numberAt (start + offset) width := by
  rw [numberAt, numberAt, Array.extract_extract, Nat.min_eq_left (by omega), Nat.add_assoc]

theorem number_lt {offset width value : Nat} (h : data.number offset width = .ok value) :
    value < Nat.pow 256 width := by
  rw [number, slice] at h
  split at h
  · next hle =>
      cases h
      have hlength : (data.extract offset (offset + width)).toList.length = width := by
        simp
        omega
      simpa only [hlength] using littleEndian_lt (data.extract offset (offset + width)).toList
  · cases h

end Bytes

/-! ## Rows -/

def Column.ofNumber : (column : Column) → Nat → Except Error column.Cell
  | .coded kind, value => CodedIndex.decode kind value
  | .fixed _, value | .string, value | .guid, value | .blob, value | .row _, value => .ok value

theorem Column.read_eq {layout : Layout} {data : Bytes} {offset : Nat} {column : Column}
    (h : offset + layout.width column ≤ data.size) :
    column.read layout data offset =
      (column.ofNumber (data.numberAt offset (layout.width column))).map
        (·, offset + layout.width column) := by
  have hnumber := Bytes.number_eq_ok h
  cases column with
  | coded kind =>
      simp only [read, CodedIndex.read, ofNumber, hnumber]
      cases CodedIndex.decode kind _ <;> rfl
  | fixed width =>
      rw [Layout.width] at hnumber
      simp only [read, hnumber]
      rfl
  | string | guid | blob | row table =>
      simp only [read, read.numbered, hnumber]
      rfl

theorem Column.next_of_read {layout : Layout} {data : Bytes} {offset next : Nat} {column : Column}
    {cell : column.Cell} (h : column.read layout data offset = .ok (cell, next)) :
    next = offset + layout.width column := by
  cases column with
  | coded kind =>
      simp only [read, CodedIndex.read] at h
      cases hnumber : data.number offset (layout.width (.coded kind)) with
      | error error =>
          rw [hnumber] at h
          cases h
      | ok value =>
          rw [hnumber] at h
          dsimp only at h
          cases hdecode : CodedIndex.decode kind value <;> rw [hdecode] at h <;> cases h
          rfl
  | fixed width =>
      simp only [read] at h
      cases hnumber : data.number offset width <;> rw [hnumber] at h <;> cases h
      rfl
  | string | guid | blob | row table =>
      simp only [read, read.numbered] at h
      cases hnumber : data.number offset _ <;> rw [hnumber] at h <;> cases h
      rfl

theorem Column.ofNumber_cases (column : Column) (value : Nat) :
    (∃ cell, column.ofNumber value = .ok cell) ∨
      ∃ kind tag, column = .coded kind ∧ kind.tables.length ≤ tag ∧
        column.ofNumber value = .error (.inconsistent (.codedTag kind tag)) := by
  cases column with
  | coded kind =>
      simp only [ofNumber, CodedIndex.decode]
      split
      · exact .inl ⟨_, rfl⟩
      · next hnone =>
          exact .inr ⟨kind, _, rfl, List.getElem?_eq_none_iff.mp hnone, rfl⟩
  | _ => exact .inl ⟨value, rfl⟩

def Column.widest : Column → Nat
  | .fixed width => width
  | _ => 4

namespace Layout

def widths (layout : Layout) (columns : List Column) : Nat := total (columns.map layout.width)

@[simp] theorem widths_cons (layout : Layout) (column : Column) (columns : List Column) :
    layout.widths (column :: columns) = layout.width column + layout.widths columns := rfl

theorem width_le_widest (layout : Layout) (column : Column) :
    layout.width column ≤ column.widest := by
  have hindex : ∀ isLarge, indexWidth isLarge ≤ 4 := by decide
  cases column with
  | fixed width => exact Nat.le_refl width
  | _ => exact hindex _

theorem widths_le (layout : Layout) (columns : List Column) :
    layout.widths columns ≤ total (columns.map Column.widest) := by
  induction columns with
  | nil => exact Nat.le_refl 0
  | cons column columns ih => exact Nat.add_le_add (layout.width_le_widest column) ih

theorem rowSize_le (layout : Layout) (table : TableId) : layout.rowSize table ≤ 36 := by
  have hwidest : total (table.columns.map Column.widest) ≤ 36 := by
    cases table <;> decide
  exact Nat.le_trans (layout.widths_le table.columns) hwidest

end Layout

namespace Record

variable {layout : Layout} {data : Bytes}

theorem read_cons {column : Column} {columns : List Column} {offset : Nat}
    (h : offset + layout.width column ≤ data.size) :
    read layout data (column :: columns) offset = (do
      let cell ← column.ofNumber (data.numberAt offset (layout.width column))
      let (cells, offset) ← read layout data columns (offset + layout.width column)
      pure ((cell, cells), offset)) := by
  rw [read, Column.read_eq h]
  cases column.ofNumber _ <;> rfl

theorem next_of_read {columns : List Column} {offset next : Nat} {cells : Record columns}
    (h : read layout data columns offset = .ok (cells, next)) :
    next = offset + layout.widths columns := by
  induction columns generalizing offset next with
  | nil =>
      cases h
      rfl
  | cons column columns ih =>
      obtain ⟨⟨cell, middle⟩, hcell, h⟩ := bind_eq_ok_iff.mp h
      obtain ⟨⟨others, last⟩, hothers, h⟩ := bind_eq_ok_iff.mp h
      cases h
      rw [ih hothers, Column.next_of_read hcell, Layout.widths_cons, Nat.add_assoc]

theorem read_cases {columns : List Column} {offset : Nat}
    (h : offset + layout.widths columns ≤ data.size) :
    (∃ cells, read layout data columns offset = .ok (cells, offset + layout.widths columns)) ∨
      ∃ kind tag, .coded kind ∈ columns ∧ kind.tables.length ≤ tag ∧
        read layout data columns offset = .error (.inconsistent (.codedTag kind tag)) := by
  induction columns generalizing offset with
  | nil => exact .inl ⟨(), rfl⟩
  | cons column columns ih =>
      rw [Layout.widths_cons, ← Nat.add_assoc] at h ⊢
      rw [read_cons (by omega)]
      rcases column.ofNumber_cases (data.numberAt offset (layout.width column)) with
        ⟨cell, hcell⟩ | ⟨kind, tag, rfl, htag, hcell⟩
      · rw [hcell]
        rcases ih h with ⟨cells, hcells⟩ | ⟨kind, tag, hkind, htag, hcells⟩
        · exact .inl ⟨(cell, cells), by rw [hcells]; rfl⟩
        · exact .inr ⟨kind, tag, by simp [hkind], htag, by rw [hcells]; rfl⟩
      · exact .inr ⟨kind, tag, by simp, htag, by rw [hcell]; rfl⟩

theorem read_extract {columns : List Column} {start stop offset : Nat} (hstop : stop ≤ data.size)
    (h : start + offset + layout.widths columns ≤ stop) :
    read layout data columns (start + offset) =
      (read layout (data.extract start stop) columns offset).map
        fun found => (found.1, start + found.2) := by
  induction columns generalizing offset with
  | nil => rfl
  | cons column columns ih =>
      rw [Layout.widths_cons, ← Nat.add_assoc] at h
      have hsize : offset + layout.width column ≤ (data.extract start stop).size := by
        rw [Array.size_extract]
        omega
      rw [read_cons (by omega), read_cons hsize, Bytes.numberAt_extract (by omega),
        Nat.add_assoc start, ih (by omega)]
      cases column.ofNumber _ with
      | error error => rfl
      | ok cell => cases read layout (data.extract start stop) columns _ <;> rfl

theorem read_alone {columns : List Column} {start : Nat}
    (h : start + layout.widths columns ≤ data.size) :
    read layout data columns start =
      (read layout (data.extract start (start + layout.widths columns)) columns 0).map
        fun found => (found.1, start + found.2) := by
  have hfits : start + 0 + layout.widths columns ≤ start + layout.widths columns := Nat.le_refl _
  exact read_extract h hfits

end Record

/-! ## The header -/

theorem TableId.number_of_ofNumber? {number : Nat} {table : TableId}
    (h : ofNumber? number = some table) : table.number = number := by
  obtain ⟨hlt, rfl⟩ := List.getElem?_eq_some_iff.mp h
  have hall : ∀ position : Fin all.length, (all.get position).number = position := by decide
  exact hall ⟨number, hlt⟩

namespace TableHeader

variable {data : Bytes} {header : TableHeader}

def presentBelow (valid bit : Nat) : Nat := (List.range bit).countP valid.testBit

@[simp] theorem presentBelow_succ (valid bit : Nat) :
    presentBelow valid (bit + 1) = presentBelow valid bit + if valid.testBit bit then 1 else 0 := by
  simp [presentBelow, List.range_succ, List.countP_append, List.countP_cons]

def countOffset (valid bit : Nat) : Nat := fixedSize + 4 * presentBelow valid bit

@[simp] theorem countOffset_succ (valid bit : Nat) :
    countOffset valid (bit + 1) = countOffset valid bit + if valid.testBit bit then 4 else 0 := by
  rw [countOffset, countOffset, presentBelow_succ]
  split <;> omega

/-- The row counts of the tables from one number up to another. -/
structure CountsOf (data : Bytes) (valid first last : Nat) (counts : List (TableId × Nat)) :
    Prop where
  count : ∀ table count, (table, count) ∈ counts →
    valid.testBit table.number = true ∧
      data.number (countOffset valid table.number) 4 = .ok count
  present : ∀ table, first ≤ table.number → table.number < last →
    valid.testBit table.number = true → ∃ count, (table, count) ∈ counts

theorem countsOf_of_readCounts {valid remaining bit stop : Nat} {counts : List (TableId × Nat)}
    (h : readCounts data valid remaining bit (countOffset valid bit) = .ok (counts, stop)) :
    stop = countOffset valid (bit + remaining) ∧
      CountsOf data valid bit (bit + remaining) counts := by
  -- Every set bit has moved the offset by one count, which `countOffset` tells from the bits.
  induction remaining generalizing bit counts with
  | zero =>
      cases h
      exact ⟨rfl, by simp, fun table hle hlt => by omega⟩
  | succ remaining ih =>
      rw [readCounts] at h
      rw [Nat.add_comm remaining, ← Nat.add_assoc]
      split at h
      · next hbit =>
          have hnext : countOffset valid (bit + 1) = countOffset valid bit + 4 := by
            simp [hbit]
          rw [← hnext] at h
          split at h
          · cases h
          · next table htable =>
              obtain ⟨count, hcount, h⟩ := bind_eq_ok_iff.mp h
              obtain ⟨⟨others, stop'⟩, hothers, h⟩ := bind_eq_ok_iff.mp h
              cases h
              obtain ⟨hstop, hcounts⟩ := ih hothers
              refine ⟨hstop, ?_, ?_⟩
              · intro other otherCount hmem
                rcases List.mem_cons.mp hmem with hfirst | hmem
                · cases hfirst
                  rw [TableId.number_of_ofNumber? htable]
                  exact ⟨hbit, hcount⟩
                · exact hcounts.count other otherCount hmem
              · intro other hle hlt hpresent
                rcases Nat.eq_or_lt_of_le hle with heq | hlt'
                · have hother : some other = some table := by
                    rw [← htable, heq, TableId.ofNumber?_number]
                  cases hother
                  exact ⟨count, List.mem_cons_self⟩
                · obtain ⟨otherCount, hmem⟩ := hcounts.present other hlt' hlt hpresent
                  exact ⟨otherCount, List.mem_cons_of_mem _ hmem⟩
      · next hbit =>
          have hnext : countOffset valid (bit + 1) = countOffset valid bit := by
            simp [hbit]
          rw [← hnext] at h
          obtain ⟨hstop, hcounts⟩ := ih h
          refine ⟨hstop, hcounts.count, fun other hle hlt hpresent => ?_⟩
          have hne : bit ≠ other.number := fun heq => hbit (heq ▸ hpresent)
          exact hcounts.present other (by omega) hlt hpresent

def RowsFrom (data : Bytes) (valid : Nat) (layout : Layout) (table : TableId) : Prop :=
  if valid.testBit table.number then
    data.number (countOffset valid table.number) 4 = .ok (layout.rows table)
  else
    layout.rows table = 0

theorem CountsOf.rowsFrom {valid : Nat} {counts : List (TableId × Nat)}
    (h : CountsOf data valid 0 64 counts) (strings blobs guids : Bool) (table : TableId) :
    RowsFrom data valid (Layout.ofRows counts strings blobs guids) table := by
  have hnumber : table.number < 64 := by cases table <;> decide
  rw [RowsFrom, Layout.rows, Layout.ofRows]
  cases hcount : counts.reverse.lookup table with
  | none =>
      have hnot : ¬ valid.testBit table.number = true := by
        intro hpresent
        obtain ⟨count, hmem⟩ := h.present table (Nat.zero_le _) hnumber hpresent
        have hne := List.lookup_eq_none_iff.mp hcount _ (List.mem_reverse.mpr hmem)
        simp at hne
      simp [hnot, hcount]
  | some count =>
      obtain ⟨before, after, hcounts, -⟩ := List.lookup_eq_some_iff.mp hcount
      have hmem : (table, count) ∈ counts := by
        rw [← List.mem_reverse, hcounts]
        simp
      obtain ⟨hpresent, hread⟩ := h.count table count hmem
      simp [hpresent, hcount, hread]

theorem RowsFrom.rows_lt {valid : Nat} {layout : Layout} {table : TableId}
    (h : RowsFrom data valid layout table) : layout.rows table < wordLimit := by
  rw [RowsFrom] at h
  split at h
  · exact Bytes.number_lt h
  · rw [h]
    decide

structure ReadFrom (data : Bytes) (header : TableHeader) : Prop where
  valid : data.number 8 8 = .ok header.valid
  rows : ∀ table, RowsFrom data header.valid header.layout table
  start : ∃ flags, data.number 6 1 = .ok flags ∧
    header.start = countOffset header.valid 64 + if flags.testBit 6 then 4 else 0
  inside : header.start + sizeOf header.layout TableId.all ≤ data.size

theorem readFrom_of_read (h : read data = .ok header) : ReadFrom data header := by
  rw [read] at h
  split at h
  · cases h
  obtain ⟨valid, hvalid, h⟩ := bind_eq_ok_iff.mp h
  split at h
  · cases h
  obtain ⟨flags, hflags, h⟩ := bind_eq_ok_iff.mp h
  obtain ⟨⟨counts, countsEnd⟩, hcounts, h⟩ := bind_eq_ok_iff.mp h
  obtain ⟨hend, hcounts⟩ := countsOf_of_readCounts hcounts
  have hstart : (if flags.testBit 6 then countsEnd + 4 else countsEnd) =
      countOffset valid 64 + if flags.testBit 6 then 4 else 0 := by
    rw [hend]
    split <;> rfl
  dsimp only at h
  generalize (if flags.testBit 6 then countsEnd + 4 else countsEnd) = start at h hstart
  split at h
  · cases h
  split at h
  · cases h
  next hinside =>
  obtain ⟨major, -, h⟩ := bind_eq_ok_iff.mp h
  obtain ⟨minor, -, h⟩ := bind_eq_ok_iff.mp h
  obtain ⟨sorted, -, h⟩ := bind_eq_ok_iff.mp h
  cases h
  exact ⟨hvalid, hcounts.rowsFrom _ _ _, ⟨flags, hflags, hstart⟩, Nat.le_of_not_lt hinside⟩

/-! ## Where the tables are -/

@[simp] theorem sizeOf_append (layout : Layout) (front back : List TableId) :
    sizeOf layout (front ++ back) = sizeOf layout front + sizeOf layout back := by
  rw [sizeOf, List.map_append, total_append]
  rfl

def stop (header : TableHeader) (table : TableId) : Nat :=
  header.offset table + header.layout.rows table * header.layout.rowSize table

theorem stop_eq (header : TableHeader) (table : TableId) :
    header.stop table =
      header.start + sizeOf header.layout (TableId.all.take (table.number + 1)) := by
  have htable : TableId.all[table.number]? = some table := table.ofNumber?_number
  rw [stop, offset, List.take_add_one, htable, sizeOf_append, Nat.add_assoc]
  rfl

theorem offset_eq_stop {table next : TableId} (h : next.number = table.number + 1) :
    header.offset next = header.stop table := by
  rw [stop_eq, offset, h]

theorem stop_le (header : TableHeader) (table : TableId) :
    header.stop table ≤ header.start + sizeOf header.layout TableId.all := by
  have hsplit := sizeOf_append header.layout (TableId.all.take (table.number + 1))
    (TableId.all.drop (table.number + 1))
  rw [List.take_append_drop] at hsplit
  rw [stop_eq]
  omega

/-! ### Offsets fit in words of 64 bits -/

theorem sizeOf_le {layout : Layout} (h : ∀ table, layout.rows table < wordLimit)
    (tables : List TableId) : sizeOf layout tables ≤ tables.length * (wordLimit * 36) := by
  induction tables with
  | nil => exact Nat.le_refl 0
  | cons table tables ih =>
      have htable : layout.rows table * layout.rowSize table ≤ wordLimit * 36 :=
        Nat.mul_le_mul (Nat.le_of_lt (h table)) (layout.rowSize_le table)
      have hcons : sizeOf layout (table :: tables) =
          layout.rows table * layout.rowSize table + sizeOf layout tables := rfl
      rw [hcons, List.length_cons, Nat.succ_mul]
      omega

theorem ReadFrom.stop_lt (h : ReadFrom data header) (table : TableId) :
    header.stop table < 0x10000000000000000 := by
  obtain ⟨flags, -, hstart⟩ := h.start
  have hpresent : presentBelow header.valid 64 ≤ 64 := List.countP_le_length
  have hsizes : sizeOf header.layout TableId.all ≤ 45 * (wordLimit * 36) :=
    sizeOf_le (fun table => (h.rows table).rows_lt) _
  have hstop := header.stop_le table
  rw [wordLimit] at hsizes
  rw [countOffset, fixedSize] at hstart
  split at hstart <;> omega

/--
The tables follow each other in the order of their numbers from behind the row counts, and the
last of them ends inside the stream.  No offset is past a word of 64 bits.
-/
structure LaidOut (header : TableHeader) (data : Bytes) : Prop where
  valid : data.number 8 8 = .ok header.valid
  rows : ∀ table, RowsFrom data header.valid header.layout table
  first : ∃ flags, data.number 6 1 = .ok flags ∧
    header.offset .module = countOffset header.valid 64 + if flags.testBit 6 then 4 else 0
  adjacent : ∀ table next, next.number = table.number + 1 →
    header.offset next = header.stop table
  inside : ∀ table, header.stop table ≤ data.size
  word : ∀ table, header.stop table < 0x10000000000000000

end TableHeader

/-! ## Results up to a failure -/

section UpToError

variable {α ε : Type} {items : List (Except ε α)} {position : Nat}

/-- The results up to the first failure, which is the last of them. -/
def upToError : List (Except ε α) → List (Except ε α)
  | [] => []
  | .ok value :: others => .ok value :: upToError others
  | .error error :: _ => [.error error]

theorem getElem?_upToError
    (h : ∀ earlier < position, ∃ value, (upToError items)[earlier]? = some (.ok value)) :
    (upToError items)[position]? = items[position]? := by
  induction items generalizing position with
  | nil => rfl
  | cons item others ih =>
      cases position with
      | zero => cases item <;> rfl
      | succ position =>
          cases item with
          | ok value => exact ih fun earlier hlt => h (earlier + 1) (Nat.succ_lt_succ hlt)
          | error error =>
              obtain ⟨value, hvalue⟩ := h 0 (Nat.succ_pos position)
              cases hvalue

theorem length_of_error {error : ε} (h : (upToError items)[position]? = some (.error error)) :
    position + 1 = (upToError items).length := by
  induction items generalizing position with
  | nil => cases h
  | cons item others ih =>
      cases item with
      | ok value =>
          cases position with
          | zero => cases h
          | succ position => simp [upToError, ih h]
      | error other =>
          cases position with
          | zero => rfl
          | succ position => cases h

theorem eq_map_of_upToError {values : List α} (h : upToError items = values.map .ok) :
    items = values.map .ok := by
  induction items generalizing values with
  | nil => exact h
  | cons item others ih =>
      cases values with
      | nil => cases item <;> cases h
      | cons value values =>
          cases item with
          | ok first =>
              obtain ⟨hfirst, hothers⟩ := List.cons.inj h
              rw [hfirst, ih hothers, List.map_cons]
          | error error => cases (List.cons.inj h).1

theorem length_upToError_le (items : List (Except ε α)) :
    (upToError items).length ≤ items.length := by
  fun_induction upToError items <;> simp_all

end UpToError

/-! ## Rows of a table -/

namespace Table

variable {ρ : Type} [Row ρ]

def rowStart (table : Table ρ) (rid : Nat) : Nat := table.start + (rid - 1) * table.rowSize

/--
A row is what its bytes say, whatever stands around them.  They are read up to the last one,
unless a coded index before it has a tag that selects no table.
-/
structure ReadsRow (table : Table ρ) (rid : Nat) (bytes : Bytes) : Prop where
  size : bytes.size = table.rowSize
  get : table.get rid =
    (Record.read table.layout bytes (Row.table ρ).columns 0).map
      fun found => Row.ofRecord rid found.1
  whole :
    (∃ cells, Record.read table.layout bytes (Row.table ρ).columns 0 = .ok (cells, bytes.size)) ∨
      ∃ kind tag, .coded kind ∈ (Row.table ρ).columns ∧ kind.tables.length ≤ tag ∧
        Record.read table.layout bytes (Row.table ρ).columns 0 =
          .error (.inconsistent (.codedTag kind tag))

theorem rowStart_add_rowSize_le {table : Table ρ} {rid : Nat} (hpos : 1 ≤ rid)
    (hle : rid ≤ table.count) :
    table.rowStart rid + table.rowSize ≤ table.start + table.size := by
  have hrow : (rid - 1) * table.rowSize + table.rowSize = rid * table.rowSize := by
    rw [← Nat.succ_mul, Nat.succ_eq_add_one, Nat.sub_add_cancel hpos]
  have hrows : rid * table.rowSize ≤ table.size := Nat.mul_le_mul_right _ hle
  rw [rowStart]
  omega

theorem readsRow {table : Table ρ} {rid : Nat} (hpos : 1 ≤ rid) (hle : rid ≤ table.count)
    (hinside : table.start + table.size ≤ table.data.size) :
    table.ReadsRow rid
      (table.data.extract (table.rowStart rid) (table.rowStart rid + table.rowSize)) := by
  have hend := rowStart_add_rowSize_le hpos hle
  have hstop : table.rowStart rid + table.rowSize ≤ table.data.size := by omega
  have hrid : ¬ (rid = 0 ∨ rid > table.count) := by omega
  have hread : Record.read table.layout table.data (Row.table ρ).columns (table.rowStart rid) =
      (Record.read table.layout
        (table.data.extract (table.rowStart rid) (table.rowStart rid + table.rowSize)) _ 0).map
          fun found => (found.1, table.rowStart rid + found.2) :=
    Record.read_alone hstop
  generalize hbytes : table.data.extract (table.rowStart rid)
    (table.rowStart rid + table.rowSize) = bytes at hread ⊢
  have hsize : bytes.size = table.rowSize := by
    rw [← hbytes, Array.size_extract]
    omega
  refine ⟨hsize, ?_, ?_⟩
  · rw [get, if_neg hrid, readAt, ← rowStart, hread]
    cases Record.read _ _ _ 0 <;> rfl
  · have hfits : 0 + table.rowSize ≤ bytes.size := by omega
    rw [hsize, ← Nat.zero_add table.rowSize]
    exact Record.read_cases hfits

@[simp] theorem rowStart_succ {table : Table ρ} {rid : Nat} (hpos : 1 ≤ rid) :
    table.rowStart (rid + 1) = table.rowStart rid + table.rowSize := by
  rw [rowStart, rowStart, Nat.add_assoc, ← Nat.succ_mul, Nat.succ_eq_add_one,
    Nat.sub_add_cancel hpos, Nat.add_sub_cancel]

theorem next_of_readAt {table : Table ρ} {rid offset next : Nat} {row : ρ}
    (h : table.readAt rid offset = .ok (row, next)) : next = offset + table.rowSize := by
  rw [readAt] at h
  cases hread : Record.read table.layout table.data (Row.table ρ).columns offset with
  | error error =>
      rw [hread] at h
      cases h
  | ok found =>
      rw [hread] at h
      cases h
      exact Record.next_of_read hread

theorem readFrom_eq {table : Table ρ} {remaining rid : Nat} {found : List (Except Error ρ)}
    (hpos : 1 ≤ rid) (hend : rid + remaining = table.count + 1) :
    table.readFrom remaining rid (table.rowStart rid) found =
      found.reverse ++ upToError ((List.range' rid remaining).map table.get) := by
  induction remaining generalizing rid found with
  | zero => simp [readFrom, upToError]
  | succ remaining ih =>
      have hrid : ¬ (rid = 0 ∨ rid > table.count) := by omega
      have hget : table.get rid = (table.readAt rid (table.rowStart rid)).map Prod.fst := by
        rw [get, if_neg hrid, rowStart]
      rw [readFrom, List.range'_succ, List.map_cons, hget]
      cases hread : table.readAt rid (table.rowStart rid) with
      | error error => simp [Except.map, upToError]
      | ok item =>
          obtain ⟨row, next⟩ := item
          dsimp only
          rw [next_of_readAt hread, ← rowStart_succ hpos, ih (by omega) (by omega)]
          simp [Except.map, upToError]

theorem rows_eq (table : Table ρ) : table.rows = upToError ((rids table.count).map table.get) := by
  have hstart : table.rowStart 1 = table.start := by simp [rowStart]
  rw [rows, ← hstart, readFrom_eq (Nat.le_refl 1) (Nat.add_comm _ _), rids_eq_range']
  rfl

theorem get_of_rows {table : Table ρ} {rows : List ρ} (h : table.rows.mapM id = .ok rows) :
    (rids table.count).mapM table.get = .ok rows := by
  rw [mapM_eq_ok_iff_map, List.map_id, rows_eq] at h
  exact mapM_eq_ok_iff_map.mpr (eq_map_of_upToError h)

theorem ReadsRow.get_ne_outOfBounds {table : Table ρ} {rid : Nat} {bytes : Bytes}
    (h : table.ReadsRow rid bytes) : table.get rid ≠ .error .outOfBounds := by
  rw [h.get]
  rcases h.whole with ⟨cells, hread⟩ | ⟨kind, tag, -, -, hread⟩
  · rw [hread]
    nofun
  · rw [hread]
    nofun

end Table

/-! ## Every row that is counted can be read -/

theorem TableHeader.laidOut {data : Bytes} {header : TableHeader}
    (h : TableHeader.ReadFrom data header) : header.LaidOut data where
  valid := h.valid
  rows := h.rows
  first := h.start
  adjacent := fun _ _ hnext => offset_eq_stop hnext
  inside := fun table => Nat.le_trans (header.stop_le table) h.inside
  word := h.stop_lt

theorem tables_laidOut_and_rows_read {data : Bytes} {header : TableHeader}
    (h : TableHeader.read data = .ok header) :
    header.LaidOut data ∧
      ∀ (ρ : Type) [Row ρ] (rid : Nat), 1 ≤ rid → rid ≤ header.layout.rows (Row.table ρ) →
        ∃ table : Table ρ, header.table? data ρ = some table ∧
          header.offset (Row.table ρ) ≤ table.rowStart rid ∧
          table.rowStart rid + table.rowSize ≤ header.stop (Row.table ρ) ∧
          table.ReadsRow rid
            (data.extract (table.rowStart rid) (table.rowStart rid + table.rowSize)) ∧
          table.get rid ≠ .error .outOfBounds := by
  have hlaid := TableHeader.laidOut (TableHeader.readFrom_of_read h)
  refine ⟨hlaid, fun ρ _ rid hpos hle => ?_⟩
  have hrows : ¬ header.layout.rows (Row.table ρ) = 0 := by omega
  let table : Table ρ := ⟨data, header.offset (Row.table ρ), header.layout.rows (Row.table ρ),
    header.layout⟩
  have hreads : table.ReadsRow rid _ := Table.readsRow hpos hle (hlaid.inside (Row.table ρ))
  refine ⟨table, by rw [TableHeader.table?, if_neg hrows], Nat.le_add_right _ _, ?_, hreads, ?_⟩
  · exact Table.rowStart_add_rowSize_le hpos hle
  · exact hreads.get_ne_outOfBounds

/-- A module and two type definitions, behind a header with four more bytes. -/
def moduleAndTypes : Bytes :=
  #[0, 0, 0, 0, 2, 0, 0x40, 1, 5, 0, 0, 0, 0, 0, 0, 0, 0, 0, 0, 0, 0, 0, 0, 0,
    1, 0, 0, 0, 2, 0, 0, 0, 0xaa, 0xbb, 0xcc, 0xdd,
    0, 0, 7, 0, 1, 0, 0, 0, 0, 0,
    0, 0, 0, 0, 0, 0, 0, 0, 0, 0, 0, 0, 0, 0,
    1, 0, 0, 0, 9, 0, 0, 0, 0, 0, 1, 0, 1, 0]

theorem moduleAndTypes_rows_read :
    ∃ header, TableHeader.read moduleAndTypes = .ok header ∧
      header.offset .module = 36 ∧ header.offset .typeDef = 46 ∧
      header.LaidOut moduleAndTypes ∧
      ∃ table : Table TypeDefRow, header.table? moduleAndTypes TypeDefRow = some table ∧
        table.ReadsRow 2 (moduleAndTypes.extract 60 74) := by
  have hread : TableHeader.read moduleAndTypes = .ok _ := rfl
  obtain ⟨hlaid, hrows⟩ := tables_laidOut_and_rows_read hread
  refine ⟨_, hread, rfl, rfl, hlaid, ?_⟩
  obtain ⟨table, htable, -, -, hreads, -⟩ := hrows TypeDefRow 2 (by decide) (by decide)
  refine ⟨table, htable, ?_⟩
  cases htable
  exact hreads

end AssemblyGate
