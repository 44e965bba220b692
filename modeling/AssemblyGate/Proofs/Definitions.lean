import AssemblyGate.Check
import AssemblyGate.Proofs.Fallible

/-!
# Methods and fields of the types

Scans of methods never go through the table of methods: they go through the types and
reach a method only if some type declares it.  A type declares the methods from the one
it lists up to the one that the next type lists, so that what the types declare together
is a piece of the table that goes to its end, but that need not start at its start.
-/

namespace AssemblyGate

/-! ## Rows -/

namespace Metadata

variable {metadata : Metadata}

theorem range_of_row_eq_ok {ρ : Type} [Row ρ] {rid : Nat} {row : ρ}
    (h : metadata.row ρ rid = .ok row) : 1 ≤ rid ∧ rid ≤ metadata.rowCount (Row.table ρ) := by
  simp only [Metadata.row, table?, TableHeader.table?] at h
  split at h
  · next table htable =>
      split at htable
      · cases htable
      · cases htable
        simp only [Table.get] at h
        split at h
        · cases h
        · next hrange =>
            simp only [rowCount]
            omega
  · cases h

end Metadata

/-! ## Ranges -/

structure Metadata.Owns (metadata : Metadata) (rid : Nat) (target : TableId)
    (list : TypeDefRow → Nat) (start stop : Nat) : Prop where
  lists : ∃ row, metadata.row TypeDefRow rid = .ok row ∧ list row = start
  next : rid < metadata.typeDefCount →
    ∃ row, metadata.row TypeDefRow (rid + 1) = .ok row ∧ list row = stop
  last : metadata.typeDefCount ≤ rid → stop = metadata.rowCount target + 1
  start_pos : 0 < start
  start_le : start ≤ stop
  stop_le : stop ≤ metadata.rowCount target + 1

namespace Metadata

variable {metadata : Metadata} {target : TableId} {list : TypeDefRow → Nat}

theorem owns_of_ownedRange {rid start stop : Nat}
    (h : metadata.ownedRange rid target list = .ok (start, stop)) :
    metadata.Owns rid target list start stop := by
  obtain ⟨row, hrow, h⟩ := bind_eq_ok_iff.mp h
  have hvalid : ∀ {stop'}, (if list row = 0 ∨ list row > stop' ∨
      stop' > metadata.rowCount target + 1 then
        throw (.malformed (.ownedRange rid target (list row) stop'))
      else pure (list row, stop')) = (.ok (start, stop) : Except Error (Nat × Nat)) →
      list row = start ∧ stop' = stop ∧
        0 < start ∧ start ≤ stop ∧ stop ≤ metadata.rowCount target + 1 := by
    intro stop' hstop
    split at hstop
    · cases hstop
    · cases hstop
      exact ⟨rfl, rfl, by omega, by omega, by omega⟩
  simp only at h
  split at h
  · next hlt =>
      obtain ⟨stop', hstop', h⟩ := bind_eq_ok_iff.mp h
      obtain ⟨hstart, rfl, hpos, hle, hlimit⟩ := hvalid h
      refine ⟨⟨row, hrow, hstart⟩, fun _ => ?_, fun hge => by omega, hpos, hle, hlimit⟩
      cases hnext : metadata.row TypeDefRow (rid + 1) with
      | error error => simp [hnext, Except.map] at hstop'
      | ok next =>
          simp only [hnext, Except.map, Except.ok.injEq] at hstop'
          exact ⟨next, rfl, hstop'⟩
  · next hge =>
      obtain ⟨hstart, hstop, hpos, hle, hlimit⟩ := hvalid h
      exact ⟨⟨row, hrow, hstart⟩, fun hlt => absurd hlt hge, fun _ => hstop.symm, hpos, hle, hlimit⟩

theorem ownedRange_of_owns {rid start stop : Nat}
    (h : metadata.Owns rid target list start stop) :
    metadata.ownedRange rid target list = .ok (start, stop) := by
  obtain ⟨row, hrow, rfl⟩ := h.lists
  have hstart := h.start_pos
  have hle := h.start_le
  have hlimit := h.stop_le
  have hvalid : ¬ (list row = 0 ∨ list row > stop ∨ stop > metadata.rowCount target + 1) := by
    omega
  by_cases hlt : rid < metadata.typeDefCount
  · obtain ⟨next, hnext, rfl⟩ := h.next hlt
    simp only [ownedRange, hrow, hnext, Except.map, bind, Except.bind, pure, Except.pure,
      if_pos hlt, if_neg hvalid]
  · obtain rfl := h.last (by omega)
    simp only [ownedRange, hrow, bind, Except.bind, pure, Except.pure, if_neg hlt, if_neg hvalid]

/-- The first row that a type lists; the one behind the last if there is no type. -/
def firstListed (metadata : Metadata) (target : TableId) (list : TypeDefRow → Nat) : Nat :=
  match metadata.row TypeDefRow 1 with
  | .ok row => list row
  | .error _ => metadata.rowCount target + 1

theorem firstListed_le {rid start stop : Nat}
    (hranges : ∀ rid, 1 ≤ rid → rid ≤ metadata.typeDefCount →
      ∃ start stop, metadata.Owns rid target list start stop)
    (h : metadata.Owns rid target list start stop) :
    metadata.firstListed target list ≤ start := by
  obtain ⟨row, hrow, rfl⟩ := h.lists
  obtain ⟨hpos, hle⟩ := range_of_row_eq_ok hrow
  change rid ≤ metadata.typeDefCount at hle
  -- A range ends where the next one starts, so the starts only grow.
  induction rid generalizing row stop with
  | zero => omega
  | succ rid ih =>
      rcases Nat.eq_zero_or_pos rid with rfl | hpos'
      · simp [firstListed, hrow]
      · obtain ⟨start', stop', howns⟩ := hranges rid hpos' (by omega)
        obtain ⟨row', hrow', rfl⟩ := howns.lists
        obtain ⟨next, hnext, rfl⟩ := howns.next (by omega)
        rw [hrow] at hnext
        cases hnext
        exact Nat.le_trans (ih row' hrow' howns hpos' (by omega)) howns.start_le

theorem exists_owns_of_start_le {rid start stop item : Nat}
    (hranges : ∀ rid, 1 ≤ rid → rid ≤ metadata.typeDefCount →
      ∃ start stop, metadata.Owns rid target list start stop)
    (h : metadata.Owns rid target list start stop) (hstart : start ≤ item)
    (hitem : item ≤ metadata.rowCount target) :
    ∃ owner start stop, metadata.Owns owner target list start stop ∧
      start ≤ item ∧ item < stop := by
  -- By the number of types behind this one: the last one owns all rows up to the end.
  induction hleft : metadata.typeDefCount - rid generalizing rid start stop with
  | zero =>
      have hstop := h.last (by omega)
      exact ⟨rid, start, stop, h, hstart, by omega⟩
  | succ left ih =>
      by_cases hlt : item < stop
      · exact ⟨rid, start, stop, h, hstart, hlt⟩
      · obtain ⟨next, hnext, hlist⟩ := h.next (by omega)
        obtain ⟨start', stop', howns⟩ := hranges (rid + 1) (by omega) (by omega)
        obtain ⟨next', hnext', rfl⟩ := howns.lists
        rw [hnext] at hnext'
        cases hnext'
        exact ih howns (by omega) (by omega)

theorem exists_owns_iff {item : Nat}
    (hranges : ∀ rid, 1 ≤ rid → rid ≤ metadata.typeDefCount →
      ∃ start stop, metadata.Owns rid target list start stop) :
    (∃ rid start stop, metadata.Owns rid target list start stop ∧ start ≤ item ∧ item < stop) ↔
      metadata.firstListed target list ≤ item ∧ item ≤ metadata.rowCount target := by
  constructor
  · rintro ⟨rid, start, stop, howns, hstart, hstop⟩
    have hfirst := firstListed_le hranges howns
    have hlimit := howns.stop_le
    omega
  · rintro ⟨hfirst, hitem⟩
    cases hrow : metadata.row TypeDefRow 1 with
    | error error =>
        simp only [firstListed, hrow] at hfirst
        omega
    | ok row =>
        obtain ⟨start, stop, howns⟩ := hranges 1 (by omega) (range_of_row_eq_ok hrow).2
        obtain ⟨row', hrow', rfl⟩ := howns.lists
        rw [hrow] at hrow'
        cases hrow'
        simp only [firstListed, hrow] at hfirst
        exact exists_owns_of_start_le hranges howns hfirst hitem

def Declares (metadata : Metadata) (rid method : Nat) : Prop :=
  ∃ start stop, metadata.methodRange rid = .ok (start, stop) ∧ start ≤ method ∧ method < stop

theorem range_of_declares {rid method : Nat} (h : metadata.Declares rid method) :
    1 ≤ rid ∧ rid ≤ metadata.typeDefCount := by
  obtain ⟨start, stop, hrange, -, -⟩ := h
  obtain ⟨row, hrow, -⟩ := (owns_of_ownedRange hrange).lists
  exact range_of_row_eq_ok hrow

theorem exists_declares_iff {method : Nat}
    (hranges : ∀ rid, 1 ≤ rid → rid ≤ metadata.typeDefCount →
      ∃ range, metadata.methodRange rid = .ok range) :
    (∃ rid, metadata.Declares rid method) ↔
      metadata.firstListed .methodDef TypeDefRow.methodList ≤ method ∧
        method ≤ metadata.rowCount .methodDef := by
  rw [← exists_owns_iff fun rid hpos hle => ?_]
  · refine exists_congr fun rid => exists_congr fun start => exists_congr fun stop => ?_
    exact and_congr_left fun _ => ⟨owns_of_ownedRange, ownedRange_of_owns⟩
  · obtain ⟨⟨start, stop⟩, hrange⟩ := hranges rid hpos hle
    exact ⟨start, stop, owns_of_ownedRange hrange⟩

theorem exists_row_of_declares {rid method : Nat} {methods : List MethodDefRow}
    (h : metadata.methodsOf rid = .ok methods) (hdeclares : metadata.Declares rid method) :
    ∃ row ∈ methods, metadata.row MethodDefRow method = .ok row := by
  obtain ⟨⟨start, stop⟩, hrange, hrows⟩ := bind_eq_ok_iff.mp h
  obtain ⟨start', stop', hrange', hstart, hstop⟩ := hdeclares
  rw [hrange] at hrange'
  cases hrange'
  have hposition : method - start ∈ List.range (stop - start) := by
    rw [List.mem_range]
    omega
  have hrow := exists_of_mapM_eq_ok hrows hposition
  rwa [Nat.add_sub_cancel' hstart] at hrow

theorem mem_methodsOf_iff {rid : Nat} {methods : List MethodDefRow}
    (h : metadata.methodsOf rid = .ok methods) {row : MethodDefRow} :
    row ∈ methods ↔
      ∃ method, metadata.Declares rid method ∧ metadata.row MethodDefRow method = .ok row := by
  constructor
  · intro hmem
    obtain ⟨⟨start, stop⟩, hrange, hrows⟩ := bind_eq_ok_iff.mp h
    obtain ⟨position, hposition, hrow⟩ := exists_of_mem_of_mapM_eq_ok hrows hmem
    rw [List.mem_range] at hposition
    exact ⟨start + position, ⟨start, stop, hrange, by omega, by omega⟩, hrow⟩
  · rintro ⟨method, hdeclares, hrow⟩
    obtain ⟨row', hmem, hrow'⟩ := exists_row_of_declares h hdeclares
    rw [hrow] at hrow'
    cases hrow'
    exact hmem

theorem forall_mem_methodsOf_iff {rid : Nat} {methods : List MethodDefRow}
    (h : metadata.methodsOf rid = .ok methods) {q : MethodDefRow → Prop} :
    (∀ row ∈ methods, q row) ↔
      ∀ method row, metadata.Declares rid method →
        metadata.row MethodDefRow method = .ok row → q row := by
  simp only [mem_methodsOf_iff h]
  constructor
  · intro hall method row hdeclares hrow
    exact hall row ⟨method, hdeclares, hrow⟩
  · rintro hall row ⟨method, hdeclares, hrow⟩
    exact hall method row hdeclares hrow

def scanMethods (metadata : Metadata) (scan : TypeExpr → MethodDefRow → Except Error (List α))
    (rid : Nat) : Except Error (List α) := do
  let methods ← metadata.methodsOf rid
  if methods.isEmpty then
    pure []
  else
    let type ← metadata.typeDefinition rid
    let found ← methods.mapM (scan type)
    pure found.flatten

theorem exists_parts_of_methods {α : Type} {rid : Nat} {found : List α}
    {scan : TypeExpr → MethodDefRow → Except Error (List α)}
    (h : metadata.scanMethods scan rid = .ok found) :
    ∃ type methods parts, metadata.methodsOf rid = .ok methods ∧
      methods.mapM (scan type) = .ok parts ∧ found = parts.flatten := by
  obtain ⟨methods, hmethods, hscan⟩ := bind_eq_ok_iff.mp h
  split at hscan
  · next hempty =>
      cases hscan
      rw [List.isEmpty_iff.mp hempty] at hmethods
      exact ⟨.defined none "", [], [], hmethods, rfl, rfl⟩
  · obtain ⟨type, -, hscan⟩ := bind_eq_ok_iff.mp hscan
    obtain ⟨parts, hparts, hfound⟩ := bind_eq_ok_iff.mp hscan
    cases hfound
    exact ⟨type, methods, parts, hmethods, hparts, rfl⟩

end Metadata

/-! ## Methods outside of managed code -/

structure MethodDefRow.Managed (row : MethodDefRow) : Prop where
  notForwarded : row.isForwarded = false
  notExported : row.isUnmanagedExport = false
  notUnmanaged : row.isUnmanaged = false
  codeType : row.codeType = 0 ∨ row.codeType = 3

theorem MethodDefRow.managed_iff {row : MethodDefRow} :
    row.Managed ↔ row.hasIllegalImplementation = false ∧ row.hasIllegalFlags = false := by
  simp only [hasIllegalImplementation, hasIllegalFlags, Bool.or_eq_false_iff,
    Bool.and_eq_false_iff, bne_eq_false_iff_eq]
  constructor
  · intro h
    exact ⟨⟨h.notUnmanaged, h.codeType⟩, h.notForwarded, h.notExported⟩
  · rintro ⟨⟨hunmanaged, hcode⟩, hforwarded, hexported⟩
    exact ⟨hforwarded, hexported, hunmanaged, hcode⟩

namespace Metadata

variable {metadata : Metadata}

theorem unmanagedMethod_eq_nil_iff {type : TypeExpr} {row : MethodDefRow}
    {found : List Violation} (h : metadata.unmanagedMethod type row = .ok found) :
    found = [] ↔ row.Managed := by
  rw [MethodDefRow.managed_iff]
  cases himplementation : row.hasIllegalImplementation <;> cases hflags : row.hasIllegalFlags <;>
    simp only [unmanagedMethod, himplementation, hflags, if_true, if_false, Bool.false_eq_true,
      pure_bind, bind_eq_ok_iff] at h
  · cases h
    simp
  · obtain ⟨name, -, hfound⟩ := h
    cases hfound
    simp
  · obtain ⟨name, -, hfound⟩ := h
    cases hfound
    simp
  · obtain ⟨name, -, again, -, hfound⟩ := h
    cases hfound
    simp

theorem unmanagedMethodsOf_eq_nil_iff {rid : Nat} {found : List Violation}
    (h : metadata.unmanagedMethodsOf rid = .ok found) :
    found = [] ↔ ∀ method row, metadata.Declares rid method →
      metadata.row MethodDefRow method = .ok row → row.Managed := by
  obtain ⟨type, methods, parts, hmethods, hparts, rfl⟩ := exists_parts_of_methods h
  rw [flatten_eq_nil_iff_of_mapM_eq_ok hparts fun _ _ _ => unmanagedMethod_eq_nil_iff]
  exact forall_mem_methodsOf_iff hmethods

theorem unmanagedMethods_eq_nil_iff_declares {found : List Violation}
    (h : metadata.unmanagedMethods = .ok found) :
    found = [] ↔ ∀ rid method row, metadata.Declares rid method →
      metadata.row MethodDefRow method = .ok row → row.Managed := by
  obtain ⟨parts, hparts, hfound⟩ := bind_eq_ok_iff.mp h
  cases hfound
  rw [flatten_eq_nil_iff_of_mapM_eq_ok hparts fun _ _ _ => unmanagedMethodsOf_eq_nil_iff]
  constructor
  · intro hmanaged rid method row hdeclares hrow
    exact hmanaged rid (mem_rids.mpr (range_of_declares hdeclares)) method row hdeclares hrow
  · intro hmanaged rid hrid
    exact hmanaged rid

theorem methodsOf_of_unmanagedMethods {found : List Violation}
    (h : metadata.unmanagedMethods = .ok found) {rid : Nat} (hpos : 1 ≤ rid)
    (hle : rid ≤ metadata.typeDefCount) : ∃ methods, metadata.methodsOf rid = .ok methods := by
  obtain ⟨parts, hparts, -⟩ := bind_eq_ok_iff.mp h
  obtain ⟨part, -, hpart⟩ := exists_of_mapM_eq_ok hparts (mem_rids.mpr ⟨hpos, hle⟩)
  obtain ⟨methods, hmethods, -⟩ := bind_eq_ok_iff.mp hpart
  exact ⟨methods, hmethods⟩

/--
The scan finds nothing exactly if all methods from the first listed one on are managed.
The methods in front of it belong to no type and are not looked at: nothing is wrong with
the table as a whole only if they are managed too.
-/
theorem unmanagedMethods_eq_nil_iff {found : List Violation}
    (h : metadata.unmanagedMethods = .ok found) :
    (found = [] ↔
      ∀ method, metadata.firstListed .methodDef TypeDefRow.methodList ≤ method →
        method ≤ metadata.rowCount .methodDef →
          ∃ row, metadata.row MethodDefRow method = .ok row ∧ row.Managed) ∧
    (found = [] →
      ((∀ method row, metadata.row MethodDefRow method = .ok row → row.Managed) ↔
        ∀ method row, method < metadata.firstListed .methodDef TypeDefRow.methodList →
          metadata.row MethodDefRow method = .ok row → row.Managed)) := by
  have hdeclared : ∀ {method}, (∃ rid, metadata.Declares rid method) ↔
      metadata.firstListed .methodDef TypeDefRow.methodList ≤ method ∧
        method ≤ metadata.rowCount .methodDef := by
    refine exists_declares_iff fun rid hpos hle => ?_
    obtain ⟨methods, hmethods⟩ := methodsOf_of_unmanagedMethods h hpos hle
    obtain ⟨range, hrange, -⟩ := bind_eq_ok_iff.mp hmethods
    exact ⟨range, hrange⟩
  have hscanned := unmanagedMethods_eq_nil_iff_declares h
  constructor
  · rw [hscanned]
    constructor
    · intro hmanaged method hfirst hle
      obtain ⟨rid, hdeclares⟩ := hdeclared.mpr ⟨hfirst, hle⟩
      obtain ⟨hpos, hcount⟩ := range_of_declares hdeclares
      obtain ⟨methods, hmethods⟩ := methodsOf_of_unmanagedMethods h hpos hcount
      obtain ⟨row, -, hrow⟩ := exists_row_of_declares hmethods hdeclares
      exact ⟨row, hrow, hmanaged rid method row hdeclares hrow⟩
    · intro hmanaged rid method row hdeclares hrow
      obtain ⟨hfirst, hle⟩ := hdeclared.mp ⟨rid, hdeclares⟩
      obtain ⟨row', hrow', hgood⟩ := hmanaged method hfirst hle
      rw [hrow] at hrow'
      cases hrow'
      exact hgood
  · intro hnil
    constructor
    · intro hall method row _ hrow
      exact hall method row hrow
    · intro hfront method row hrow
      by_cases hlt : method < metadata.firstListed .methodDef TypeDefRow.methodList
      · exact hfront method row hlt hrow
      · have hle : method ≤ metadata.rowCount .methodDef := (range_of_row_eq_ok hrow).2
        obtain ⟨rid, hdeclares⟩ := hdeclared.mpr ⟨by omega, hle⟩
        exact hscanned.mp hnil rid method row hdeclares hrow

def ofTables (counts : List (TableId × Nat)) (tableData strings blobs : Bytes) : Metadata where
  image := none
  data := #[]
  root := ⟨Root.magic, 1, 1, 0, "", []⟩
  tableData
  tables :=
    { major := 2, minor := 0, valid := total (counts.map fun count => 1 <<< count.1.number),
      sorted := 0, layout := Layout.ofRows counts false false false, start := 0 }
  strings
  blobs := some blobs
  userStrings := none
  nesting := []

/-- One type and two methods.  The type lists the second; the first is forwarded to a library. -/
def hiddenForward : Metadata :=
  ofTables [(.typeDef, 1), (.methodDef, 2)]
    #[0, 0, 0, 0, 1, 0, 0, 0, 0, 0, 1, 0, 2, 0,
      0, 0, 0, 0, 0, 0, 0x96, 0x20, 3, 0, 0, 0, 1, 0,
      0, 0, 0, 0, 3, 0, 0x96, 0, 3, 0, 0, 0, 1, 0]
    #[0, 84, 0, 66, 0] #[0]

theorem unmanagedMethods_hiddenForward :
    hiddenForward.unmanagedMethods = .ok [] ∧
      (∀ method, 2 ≤ method → method ≤ 2 →
        ∃ row, hiddenForward.row MethodDefRow method = .ok row ∧ row.Managed) ∧
      ∃ row, hiddenForward.row MethodDefRow 1 = .ok row ∧ ¬ row.Managed := by
  have hscan : hiddenForward.unmanagedMethods = .ok [] := by rfl
  refine ⟨hscan, (unmanagedMethods_eq_nil_iff hscan).1.mp rfl, _, rfl, ?_⟩
  intro hmanaged
  exact absurd hmanaged.notForwarded (by decide)

end Metadata

/-! ## Types that lay out their fields -/

namespace Metadata

variable {metadata : Metadata}

def LaysOutFields (metadata : Metadata) (rid : Nat) : Prop :=
  ∃ row start stop, metadata.row TypeDefRow rid = .ok row ∧ row.hasExplicitBit = true ∧
    metadata.fieldRange rid = .ok (start, stop) ∧ start < stop

theorem explicitLayout_eq_nil_iff {rid : Nat} {found : List Violation}
    (h : metadata.explicitLayout rid = .ok found) :
    found = [] ↔ ¬ metadata.LaysOutFields rid := by
  obtain ⟨row, hrow, h⟩ := bind_eq_ok_iff.mp h
  cases hbit : row.hasExplicitBit with
  | false =>
      simp only [hbit, Bool.false_eq_true, if_false] at h
      cases h
      refine ⟨fun _ => ?_, fun _ => rfl⟩
      rintro ⟨row', start, stop, hrow', hbit', -, -⟩
      cases hrow.symm.trans hrow'
      cases hbit.symm.trans hbit'
  | true =>
      simp only [hbit, if_true] at h
      obtain ⟨⟨start, stop⟩, hrange, h⟩ := bind_eq_ok_iff.mp h
      by_cases hlt : start < stop
      · simp only [hlt, if_true] at h
        obtain ⟨type, -, h⟩ := bind_eq_ok_iff.mp h
        cases h
        refine ⟨nofun, fun hnot => ?_⟩
        exact absurd ⟨row, start, stop, hrow, hbit, hrange, hlt⟩ hnot
      · simp only [hlt, if_false] at h
        cases h
        refine ⟨fun _ => ?_, fun _ => rfl⟩
        rintro ⟨row', start', stop', -, -, hrange', hlt'⟩
        cases hrange.symm.trans hrange'
        exact hlt hlt'

theorem explicitLayouts_eq_nil_iff {found : List Violation}
    (h : metadata.explicitLayouts = .ok found) :
    found = [] ↔ ∀ rid, ¬ metadata.LaysOutFields rid := by
  obtain ⟨parts, hparts, hfound⟩ := bind_eq_ok_iff.mp h
  cases hfound
  rw [flatten_eq_nil_iff_of_mapM_eq_ok hparts fun _ _ _ => explicitLayout_eq_nil_iff]
  constructor
  · intro hnone rid hlays
    have ⟨row, _, _, hrow, _⟩ := hlays
    exact hnone rid (mem_rids.mpr (range_of_row_eq_ok hrow)) hlays
  · intro hnone rid _
    exact hnone rid

end Metadata

end AssemblyGate
