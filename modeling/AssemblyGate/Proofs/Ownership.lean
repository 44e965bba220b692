import Mathlib.Data.List.Nodup
import AssemblyGate.Proofs.Definitions
import AssemblyGate.Proofs.Report

/-!
# One owner for every member

The range of each type is told from two neighbouring rows alone.  If all types have one, the
ranges lie one behind the other: they cut the members from the first listed one on into
pieces, one piece for each type.  A scan that goes through the types and then through the
methods of each type is therefore a scan through the methods themselves, and meets each of
them once.
-/

namespace AssemblyGate

/-! ## Ranges one behind the other -/

inductive Consecutive : (start : Nat) → (ranges : List (Nat × Nat)) → (stop : Nat) → Prop
  | nil (start : Nat) : Consecutive start [] start
  | cons {start middle stop : Nat} {ranges : List (Nat × Nat)} (hle : start ≤ middle)
      (h : Consecutive middle ranges stop) : Consecutive start ((start, middle) :: ranges) stop

def rowsOf (range : Nat × Nat) : List Nat := List.range' range.1 (range.2 - range.1)

@[simp] theorem mem_rowsOf {range : Nat × Nat} {row : Nat} :
    row ∈ rowsOf range ↔ range.1 ≤ row ∧ row < range.2 := by
  simp only [rowsOf, List.mem_range'_1]
  omega

namespace Consecutive

variable {start stop : Nat} {ranges : List (Nat × Nat)}

theorem le (h : Consecutive start ranges stop) : start ≤ stop := by
  induction h with
  | nil => exact Nat.le_refl _
  | cons hle _ ih => exact Nat.le_trans hle ih

theorem bounds (h : Consecutive start ranges stop) {range : Nat × Nat} (hrange : range ∈ ranges) :
    start ≤ range.1 ∧ range.1 ≤ range.2 ∧ range.2 ≤ stop := by
  induction h with
  | nil => cases hrange
  | cons hle hothers ih =>
      rcases List.mem_cons.mp hrange with rfl | hrange
      · exact ⟨Nat.le_refl _, hle, hothers.le⟩
      · obtain ⟨hstart, hrest⟩ := ih hrange
        exact ⟨Nat.le_trans hle hstart, hrest⟩

theorem pairwise (h : Consecutive start ranges stop) :
    ranges.Pairwise fun range later => range.2 ≤ later.1 := by
  induction h with
  | nil => exact .nil
  | cons _ hothers ih => exact .cons (fun later hlater => (hothers.bounds hlater).1) ih

theorem flatMap_rowsOf (h : Consecutive start ranges stop) :
    ranges.flatMap rowsOf = List.range' start (stop - start) := by
  induction h with
  | nil => simp
  | @cons start middle stop ranges hle hothers ih =>
      have hmiddle : start + 1 * (middle - start) = middle := by omega
      have hlength : stop - start = (middle - start) + (stop - middle) := by
        have := hothers.le
        omega
      rw [List.flatMap_cons, ih, rowsOf, hlength, ← List.range'_append, hmiddle]

end Consecutive

/--
The ranges cut the rows from `first` to `last` into pieces: one behind the other, so that none
of them shares a row with another one, and together all of these rows in their order.
-/
structure Partition (first last : Nat) (ranges : List (Nat × Nat)) : Prop where
  consecutive : Consecutive first ranges (last + 1)
  disjoint : ranges.Pairwise fun range later => range.2 ≤ later.1
  inside : ∀ range ∈ ranges, 1 ≤ range.1 ∧ range.1 ≤ range.2 ∧ range.2 ≤ last + 1
  rows : ranges.flatMap rowsOf = List.range' first (last + 1 - first)

theorem Consecutive.partition {first last : Nat} {ranges : List (Nat × Nat)} (hpos : 1 ≤ first)
    (h : Consecutive first ranges (last + 1)) : Partition first last ranges where
  consecutive := h
  disjoint := h.pairwise
  inside := fun range hrange => by
    obtain ⟨hfirst, hbounds⟩ := h.bounds hrange
    exact ⟨Nat.le_trans hpos hfirst, hbounds⟩
  rows := h.flatMap_rowsOf

/-! ## The ranges of all types -/

namespace Metadata

variable {metadata : Metadata} {target : TableId} {list : TypeDefRow → Nat}

theorem consecutive_of_ownedRange {remaining rid : Nat} {ranges : List (Nat × Nat)}
    (hend : rid + remaining = metadata.typeDefCount)
    (h : (List.range' rid (remaining + 1)).mapM (metadata.ownedRange · target list) = .ok ranges) :
    ∃ row, metadata.row TypeDefRow rid = .ok row ∧ 1 ≤ list row ∧
      Consecutive (list row) ranges (metadata.rowCount target + 1) := by
  induction remaining generalizing rid ranges with
  | zero =>
      rw [mapM_eq_ok_iff] at h
      obtain _ | ⟨hrange, hnil⟩ := h
      cases hnil
      have howns := owns_of_ownedRange hrange
      obtain ⟨row, hrow, hstart⟩ := howns.lists
      refine ⟨row, hrow, hstart ▸ howns.start_pos, ?_⟩
      rw [hstart, ← howns.last (by omega)]
      exact .cons howns.start_le (.nil _)
  | succ remaining ih =>
      rw [List.range'_succ, mapM_eq_ok_iff] at h
      obtain _ | ⟨hrange, hothers⟩ := h
      have howns := owns_of_ownedRange hrange
      obtain ⟨row, hrow, hstart⟩ := howns.lists
      obtain ⟨next, hnext, hstop⟩ := howns.next (by omega)
      obtain ⟨next', hnext', -, hconsecutive⟩ := ih (by omega) (mapM_eq_ok_iff.mpr hothers)
      cases hnext.symm.trans hnext'
      refine ⟨row, hrow, hstart ▸ howns.start_pos, ?_⟩
      rw [hstart]
      exact .cons howns.start_le (hstop ▸ hconsecutive)

theorem exists_partition (htypes : 0 < metadata.typeDefCount)
    (h : ∀ rid, 1 ≤ rid → rid ≤ metadata.typeDefCount →
      ∃ range, metadata.ownedRange rid target list = .ok range) :
    ∃ row ranges, metadata.row TypeDefRow 1 = .ok row ∧
      (rids metadata.typeDefCount).mapM (metadata.ownedRange · target list) = .ok ranges ∧
      Partition (list row) (metadata.rowCount target) ranges := by
  obtain ⟨ranges, hranges⟩ := exists_mapM_eq_ok_iff.mpr fun rid hrid =>
    h rid (mem_rids.mp hrid).1 (mem_rids.mp hrid).2
  obtain ⟨remaining, hremaining⟩ := Nat.exists_eq_add_of_lt htypes
  rw [Nat.zero_add] at hremaining
  have hall := hranges
  rw [rids_eq_range', hremaining] at hall
  obtain ⟨row, hrow, hpos, hconsecutive⟩ := consecutive_of_ownedRange (by omega) hall
  exact ⟨row, ranges, hrow, hranges, hconsecutive.partition hpos⟩

end Metadata

/-! ## Scans through groups -/

def gathered {ι α : Type} (scan : ι → Except Error (List α)) (items : List ι) :
    Except Error (List α) := do
  let found ← items.mapM scan
  pure found.flatten

section Gathered

variable {ι κ α : Type} {scan : ι → Except Error (List α)}

@[simp] theorem gathered_cons_eq_ok_iff {item : ι} {items : List ι} {found : List α} :
    gathered scan (item :: items) = .ok found ↔
      ∃ first others, scan item = .ok first ∧ gathered scan items = .ok others ∧
        first ++ others = found := by
  simp only [gathered, List.mapM_cons, bind_assoc, pure_bind, bind_eq_ok_iff]
  constructor
  · rintro ⟨first, hfirst, parts, hparts, hfound⟩
    exact ⟨first, parts.flatten, hfirst, ⟨parts, hparts, rfl⟩, by simpa using Except.ok.inj hfound⟩
  · rintro ⟨first, others, hfirst, ⟨parts, hparts, hothers⟩, rfl⟩
    cases hothers
    exact ⟨first, hfirst, parts, hparts, rfl⟩

@[simp] theorem gathered_append_eq_ok_iff {front back : List ι} {found : List α} :
    gathered scan (front ++ back) = .ok found ↔
      ∃ first others, gathered scan front = .ok first ∧ gathered scan back = .ok others ∧
        first ++ others = found := by
  induction front generalizing found with
  | nil => simp [gathered, pure, Except.pure, bind, Except.bind]
  | cons item items ih =>
      simp only [List.cons_append, gathered_cons_eq_ok_iff, ih]
      constructor
      · rintro ⟨first, _, hfirst, ⟨middle, last, hmiddle, hlast, rfl⟩, rfl⟩
        exact ⟨first ++ middle, last, ⟨first, middle, hfirst, hmiddle, rfl⟩, hlast, by simp⟩
      · rintro ⟨_, last, ⟨first, middle, hfirst, hmiddle, rfl⟩, hlast, rfl⟩
        exact ⟨first, middle ++ last, hfirst, ⟨middle, last, hmiddle, hlast, rfl⟩, by simp⟩

theorem gathered_eq_ok_iff_flatMap {groupScan : κ → Except Error (List α)} {group : κ → List ι}
    {groups : List κ}
    (h : ∀ key ∈ groups, ∀ found, groupScan key = .ok found ↔ gathered scan (group key) = .ok found)
    {found : List α} :
    gathered groupScan groups = .ok found ↔ gathered scan (groups.flatMap group) = .ok found := by
  induction groups generalizing found with
  | nil => rfl
  | cons key keys ih =>
      obtain ⟨hkey, hkeys⟩ := List.forall_mem_cons.mp h
      simp only [List.flatMap_cons, gathered_append_eq_ok_iff, gathered_cons_eq_ok_iff, ih hkeys,
        hkey]

end Gathered

/-! ## Visits -/

namespace Metadata

variable {metadata : Metadata} {rid method : Nat} {range : Nat × Nat} {α : Type}
  {scan : TypeExpr → MethodDefRow → Except Error (List α)}

def declaredMethods (metadata : Metadata) (rid : Nat) : List Nat :=
  match metadata.methodRange rid with
  | .ok range => rowsOf range
  | .error _ => []

@[simp] theorem mem_declaredMethods :
    method ∈ metadata.declaredMethods rid ↔ metadata.Declares rid method := by
  cases hrange : metadata.methodRange rid with
  | error error => simp [declaredMethods, Declares, hrange]
  | ok range => simp [declaredMethods, Declares, hrange, Prod.ext_iff]

def visits (metadata : Metadata) : List (Nat × Nat) :=
  (rids metadata.typeDefCount).flatMap fun rid => (metadata.declaredMethods rid).map (rid, ·)

@[simp] theorem mem_visits {owned : Nat × Nat} :
    owned ∈ metadata.visits ↔ metadata.Declares owned.1 owned.2 := by
  obtain ⟨rid, method⟩ := owned
  simp only [visits, List.mem_flatMap, List.mem_map, mem_rids, Prod.mk.injEq]
  constructor
  · rintro ⟨_, -, _, hdeclared, rfl, rfl⟩
    exact mem_declaredMethods.mp hdeclared
  · intro h
    exact ⟨rid, range_of_declares h, method, mem_declaredMethods.mpr h, rfl, rfl⟩

theorem map_snd_visits {ranges : List (Nat × Nat)}
    (h : (rids metadata.typeDefCount).mapM metadata.methodRange = .ok ranges) :
    metadata.visits.map Prod.snd = ranges.flatMap rowsOf := by
  rw [mapM_eq_ok_iff] at h
  simp only [visits, List.map_flatMap, List.map_map, Function.comp_def, List.map_id']
  generalize rids metadata.typeDefCount = types at h
  induction h with
  | nil => rfl
  | cons hrange _ ih => rw [List.flatMap_cons, List.flatMap_cons, ih, declaredMethods, hrange]

def visit (metadata : Metadata) (scan : TypeExpr → MethodDefRow → Except Error (List α))
    (owned : Nat × Nat) : Except Error (List α) := do
  let row ← metadata.row MethodDefRow owned.2
  let type ← metadata.typeDefinition owned.1
  scan type row

theorem unmanagedMethods_eq :
    metadata.unmanagedMethods =
      gathered (metadata.scanMethods metadata.unmanagedMethod) (rids metadata.typeDefCount) := rfl

theorem methodsOf_eq (h : metadata.methodRange rid = .ok range) :
    metadata.methodsOf rid = (metadata.declaredMethods rid).mapM (metadata.row MethodDefRow) := by
  simp only [methodsOf, declaredMethods, h, rowsOf, List.range'_eq_map_range, List.mapM_map]
  rfl

theorem scanMethods_eq_ok_iff (h : metadata.methodRange rid = .ok range) {found : List α} :
    metadata.scanMethods scan rid = .ok found ↔
      gathered (metadata.visit scan) ((metadata.declaredMethods rid).map (rid, ·)) = .ok found := by
  rw [scanMethods, methodsOf_eq h]
  cases metadata.declaredMethods rid with
  | nil => rfl
  | cons method methods =>
      cases htype : metadata.typeDefinition rid with
      | error error =>
          refine iff_of_false ?_ ?_
          · rintro hfound
            obtain ⟨rows, hrows, hfound⟩ := bind_eq_ok_iff.mp hfound
            obtain _ | _ := mapM_eq_ok_iff.mp hrows
            cases hfound
          · rw [List.map_cons, gathered_cons_eq_ok_iff]
            rintro ⟨first, others, hfirst, -⟩
            obtain ⟨row, -, hfirst⟩ := bind_eq_ok_iff.mp hfirst
            rw [htype] at hfirst
            cases hfirst
      | ok type =>
          have hvisit : ∀ method, metadata.visit scan (rid, method) =
              metadata.row MethodDefRow method >>= scan type := by
            intro method
            rw [visit, htype]
            rfl
          simp only [gathered, List.mapM_map, Function.comp_def, hvisit, bind_eq_ok_iff,
            ← mapM_mapM_eq_ok_iff]
          constructor
          · rintro ⟨rows, hrows, hfound⟩
            obtain _ | _ := mapM_eq_ok_iff.mp hrows
            obtain ⟨_, hsame, hfound⟩ := bind_eq_ok_iff.mp hfound
            cases hsame
            obtain ⟨parts, hparts, hfound⟩ := bind_eq_ok_iff.mp hfound
            exact ⟨parts, ⟨_, hrows, hparts⟩, hfound⟩
          · rintro ⟨parts, ⟨rows, hrows, hparts⟩, hfound⟩
            obtain _ | _ := mapM_eq_ok_iff.mp hrows
            refine ⟨_, hrows, bind_eq_ok_iff.mpr ⟨type, rfl, ?_⟩⟩
            exact bind_eq_ok_iff.mpr ⟨parts, hparts, hfound⟩

theorem gathered_scanMethods_eq_ok_iff
    (hranges : ∀ rid, 1 ≤ rid → rid ≤ metadata.typeDefCount →
      ∃ range, metadata.methodRange rid = .ok range) {found : List α} :
    gathered (metadata.scanMethods scan) (rids metadata.typeDefCount) = .ok found ↔
      gathered (metadata.visit scan) metadata.visits = .ok found := by
  refine gathered_eq_ok_iff_flatMap fun rid hrid found => ?_
  obtain ⟨hpos, hle⟩ := mem_rids.mp hrid
  obtain ⟨range, hrange⟩ := hranges rid hpos hle
  exact scanMethods_eq_ok_iff hrange

theorem allPass_eq_ok_iff {verifier : Verifier} {count : Nat} {valid : Bool} :
    verifier.allPass count = .ok valid ↔
      ∃ findings, gathered verifier.findings (rids count) = .ok findings ∧
        valid = findings.all fun finding => !verifier.isViolation finding := by
  have hpasses : ∀ {verdicts : List Bool}, (rids count).mapM verifier.passes = .ok verdicts ↔
      ∃ parts, (rids count).mapM verifier.findings = .ok parts ∧
        parts.mapM (fun findings => (pure (findings.all fun finding =>
          !verifier.isViolation finding) : Except Error Bool)) = .ok verdicts :=
    mapM_mapM_eq_ok_iff.symm
  simp only [Verifier.allPass, gathered, bind_eq_ok_iff, hpasses, List.mapM_pure]
  constructor
  · rintro ⟨_, ⟨parts, hparts, hverdicts⟩, hvalid⟩
    cases hverdicts
    cases hvalid
    exact ⟨parts.flatten, ⟨parts, hparts, rfl⟩, by simp [List.all_flatten, List.all_map]⟩
  · rintro ⟨_, ⟨parts, hparts, hfindings⟩, rfl⟩
    cases hfindings
    refine ⟨_, ⟨parts, hparts, rfl⟩, ?_⟩
    simp [List.all_flatten, List.all_map, pure, Except.pure]

/--
The methods from `first` on are gone through one by one, each as a method of the one type that
declares it.
-/
structure VisitsOnce (metadata : Metadata) (first : Nat) : Prop where
  rows : metadata.visits.map Prod.snd =
    List.range' first (metadata.rowCount .methodDef + 1 - first)
  declares : ∀ owned, owned ∈ metadata.visits ↔ metadata.Declares owned.1 owned.2
  owner : ∀ method, first ≤ method → method ≤ metadata.rowCount .methodDef →
    ∃! rid, metadata.Declares rid method
  scanned : ∀ found, metadata.unmanagedMethods = .ok found ↔
    gathered (metadata.visit metadata.unmanagedMethod) metadata.visits = .ok found
  verified : ∀ (policy : Policy) (assembly : String) (entries : Array LogEntry) (valid : Bool),
    (((Verifier.structural policy metadata assembly).verifyAll assembly
        metadata.typeDefCount).runOn entries).1 = .ok valid ↔
      ∃ findings,
        gathered (metadata.visit
          (VerifyContext.methodFindings ⟨metadata, assembly, policy.systemAssembly⟩))
          metadata.visits = .ok findings ∧
        valid = findings.all fun finding => policy.toleratedDefects.contains finding.kind

theorem visitsOnce_of_partition {first : Nat} {ranges : List (Nat × Nat)}
    (hranges : (rids metadata.typeDefCount).mapM metadata.methodRange = .ok ranges)
    (h : Partition first (metadata.rowCount .methodDef) ranges) : metadata.VisitsOnce first := by
  have hrows := (map_snd_visits hranges).trans h.rows
  have hall : ∀ rid, 1 ≤ rid → rid ≤ metadata.typeDefCount →
      ∃ range, metadata.methodRange rid = .ok range := fun rid hpos hle =>
    exists_mapM_eq_ok_iff.mp ⟨ranges, hranges⟩ rid (mem_rids.mpr ⟨hpos, hle⟩)
  refine ⟨hrows, fun _ => mem_visits, ?_, ?_, ?_⟩
  · intro method hfirst hlast
    have hmem : method ∈ metadata.visits.map Prod.snd := by
      rw [hrows, List.mem_range'_1]
      omega
    obtain ⟨⟨rid, _⟩, howned, rfl⟩ := List.mem_map.mp hmem
    refine ⟨rid, mem_visits.mp howned, fun rid' hdeclares => ?_⟩
    have hnodup : (metadata.visits.map Prod.snd).Nodup := hrows ▸ List.nodup_range'
    have howned' : (rid', _) ∈ metadata.visits := mem_visits.mpr hdeclares
    exact congrArg Prod.fst (List.inj_on_of_nodup_map hnodup howned' howned rfl)
  · intro found
    rw [unmanagedMethods_eq]
    exact gathered_scanMethods_eq_ok_iff hall
  · intro policy assembly entries valid
    rw [Verifier.yields_verifyAll _ _ _ entries, allPass_eq_ok_iff]
    simp only [Verifier.structural, Bool.not_not]
    exact exists_congr fun findings => and_congr_left fun _ => gathered_scanMethods_eq_ok_iff hall

/--
If every type has a range of fields, or of methods, the ranges are a partition of the rows from
the first listed one to the last.  Then both scans that go through the methods of the types
visit each of these methods once.
-/
theorem members_partitioned (htypes : 0 < metadata.typeDefCount) :
    ((∀ rid, 1 ≤ rid → rid ≤ metadata.typeDefCount →
        ∃ range, metadata.fieldRange rid = .ok range) →
      ∃ row ranges, metadata.row TypeDefRow 1 = .ok row ∧
        (rids metadata.typeDefCount).mapM metadata.fieldRange = .ok ranges ∧
        Partition row.fieldList (metadata.rowCount .field) ranges) ∧
    ((∀ rid, 1 ≤ rid → rid ≤ metadata.typeDefCount →
        ∃ range, metadata.methodRange rid = .ok range) →
      ∃ row ranges, metadata.row TypeDefRow 1 = .ok row ∧
        (rids metadata.typeDefCount).mapM metadata.methodRange = .ok ranges ∧
        Partition row.methodList (metadata.rowCount .methodDef) ranges ∧
        metadata.VisitsOnce row.methodList) := by
  constructor
  · exact exists_partition htypes
  · intro hall
    obtain ⟨row, ranges, hrow, hranges, hpartition⟩ := exists_partition htypes hall
    exact ⟨row, ranges, hrow, hranges, hpartition, visitsOnce_of_partition hranges hpartition⟩

/-- Three types, of which the first declares nothing and no one declares the first method. -/
def threeOwners : Metadata :=
  ofTables [(.typeDef, 3), (.field, 2), (.methodDef, 3)]
    #[0, 0, 0, 0, 1, 0, 0, 0, 0, 0, 1, 0, 2, 0,
      0, 0, 0, 0, 1, 0, 0, 0, 0, 0, 1, 0, 2, 0,
      0, 0, 0, 0, 1, 0, 0, 0, 0, 0, 3, 0, 3, 0,
      6, 0, 3, 0, 1, 0,
      6, 0, 3, 0, 1, 0,
      0, 0, 0, 0, 0, 0, 0x96, 0, 3, 0, 0, 0, 1, 0,
      0, 0, 0, 0, 0, 0, 0x96, 0, 3, 0, 0, 0, 1, 0,
      0, 0, 0, 0, 0, 0, 0x96, 0, 3, 0, 0, 0, 1, 0]
    #[0, 84, 0, 77, 0] #[0]

theorem threeOwners_partitioned :
    0 < threeOwners.typeDefCount ∧
      Partition 1 2 [(1, 1), (1, 3), (3, 3)] ∧ Partition 2 3 [(2, 2), (2, 3), (3, 4)] ∧
      threeOwners.VisitsOnce 2 ∧ threeOwners.visits = [(2, 2), (3, 3)] := by
  have htypes : 0 < threeOwners.typeDefCount := by decide
  have hfields : ∀ rid, 1 ≤ rid → rid ≤ threeOwners.typeDefCount →
      ∃ range, threeOwners.fieldRange rid = .ok range := fun rid hpos hle =>
    exists_mapM_eq_ok_iff.mp ⟨_, rfl⟩ rid (mem_rids.mpr ⟨hpos, hle⟩)
  have hmethods : ∀ rid, 1 ≤ rid → rid ≤ threeOwners.typeDefCount →
      ∃ range, threeOwners.methodRange rid = .ok range := fun rid hpos hle =>
    exists_mapM_eq_ok_iff.mp ⟨_, rfl⟩ rid (mem_rids.mpr ⟨hpos, hle⟩)
  obtain ⟨hfieldsCut, hmethodsCut⟩ := members_partitioned htypes
  obtain ⟨first, fields, hfirst, hfields, hfieldPartition⟩ := hfieldsCut hfields
  obtain ⟨first', methods, hfirst', hmethods, hmethodPartition, hvisits⟩ := hmethodsCut hmethods
  cases hfirst
  cases hfirst'
  cases hfields
  cases hmethods
  exact ⟨htypes, hfieldPartition, hmethodPartition, hvisits, rfl⟩

end Metadata

end AssemblyGate
