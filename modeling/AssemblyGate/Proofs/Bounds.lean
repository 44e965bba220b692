import AssemblyGate.Metadata.Basic
import AssemblyGate.Proofs.Tables

/-!
# Nothing is read out of range

The streams that a directory lists have names of their own and lie inside the metadata.  A
`Guarded` computation stops for good where it asks for bytes out of range.  The heaps, the
tables and whatever is read from them have guarded forms, which take their bytes from the
metadata by the offsets of the directory; once metadata was loaded none of these ever stops,
and all of them give what the plain forms give.
-/

namespace AssemblyGate

/-! ## The stream directory -/

/-- Streams with names of their own that lie inside the data, below the limit of a word. -/
structure Directory (data : Bytes) (streams : List StreamHeader) : Prop where
  distinct : (streams.map StreamHeader.name).Nodup
  inside : ∀ header ∈ streams, header.offset + header.size ≤ data.size
  word : ∀ header ∈ streams, header.offset + header.size < wordLimit

namespace Directory

variable {data : Bytes} {streams : List StreamHeader} {header : StreamHeader}

theorem nil : Directory data [] := ⟨.nil, nofun, nofun⟩

theorem concat (h : Directory data streams) (hnew : header.name ∉ streams.map StreamHeader.name)
    (hinside : header.offset + header.size ≤ data.size)
    (hword : header.offset + header.size < wordLimit) : Directory data (streams ++ [header]) where
  distinct := by
    rw [List.map_append, List.map_singleton, List.nodup_append]
    refine ⟨h.distinct, List.pairwise_singleton _ _, ?_⟩
    intro name hname other hother heq
    exact hnew (List.mem_singleton.mp hother ▸ heq ▸ hname)
  inside := List.forall_mem_append.mpr ⟨h.inside, List.forall_mem_singleton.mpr hinside⟩
  word := List.forall_mem_append.mpr ⟨h.word, List.forall_mem_singleton.mpr hword⟩

theorem of_readStreams {remaining offset : Nat} {found : List StreamHeader}
    (h : Directory data found)
    (hread : Root.readStreams data remaining offset found = .ok streams) :
    Directory data streams ∧ streams.length = found.length + remaining := by
  induction remaining generalizing offset found with
  | zero =>
      cases hread
      exact ⟨h, rfl⟩
  | succ remaining ih =>
      obtain ⟨header, -, hread⟩ := bind_eq_ok_iff.mp hread
      dsimp only at hread
      split at hread
      · cases hread
      next hword =>
      split at hread
      · cases hread
      next hinside =>
      split at hread
      · cases hread
      next hnew =>
      have hname : header.name ∉ found.map StreamHeader.name := by
        simpa only [List.any_eq_true, beq_iff_eq, List.mem_map] using hnew
      obtain ⟨hdirectory, hlength⟩ :=
        ih (h.concat hname (Nat.le_of_not_lt hinside) (Nat.lt_of_not_le hword)) hread
      refine ⟨hdirectory, ?_⟩
      rw [hlength, List.length_append, List.length_singleton, Nat.add_assoc, Nat.add_comm 1]

end Directory

theorem Root.directory_of_read {data : Bytes} {root : Root} (h : Root.read data = .ok root) :
    Directory data root.streams ∧ 1 ≤ root.streams.length ∧ root.streams.length ≤ maxStreams := by
  rw [Root.read] at h
  split at h
  · cases h
  obtain ⟨signature, -, h⟩ := bind_eq_ok_iff.mp h
  split at h
  · cases h
  obtain ⟨versionLength, -, h⟩ := bind_eq_ok_iff.mp h
  dsimp only at h
  split at h
  · cases h
  obtain ⟨count, -, h⟩ := bind_eq_ok_iff.mp h
  split at h
  · cases h
  next hcount =>
  obtain ⟨streams, hstreams, h⟩ := bind_eq_ok_iff.mp h
  obtain ⟨major, -, h⟩ := bind_eq_ok_iff.mp h
  obtain ⟨minor, -, h⟩ := bind_eq_ok_iff.mp h
  cases h
  obtain ⟨hdirectory, hlength⟩ := Directory.nil.of_readStreams hstreams
  rw [List.length_nil, Nat.zero_add] at hlength
  rw [not_or] at hcount
  refine ⟨hdirectory, ?_, ?_⟩ <;> dsimp only <;> omega

/-! ## Guarded computations -/

/-- A result, unless bytes out of range were asked for. -/
abbrev Guarded (α : Type) := ExceptT Error Option α

namespace Guarded

variable {α β : Type}

def ofExcept (result : Except Error α) : Guarded α := ExceptT.mk (some result)

def part (data : Bytes) (start stop : Nat) : Guarded Bytes :=
  if start ≤ stop ∧ stop ≤ data.size then ofExcept (.ok (data.extract start stop))
  else ExceptT.mk none

def Runs (computation : Guarded α) (result : Except Error α) : Prop :=
  computation.run = some result

namespace Runs

theorem ofExcept (result : Except Error α) : Runs (Guarded.ofExcept result) result := rfl

theorem pure (value : α) : Runs (Pure.pure value) (.ok value) := rfl

theorem throw (error : Error) : Runs (MonadExcept.throw error : Guarded α) (.error error) := rfl

theorem part {data : Bytes} {start stop : Nat} (hle : start ≤ stop) (hstop : stop ≤ data.size) :
    Runs (Guarded.part data start stop) (.ok (data.extract start stop)) := by
  rw [Guarded.part, if_pos ⟨hle, hstop⟩]
  rfl

theorem iff {computation : Guarded α} {result other : Except Error α}
    (h : Runs computation result) : Runs computation other ↔ result = other := by
  rw [Runs, h, Option.some.injEq]

theorem bind {first : Guarded α} {next : α → Guarded β} {result : Except Error α}
    {results : α → Except Error β} (hfirst : Runs first result)
    (hnext : ∀ value, result = .ok value → Runs (next value) (results value)) :
    Runs (first >>= next) (result >>= results) := by
  rw [Runs, ExceptT.run_bind, hfirst]
  cases result with
  | error error => rfl
  | ok value => exact hnext value rfl

theorem after {first : Guarded α} {next : α → Guarded β} {value : α} {result : Except Error β}
    (hfirst : Runs first (.ok value)) (hnext : Runs (next value) result) :
    Runs (first >>= next) result := by
  rw [Runs, ExceptT.run_bind, hfirst]
  exact hnext

theorem stop {first : Guarded α} {next : α → Guarded β} {error : Error}
    (hfirst : Runs first (.error error)) : Runs (first >>= next) (.error error) := by
  rw [Runs, ExceptT.run_bind, hfirst]
  rfl

end Runs

end Guarded

/-! ## Heaps -/

namespace Heap

open Guarded

def untilTerminator? (bytes : List UInt8) : Option (List UInt8) :=
  if 0 ∈ bytes then some (bytes.takeWhile (· != 0)) else none

def guardedString (heap : Bytes) (index : Nat) : Guarded String :=
  if index ≥ heap.size then
    throw .outOfBounds
  else do
    let bytes ← Guarded.part heap index heap.size
    match (untilTerminator? bytes.toList).bind Text.decode? with
    | some text => pure text
    | none => throw (.malformed (.string index))

def guardedString? (heap : Bytes) (index : Nat) : Guarded (Option String) :=
  if index = 0 then
    pure none
  else do
    let text ← guardedString heap index
    pure (if text.isEmpty then none else some text)

def guardedBlob (heap : Bytes) (index : Nat) : Guarded Bytes :=
  if index ≥ heap.size then
    throw .outOfBounds
  else do
    let bytes ← Guarded.part heap index heap.size
    match compressedNumber bytes.toList with
    | (.error error, _) => throw error
    | (.ok length, rest) =>
        let start := index + (bytes.toList.length - rest.length)
        if start + length > heap.size then throw .outOfBounds
        else Guarded.part heap start (start + length)

theorem untilZero_eq {heap : Bytes} {remaining offset : Nat} (h : offset + remaining = heap.size) :
    untilZero heap remaining offset = untilTerminator? (heap.toList.drop offset) := by
  induction remaining generalizing offset with
  | zero =>
      have hnil : heap.toList.drop offset = [] := List.drop_eq_nil_of_le (by simp; omega)
      rw [untilZero, hnil]
      rfl
  | succ remaining ih =>
      have hlt : offset < heap.toList.length := by
        rw [Array.length_toList]
        omega
      have hbyte : heap[offset]? = some heap.toList[offset] := by
        rw [← Array.getElem?_toList, List.getElem?_eq_getElem hlt]
      rw [untilZero, hbyte, List.drop_eq_getElem_cons hlt]
      dsimp only
      rw [ih (by omega)]
      generalize heap.toList[offset] = byte
      by_cases hzero : byte = 0
      · simp [untilTerminator?, hzero]
      · simp only [untilTerminator?, if_neg hzero, List.mem_cons, Ne.symm hzero, false_or]
        split <;> simp [hzero]

@[simp] theorem toList_extract_size (heap : Bytes) (index : Nat) :
    (heap.extract index heap.size).toList = heap.toList.drop index := by
  rw [Array.toList_extract, List.extract_eq_take_drop, List.take_of_length_le]
  simp

theorem runs_guardedString (heap : Bytes) (index : Nat) :
    Runs (guardedString heap index) (string heap index) := by
  unfold guardedString string
  by_cases hindex : index ≥ heap.size
  · rw [if_pos hindex, if_pos hindex]
    exact .throw _
  · rw [if_neg hindex, if_neg hindex]
    have hlt : index < heap.size := Nat.lt_of_not_le hindex
    refine .after (.part (Nat.le_of_lt hlt) (Nat.le_refl _)) ?_
    rw [toList_extract_size, untilZero_eq (by omega)]
    cases (untilTerminator? (heap.toList.drop index)).bind Text.decode? with
    | none => exact .throw _
    | some text => exact .pure _

theorem runs_guardedString? (heap : Bytes) (index : Nat) :
    Runs (guardedString? heap index) (string? heap index) := by
  unfold guardedString? string?
  by_cases hindex : index = 0
  · rw [if_pos hindex, if_pos hindex]
    exact .pure _
  · rw [if_neg hindex, if_neg hindex]
    exact .bind (runs_guardedString heap index) fun text _ => .pure _

theorem compressedNumber_take_four (bytes : List UInt8) :
    (compressedNumber (bytes.take 4)).1 = (compressedNumber bytes).1 ∧
      (bytes.take 4).length - (compressedNumber (bytes.take 4)).2.length =
        bytes.length - (compressedNumber bytes).2.length := by
  match bytes with
  | [] | [_] | [_, _] | [_, _, _] => exact ⟨rfl, rfl⟩
  | lead :: high :: mid :: low :: rest =>
      simp only [List.take_succ_cons, List.take_zero, compressedNumber]
      split_ifs <;> refine ⟨rfl, ?_⟩ <;> simp only [List.length_cons, List.length_nil] <;> omega

theorem runs_guardedBlob (heap : Bytes) (index : Nat) :
    Runs (guardedBlob heap index) (blob heap index) := by
  unfold guardedBlob blob
  by_cases hindex : index ≥ heap.size
  · rw [if_pos hindex, if_pos hindex]
    exact .throw _
  rw [if_neg hindex, if_neg hindex]
  have hlt : index < heap.size := Nat.lt_of_not_le hindex
  refine .after (.part (Nat.le_of_lt hlt) (Nat.le_refl _)) ?_
  have hlead : (heap.extract index (index + 4)).toList = (heap.toList.drop index).take 4 := by
    rw [Array.toList_extract, List.extract_eq_take_drop, Nat.add_sub_cancel_left]
  rw [toList_extract_size, hlead]
  dsimp only
  obtain ⟨hresult, hconsumed⟩ := compressedNumber_take_four (heap.toList.drop index)
  rcases hfour : compressedNumber ((heap.toList.drop index).take 4) with ⟨result, rest⟩
  rcases hall : compressedNumber (heap.toList.drop index) with ⟨result', rest'⟩
  rw [hfour, hall] at hresult hconsumed
  cases hresult
  cases result with
  | error error => exact .throw _
  | ok length =>
      dsimp only at hconsumed ⊢
      rw [hconsumed, Bytes.slice]
      generalize index + ((heap.toList.drop index).length - rest'.length) = start
      by_cases hstop : start + length ≤ heap.size
      · rw [if_neg (Nat.not_lt.mpr hstop), if_pos hstop]
        exact .part (Nat.le_add_right _ _) hstop
      · rw [if_pos (Nat.lt_of_not_le hstop), if_neg hstop]
        exact .throw _

end Heap

/-! ## Loaded metadata -/

theorem TableHeader.LaidOut.table_inside {header : TableHeader} {data : Bytes} {ρ : Type} [Row ρ]
    {table : Table ρ} (h : header.LaidOut data) (htable : header.table? data ρ = some table) :
    table.start + table.size ≤ data.size := by
  unfold TableHeader.table? at htable
  dsimp only at htable
  split at htable
  · cases htable
  · cases htable
    exact h.inside (Row.table ρ)

namespace Metadata

open Guarded

structure LoadedFrom (data : Bytes) (metadata : Metadata) : Prop where
  source : metadata.data = data
  root : Root.read data = .ok metadata.root
  tableData : streamBytes? data metadata.root "#~" = some metadata.tableData
  tables : TableHeader.read metadata.tableData = .ok metadata.tables
  strings : streamBytes? data metadata.root "#Strings" = some metadata.strings
  stringsStart : Heap.checkStrings metadata.strings = .ok ()
  blobs : streamBytes? data metadata.root "#Blob" = metadata.blobs
  blobsStart : ∀ heap ∈ metadata.blobs, Heap.checkBlobs heap = .ok ()
  userStrings : streamBytes? data metadata.root "#US" = metadata.userStrings
  userStringsStart : ∀ heap ∈ metadata.userStrings, Heap.checkUserStrings heap = .ok ()

@[simp] theorem require_eq_ok_iff {cause : Malformation} {found : Option Bytes} {bytes : Bytes} :
    require cause found = .ok bytes ↔ found = some bytes := by
  cases found <;> simp [require]

@[simp] theorem isSome_streamBytes? (data : Bytes) (root : Root) (name : String) :
    (streamBytes? data root name).isSome ↔ name ∈ root.streams.map StreamHeader.name := by
  rw [streamBytes?, Option.isSome_map, Root.stream?, List.find?_isSome]
  simp only [beq_iff_eq, List.mem_map]

@[simp] theorem forM_eq_ok_iff {check : Bytes → Except Error Unit} {found : Option Bytes} :
    found.forM check = .ok () ↔ ∀ heap ∈ found, check heap = .ok () := by
  cases found with
  | none => exact iff_of_true rfl nofun
  | some heap => simp [Option.forM]

theorem loadedFrom_of_load {image : Option (Image × RuntimeHeader)} {data : Bytes}
    {metadata : Metadata} (h : load image data = .ok metadata) : metadata.LoadedFrom data := by
  rw [load] at h
  obtain ⟨root, hroot, h⟩ := bind_eq_ok_iff.mp h
  split at h
  · cases h
  obtain ⟨tableData, htableData, h⟩ := bind_eq_ok_iff.mp h
  obtain ⟨strings, hstrings, h⟩ := bind_eq_ok_iff.mp h
  obtain ⟨⟨⟩, hstringsStart, h⟩ := bind_eq_ok_iff.mp h
  obtain ⟨⟨⟩, hblobsStart, h⟩ := bind_eq_ok_iff.mp h
  obtain ⟨⟨⟩, huserStringsStart, h⟩ := bind_eq_ok_iff.mp h
  obtain ⟨tables, htables, h⟩ := bind_eq_ok_iff.mp h
  dsimp only at h
  -- The rows of nested types only end up in the last field.
  split at h
  all_goals
    obtain ⟨rows, -, h⟩ := bind_eq_ok_iff.mp h
    cases h
    exact ⟨rfl, hroot, require_eq_ok_iff.mp htableData, htables, require_eq_ok_iff.mp hstrings,
      hstringsStart, rfl, forM_eq_ok_iff.mp hblobsStart, rfl, forM_eq_ok_iff.mp huserStringsStart⟩

namespace LoadedFrom

variable {data : Bytes} {metadata : Metadata}

theorem directory (h : metadata.LoadedFrom data) : Directory data metadata.root.streams :=
  (Root.directory_of_read h.root).1

theorem inside (h : metadata.LoadedFrom data) {name : String} {header : StreamHeader}
    (hheader : metadata.root.stream? name = some header) :
    header.offset + header.size ≤ data.size :=
  h.directory.inside header (List.mem_of_find?_eq_some hheader)

end LoadedFrom

/-! ### Guarded access -/

section

variable (metadata : Metadata)

def guardedStream (name : String) : Guarded (Option Bytes) :=
  match metadata.root.stream? name with
  | none => pure none
  | some header => do
      let bytes ← Guarded.part metadata.data header.offset (header.offset + header.size)
      pure (some bytes)

def guardedHeap (name : String) (missing : Malformation) (check : Bytes → Except Error Unit) :
    Guarded Bytes := do
  let heap ← Guarded.ofExcept (require missing (← metadata.guardedStream name))
  Guarded.ofExcept (check heap)
  pure heap

def guardedStrings : Guarded Bytes :=
  metadata.guardedHeap "#Strings" .missingStrings Heap.checkStrings

def guardedBlobs : Guarded Bytes :=
  metadata.guardedHeap "#Blob" .missingBlobs Heap.checkBlobs

def guardedUserStrings : Guarded (Option Bytes) := do
  let found ← metadata.guardedStream "#US"
  pure (found.filter fun heap => (Heap.checkUserStrings heap).isOk)

def guardedTable (ρ : Type) [Row ρ] : Guarded (Option (Table ρ)) := do
  let stream ← Guarded.ofExcept (require .missingTables (← metadata.guardedStream "#~"))
  match metadata.tables.table? stream ρ with
  | none => pure none
  | some table => do
      let _ ← Guarded.part stream table.start (table.start + table.size)
      pure (some table)

def guardedString (index : Nat) : Guarded String := do
  Heap.guardedString (← metadata.guardedStrings) index

def guardedString? (index : Nat) : Guarded (Option String) := do
  Heap.guardedString? (← metadata.guardedStrings) index

def guardedBlob (index : Nat) : Guarded Bytes := do
  Heap.guardedBlob (← metadata.guardedBlobs) index

end

/-! ### Guarded access to loaded metadata -/

namespace LoadedFrom

variable {data : Bytes} {metadata : Metadata}

theorem runs_guardedStream (h : metadata.LoadedFrom data) (name : String) :
    Runs (metadata.guardedStream name) (.ok (streamBytes? data metadata.root name)) := by
  unfold guardedStream streamBytes?
  cases hheader : metadata.root.stream? name with
  | none => exact .pure _
  | some header =>
      rw [h.source]
      exact .after (.part (Nat.le_add_right _ _) (h.inside hheader)) (.pure _)

theorem runs_guardedHeap (h : metadata.LoadedFrom data) {name : String} {missing : Malformation}
    {check : Bytes → Except Error Unit} {heap : Bytes}
    (hheap : streamBytes? data metadata.root name = some heap) (hcheck : check heap = .ok ()) :
    Runs (metadata.guardedHeap name missing check) (.ok heap) := by
  refine .after (h.runs_guardedStream name) ?_
  rw [hheap]
  refine .after (.ofExcept (.ok heap)) ?_
  rw [hcheck]
  exact .after (.ofExcept (.ok ())) (.pure heap)

theorem runs_guardedStrings (h : metadata.LoadedFrom data) :
    Runs metadata.guardedStrings (.ok metadata.strings) :=
  h.runs_guardedHeap h.strings h.stringsStart

theorem runs_guardedBlobs (h : metadata.LoadedFrom data) :
    Runs metadata.guardedBlobs (require .missingBlobs metadata.blobs) := by
  cases hblobs : metadata.blobs with
  | some heap => exact h.runs_guardedHeap (h.blobs.trans hblobs) (h.blobsStart heap hblobs)
  | none =>
      refine .after (h.runs_guardedStream "#Blob") ?_
      rw [h.blobs, hblobs]
      rfl

theorem runs_guardedUserStrings (h : metadata.LoadedFrom data) :
    Runs metadata.guardedUserStrings (.ok metadata.userStrings) := by
  refine .after (h.runs_guardedStream "#US") ?_
  rw [h.userStrings]
  cases huserStrings : metadata.userStrings with
  | none => exact .pure none
  | some heap =>
      rw [Option.filter_some, h.userStringsStart heap huserStrings]
      exact .pure (some heap)

theorem runs_guardedTable (h : metadata.LoadedFrom data) (ρ : Type) [Row ρ] :
    Runs (metadata.guardedTable ρ) (.ok (metadata.table? ρ)) := by
  refine .after (h.runs_guardedStream "#~") ?_
  rw [h.tableData]
  refine .after (.ofExcept (.ok metadata.tableData)) ?_
  have hlaid := TableHeader.laidOut (TableHeader.readFrom_of_read h.tables)
  unfold table?
  cases htable : metadata.tables.table? metadata.tableData ρ with
  | none => exact .pure none
  | some table =>
      have hinside : table.start + table.size ≤ metadata.tableData.size :=
        hlaid.table_inside htable
      exact .after (.part (Nat.le_add_right _ _) hinside) (.pure (some table))

theorem runs_guardedString (h : metadata.LoadedFrom data) (index : Nat) :
    Runs (metadata.guardedString index) (metadata.string index) :=
  .after h.runs_guardedStrings (Heap.runs_guardedString metadata.strings index)

theorem runs_guardedString? (h : metadata.LoadedFrom data) (index : Nat) :
    Runs (metadata.guardedString? index) (metadata.string? index) :=
  .after h.runs_guardedStrings (Heap.runs_guardedString? metadata.strings index)

theorem runs_guardedBlob (h : metadata.LoadedFrom data) (index : Nat) :
    Runs (metadata.guardedBlob index) (metadata.blob index) := by
  have hheap := h.runs_guardedBlobs
  unfold guardedBlob blob
  cases hblobs : metadata.blobs with
  | some heap =>
      rw [hblobs] at hheap
      exact .after hheap (Heap.runs_guardedBlob heap index)
  | none =>
      rw [hblobs] at hheap
      exact .stop hheap

theorem exists_runs_guardedBlobs_iff (h : metadata.LoadedFrom data) :
    (∃ heap, Runs metadata.guardedBlobs (.ok heap)) ↔
      "#Blob" ∈ metadata.root.streams.map StreamHeader.name := by
  rw [← isSome_streamBytes? data, h.blobs, Option.isSome_iff_exists]
  simp only [h.runs_guardedBlobs.iff, require_eq_ok_iff]

theorem exists_runs_guardedUserStrings_iff (h : metadata.LoadedFrom data) :
    (∃ heap, Runs metadata.guardedUserStrings (.ok (some heap))) ↔
      "#US" ∈ metadata.root.streams.map StreamHeader.name := by
  rw [← isSome_streamBytes? data, h.userStrings, Option.isSome_iff_exists]
  simp only [h.runs_guardedUserStrings.iff, Except.ok.injEq]

end LoadedFrom

/--
No access asks for bytes out of range, whatever the index.  There are always strings, and
there are blobs and literals if and only if a stream of that name is listed.
-/
structure StaysInside (data : Bytes) (metadata : Metadata) : Prop where
  source : metadata.data = data
  strings : Runs metadata.guardedStrings (.ok metadata.strings)
  blobs : Runs metadata.guardedBlobs (require .missingBlobs metadata.blobs)
  hasBlobs : (∃ heap, Runs metadata.guardedBlobs (.ok heap)) ↔
    "#Blob" ∈ metadata.root.streams.map StreamHeader.name
  userStrings : Runs metadata.guardedUserStrings (.ok metadata.userStrings)
  hasUserStrings : (∃ heap, Runs metadata.guardedUserStrings (.ok (some heap))) ↔
    "#US" ∈ metadata.root.streams.map StreamHeader.name
  table : ∀ (ρ : Type) [Row ρ], Runs (metadata.guardedTable ρ) (.ok (metadata.table? ρ))
  string : ∀ index, Runs (metadata.guardedString index) (metadata.string index)
  string? : ∀ index, Runs (metadata.guardedString? index) (metadata.string? index)
  blob : ∀ index, Runs (metadata.guardedBlob index) (metadata.blob index)

theorem LoadedFrom.staysInside {data : Bytes} {metadata : Metadata}
    (h : metadata.LoadedFrom data) : metadata.StaysInside data where
  source := h.source
  strings := h.runs_guardedStrings
  blobs := h.runs_guardedBlobs
  hasBlobs := h.exists_runs_guardedBlobs_iff
  userStrings := h.runs_guardedUserStrings
  hasUserStrings := h.exists_runs_guardedUserStrings_iff
  table := h.runs_guardedTable
  string := h.runs_guardedString
  string? := h.runs_guardedString?
  blob := h.runs_guardedBlob

theorem directory_and_access_stay_inside (data : Bytes) :
    (∀ root, Root.read data = .ok root →
      Directory data root.streams ∧ 1 ≤ root.streams.length ∧ root.streams.length ≤ 6) ∧
    ∀ image metadata, load image data = .ok metadata → metadata.StaysInside data := by
  constructor
  · intro root hroot
    exact Root.directory_of_read hroot
  · intro image metadata hload
    exact (loadedFrom_of_load hload).staysInside

/-- A module without literals, whose blobs start at the last byte of its strings. -/
def overlappingHeaps : Bytes :=
  #[0x42, 0x53, 0x4a, 0x42, 1, 0, 1, 0, 0, 0, 0, 0, 4, 0, 0, 0, 0x76, 0x34, 0, 0, 0, 0, 3, 0,
    72, 0, 0, 0, 38, 0, 0, 0, 0x23, 0x7e, 0, 0,
    110, 0, 0, 0, 4, 0, 0, 0, 0x23, 0x53, 0x74, 0x72, 0x69, 0x6e, 0x67, 0x73, 0, 0, 0, 0,
    113, 0, 0, 0, 3, 0, 0, 0, 0x23, 0x42, 0x6c, 0x6f, 0x62, 0, 0, 0,
    0, 0, 0, 0, 2, 0, 0, 1, 1, 0, 0, 0, 0, 0, 0, 0, 0, 0, 0, 0, 0, 0, 0, 0, 1, 0, 0, 0,
    0, 0, 1, 0, 0, 0, 0, 0, 0, 0,
    0, 0x61, 0x62, 0, 1, 7]

theorem overlappingHeaps_stay_inside :
    ∃ root metadata, Root.read overlappingHeaps = .ok root ∧
      load none overlappingHeaps = .ok metadata ∧
      Directory overlappingHeaps root.streams ∧ root.streams.length = 3 ∧
      Runs (metadata.guardedString 1) (.ok "ab") ∧
      Runs (metadata.guardedBlob 1) (.ok #[7]) ∧
      Runs (metadata.guardedBlob 7) (.error .outOfBounds) ∧
      ¬ ∃ heap, Runs metadata.guardedUserStrings (.ok (some heap)) := by
  have hroot : Root.read overlappingHeaps = .ok _ := rfl
  have hload : load none overlappingHeaps = .ok _ := rfl
  obtain ⟨hread, hstays⟩ := directory_and_access_stay_inside overlappingHeaps
  have hinside := hstays none _ hload
  refine ⟨_, _, hroot, hload, (hread _ hroot).1, rfl, hinside.string 1, hinside.blob 1,
    hinside.blob 7, ?_⟩
  rw [hinside.hasUserStrings]
  decide

end Metadata

end AssemblyGate
