import AssemblyGate.Metadata.Heap
import AssemblyGate.Proofs.Compressed
import AssemblyGate.Proofs.Parts

/-!
# Compressed numbers and the blobs behind them

The first byte of a compressed number announces how many bytes it takes.  Reading fails only
if it announces nothing or if fewer bytes are there, and what is read has at most 29 bits.
A blob heap holds blobs one behind the other, each behind its length; every one of them is
found where it starts, whatever stands in front of it and behind it.
-/

namespace AssemblyGate

/-! ## Compressed numbers -/

def compressedWidth (value : Nat) : Nat :=
  if value < 0x80 then 1 else if value < 0x4000 then 2 else 4

@[simp] theorem length_encodeCompressed (value : Nat) :
    (encodeCompressed value).length = compressedWidth value := by
  unfold encodeCompressed compressedWidth
  split
  · rfl
  · split <;> rfl

theorem compressedWidth_le (value : Nat) : compressedWidth value ≤ 4 := by
  unfold compressedWidth
  split
  · decide
  · split <;> decide

def announcedWidth? (lead : UInt8) : Option Nat :=
  if lead < 0x80 then some 1
  else if lead < 0xc0 then some 2
  else if lead < 0xe0 then some 4
  else none

@[simp] theorem announcedWidth?_eq_none_iff {lead : UInt8} :
    announcedWidth? lead = none ↔ 0xe0 ≤ lead := by
  unfold announcedWidth?
  split_ifs with hone htwo hfour <;>
    simp_all only [UInt8.lt_iff_toNat_lt, UInt8.le_iff_toNat_le, UInt8.reduceToNat, false_iff,
      true_iff] <;> omega

inductive CutShort : List UInt8 → Prop
  | empty : CutShort []
  | behindLead {lead : UInt8} {rest : List UInt8} {width : Nat}
      (hwidth : announcedWidth? lead = some width) (hshort : (lead :: rest).length < width) :
      CutShort (lead :: rest)

inductive NumberRead : List UInt8 → Except Error Nat × List UInt8 → Prop
  | cutShort {bytes : List UInt8} (hshort : CutShort bytes) :
      NumberRead bytes (.error .outOfBounds, [])
  | unannounced {lead : UInt8} {rest : List UInt8} (hnone : announcedWidth? lead = none) :
      NumberRead (lead :: rest) (.error (.malformed (.compressedInteger lead)), rest)
  | complete {lead : UInt8} {rest rest' : List UInt8} {width value : Nat}
      (hwidth : announcedWidth? lead = some width) (hle : width ≤ (lead :: rest).length)
      (hrest : (lead :: rest).drop width = rest') :
      NumberRead (lead :: rest) (.ok value, rest')

theorem numberRead (bytes : List UInt8) : NumberRead bytes (compressedNumber bytes) := by
  unfold compressedNumber
  split
  · exact .cutShort .empty
  next lead rest =>
  split
  · next hone => exact .complete (if_pos hone) (by simp) rfl
  next hone =>
  split
  · next htwo =>
      have hwidth : announcedWidth? lead = some 2 := by
        rw [announcedWidth?, if_neg hone, if_pos htwo]
      split
      · exact .complete hwidth (by simp) rfl
      · exact .cutShort (.behindLead hwidth (by simp))
  next htwo =>
  split
  · next hfour =>
      have hwidth : announcedWidth? lead = some 4 := by
        rw [announcedWidth?, if_neg hone, if_neg htwo, if_pos hfour]
      split
      · exact .complete hwidth (by simp) rfl
      · next hfew =>
          refine .cutShort (.behindLead hwidth ?_)
          match rest, hfew with
          | [], _ | [_], _ | [_, _], _ => simp
          | high :: mid :: low :: rest, hfew => exact absurd rfl (hfew high mid low rest)
  · next hfour =>
      exact .unannounced (by rw [announcedWidth?, if_neg hone, if_neg htwo, if_neg hfour])

theorem NumberRead.malformed_iff {bytes rest : List UInt8} {result : Except Error Nat}
    (h : NumberRead bytes (result, rest)) :
    (∃ cause, result = .error (.malformed cause)) ↔ ∃ lead ∈ bytes.head?, 0xe0 ≤ lead := by
  cases h with
  | cutShort hshort =>
      cases hshort with
      | empty => simp
      | behindLead hwidth => simp [← announcedWidth?_eq_none_iff, hwidth]
  | unannounced hnone => simp [← announcedWidth?_eq_none_iff, hnone]
  | complete hwidth => simp [← announcedWidth?_eq_none_iff, hwidth]

theorem NumberRead.outOfBounds_iff {bytes rest : List UInt8} {result : Except Error Nat}
    (h : NumberRead bytes (result, rest)) : result = .error .outOfBounds ↔ CutShort bytes := by
  cases h with
  | cutShort hshort => exact iff_of_true rfl hshort
  | unannounced hnone =>
      refine iff_of_false nofun fun hshort => ?_
      cases hshort with
      | behindLead hwidth => cases hnone.symm.trans hwidth
  | complete hwidth hle =>
      refine iff_of_false nofun fun hshort => ?_
      cases hshort with
      | behindLead hwidth' hshort =>
          cases hwidth.symm.trans hwidth'
          exact Nat.not_le.mpr hshort hle

/-! ## Blobs -/

namespace Heap

def entry (blob : List UInt8) : List UInt8 := encodeCompressed blob.length ++ blob

def ofBlobs (blobs : List (List UInt8)) (rest : List UInt8) : Bytes :=
  (0 :: blobs.flatMap entry ++ rest).toArray

def start (blobs : List (List UInt8)) (position : Nat) : Nat :=
  1 + total ((blobs.take position).map fun blob => compressedWidth blob.length + blob.length)

@[simp] theorem length_entry (blob : List UInt8) :
    (entry blob).length = compressedWidth blob.length + blob.length := by
  rw [entry, List.length_append, length_encodeCompressed]

theorem start_eq_length (blobs : List (List UInt8)) (position : Nat) :
    start blobs position = (0 :: (blobs.take position).flatMap entry).length := by
  rw [start, List.length_cons, Nat.add_comm]
  generalize blobs.take position = before
  congr 1
  induction before with
  | nil => rfl
  | cons blob before ih =>
      rw [List.map_cons, total_cons, List.flatMap_cons, List.length_append, length_entry, ih]

theorem has_ofBlobs {blobs : List (List UInt8)} {position : Nat} (h : position < blobs.length)
    (rest : List UInt8) :
    (ofBlobs blobs rest).Has (start blobs position) (entry blobs[position]) := by
  refine ⟨0 :: (blobs.take position).flatMap entry,
    (blobs.drop (position + 1)).flatMap entry ++ rest, ?_, (start_eq_length blobs position).symm⟩
  have hsplit : blobs = blobs.take position ++ blobs[position] :: blobs.drop (position + 1) := by
    rw [← List.drop_eq_getElem_cons h, List.take_append_drop]
  have hentries : blobs.flatMap entry = (blobs.take position).flatMap entry ++
      (entry blobs[position] ++ (blobs.drop (position + 1)).flatMap entry) := by
    conv_lhs => rw [hsplit, List.flatMap_append, List.flatMap_cons]
  rw [ofBlobs, hentries]
  simp only [List.cons_append, List.append_assoc]

theorem lead_of_has {heap : Bytes} {index : Nat} {bytes : List UInt8}
    (hhas : heap.Has index (entry bytes)) :
    ∃ behind, (heap.extract index (index + 4)).toList = encodeCompressed bytes.length ++ behind := by
  obtain ⟨front, back, h, rfl⟩ := hhas
  have hwidth : (encodeCompressed bytes.length).length ≤ 4 := by
    rw [length_encodeCompressed]
    exact compressedWidth_le bytes.length
  refine ⟨(bytes ++ back).take (4 - (encodeCompressed bytes.length).length), ?_⟩
  rw [Array.toList_extract, List.extract_eq_take_drop, h, List.drop_left, Nat.add_sub_cancel_left,
    entry, List.append_assoc, List.take_append, List.take_of_length_le hwidth]

theorem blob_of_has {heap : Bytes} {index : Nat} {bytes : List UInt8}
    (hhas : heap.Has index (entry bytes)) (hlt : bytes.length < compressedLimit) :
    blob heap index = .ok bytes.toArray := by
  have hsize : index < heap.size := by
    have hle := hhas.le_size
    have hpos : 0 < compressedWidth bytes.length := by
      unfold compressedWidth
      split_ifs <;> decide
    rw [length_entry] at hle
    omega
  obtain ⟨behind, hlead⟩ := lead_of_has hhas
  have hslice := (Bytes.has_append.mp hhas).2.slice
  rw [blob, if_neg (Nat.not_le.mpr hsize)]
  simp only [hlead, compressedNumber_encodeCompressed hlt, List.length_append, Nat.add_sub_cancel,
    hslice]

end Heap

/--
Numbers below 2²⁹ are read back from their encoding with nothing behind it touched, and no
others are ever read.  Reading fails on a first byte that no number starts with and where bytes
are missing, and nowhere else.  So every blob of a heap is found where it starts.
-/
theorem numbers_and_blobs_decode :
    (∀ value < compressedLimit, ∀ rest,
      compressedNumber (encodeCompressed value ++ rest) = (.ok value, rest) ∧
        (encodeCompressed value).length = compressedWidth value) ∧
    (∀ bytes value, (compressedNumber bytes).1 = .ok value → value < compressedLimit) ∧
    (∀ bytes, (∃ cause, (compressedNumber bytes).1 = .error (.malformed cause)) ↔
      ∃ lead ∈ bytes.head?, 0xe0 ≤ lead) ∧
    (∀ bytes, (compressedNumber bytes).1 = .error .outOfBounds ↔ CutShort bytes) ∧
    ∀ (blobs : List (List UInt8)) (rest : List UInt8),
      (∀ blob ∈ blobs, blob.length < compressedLimit) →
      ∀ (position : Nat) (h : position < blobs.length),
        Heap.blob (Heap.ofBlobs blobs rest) (Heap.start blobs position) =
          .ok blobs[position].toArray := by
  refine ⟨?_, ?_, ?_, ?_, ?_⟩
  · intro value hvalue rest
    exact ⟨compressedNumber_encodeCompressed hvalue rest, length_encodeCompressed value⟩
  · intro bytes value h
    exact compressedNumber_lt (Prod.ext h rfl)
  · exact fun bytes => (numberRead bytes).malformed_iff
  · exact fun bytes => (numberRead bytes).outOfBounds_iff
  · intro blobs rest hblobs position h
    exact Heap.blob_of_has (Heap.has_ofBlobs h rest) (hblobs _ (List.getElem_mem h))

/-- Short blobs around one whose length takes two bytes. -/
def unevenBlobs : List (List UInt8) := [[6, 8], List.replicate 0x80 10, [7]]

theorem blob_unevenBlobs :
    (∀ blob ∈ unevenBlobs, blob.length < compressedLimit) ∧ Heap.start unevenBlobs 2 = 134 ∧
      Heap.blob (Heap.ofBlobs unevenBlobs [0xff]) 134 = .ok #[7] := by
  have hblobs : ∀ blob ∈ unevenBlobs, blob.length < compressedLimit := by decide +kernel
  have hstart : Heap.start unevenBlobs 2 = 134 := by decide +kernel
  obtain ⟨-, -, -, -, hget⟩ := numbers_and_blobs_decode
  have hblob := hget unevenBlobs [0xff] hblobs 2 (by decide)
  rw [hstart] at hblob
  exact ⟨hblobs, hstart, hblob⟩

end AssemblyGate
