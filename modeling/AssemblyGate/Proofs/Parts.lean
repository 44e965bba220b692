import AssemblyGate.Bytes
import Mathlib.Data.List.Forall2

/-!
# Parts of some bytes

`Bytes.Has` says that some bytes stand at an offset of others.  A part that is made of two parts
stands where the first one does and has the second one behind it, so what is read
from bytes that were put together is found part by part.
-/

namespace AssemblyGate.Bytes

variable {data : Bytes} {offset width : Nat} {part other : List UInt8}

def Has (data : Bytes) (offset : Nat) (part : List UInt8) : Prop :=
  ∃ front back, data.toList = front ++ (part ++ back) ∧ front.length = offset

@[simp] theorem has_append :
    data.Has offset (part ++ other) ↔
      data.Has offset part ∧ data.Has (offset + part.length) other := by
  constructor
  · rintro ⟨front, back, h, rfl⟩
    refine ⟨⟨front, other ++ back, ?_, rfl⟩, ⟨front ++ part, back, ?_, ?_⟩⟩
    · rw [h, List.append_assoc]
    · rw [h, List.append_assoc, List.append_assoc]
    · rw [List.length_append]
  · rintro ⟨⟨front, back, h, rfl⟩, ⟨front', back', h', hlength⟩⟩
    rw [h, ← List.append_assoc] at h'
    obtain ⟨-, rfl⟩ := List.append_inj h' (by rw [List.length_append, hlength])
    exact ⟨front, back', by rw [h, List.append_assoc], rfl⟩

theorem has_cons {byte : UInt8} :
    data.Has offset (byte :: part) ↔ data.Has offset [byte] ∧ data.Has (offset + 1) part :=
  @has_append data offset [byte] part

theorem Has.le_size (h : data.Has offset part) : offset + part.length ≤ data.size := by
  obtain ⟨front, back, h, rfl⟩ := h
  rw [← Array.length_toList, h, List.length_append, List.length_append]
  omega

theorem length_flatten {parts : List (List UInt8)} (hsize : ∀ part ∈ parts, part.length = width) :
    parts.flatten.length = width * parts.length := by
  induction parts with
  | nil => rfl
  | cons part parts ih =>
      obtain ⟨hwidth, hwidths⟩ := List.forall_mem_cons.mp hsize
      rw [List.flatten_cons, List.length_append, hwidth, ih hwidths, List.length_cons,
        Nat.mul_succ, Nat.add_comm]

theorem Has.getElem_flatten {parts : List (List UInt8)} (h : data.Has offset parts.flatten)
    (hsize : ∀ part ∈ parts, part.length = width) {position : Nat}
    (hposition : position < parts.length) :
    data.Has (offset + width * position) parts[position] := by
  induction parts generalizing offset position with
  | nil => exact absurd hposition (Nat.not_lt_zero _)
  | cons part parts ih =>
      obtain ⟨hpart, hparts⟩ := has_append.mp h
      obtain ⟨hwidth, hwidths⟩ := List.forall_mem_cons.mp hsize
      cases position with
      | zero => exact hpart
      | succ position =>
          have hnext := ih (hwidth ▸ hparts) hwidths (Nat.lt_of_succ_lt_succ hposition)
          rwa [Nat.add_assoc, Nat.add_comm width, ← Nat.mul_succ] at hnext

theorem Has.slice (h : data.Has offset part) : data.slice offset part.length = .ok part.toArray := by
  rw [Bytes.slice, if_pos h.le_size]
  obtain ⟨front, back, h, rfl⟩ := h
  congr 1
  apply Array.toList_inj.mp
  rw [Array.toList_extract, List.extract_eq_take_drop, h, List.drop_left,
    Nat.add_sub_cancel_left, List.take_left]

theorem has_of_le_size (h : offset + width ≤ data.size) :
    data.Has offset ((data.toList.drop offset).take width) := by
  refine ⟨data.toList.take offset, (data.toList.drop offset).drop width, ?_, ?_⟩
  · rw [List.take_append_drop, List.take_append_drop]
  · rw [List.length_take, Array.length_toList]
    omega

theorem Has.number (h : data.Has offset part) :
    data.number offset part.length = .ok (littleEndian part) := by
  rw [Bytes.number, h.slice]
  rfl

theorem le_size_of_number {value : Nat} (h : data.number offset width = .ok value) :
    offset + width ≤ data.size := by
  by_cases hle : offset + width ≤ data.size
  · exact hle
  · simp [number, slice, hle, Except.map] at h

theorem number_eq_ok_iff {value : Nat} :
    data.number offset width = .ok value ↔
      ∃ part, data.Has offset part ∧ part.length = width ∧ littleEndian part = value := by
  constructor
  · intro h
    have hle := le_size_of_number h
    have hlength : ((data.toList.drop offset).take width).length = width := by
      rw [List.length_take, List.length_drop, Array.length_toList]
      omega
    have hhas := has_of_le_size hle
    have hnumber := hhas.number
    rw [hlength, h] at hnumber
    exact ⟨_, hhas, hlength, (Except.ok.inj hnumber).symm⟩
  · rintro ⟨part, hhas, rfl, rfl⟩
    exact hhas.number

theorem getElem?_eq_some_iff_has {byte : UInt8} :
    data[offset]? = some byte ↔ data.Has offset [byte] := by
  constructor
  · intro h
    obtain ⟨hlt, hbyte⟩ := Array.getElem?_eq_some_iff.mp h
    have hhas := @has_of_le_size data offset 1 hlt
    rwa [List.drop_eq_getElem_cons (by simpa using hlt), List.take_succ_cons, List.take_zero,
      Array.getElem_toList, hbyte] at hhas
  · rintro ⟨front, back, h, rfl⟩
    rw [← Array.getElem?_toList, h, List.getElem?_append_right (Nat.le_refl _), Nat.sub_self]
    rfl

@[simp] theorem number_one_eq_ok_iff {value : Nat} :
    data.number offset 1 = .ok value ↔ ∃ byte, data[offset]? = some byte ∧ byte.toNat = value := by
  simp only [number_eq_ok_iff, getElem?_eq_some_iff_has, List.length_eq_one_iff]
  constructor
  · rintro ⟨_, hhas, ⟨byte, rfl⟩, rfl⟩
    exact ⟨byte, hhas, by simp [littleEndian]⟩
  · rintro ⟨byte, hhas, rfl⟩
    exact ⟨[byte], hhas, ⟨byte, rfl⟩, by simp [littleEndian]⟩

/-! ## The bytes of a number -/

theorem littleEndian_lt (bytes : List UInt8) : littleEndian bytes < Nat.pow 256 bytes.length := by
  induction bytes with
  | nil => simp [littleEndian]
  | cons byte rest ih =>
      have hbyte := byte.toNat_lt
      have hpow : Nat.pow 256 (byte :: rest).length = Nat.pow 256 rest.length * 256 := rfl
      rw [littleEndian, hpow]
      omega

def ofNumber : (width value : Nat) → List UInt8
  | 0, _ => []
  | width + 1, value => UInt8.ofNat value :: ofNumber width (value / 256)

@[simp] theorem length_ofNumber (width value : Nat) : (ofNumber width value).length = width := by
  induction width generalizing value with
  | zero => rfl
  | succ width ih => rw [ofNumber, List.length_cons, ih]

@[simp] theorem littleEndian_ofNumber {value : Nat} (h : value < Nat.pow 256 width) :
    littleEndian (ofNumber width value) = value := by
  induction width generalizing value with
  | zero => exact (Nat.lt_one_iff.mp h).symm
  | succ width ih =>
      have hlow : (UInt8.ofNat value).toNat = value % 256 := rfl
      have hhigh : value / 256 < Nat.pow 256 width :=
        Nat.div_lt_of_lt_mul (by rwa [Nat.mul_comm])
      rw [ofNumber, littleEndian, ih hhigh, hlow, Nat.mod_add_div]

theorem Has.number_ofNumber {value : Nat} (h : data.Has offset (ofNumber width value))
    (hlt : value < Nat.pow 256 width) : data.number offset width = .ok value := by
  have hnumber := h.number
  rwa [length_ofNumber, littleEndian_ofNumber hlt] at hnumber

/-- The number that some bytes stand for in two's complement, from the lowest byte to the highest. -/
def twosComplement (bytes : List UInt8) : Int :=
  if 2 * littleEndian bytes < Nat.pow 256 bytes.length then littleEndian bytes
  else littleEndian bytes - (Nat.pow 256 bytes.length : Nat)

theorem twosComplement_eq_bmod {bytes : List UInt8} (h : bytes ≠ []) :
    twosComplement bytes = Int.bmod (littleEndian bytes) (Nat.pow 256 bytes.length) := by
  have hlt := littleEndian_lt bytes
  obtain ⟨byte, bytes, rfl⟩ := List.exists_cons_of_ne_nil h
  have heven : Nat.pow 256 (byte :: bytes).length = 2 * (128 * Nat.pow 256 bytes.length) := by
    rw [← Nat.mul_assoc, Nat.mul_comm]
    rfl
  rw [twosComplement, Int.bmod, Int.emod_eq_of_lt (by omega) (by omega), heven]
  split <;> split <;> omega

def ofNumbers (widths values : List Nat) : List UInt8 :=
  (List.zipWith ofNumber widths values).flatten

theorem Has.number_ofNumbers {widths values : List Nat}
    (h : data.Has offset (ofNumbers widths values))
    (hfits : List.Forall₂ (fun width value => value < Nat.pow 256 width) widths values)
    (position : Nat) {value : Nat} (hwidth : widths[position]? = some width)
    (hvalue : values[position]? = some value) :
    data.number (offset + total (widths.take position)) width = .ok value := by
  induction hfits generalizing offset position with
  | nil => cases hwidth
  | cons hlt _ ih =>
      obtain ⟨hfirst, hothers⟩ := has_append.mp h
      cases position with
      | zero =>
          cases hwidth
          cases hvalue
          exact hfirst.number_ofNumber hlt
      | succ position =>
          rw [length_ofNumber] at hothers
          have hnumber := ih hothers position hwidth hvalue
          rwa [Nat.add_assoc] at hnumber

end AssemblyGate.Bytes
