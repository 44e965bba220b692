import AssemblyGate.Image.Basic

/-!
# Addresses and the data of their sections

An address is mapped through the first section that spans it.  A section can span more
than it has data for in the file; a loader fills the rest with zeros.  The offset of an
address is one of the data of its section exactly as long as the address is not in that
rest, and then what is read there is what a loader puts at the address.  In the rest the
offset runs on into whatever the file has behind the data of the section.
-/

namespace AssemblyGate

namespace Section

def spans (s : Section) (address : Nat) : Bool :=
  s.address ≤ address && address < s.address + s.size

def HasData (s : Section) (offset : Nat) : Prop :=
  s.rawOffset ≤ offset ∧ offset < s.rawOffset + s.rawSize

instance (s : Section) (offset : Nat) : Decidable (s.HasData offset) :=
  inferInstanceAs (Decidable (_ ∧ _))

def Fits (s : Section) : Prop := s.address + s.size < wordLimit

@[simp] theorem spans_iff {s : Section} {address : Nat} :
    s.spans address = true ↔ s.address ≤ address ∧ address < s.address + s.size := by
  simp [spans]

theorem hasData_iff {s : Section} {address : Nat} (h : s.spans address = true) :
    s.HasData (s.rawOffset + (address - s.address)) ↔ address < s.address + s.rawSize := by
  obtain ⟨hle, -⟩ := spans_iff.mp h
  simp only [HasData]
  omega

example : (Section.mk 0x2000 8 2 4).HasData 5 ∧ ¬ (Section.mk 0x2000 8 2 4).HasData 6 := by decide

end Section

namespace Image

variable {image : Image} {address offset : Nat}

def sectionAt? (image : Image) (address : Nat) : Option Section :=
  image.sections.find? (·.spans address)

/-- What a loader puts at an address: a byte of its section, or zero behind the data of it. -/
def loadedByte? (image : Image) (address : Nat) : Option UInt8 :=
  (image.sectionAt? address).bind fun s =>
    if address < s.address + s.rawSize then image.data[s.rawOffset + (address - s.address)]?
    else some 0

@[simp] theorem offsetIn_cons_of_not_fits {s : Section} {sections : List Section} (h : ¬ s.Fits) :
    offsetIn address (s :: sections) = .error (.malformed (.sectionOverflow s.address s.size)) := by
  rw [offsetIn, if_pos (Nat.le_of_not_lt h)]

@[simp] theorem offsetIn_cons_of_spans {s : Section} {sections : List Section} (hfits : s.Fits)
    (h : s.spans address = true) :
    offsetIn address (s :: sections) = .ok (address - s.address + s.rawOffset) := by
  rw [offsetIn, if_neg (Nat.not_le_of_lt hfits), if_pos (Section.spans_iff.mp h)]

@[simp] theorem offsetIn_cons_of_not_spans {s : Section} {sections : List Section} (hfits : s.Fits)
    (h : s.spans address = false) :
    offsetIn address (s :: sections) = offsetIn address sections := by
  have hnot : ¬ (s.address ≤ address ∧ address < s.address + s.size) := by
    rw [← Section.spans_iff, h]
    decide
  rw [offsetIn, if_neg (Nat.not_le_of_lt hfits), if_neg hnot]

theorem offsetIn_eq_ok_iff {sections : List Section} :
    offsetIn address sections = .ok offset ↔
      ∃ before s after, sections = before ++ s :: after ∧
        (∀ other ∈ before, other.Fits ∧ other.spans address = false) ∧
        s.Fits ∧ s.spans address = true ∧ offset = s.rawOffset + (address - s.address) := by
  constructor
  · intro h
    induction sections with
    | nil => cases h
    | cons s sections ih =>
        by_cases hfits : s.Fits
        · cases hspans : s.spans address with
          | true =>
              rw [offsetIn_cons_of_spans hfits hspans] at h
              cases h
              exact ⟨[], s, sections, rfl, by simp, hfits, hspans, Nat.add_comm _ _⟩
          | false =>
              rw [offsetIn_cons_of_not_spans hfits hspans] at h
              obtain ⟨before, found, after, rfl, hbefore, hfound⟩ := ih h
              refine ⟨s :: before, found, after, rfl, ?_, hfound⟩
              exact List.forall_mem_cons.mpr ⟨⟨hfits, hspans⟩, hbefore⟩
        · rw [offsetIn_cons_of_not_fits hfits] at h
          cases h
  · rintro ⟨before, s, after, rfl, hbefore, hfits, hspans, rfl⟩
    induction before with
    | nil => rw [List.nil_append, offsetIn_cons_of_spans hfits hspans, Nat.add_comm]
    | cons other before ih =>
        rw [List.forall_mem_cons] at hbefore
        obtain ⟨⟨hother, hskip⟩, hbefore⟩ := hbefore
        rw [List.cons_append, offsetIn_cons_of_not_spans hother hskip, ih hbefore]

theorem sectionAt?_of_offsetOf (h : image.offsetOf address = .ok offset) :
    ∃ s, image.sectionAt? address = some s ∧ s.spans address = true ∧
      offset = s.rawOffset + (address - s.address) := by
  obtain ⟨before, s, after, hsections, hbefore, -, hspans, hoffset⟩ := offsetIn_eq_ok_iff.mp h
  refine ⟨s, ?_, hspans, hoffset⟩
  rw [sectionAt?, List.find?_eq_some_iff_append]
  refine ⟨hspans, before, after, hsections, ?_⟩
  intro other hother
  simp [(hbefore other hother).2]

/--
An address that is mapped lies in the first section that spans it.  Its offset is one of the
data of that section if and only if the address is in front of the end of these data.  From
there on, as long as the section stays the same, a loader puts the bytes that are read up to
the end of the data, and zeros behind it.
-/
theorem offsetOf_hasData_iff (h : image.offsetOf address = .ok offset) :
    ∃ s, image.sectionAt? address = some s ∧ offset = s.rawOffset + (address - s.address) ∧
      (s.HasData offset ↔ address < s.address + s.rawSize) ∧
      ∀ distance, image.sectionAt? (address + distance) = some s →
        image.loadedByte? (address + distance) =
          if address + distance < s.address + s.rawSize then image.data[offset + distance]?
          else some 0 := by
  obtain ⟨s, hsection, hspans, rfl⟩ := sectionAt?_of_offsetOf h
  refine ⟨s, hsection, rfl, Section.hasData_iff hspans, ?_⟩
  intro distance hdistance
  obtain ⟨hle, -⟩ := Section.spans_iff.mp hspans
  have hoffset : s.rawOffset + (address + distance - s.address) =
      s.rawOffset + (address - s.address) + distance := by
    omega
  simp only [loadedByte?, hdistance, Option.bind_some, hoffset]

/-- A section that spans eight addresses and has four bytes in the file. -/
def halfFilled : Image where
  data := #[0x4d, 0x5a, 1, 2, 3, 4, 9, 9]
  sections := [⟨0x2000, 8, 2, 4⟩]
  runtimeDirectory := (0x2000, 72)

theorem halfFilled_offset :
    halfFilled.offsetOf 0x2005 = .ok 7 ∧ halfFilled.data[7]? = some 9 ∧
      ∃ s, halfFilled.sectionAt? 0x2005 = some s ∧ ¬ s.HasData 7 ∧
        halfFilled.loadedByte? 0x2005 = some 0 := by
  have hoffset : halfFilled.offsetOf 0x2005 = .ok 7 := rfl
  obtain ⟨s, hsection, -, hdata, hbyte⟩ := offsetOf_hasData_iff hoffset
  have hs : s = ⟨0x2000, 8, 2, 4⟩ := (Option.some.inj hsection).symm
  refine ⟨hoffset, rfl, s, hsection, ?_, ?_⟩
  · rw [hdata, hs]
    decide
  · rw [hbyte 0 hsection, hs]
    rfl

end Image

end AssemblyGate
