import AssemblyGate.Proofs.ControlFlow
import AssemblyGate.Proofs.Pieces

/-!
# Tilings of code

The linear decoding succeeds exactly on code that is made of complete instructions, and gives
these instructions with the places where they start.  On all other code it stops where the
first complete instruction is missing, and tells whether there was no opcode or an
instruction that was cut off.
-/

namespace AssemblyGate.Code

variable {code : Bytes} {start offset : Nat}

/-! ## Instructions that are refused -/

def Refused (code : Bytes) (start : Nat) (kind : DefectKind) : Prop :=
  ∃ detail, instructionAt code start = .error (.located kind start detail)

theorem operandNumber_of_size_lt {width : Nat} (h : code.size < offset + width) :
    ∃ detail, operandNumber code start offset width =
      .error (.located .truncatedInstruction start detail) := by
  rw [operandNumber, Bytes.number, Bytes.slice, if_neg (by omega)]
  exact ⟨_, rfl⟩

theorem refused_of_opcodeAt {kind : DefectKind} {detail : String}
    (h : opcodeAt code start = .error (.located kind start detail)) : Refused code start kind :=
  ⟨detail, by rw [instructionAt, h]; rfl⟩

theorem refused_of_unassigned {bytes : List UInt8} (h : Unassigned bytes)
    (hhas : code.Has start bytes) : Refused code start .unknownOpcode := by
  cases h with
  | @short opcode _ hescape hnone =>
      have hbyte := Bytes.getElem?_eq_some_iff_has.mpr (Bytes.has_cons.mp hhas).1
      have hfirst := (@operandNumber_one_eq_ok_iff _ start _ _).mpr ⟨opcode, hbyte, rfl⟩
      refine @refused_of_opcodeAt _ _ _ ("opcode " ++ Text.hexMarked 2 opcode.toNat) ?_
      have hne : opcode.toNat ≠ Opcode.escape.toNat := fun h => hescape (UInt8.toNat_inj.mp h)
      rw [opcodeAt, hfirst]
      simp only [bind, Except.bind, if_neg hne, UInt8.ofNat_toNat, hnone]
      rfl
  | @escaped opcode _ hnone =>
      obtain ⟨hescape, hbehind⟩ := Bytes.has_cons.mp hhas
      have hbyte := Bytes.getElem?_eq_some_iff_has.mpr hescape
      have hbyte' := Bytes.getElem?_eq_some_iff_has.mpr (Bytes.has_cons.mp hbehind).1
      have hfirst := (@operandNumber_one_eq_ok_iff _ start _ _).mpr ⟨_, hbyte, rfl⟩
      have hsecond := (@operandNumber_one_eq_ok_iff _ start _ _).mpr ⟨opcode, hbyte', rfl⟩
      refine @refused_of_opcodeAt _ _ _ ("opcode 0xFE " ++ Text.hexMarked 2 opcode.toNat) ?_
      rw [opcodeAt, hfirst]
      simp only [bind, Except.bind, if_true, hsecond, UInt8.ofNat_toNat, hnone]
      rfl

theorem refused_of_operand {operand : Operand} {bytes rest more : List UInt8} {deltas : List Int}
    {token : Option (Token × TokenKind)} (hat : OpcodeAt code start operand offset)
    (hoperand : OperandBytes operand bytes deltas token) (hbytes : rest ++ more = bytes)
    (hmore : more ≠ []) (hrest : code.Has offset rest) (hend : offset + rest.length = code.size) :
    Refused code start .truncatedInstruction := by
  have hpos := List.length_pos_iff.mpr hmore
  have hlength : rest.length + more.length = bytes.length := by
    rw [← hbytes, List.length_append]
  rw [Refused, instructionAt, opcodeAt_eq_ok_iff.mpr hat]
  cases hoperand with
  | none => simp [hmore] at hbytes
  | bytes =>
      have hlong : offset + bytes.length > code.size := by omega
      exact ⟨_, if_pos hlong⟩
  | shortBranch =>
      obtain ⟨detail, hnumber⟩ := @operandNumber_of_size_lt code start offset 1
        (by simp only [List.length_singleton] at hlength; omega)
      exact ⟨detail, by simp only [bind, Except.bind, hnumber]⟩
  | branch hword =>
      obtain ⟨detail, hnumber⟩ := @operandNumber_of_size_lt code start offset 4 (by omega)
      exact ⟨detail, by simp only [bind, Except.bind, hnumber]⟩
  | token hword =>
      obtain ⟨detail, hnumber⟩ := @operandNumber_of_size_lt code start offset 4 (by omega)
      exact ⟨detail, by simp only [bind, Except.bind, hnumber]⟩
  | @switch count words hcountLength hcount hwords =>
      by_cases hshort : rest.length < 4
      · obtain ⟨detail, hnumber⟩ := @operandNumber_of_size_lt code start offset 4 (by omega)
        exact ⟨detail, by simp only [bind, Except.bind, hnumber]⟩
      · -- The number of words is all there, so it is the table that is cut off.
        obtain ⟨table, rfl⟩ : count <+: rest := by
          refine List.prefix_of_prefix_length_le ⟨words.flatten, rfl⟩ ⟨more, hbytes⟩ (by omega)
        have hnumber := (Bytes.has_append.mp hrest).1.number
        rw [hcountLength, hcount] at hnumber
        rw [List.length_append, List.length_append, hcountLength,
          Bytes.length_flatten hwords] at hlength
        rw [List.length_append, hcountLength] at hend
        have hlong : offset + 4 + 4 * words.length > code.size := by omega
        simp only [bind, Except.bind, operandNumber_eq_ok_iff.mpr hnumber, if_pos hlong]
        exact ⟨_, rfl⟩

theorem refused_of_incomplete {bytes : List UInt8} (h : Incomplete bytes)
    (hhas : code.Has start bytes) (hend : start + bytes.length = code.size) :
    Refused code start .truncatedInstruction := by
  obtain ⟨hbytes, more, deltas, token, hmore, hcomplete⟩ := h
  generalize hwhole : bytes ++ more = whole at hcomplete
  obtain @⟨opcode, operandBytes, _, _, _, hopcode, hoperand⟩ := hcomplete
  by_cases hlength : opcode.length ≤ bytes.length
  · obtain ⟨rest, rfl⟩ : opcode <+: bytes :=
      List.prefix_of_prefix_length_le ⟨operandBytes, rfl⟩ ⟨more, hwhole⟩ hlength
    rw [List.append_assoc] at hwhole
    rw [List.length_append, ← Nat.add_assoc] at hend
    obtain ⟨hfront, hrest⟩ := Bytes.has_append.mp hhas
    exact refused_of_operand (Piece.opcodeAt hopcode hfront) hoperand
      (List.append_cancel_left hwhole) hmore hrest hend
  · -- Only the first of two bytes of the opcode is there.
    have hpos := List.length_pos_iff.mpr hbytes
    cases hopcode with
    | short => exact absurd hpos (by simpa using hlength)
    | escaped =>
        obtain ⟨byte, rfl⟩ := List.length_eq_one_iff.mp
          (show bytes.length = 1 by simp only [List.length_cons, List.length_nil] at hlength; omega)
        obtain rfl : byte = Opcode.escape := (List.cons.inj hwhole).1
        have hbyte := Bytes.getElem?_eq_some_iff_has.mpr hhas
        have hfirst := (@operandNumber_one_eq_ok_iff _ start _ _).mpr ⟨_, hbyte, rfl⟩
        obtain ⟨detail, hsecond⟩ := @operandNumber_of_size_lt code start (start + 1) 1
          (by rw [← hend]; simp)
        refine @refused_of_opcodeAt _ _ _ detail ?_
        rw [opcodeAt, hfirst]
        simp only [bind, Except.bind, if_true, hsecond]

theorem refused_of_stuck {kind : DefectKind} {bytes : List UInt8} (h : Stuck kind bytes)
    (hhas : code.Has start bytes) (hend : start + bytes.length = code.size) :
    Refused code start kind := by
  cases h with
  | unassigned h => exact refused_of_unassigned h hhas
  | incomplete h => exact refused_of_incomplete h hhas hend

/-! ## The decoding of pieces -/

theorem instructionsFrom_of_has {pieces : List Piece} (h : code.Has offset (bytesOf pieces))
    (fuel : Nat) (found : List Instruction) :
    instructionsFrom code (fuel + pieces.length) offset found =
      instructionsFrom code fuel (offset + (bytesOf pieces).length)
        ((layOut offset pieces).reverse ++ found) := by
  induction pieces generalizing offset found with
  | nil => rfl
  | cons piece pieces ih =>
      obtain ⟨hpiece, hpieces⟩ := Bytes.has_append.mp h
      have hpos := piece.length_pos
      have hlt : offset < code.size := by
        have hle := hpiece.le_size
        omega
      have hat := instructionAt_eq_ok_iff.mpr (piece.written hpiece)
      rw [List.length_cons, ← Nat.add_assoc, instructionsFrom, if_pos hlt, hat]
      refine (ih hpieces _).trans ?_
      simp [layOut, placed, Nat.add_assoc]

variable {pieces : List Piece}

theorem has_bytesOf {rest : List UInt8} (h : code.toList = bytesOf pieces ++ rest) :
    code.Has 0 (bytesOf pieces) :=
  ⟨[], rest, h, rfl⟩

theorem exists_fuel_instructions {rest : List UInt8} (h : code.toList = bytesOf pieces ++ rest) :
    ∃ fuel, rest.length ≤ fuel ∧ Code.instructions code =
      instructionsFrom code fuel (bytesOf pieces).length (layOut 0 pieces).reverse := by
  -- No piece is empty, so the size of the code is fuel enough for all of them.
  have hle := length_le_length_bytesOf pieces
  have hsize : code.size = (bytesOf pieces).length + rest.length := by
    rw [← Array.length_toList, h, List.length_append]
  obtain ⟨fuel, hfuel⟩ := Nat.exists_eq_add_of_le' (show pieces.length ≤ code.size by omega)
  refine ⟨fuel, by omega, ?_⟩
  rw [Code.instructions, hfuel, instructionsFrom_of_has (has_bytesOf h), Nat.zero_add,
    List.append_nil]

theorem instructions_of_pieces (h : bytesOf pieces = code.toList) :
    Code.instructions code = .ok (layOut 0 pieces) := by
  obtain ⟨fuel, -, hinstructions⟩ :=
    @exists_fuel_instructions code pieces [] (by rw [h, List.append_nil])
  have hend : ¬ (bytesOf pieces).length < code.size := by
    rw [h, Array.length_toList]
    exact Nat.lt_irrefl _
  rw [hinstructions]
  cases fuel with
  | zero => rw [instructionsFrom, List.reverse_reverse]
  | succ fuel => rw [instructionsFrom, if_neg hend, List.reverse_reverse]

theorem Stuck.ne_nil {kind : DefectKind} {bytes : List UInt8} (h : Stuck kind bytes) :
    bytes ≠ [] := by
  cases h with
  | unassigned h => cases h <;> simp
  | incomplete h => exact h.1

theorem instructions_of_stuck {kind : DefectKind} {rest : List UInt8}
    (h : code.toList = bytesOf pieces ++ rest) (hstuck : Stuck kind rest) :
    ∃ detail, Code.instructions code = .error (.located kind (bytesOf pieces).length detail) := by
  obtain ⟨fuel, hfuel, hinstructions⟩ := exists_fuel_instructions h
  have hpos := List.length_pos_iff.mpr hstuck.ne_nil
  have hsize : (bytesOf pieces).length + rest.length = code.size := by
    rw [← Array.length_toList, h, List.length_append]
  have hhas : code.Has (bytesOf pieces).length rest := ⟨_, [], by rw [h, List.append_nil], rfl⟩
  obtain ⟨detail, hrefused⟩ := refused_of_stuck hstuck hhas hsize
  obtain ⟨fuel, rfl⟩ := Nat.exists_eq_add_of_le' (Nat.le_trans hpos hfuel)
  refine ⟨detail, ?_⟩
  rw [hinstructions, instructionsFrom, if_pos (by omega), hrefused]

/-! ## What the decoding lists -/

def jumps (instructions : List Instruction) : List (Nat × Int) :=
  instructions.flatMap fun instruction => instruction.targets.map (instruction.start, ·)

def tokens (instructions : List Instruction) : List (Nat × Token × TokenKind) :=
  instructions.filterMap fun instruction => instruction.token.map (instruction.start, ·)

theorem contains_boundaries_layOut_iff (h : bytesOf pieces = code.toList) {place : Nat} :
    (MethodBody.boundaries code (layOut 0 pieces)).contains place = true ↔
      (∃ front piece back, pieces = front ++ piece :: back ∧ place = (bytesOf front).length) ∨
        place = code.size := by
  rw [MethodBody.contains_boundaries_iff, Boundary, StartsAt, Int.natCast_inj]
  refine or_congr_left ⟨?_, ?_⟩
  · rintro ⟨instruction, hmem, hplace⟩
    obtain ⟨⟨start, piece⟩, hplaced, rfl⟩ := List.mem_map.mp hmem
    obtain ⟨front, back, rfl, rfl⟩ := mem_placed_iff.mp hplaced
    exact ⟨front, piece, back, rfl, (Int.natCast_inj.mp hplace).trans (Nat.zero_add _)⟩
  · rintro ⟨front, piece, back, rfl, rfl⟩
    have hplaced : ((bytesOf front).length, piece) ∈ placed 0 (front ++ piece :: back) :=
      mem_placed_iff.mpr ⟨front, back, rfl, (Nat.zero_add _).symm⟩
    exact ⟨piece.instruction _, List.mem_map.mpr ⟨_, hplaced, rfl⟩, rfl⟩

@[simp] theorem jumps_layOut (start : Nat) (pieces : List Piece) :
    jumps (layOut start pieces) = (placed start pieces).flatMap fun (start, piece) =>
      piece.deltas.map fun delta : Int => (start, (start + piece.bytes.length : Nat) + delta) := by
  simp only [jumps, layOut, List.flatMap_map, Piece.instruction, List.map_map, Function.comp_def]

@[simp] theorem tokens_layOut (start : Nat) (pieces : List Piece) :
    tokens (layOut start pieces) = (placed start pieces).filterMap fun (start, piece) =>
      piece.token.map (start, ·) := by
  simp only [tokens, layOut, List.filterMap_map, Piece.instruction, Function.comp_def]

/--
The decoding succeeds exactly on code that is made of complete instructions.  Then it is so in one
way only, the boundaries are their starts and the end of the code, every distance of a jump is
counted from the end of its instruction, and every token is listed with the start of its own.
All other code is refused at the end of the complete instructions it begins with, since the
opcode there is not assigned or the instruction is cut off.
-/
theorem instructions_tilings (code : Bytes) :
    (∀ instructions, Code.instructions code = .ok instructions ↔
      ∃ pieces, bytesOf pieces = code.toList ∧ instructions = layOut 0 pieces) ∧
    (∀ pieces, bytesOf pieces = code.toList →
      (∀ others, bytesOf others = code.toList → others = pieces) ∧
      (∀ place, (MethodBody.boundaries code (layOut 0 pieces)).contains place = true ↔
        (∃ front piece back, pieces = front ++ piece :: back ∧ place = (bytesOf front).length) ∨
          place = code.size) ∧
      (jumps (layOut 0 pieces) = (placed 0 pieces).flatMap fun (start, piece) =>
        piece.deltas.map fun delta : Int => (start, (start + piece.bytes.length : Nat) + delta)) ∧
      (tokens (layOut 0 pieces) = (placed 0 pieces).filterMap fun (start, piece) =>
        piece.token.map (start, ·))) ∧
    (∀ defect, Code.instructions code = .error defect →
      ∃ pieces rest, code.toList = bytesOf pieces ++ rest ∧
        defect.offset = some (bytesOf pieces).length ∧ Stuck defect.kind rest) ∧
    (∀ pieces rest kind, code.toList = bytesOf pieces ++ rest → Stuck kind rest →
      ∃ detail, Code.instructions code = .error (.located kind (bytesOf pieces).length detail)) := by
  obtain ⟨pieces, rest, hpieces, hrest⟩ := exists_pieces code.toList
  refine ⟨fun instructions => ⟨?_, ?_⟩, ?_, ?_, ?_⟩
  · intro h
    rcases hrest with rfl | ⟨kind, hstuck⟩
    · rw [List.append_nil] at hpieces
      cases h.symm.trans (instructions_of_pieces hpieces.symm)
      exact ⟨pieces, hpieces.symm, rfl⟩
    · obtain ⟨detail, hrefused⟩ := instructions_of_stuck hpieces hstuck
      cases h.symm.trans hrefused
  · rintro ⟨pieces, hpieces, rfl⟩
    exact instructions_of_pieces hpieces
  · intro pieces hpieces
    exact ⟨fun others hothers => bytesOf_injective (hothers.trans hpieces.symm),
      fun place => contains_boundaries_layOut_iff hpieces, jumps_layOut 0 pieces,
      tokens_layOut 0 pieces⟩
  · intro defect h
    rcases hrest with rfl | ⟨kind, hstuck⟩
    · rw [List.append_nil] at hpieces
      cases h.symm.trans (instructions_of_pieces hpieces.symm)
    · obtain ⟨detail, hrefused⟩ := instructions_of_stuck hpieces hstuck
      cases h.symm.trans hrefused
      exact ⟨pieces, rest, hpieces, rfl, hstuck⟩
  · intro pieces rest kind hpieces hstuck
    exact instructions_of_stuck hpieces hstuck

example : ∃ pieces,
    bytesOf pieces = [0x45, 1, 0, 0, 0, 0xfb, 0xff, 0xff, 0xff, 0xfe, 0x16, 2, 0, 0, 0x1b] ∧
      jumps (layOut 0 pieces) = [(0, 4)] ∧
      tokens (layOut 0 pieces) = [(9, Token.ofNat 0x1b000002, .type)] :=
  ⟨[⟨_, _, _, .mk (.short rfl) (@OperandBytes.switch [1, 0, 0, 0] [[0xfb, 0xff, 0xff, 0xff]]
      rfl rfl (by simp))⟩,
    ⟨_, _, _, .mk (.escaped rfl) (@OperandBytes.token [2, 0, 0, 0x1b] _ rfl)⟩],
    rfl, by decide, by decide⟩

end AssemblyGate.Code
