import AssemblyGate.Proofs.Instructions

/-!
# Complete instructions as bytes

A complete instruction is an assigned opcode and its full operand, as bytes and apart from any
place.  No complete instruction is the beginning of another one, so bytes are made of them in
at most one way.  All bytes are complete instructions, one behind the other, up to their end
or to a first place where there is no opcode or an instruction that was cut off.
-/

namespace AssemblyGate.Code

/-! ## Complete instructions -/

inductive OpcodeBytes : List UInt8 → Operand → Prop
  | short {opcode : UInt8} {operand : Operand} (h : Opcode.operand? opcode = some operand) :
      OpcodeBytes [opcode] operand
  | escaped {opcode : UInt8} {operand : Operand}
      (h : Opcode.escapedOperand? opcode = some operand) :
      OpcodeBytes [Opcode.escape, opcode] operand

inductive OperandBytes : Operand → List UInt8 → List Int → Option (Token × TokenKind) → Prop
  | none : OperandBytes .none [] [] none
  | bytes {bytes : List UInt8} : OperandBytes (.bytes bytes.length) bytes [] none
  | shortBranch {byte : UInt8} :
      OperandBytes .shortBranch [byte] [Bytes.twosComplement [byte]] none
  | branch {word : List UInt8} (hword : word.length = 4) :
      OperandBytes .branch word [Bytes.twosComplement word] none
  | switch {count : List UInt8} {words : List (List UInt8)} (hlength : count.length = 4)
      (hcount : Bytes.littleEndian count = words.length) (hwords : ∀ word ∈ words, word.length = 4) :
      OperandBytes .switch (count ++ words.flatten) (words.map Bytes.twosComplement) none
  | token {word : List UInt8} {kind : TokenKind} (hword : word.length = 4) :
      OperandBytes (.token kind) word [] (some (Token.ofNat (Bytes.littleEndian word), kind))

/-- The bytes of a complete instruction, and the distances and the token of its operand. -/
inductive Complete : List UInt8 → List Int → Option (Token × TokenKind) → Prop
  | mk {opcode bytes : List UInt8} {operand : Operand} {deltas : List Int}
      {token : Option (Token × TokenKind)} (hopcode : OpcodeBytes opcode operand)
      (hoperand : OperandBytes operand bytes deltas token) :
      Complete (opcode ++ bytes) deltas token

@[ext] structure Piece where
  bytes : List UInt8
  deltas : List Int
  token : Option (Token × TokenKind)
  complete : Complete bytes deltas token

namespace Piece

def instruction (piece : Piece) (start : Nat) : Instruction where
  start := start
  stop := start + piece.bytes.length
  targets := piece.deltas.map fun delta => (start + piece.bytes.length : Nat) + delta
  token := piece.token

variable {code : Bytes} {start : Nat}

theorem opcodeAt {opcode : List UInt8} {operand : Operand} (h : OpcodeBytes opcode operand)
    (hhas : code.Has start opcode) : OpcodeAt code start operand (start + opcode.length) := by
  cases h with
  | short h => exact .short (Bytes.getElem?_eq_some_iff_has.mpr hhas) h
  | escaped h =>
      obtain ⟨hescape, hopcode⟩ := Bytes.has_cons.mp hhas
      exact .escaped (Bytes.getElem?_eq_some_iff_has.mpr hescape)
        (Bytes.getElem?_eq_some_iff_has.mpr hopcode) h

@[simp] theorem signedByte_eq (byte : UInt8) :
    signedByte byte.toNat = Bytes.twosComplement [byte] := by
  have hbyte : Bytes.littleEndian [byte] = byte.toNat := Nat.add_zero _
  rw [Bytes.twosComplement_eq_bmod (List.cons_ne_nil _ _), hbyte]
  rfl

@[simp] theorem signedWord_eq {word : List UInt8} (h : word.length = 4) :
    signedWord (Bytes.littleEndian word) = Bytes.twosComplement word := by
  rw [Bytes.twosComplement_eq_bmod (List.ne_nil_of_length_pos (by omega)), h]
  rfl

theorem switchTargets {offset stop : Nat} {words : List (List UInt8)}
    (h : code.Has offset words.flatten) (hwords : ∀ word ∈ words, word.length = 4) :
    List.Forall₂ (fun position target =>
        ∃ delta, code.number (offset + 4 * position) 4 = .ok delta ∧
          (stop : Int) + signedWord delta = target) (List.range words.length)
      (words.map fun word => (stop : Int) + Bytes.twosComplement word) := by
  refine List.forall₂_iff_get.mpr ⟨by simp, ?_⟩
  intro position hposition hposition'
  have hlt : position < words.length := by simpa using hposition
  have hword := h.getElem_flatten hwords hlt
  have hnumber := hword.number
  rw [hwords _ (List.getElem_mem hlt)] at hnumber
  refine ⟨_, by simpa using hnumber, ?_⟩
  simp [hwords _ (List.getElem_mem hlt)]

theorem written (piece : Piece) (h : code.Has start piece.bytes) :
    Written code start (piece.instruction start) := by
  rcases piece with ⟨_, deltas, token, @⟨opcode, bytes, operand, _, _, hopcode, hoperand⟩⟩
  obtain ⟨hhas, hbytes⟩ := Bytes.has_append.mp h
  have hat := opcodeAt hopcode hhas
  simp only [instruction, List.length_append, ← Nat.add_assoc]
  generalize start + opcode.length = offset at hat hbytes ⊢
  cases hoperand with
  | none => exact .plain hat
  | bytes => exact .bytes hat hbytes.le_size
  | @shortBranch byte =>
      rw [← signedByte_eq]
      refine .shortBranch hat (Bytes.number_one_eq_ok_iff.mpr ⟨_, ?_, rfl⟩)
      exact Bytes.getElem?_eq_some_iff_has.mpr hbytes
  | branch hword =>
      rw [← signedWord_eq hword, hword]
      exact .branch hat (hword ▸ hbytes.number)
  | @switch count words hlength hcount hwords =>
      obtain ⟨hhas, htable⟩ := Bytes.has_append.mp hbytes
      have hnumber := hhas.number
      have hfits := htable.le_size
      rw [hlength] at hnumber htable hfits
      rw [hcount] at hnumber
      have hflatten : words.flatten.length = 4 * words.length := Bytes.length_flatten hwords
      simp only [List.length_append, hlength, hflatten, ← Nat.add_assoc, List.map_map,
        Function.comp_def] at hfits ⊢
      exact .switch hat hnumber hfits (switchTargets htable hwords)
  | token hword =>
      rw [hword]
      exact .token hat (hword ▸ hbytes.number)

@[simp] theorem bytes_ne_nil (piece : Piece) : piece.bytes ≠ [] := by
  rcases piece with ⟨_, _, _, ⟨hopcode, _⟩⟩
  cases hopcode <;> simp

theorem length_pos (piece : Piece) : 0 < piece.bytes.length :=
  List.length_pos_iff.mpr piece.bytes_ne_nil

/-- No piece is the beginning of another one, and its bytes tell all about it. -/
theorem eq_of_append_eq {piece other : Piece} {behind behind' : List UInt8}
    (h : piece.bytes ++ behind = other.bytes ++ behind') : piece = other ∧ behind = behind' := by
  -- Both are what is written at the start of the same code.
  have hpiece : Bytes.Has (piece.bytes ++ behind).toArray 0 piece.bytes := ⟨[], behind, rfl, rfl⟩
  have hother : Bytes.Has (piece.bytes ++ behind).toArray 0 other.bytes := ⟨[], behind', h, rfl⟩
  have hsame := (piece.written hpiece).unique (other.written hother)
  simp only [instruction, Nat.zero_add, Instruction.mk.injEq, true_and] at hsame
  obtain ⟨hlength, hdeltas, htoken⟩ := hsame
  obtain ⟨hbytes, hbehind⟩ := List.append_inj h hlength
  rw [hlength] at hdeltas
  refine ⟨Piece.ext hbytes ?_ htoken, hbehind⟩
  exact List.map_injective_iff.mpr (fun _ _ => Int.add_left_cancel) hdeltas

end Piece

/-! ## Pieces one behind the other -/

def bytesOf (pieces : List Piece) : List UInt8 := pieces.flatMap Piece.bytes

@[simp] theorem bytesOf_nil : bytesOf [] = [] := rfl

@[simp] theorem bytesOf_cons (piece : Piece) (pieces : List Piece) :
    bytesOf (piece :: pieces) = piece.bytes ++ bytesOf pieces := rfl

theorem length_le_length_bytesOf (pieces : List Piece) :
    pieces.length ≤ (bytesOf pieces).length := by
  induction pieces with
  | nil => exact Nat.le_refl _
  | cons piece pieces ih =>
      have hpos := piece.length_pos
      simp only [List.length_cons, bytesOf_cons, List.length_append]
      omega

theorem bytesOf_injective {pieces others : List Piece} (h : bytesOf pieces = bytesOf others) :
    pieces = others := by
  induction pieces generalizing others with
  | nil =>
      cases others with
      | nil => rfl
      | cons other others => simp at h
  | cons piece pieces ih =>
      cases others with
      | nil => simp at h
      | cons other others =>
          obtain ⟨rfl, hothers⟩ := Piece.eq_of_append_eq h
          rw [ih hothers]

def placed (start : Nat) : List Piece → List (Nat × Piece)
  | [] => []
  | piece :: pieces => (start, piece) :: placed (start + piece.bytes.length) pieces

def layOut (start : Nat) (pieces : List Piece) : List Instruction :=
  (placed start pieces).map fun (start, piece) => piece.instruction start

theorem mem_placed_iff {start place : Nat} {piece : Piece} {pieces : List Piece} :
    (place, piece) ∈ placed start pieces ↔
      ∃ front back, pieces = front ++ piece :: back ∧ place = start + (bytesOf front).length := by
  induction pieces generalizing start with
  | nil => simp [placed]
  | cons first pieces ih =>
      rw [placed, List.mem_cons, ih]
      constructor
      · rintro (hfirst | ⟨front, back, rfl, rfl⟩)
        · obtain ⟨rfl, rfl⟩ := Prod.mk.inj hfirst
          exact ⟨[], pieces, rfl, rfl⟩
        · exact ⟨first :: front, back, rfl, by simp [Nat.add_assoc]⟩
      · rintro ⟨_ | ⟨other, front⟩, back, hpieces, rfl⟩
        · cases hpieces
          exact .inl rfl
        · cases hpieces
          exact .inr ⟨front, back, rfl, by simp [Nat.add_assoc]⟩

/-! ## Bytes that no piece begins -/

inductive Unassigned : List UInt8 → Prop
  | short {opcode : UInt8} {behind : List UInt8} (hescape : opcode ≠ Opcode.escape)
      (h : Opcode.operand? opcode = none) : Unassigned (opcode :: behind)
  | escaped {opcode : UInt8} {behind : List UInt8} (h : Opcode.escapedOperand? opcode = none) :
      Unassigned (Opcode.escape :: opcode :: behind)

def Incomplete (bytes : List UInt8) : Prop :=
  bytes ≠ [] ∧ ∃ more deltas token, more ≠ [] ∧ Complete (bytes ++ more) deltas token

inductive Stuck : DefectKind → List UInt8 → Prop
  | unassigned {bytes : List UInt8} (h : Unassigned bytes) : Stuck .unknownOpcode bytes
  | incomplete {bytes : List UInt8} (h : Incomplete bytes) : Stuck .truncatedInstruction bytes

theorem split_or_extend (width : Nat) (bytes : List UInt8) :
    (∃ front behind, bytes = front ++ behind ∧ front.length = width) ∨
      ∃ more, more ≠ [] ∧ (bytes ++ more).length = width := by
  by_cases hle : width ≤ bytes.length
  · exact .inl ⟨bytes.take width, bytes.drop width, (List.take_append_drop _ _).symm,
      List.length_take_of_le hle⟩
  · refine .inr ⟨List.replicate (width - bytes.length) 0, ?_, ?_⟩
    · rw [Ne, List.replicate_eq_nil_iff]
      omega
    · rw [List.length_append, List.length_replicate]
      omega

theorem exists_words {count : Nat} {bytes : List UInt8} (h : bytes.length = 4 * count) :
    ∃ words : List (List UInt8),
      words.flatten = bytes ∧ words.length = count ∧ ∀ word ∈ words, word.length = 4 := by
  induction count generalizing bytes with
  | zero => exact ⟨[], (List.eq_nil_of_length_eq_zero h).symm, rfl, nofun⟩
  | succ count ih =>
      obtain ⟨words, hwords, hlength, hfour⟩ :=
        @ih (bytes.drop 4) (by rw [List.length_drop, h]; omega)
      refine ⟨bytes.take 4 :: words, ?_, by rw [List.length_cons, hlength], ?_⟩
      · rw [List.flatten_cons, hwords, List.take_append_drop]
      · exact List.forall_mem_cons.mpr ⟨List.length_take_of_le (by omega), hfour⟩

theorem operand_or_cut (operand : Operand) (bytes : List UInt8) :
    (∃ front behind deltas token, bytes = front ++ behind ∧
        OperandBytes operand front deltas token) ∨
      ∃ more deltas token, more ≠ [] ∧ OperandBytes operand (bytes ++ more) deltas token := by
  cases operand with
  | none => exact .inl ⟨[], bytes, [], none, rfl, .none⟩
  | bytes count =>
      rcases split_or_extend count bytes with ⟨front, behind, rfl, rfl⟩ | ⟨more, hmore, rfl⟩
      · exact .inl ⟨front, behind, _, _, rfl, .bytes⟩
      · exact .inr ⟨more, _, _, hmore, .bytes⟩
  | shortBranch =>
      cases bytes with
      | nil => exact .inr ⟨[0], _, _, by simp, .shortBranch⟩
      | cons byte behind => exact .inl ⟨[byte], behind, _, _, rfl, .shortBranch⟩
  | branch =>
      rcases split_or_extend 4 bytes with ⟨front, behind, rfl, hword⟩ | ⟨more, hmore, hword⟩
      · exact .inl ⟨front, behind, _, _, rfl, .branch hword⟩
      · exact .inr ⟨more, _, _, hmore, .branch hword⟩
  | switch =>
      rcases split_or_extend 4 bytes with ⟨count, bytes, rfl, hlength⟩ | ⟨more, hmore, hlength⟩
      · rcases split_or_extend (4 * Bytes.littleEndian count) bytes with
          ⟨table, behind, rfl, htable⟩ | ⟨more, hmore, htable⟩
        · obtain ⟨words, rfl, hcount, hwords⟩ := exists_words htable
          exact .inl ⟨count ++ words.flatten, behind, _, _, (List.append_assoc ..).symm,
            .switch hlength hcount.symm hwords⟩
        · obtain ⟨words, hflatten, hcount, hwords⟩ := exists_words htable
          have hswitch := OperandBytes.switch hlength hcount.symm hwords
          rw [hflatten, ← List.append_assoc] at hswitch
          exact .inr ⟨more, _, _, hmore, hswitch⟩
      · -- Even the number of words is cut off; as many words as it then tells may follow.
        obtain ⟨words, -, hcount, hwords⟩ := exists_words
          (@List.length_replicate _ (4 * Bytes.littleEndian (bytes ++ more)) (0 : UInt8))
        have hswitch := OperandBytes.switch hlength hcount.symm hwords
        rw [List.append_assoc] at hswitch
        exact .inr ⟨more ++ words.flatten, _, _, by simp [hmore], hswitch⟩
  | token kind =>
      rcases split_or_extend 4 bytes with ⟨front, behind, rfl, hword⟩ | ⟨more, hmore, hword⟩
      · exact .inl ⟨front, behind, _, _, rfl, .token hword⟩
      · exact .inr ⟨more, _, _, hmore, .token hword⟩

theorem opcode_or_cut {bytes : List UInt8} (h : bytes ≠ []) :
    (∃ opcode behind operand, bytes = opcode ++ behind ∧ OpcodeBytes opcode operand) ∨
      Unassigned bytes ∨ bytes = [Opcode.escape] := by
  obtain ⟨first, bytes, rfl⟩ := List.exists_cons_of_ne_nil h
  by_cases hescape : first = Opcode.escape
  · subst hescape
    cases bytes with
    | nil => exact .inr (.inr rfl)
    | cons second behind =>
        cases hoperand : Opcode.escapedOperand? second with
        | none => exact .inr (.inl (.escaped hoperand))
        | some operand => exact .inl ⟨_, behind, operand, rfl, .escaped hoperand⟩
  · cases hoperand : Opcode.operand? first with
    | none => exact .inr (.inl (.short hescape hoperand))
    | some operand => exact .inl ⟨[first], bytes, operand, rfl, .short hoperand⟩

theorem piece_or_stuck {bytes : List UInt8} (h : bytes ≠ []) :
    (∃ piece behind, bytes = Piece.bytes piece ++ behind) ∨ ∃ kind, Stuck kind bytes := by
  rcases opcode_or_cut h with ⟨opcode, behind, operand, rfl, hopcode⟩ | hunassigned | rfl
  · rcases operand_or_cut operand behind with
      ⟨front, behind, deltas, token, rfl, hoperand⟩ | ⟨more, deltas, token, hmore, hoperand⟩
    · exact .inl ⟨⟨_, deltas, token, .mk hopcode hoperand⟩, behind, (List.append_assoc ..).symm⟩
    · refine .inr ⟨_, .incomplete ⟨h, more, deltas, token, hmore, ?_⟩⟩
      rw [List.append_assoc]
      exact .mk hopcode hoperand
  · exact .inr ⟨_, .unassigned hunassigned⟩
  · exact .inr ⟨_, .incomplete ⟨h, [0], [], none, nofun,
      @Complete.mk [Opcode.escape, 0] _ _ _ _ (.escaped rfl) .none⟩⟩

theorem exists_pieces (bytes : List UInt8) :
    ∃ pieces rest, bytes = bytesOf pieces ++ rest ∧ (rest = [] ∨ ∃ kind, Stuck kind rest) := by
  induction hlength : bytes.length using Nat.strongRecOn generalizing bytes with
  | ind length ih =>
      by_cases hnil : bytes = []
      · exact ⟨[], [], hnil, .inl rfl⟩
      · rcases piece_or_stuck hnil with ⟨piece, behind, rfl⟩ | hstuck
        · have hpos := piece.length_pos
          rw [List.length_append] at hlength
          obtain ⟨pieces, rest, rfl, hrest⟩ := ih behind.length (by omega) behind rfl
          exact ⟨piece :: pieces, rest, (List.append_assoc ..).symm, hrest⟩
        · exact ⟨[], bytes, rfl, .inr hstuck⟩

end AssemblyGate.Code
