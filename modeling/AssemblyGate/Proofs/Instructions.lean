import AssemblyGate.Body.Code
import AssemblyGate.Proofs.Fallible
import AssemblyGate.Proofs.Parts

/-!
# Instructions in code

`Code.Written` says what it means that an instruction stands at a place of some code: an
assigned opcode of one or two bytes, and behind it an operand that is all there.  Jumps are
counted from the end of the instruction.  The decoder finds exactly the instructions that
are written, and the linear decoding is a `Code.Sweep` of them from the first byte of the
code to the last.
-/

namespace AssemblyGate

/-! ## One instruction -/

namespace Code

variable {code : Bytes} {start offset : Nat} {instruction : Instruction}

inductive OpcodeAt (code : Bytes) (start : Nat) : Operand → (offset : Nat) → Prop
  | short {opcode : UInt8} {operand : Operand} (hbyte : code[start]? = some opcode)
      (hoperand : Opcode.operand? opcode = some operand) :
      OpcodeAt code start operand (start + 1)
  | escaped {opcode : UInt8} {operand : Operand} (hescape : code[start]? = some Opcode.escape)
      (hbyte : code[start + 1]? = some opcode)
      (hoperand : Opcode.escapedOperand? opcode = some operand) :
      OpcodeAt code start operand (start + 2)

inductive Written (code : Bytes) (start : Nat) : Instruction → Prop
  | plain {offset : Nat} (hopcode : OpcodeAt code start .none offset) :
      Written code start ⟨start, offset, [], none⟩
  | bytes {offset count : Nat} (hopcode : OpcodeAt code start (.bytes count) offset)
      (hfits : offset + count ≤ code.size) :
      Written code start ⟨start, offset + count, [], none⟩
  | shortBranch {offset delta : Nat} (hopcode : OpcodeAt code start .shortBranch offset)
      (hdelta : code.number offset 1 = .ok delta) :
      Written code start ⟨start, offset + 1, [(offset + 1 : Nat) + signedByte delta], none⟩
  | branch {offset delta : Nat} (hopcode : OpcodeAt code start .branch offset)
      (hdelta : code.number offset 4 = .ok delta) :
      Written code start ⟨start, offset + 4, [(offset + 4 : Nat) + signedWord delta], none⟩
  | switch {offset count : Nat} {targets : List Int}
      (hopcode : OpcodeAt code start .switch offset) (hcount : code.number offset 4 = .ok count)
      (hfits : offset + 4 + 4 * count ≤ code.size)
      (htargets : List.Forall₂ (fun position target =>
        ∃ delta, code.number (offset + 4 + 4 * position) 4 = .ok delta ∧
          (offset + 4 + 4 * count : Nat) + signedWord delta = target) (List.range count) targets) :
      Written code start ⟨start, offset + 4 + 4 * count, targets, none⟩
  | token {offset value : Nat} {kind : TokenKind}
      (hopcode : OpcodeAt code start (.token kind) offset)
      (hvalue : code.number offset 4 = .ok value) :
      Written code start ⟨start, offset + 4, [], some (Token.ofNat value, kind)⟩

@[simp] theorem operandNumber_eq_ok_iff {width value : Nat} :
    operandNumber code start offset width = .ok value ↔ code.number offset width = .ok value :=
  mapError_eq_ok_iff

@[simp] theorem operandNumber_one_eq_ok_iff {value : Nat} :
    operandNumber code start offset 1 = .ok value ↔
      ∃ byte, code[offset]? = some byte ∧ byte.toNat = value :=
  operandNumber_eq_ok_iff.trans Bytes.number_one_eq_ok_iff

@[simp] theorem opcodeAt_eq_ok_iff {operand : Operand} :
    opcodeAt code start = .ok (operand, offset) ↔ OpcodeAt code start operand offset := by
  constructor
  · intro h
    obtain ⟨value, hfirst, h⟩ := bind_eq_ok_iff.mp h
    obtain ⟨first, hbyte, rfl⟩ := operandNumber_one_eq_ok_iff.mp hfirst
    split at h
    · next hescape =>
        obtain ⟨value, hsecond, h⟩ := bind_eq_ok_iff.mp h
        obtain ⟨second, hbyte', rfl⟩ := operandNumber_one_eq_ok_iff.mp hsecond
        rw [UInt8.toNat_inj.mp hescape] at hbyte
        rw [UInt8.ofNat_toNat] at h
        cases hoperand : Opcode.escapedOperand? second with
        | none =>
            rw [hoperand] at h
            cases h
        | some operand =>
            rw [hoperand] at h
            cases h
            exact .escaped hbyte hbyte' hoperand
    · rw [UInt8.ofNat_toNat] at h
      cases hoperand : Opcode.operand? first with
      | none =>
          rw [hoperand] at h
          cases h
      | some operand =>
          rw [hoperand] at h
          cases h
          exact .short hbyte hoperand
  · intro h
    cases h with
    | @short opcode _ hbyte hoperand =>
        refine bind_eq_ok_iff.mpr ⟨_, operandNumber_one_eq_ok_iff.mpr ⟨opcode, hbyte, rfl⟩, ?_⟩
        -- The byte in front of long opcodes is no opcode itself.
        have hescape : opcode.toNat ≠ Opcode.escape.toNat := by
          intro hsame
          rw [UInt8.toNat_inj.mp hsame] at hoperand
          cases hoperand
        simp only [if_neg hescape, UInt8.ofNat_toNat, hoperand]
        rfl
    | @escaped opcode _ hescape hbyte hoperand =>
        refine bind_eq_ok_iff.mpr ⟨_, operandNumber_one_eq_ok_iff.mpr ⟨_, hescape, rfl⟩, ?_⟩
        rw [if_pos rfl]
        refine bind_eq_ok_iff.mpr ⟨_, operandNumber_one_eq_ok_iff.mpr ⟨_, hbyte, rfl⟩, ?_⟩
        simp only [UInt8.ofNat_toNat, hoperand]
        rfl

theorem switchTargets_eq_ok_iff {count : Nat} {targets : List Int} :
    switchTargets code start offset count = .ok targets ↔
      List.Forall₂ (fun position target =>
        ∃ delta, code.number (offset + 4 * position) 4 = .ok delta ∧
          (offset + 4 * count : Nat) + signedWord delta = target) (List.range count) targets := by
  simp only [switchTargets, mapM_eq_ok_iff, bind_eq_ok_iff, operandNumber_eq_ok_iff, pure,
    Except.pure, Except.ok.injEq]

@[simp] theorem instructionAt_eq_ok_iff :
    instructionAt code start = .ok instruction ↔ Written code start instruction := by
  constructor
  · intro h
    obtain ⟨⟨operand, offset⟩, hopcode, h⟩ := bind_eq_ok_iff.mp h
    rw [opcodeAt_eq_ok_iff] at hopcode
    cases operand with
    | none =>
        cases h
        exact .plain hopcode
    | bytes count =>
        simp only at h
        split at h
        · cases h
        · cases h
          exact .bytes hopcode (by omega)
    | shortBranch =>
        obtain ⟨delta, hdelta, h⟩ := bind_eq_ok_iff.mp h
        cases h
        exact .shortBranch hopcode (operandNumber_eq_ok_iff.mp hdelta)
    | branch =>
        obtain ⟨delta, hdelta, h⟩ := bind_eq_ok_iff.mp h
        cases h
        exact .branch hopcode (operandNumber_eq_ok_iff.mp hdelta)
    | switch =>
        obtain ⟨count, hcount, h⟩ := bind_eq_ok_iff.mp h
        simp only at h
        split at h
        · cases h
        · obtain ⟨targets, htargets, h⟩ := bind_eq_ok_iff.mp h
          cases h
          exact .switch hopcode (operandNumber_eq_ok_iff.mp hcount) (by omega)
            (switchTargets_eq_ok_iff.mp htargets)
    | token kind =>
        obtain ⟨value, hvalue, h⟩ := bind_eq_ok_iff.mp h
        cases h
        exact .token hopcode (operandNumber_eq_ok_iff.mp hvalue)
  · intro h
    unfold instructionAt
    cases h with
    | plain hopcode => exact bind_eq_ok_iff.mpr ⟨_, opcodeAt_eq_ok_iff.mpr hopcode, rfl⟩
    | bytes hopcode hfits =>
        refine bind_eq_ok_iff.mpr ⟨_, opcodeAt_eq_ok_iff.mpr hopcode, ?_⟩
        exact if_neg (Nat.not_lt.mpr hfits)
    | shortBranch hopcode hdelta =>
        refine bind_eq_ok_iff.mpr ⟨_, opcodeAt_eq_ok_iff.mpr hopcode, ?_⟩
        exact bind_eq_ok_iff.mpr ⟨_, operandNumber_eq_ok_iff.mpr hdelta, rfl⟩
    | branch hopcode hdelta =>
        refine bind_eq_ok_iff.mpr ⟨_, opcodeAt_eq_ok_iff.mpr hopcode, ?_⟩
        exact bind_eq_ok_iff.mpr ⟨_, operandNumber_eq_ok_iff.mpr hdelta, rfl⟩
    | switch hopcode hcount hfits htargets =>
        refine bind_eq_ok_iff.mpr ⟨_, opcodeAt_eq_ok_iff.mpr hopcode, ?_⟩
        refine bind_eq_ok_iff.mpr ⟨_, operandNumber_eq_ok_iff.mpr hcount, ?_⟩
        simp only [if_neg (Nat.not_lt.mpr hfits)]
        exact bind_eq_ok_iff.mpr ⟨_, switchTargets_eq_ok_iff.mpr htargets, rfl⟩
    | token hopcode hvalue =>
        refine bind_eq_ok_iff.mpr ⟨_, opcodeAt_eq_ok_iff.mpr hopcode, ?_⟩
        exact bind_eq_ok_iff.mpr ⟨_, operandNumber_eq_ok_iff.mpr hvalue, rfl⟩

theorem OpcodeAt.bounds {operand : Operand} (h : OpcodeAt code start operand offset) :
    start < offset ∧ offset ≤ code.size := by
  cases h with
  | short hbyte _ =>
      have hlt := (Array.getElem?_eq_some_iff.mp hbyte).1
      omega
  | escaped _ hbyte _ =>
      have hlt := (Array.getElem?_eq_some_iff.mp hbyte).1
      omega

theorem Written.bounds (h : Written code start instruction) :
    instruction.start = start ∧ start < instruction.stop ∧ instruction.stop ≤ code.size := by
  cases h with
  | plain hopcode => exact ⟨rfl, hopcode.bounds⟩
  | bytes hopcode hfits => exact ⟨rfl, Nat.lt_add_right _ hopcode.bounds.1, hfits⟩
  | shortBranch hopcode hdelta =>
      exact ⟨rfl, Nat.lt_add_right _ hopcode.bounds.1, Bytes.le_size_of_number hdelta⟩
  | branch hopcode hdelta =>
      exact ⟨rfl, Nat.lt_add_right _ hopcode.bounds.1, Bytes.le_size_of_number hdelta⟩
  | switch hopcode _ hfits _ =>
      exact ⟨rfl, Nat.lt_add_right _ (Nat.lt_add_right _ hopcode.bounds.1), hfits⟩
  | token hopcode hvalue =>
      exact ⟨rfl, Nat.lt_add_right _ hopcode.bounds.1, Bytes.le_size_of_number hvalue⟩

theorem Written.unique {other : Instruction} (h : Written code start instruction)
    (hother : Written code start other) : instruction = other :=
  Except.ok.inj ((instructionAt_eq_ok_iff.mpr h).symm.trans (instructionAt_eq_ok_iff.mpr hother))

/-! ## The linear decoding -/

inductive Sweep (code : Bytes) : (offset : Nat) → List Instruction → Prop
  | done : Sweep code code.size []
  | step {offset : Nat} {instruction : Instruction} {others : List Instruction}
      (hwritten : Written code offset instruction)
      (hothers : Sweep code instruction.stop others) : Sweep code offset (instruction :: others)

variable {instructions : List Instruction}

/-- The fuel suffices, since every instruction uses up a byte of the code. -/
theorem sweep_of_instructionsFrom {fuel : Nat} {found all : List Instruction}
    (hoffset : offset ≤ code.size) (hfuel : code.size ≤ offset + fuel)
    (h : instructionsFrom code fuel offset found = .ok all) :
    ∃ others, all = found.reverse ++ others ∧ Sweep code offset others := by
  induction fuel generalizing offset found with
  | zero =>
      obtain rfl : offset = code.size := by omega
      cases h
      exact ⟨[], by simp, .done⟩
  | succ fuel ih =>
      rw [instructionsFrom] at h
      split at h
      · cases hat : instructionAt code offset with
        | error defect =>
            rw [hat] at h
            cases h
        | ok instruction =>
            rw [hat] at h
            have hwritten := instructionAt_eq_ok_iff.mp hat
            obtain ⟨-, hlt, hle⟩ := hwritten.bounds
            obtain ⟨others, rfl, hothers⟩ := ih hle (by omega) h
            exact ⟨instruction :: others, by simp, .step hwritten hothers⟩
      · obtain rfl : offset = code.size := by omega
        cases h
        exact ⟨[], by simp, .done⟩

theorem sweep_of_instructions (h : Code.instructions code = .ok instructions) :
    Sweep code 0 instructions := by
  obtain ⟨others, rfl, hsweep⟩ :=
    sweep_of_instructionsFrom (Nat.zero_le _) (by omega) h
  exact hsweep

namespace Sweep

theorem written (h : Sweep code offset instructions) (hmem : instruction ∈ instructions) :
    Written code instruction.start instruction ∧ offset ≤ instruction.start := by
  induction h with
  | done => simp at hmem
  | step hwritten _ ih =>
      obtain ⟨hstart, hlt, -⟩ := hwritten.bounds
      rcases List.mem_cons.mp hmem with rfl | hmem
      · rw [hstart]
        exact ⟨hwritten, Nat.le_refl _⟩
      · obtain ⟨hothers, hle⟩ := ih hmem
        exact ⟨hothers, by omega⟩

theorem bounds (h : Sweep code offset instructions) (hmem : instruction ∈ instructions) :
    instruction.start < instruction.stop ∧ instruction.stop ≤ code.size :=
  (h.written hmem).1.bounds.2

theorem start_outside (h : Sweep code offset instructions) {other : Instruction}
    (hmem : instruction ∈ instructions) (hother : other ∈ instructions) :
    other.start ≤ instruction.start ∨ instruction.stop ≤ other.start := by
  induction h with
  | done => simp at hmem
  | step hwritten hothers ih =>
      obtain ⟨hstart, hlt, -⟩ := hwritten.bounds
      rcases List.mem_cons.mp hmem with rfl | hbehind <;>
        rcases List.mem_cons.mp hother with rfl | hother
      · exact .inl (Nat.le_refl _)
      · exact .inr (hothers.written hother).2
      · have hle := (hothers.written hbehind).2
        exact .inl (by omega)
      · exact ih hbehind hother

end Sweep

end Code

end AssemblyGate
