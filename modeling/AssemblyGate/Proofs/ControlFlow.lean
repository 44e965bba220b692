import Mathlib.Logic.Relation
import AssemblyGate.Body.Verify
import AssemblyGate.Proofs.Definitions
import AssemblyGate.Proofs.Instructions

/-!
# Control flow in verified bodies

A place in the code is executed as the instruction that is written there, whether or not the
linear decoding has one that starts there.  In a body without defects this makes no
difference: from every entry, however often the flow goes on or jumps, it is at the start of
an instruction of the linear decoding or at the end of the code.
-/

namespace AssemblyGate

/-! ## Boundaries -/

namespace Code

variable {code : Bytes} {offset : Nat} {instruction : Instruction}
  {instructions : List Instruction}

def StartsAt (instructions : List Instruction) (place : Int) : Prop :=
  ∃ instruction ∈ instructions, place = instruction.start

/-- An instruction starts at a place, or the code ends there. -/
def Boundary (code : Bytes) (instructions : List Instruction) (place : Int) : Prop :=
  StartsAt instructions place ∨ place = code.size

def Covers (code : Bytes) (instructions : List Instruction) (offset length : Nat) : Prop :=
  0 < length ∧ StartsAt instructions offset ∧
    Boundary code instructions ((offset + length : Nat) : Int)

theorem Boundary.cons {place : Int} (h : Boundary code instructions place)
    (first : Instruction) : Boundary code (first :: instructions) place := by
  rcases h with ⟨instruction, hmem, hplace⟩ | hplace
  · exact .inl ⟨instruction, by simp [hmem], hplace⟩
  · exact .inr hplace

theorem Sweep.boundary_first (h : Sweep code offset instructions) :
    Boundary code instructions offset := by
  cases h with
  | done => exact .inr rfl
  | @step _ first _ hwritten _ => exact .inl ⟨first, by simp, by rw [hwritten.bounds.1]⟩

theorem Sweep.boundary_stop (h : Sweep code offset instructions)
    (hmem : instruction ∈ instructions) : Boundary code instructions instruction.stop := by
  induction h with
  | done => simp at hmem
  | step _ hothers ih =>
      rcases List.mem_cons.mp hmem with rfl | hmem
      · exact hothers.boundary_first.cons _
      · exact (ih hmem).cons _

theorem Boundary.le_size {place : Int} (h : Boundary code instructions place)
    (hsweep : Sweep code 0 instructions) : 0 ≤ place ∧ place ≤ code.size := by
  rcases h with ⟨instruction, hmem, rfl⟩ | rfl
  · have hbounds := hsweep.bounds hmem
    omega
  · omega

theorem Boundary.outside {place : Int} (h : Boundary code instructions place)
    (hsweep : Sweep code 0 instructions) (hmem : instruction ∈ instructions) :
    place ≤ instruction.start ∨ instruction.stop ≤ place := by
  rcases h with ⟨other, hother, rfl⟩ | rfl
  · have houtside := hsweep.start_outside hmem hother
    omega
  · have hbounds := hsweep.bounds hmem
    omega

theorem Boundary.mem_of_written {place : Nat} (h : Boundary code instructions place)
    (hsweep : Sweep code 0 instructions) (hwritten : Written code place instruction) :
    instruction ∈ instructions := by
  rcases h with ⟨found, hmem, hstart⟩ | hend
  · obtain rfl := Int.natCast_inj.mp hstart
    rw [hwritten.unique (hsweep.written hmem).1]
    exact hmem
  · have hbounds := hwritten.bounds
    omega

end Code

/-! ## Bodies without defects -/

namespace MethodBody

variable {code : Bytes} {instructions : List Instruction}

@[simp] theorem contains_boundaries_iff {place : Nat} :
    (boundaries code instructions).contains place = true ↔
      Code.Boundary code instructions place := by
  simp only [boundaries, Std.HashSet.contains_ofList, List.contains_iff_mem, List.mem_cons,
    List.mem_map, Code.Boundary, Code.StartsAt, Int.natCast_inj]
  constructor
  · rintro (rfl | ⟨instruction, hmem, rfl⟩)
    · exact .inr rfl
    · exact .inl ⟨instruction, hmem, rfl⟩
  · rintro (⟨instruction, hmem, rfl⟩ | rfl)
    · exact .inr ⟨instruction, hmem, rfl⟩
    · exact .inl rfl

theorem startsAt_iff (hsweep : Code.Sweep code 0 instructions) {place : Nat} :
    Code.StartsAt instructions place ↔
      place < code.size ∧ (boundaries code instructions).contains place = true := by
  rw [contains_boundaries_iff]
  constructor
  · rintro ⟨instruction, hmem, hplace⟩
    have hbounds := hsweep.bounds hmem
    exact ⟨by omega, .inl ⟨instruction, hmem, hplace⟩⟩
  · rintro ⟨hlt, hstarts | hend⟩
    · exact hstarts
    · omega

theorem branchDefect_eq_none_iff (hsweep : Code.Sweep code 0 instructions) {start : Nat}
    {target : Int} :
    branchDefect code.size (boundaries code instructions) start target = none ↔
      Code.StartsAt instructions target := by
  by_cases hrange : target < 0 ∨ target ≥ code.size
  · rw [branchDefect, if_pos hrange]
    simp only [reduceCtorEq, false_iff]
    rintro ⟨instruction, hmem, rfl⟩
    have hbounds := hsweep.bounds hmem
    omega
  · obtain ⟨place, rfl⟩ := Int.eq_ofNat_of_zero_le (a := target) (by omega)
    rw [branchDefect, if_neg hrange, startsAt_iff hsweep]
    have hlt : place < code.size := by omega
    cases hcontains : (boundaries code instructions).contains place <;> simp [hcontains, hlt]

theorem coversInstructions_iff (hsweep : Code.Sweep code 0 instructions) {offset length : Nat} :
    coversInstructions code.size (boundaries code instructions) offset length = true ↔
      Code.Covers code instructions offset length := by
  rw [Code.Covers, startsAt_iff hsweep, ← contains_boundaries_iff]
  simp only [coversInstructions, Bool.and_eq_true, decide_eq_true_eq]
  constructor
  · rintro ⟨⟨⟨hlength, hle⟩, hstart⟩, hstop⟩
    exact ⟨hlength, ⟨by omega, hstart⟩, hstop⟩
  · rintro ⟨hlength, ⟨-, hstart⟩, hstop⟩
    have hle := (contains_boundaries_iff.mp hstop).le_size hsweep
    exact ⟨⟨⟨hlength, by omega⟩, hstart⟩, hstop⟩

structure CoveredClause (code : Bytes) (instructions : List Instruction)
    (clause : ExceptionClause) : Prop where
  tryBlock : Code.Covers code instructions clause.tryOffset clause.tryLength
  handler : Code.Covers code instructions clause.handlerOffset clause.handlerLength
  filter : clause.hasFilter = true → Code.StartsAt instructions clause.classOrFilter

theorem clauseDefect_eq_none_iff (hsweep : Code.Sweep code 0 instructions)
    {clause : ExceptionClause} :
    clauseDefect code.size (boundaries code instructions) clause = none ↔
      CoveredClause code instructions clause := by
  have hcovered : CoveredClause code instructions clause ↔
      coversInstructions code.size (boundaries code instructions) clause.tryOffset
        clause.tryLength = true ∧
      coversInstructions code.size (boundaries code instructions) clause.handlerOffset
        clause.handlerLength = true ∧
      (clause.hasFilter = true → clause.classOrFilter < code.size ∧
        (boundaries code instructions).contains clause.classOrFilter = true) := by
    rw [coversInstructions_iff hsweep, coversInstructions_iff hsweep, ← startsAt_iff hsweep]
    exact ⟨fun h => ⟨h.tryBlock, h.handler, h.filter⟩, fun ⟨h, h', h''⟩ => ⟨h, h', h''⟩⟩
  rw [hcovered, clauseDefect]
  split
  · next htry =>
      refine iff_of_false nofun ?_
      rintro ⟨hcovers, -, -⟩
      simp [hcovers] at htry
  · next htry =>
      split
      · next hhandler =>
          refine iff_of_false nofun ?_
          rintro ⟨-, hcovers, -⟩
          simp [hcovers] at hhandler
      · next hhandler =>
          split
          · next hfilter =>
              refine iff_of_false nofun ?_
              rintro ⟨-, -, hstarts⟩
              obtain ⟨hlt, hcontains⟩ := hstarts (Bool.and_eq_true_iff.mp hfilter).1
              simp [hlt, hcontains] at hfilter
          · next hfilter =>
              refine iff_of_true rfl ⟨by simpa using htry, by simpa using hhandler, ?_⟩
              intro hflag
              simpa [hflag] using hfilter

end MethodBody

namespace Metadata

variable {metadata : Metadata} {body : MethodBody} {instructions : List Instruction}

structure Verified (metadata : Metadata) (body : MethodBody) (instructions : List Instruction) :
    Prop where
  decoded : Code.instructions body.code = .ok instructions
  locals : metadata.localsDefect body = none
  jumps : ∀ instruction ∈ instructions, ∀ target ∈ instruction.targets,
    Code.StartsAt instructions target
  tokens : ∀ instruction ∈ instructions, metadata.tokenDefect instruction = none
  clauses : ∀ clause ∈ body.clauses, MethodBody.CoveredClause body.code instructions clause

theorem Verified.sweep (h : metadata.Verified body instructions) :
    Code.Sweep body.code 0 instructions :=
  Code.sweep_of_instructions h.decoded

theorem bodyDefects_eq_nil_iff :
    metadata.bodyDefects body = [] ↔ ∃ instructions, metadata.Verified body instructions := by
  unfold bodyDefects
  rw [List.append_eq_nil_iff, Option.toList_eq_nil_iff]
  constructor
  · rintro ⟨hlocals, h⟩
    split at h
    · cases h
    · next instructions hdecoded =>
        have hsweep := Code.sweep_of_instructions hdecoded
        simp only [List.append_eq_nil_iff, List.flatMap_eq_nil_iff, List.filterMap_eq_nil_iff,
          MethodBody.branchDefect_eq_none_iff hsweep, MethodBody.clauseDefect_eq_none_iff hsweep]
          at h
        obtain ⟨⟨hjumps, htokens⟩, hclauses⟩ := h
        exact ⟨instructions, hdecoded, hlocals, hjumps, htokens, hclauses⟩
  · rintro ⟨instructions, hverified⟩
    have hsweep := hverified.sweep
    refine ⟨hverified.locals, ?_⟩
    simp only [hverified.decoded, List.append_eq_nil_iff, List.flatMap_eq_nil_iff,
      List.filterMap_eq_nil_iff, MethodBody.branchDefect_eq_none_iff hsweep,
      MethodBody.clauseDefect_eq_none_iff hsweep]
    exact ⟨⟨hverified.jumps, hverified.tokens⟩, hverified.clauses⟩

end Metadata

/-! ## Runs -/

/-- Execution takes the instruction that is written at a place, and goes on behind it or jumps. -/
inductive Code.Step (code : Bytes) : Int → Int → Prop
  | next {place : Nat} {instruction : Instruction} (hwritten : Written code place instruction) :
      Step code place instruction.stop
  | jump {place : Nat} {instruction : Instruction} {target : Int}
      (hwritten : Written code place instruction) (htarget : target ∈ instruction.targets) :
      Step code place target

namespace MethodBody

/-- Where execution of a body may begin: at its start, or where a clause takes over. -/
inductive Entry (body : MethodBody) : Int → Prop
  | start : Entry body 0
  | handler {clause : ExceptionClause} (hclause : clause ∈ body.clauses) :
      Entry body clause.handlerOffset
  | filter {clause : ExceptionClause} (hclause : clause ∈ body.clauses)
      (hfilter : clause.hasFilter = true) : Entry body clause.classOrFilter

def Reaches (body : MethodBody) (place : Int) : Prop :=
  ∃ entry, body.Entry entry ∧ Relation.ReflTransGen (Code.Step body.code) entry place

end MethodBody

namespace Metadata.Verified

variable {metadata : Metadata} {body : MethodBody} {instructions : List Instruction}

theorem boundary_entry (h : metadata.Verified body instructions) {place : Int}
    (hentry : body.Entry place) : Code.Boundary body.code instructions place := by
  cases hentry with
  | start => exact h.sweep.boundary_first
  | handler hclause => exact .inl (h.clauses _ hclause).handler.2.1
  | filter hclause hfilter => exact .inl ((h.clauses _ hclause).filter hfilter)

theorem boundary_step (h : metadata.Verified body instructions) {place next : Int}
    (hplace : Code.Boundary body.code instructions place)
    (hstep : Code.Step body.code place next) : Code.Boundary body.code instructions next := by
  cases hstep with
  | next hwritten => exact h.sweep.boundary_stop (hplace.mem_of_written h.sweep hwritten)
  | jump hwritten htarget =>
      exact .inl (h.jumps _ (hplace.mem_of_written h.sweep hwritten) _ htarget)

theorem boundary_of_reaches (h : metadata.Verified body instructions) {place : Int}
    (hreaches : body.Reaches place) : Code.Boundary body.code instructions place := by
  obtain ⟨entry, hentry, hrun⟩ := hreaches
  induction hrun with
  | refl => exact h.boundary_entry hentry
  | tail _ hstep ih => exact h.boundary_step ih hstep

end Metadata.Verified

namespace Metadata

variable {metadata : Metadata} {body : MethodBody}

/--
The flow in a body without defects stays on the boundaries of its linear decoding: it is
never inside of an instruction, in front of the code or behind its end.
-/
theorem boundary_of_bodyDefects_eq_nil (h : metadata.bodyDefects body = []) :
    ∃ instructions, Code.instructions body.code = .ok instructions ∧
      Code.Sweep body.code 0 instructions ∧
      ∀ place, body.Reaches place →
        Code.Boundary body.code instructions place ∧
        (0 ≤ place ∧ place ≤ body.code.size) ∧
        ∀ instruction ∈ instructions, place ≤ instruction.start ∨ instruction.stop ≤ place := by
  obtain ⟨instructions, hverified⟩ := bodyDefects_eq_nil_iff.mp h
  have hsweep := hverified.sweep
  refine ⟨instructions, hverified.decoded, hsweep, ?_⟩
  intro place hreaches
  have hboundary := hverified.boundary_of_reaches hreaches
  exact ⟨hboundary, hboundary.le_size hsweep, fun _ hmem => hboundary.outside hsweep hmem⟩

/--
A jump table whose only target is the jump behind it, which goes back to the start; the end of
the code is behind a last instruction.  A clause has a filter and covers whole instructions.
-/
def loopingBody : MethodBody where
  code := #[0x45, 1, 0, 0, 0, 0, 0, 0, 0, 0x2b, 0xf5, 0x2a]
  maxStack := 8
  locals := 0
  clauses := [⟨1, 0, 9, 9, 2, 11⟩]

theorem boundary_loopingBody :
    (ofTables [] #[] #[0] #[0]).bodyDefects loopingBody = [] ∧ loopingBody.Reaches 12 ∧
      ∀ place, loopingBody.Reaches place → place ∈ ([0, 9, 11, 12] : List Int) := by
  have hdecoded : Code.instructions loopingBody.code =
      .ok [⟨0, 9, [9], none⟩, ⟨9, 11, [0], none⟩, ⟨11, 12, [], none⟩] := by decide +kernel
  have hdefects : (ofTables [] #[] #[0] #[0]).bodyDefects loopingBody = [] := by
    refine bodyDefects_eq_nil_iff.mpr ⟨_, hdecoded, rfl, ?_, ?_, ?_⟩
    · simp [Code.StartsAt]
    · simp [tokenDefect]
    · intro clause hclause
      obtain rfl := List.mem_singleton.mp hclause
      constructor <;> simp [Code.Covers, Code.StartsAt, Code.Boundary, loopingBody]
  refine ⟨hdefects, ?_, ?_⟩
  · have hlast : Code.Written loopingBody.code 11 ⟨11, 12, [], none⟩ :=
      Code.instructionAt_eq_ok_iff.mp (by decide +kernel)
    have hentry : loopingBody.Entry 11 :=
      @MethodBody.Entry.filter loopingBody ⟨1, 0, 9, 9, 2, 11⟩ (List.mem_singleton.mpr rfl) rfl
    exact ⟨11, hentry, .single (.next hlast)⟩
  · intro place hreaches
    obtain ⟨instructions, hinstructions, -, hplaces⟩ := boundary_of_bodyDefects_eq_nil hdefects
    cases hdecoded.symm.trans hinstructions
    rcases (hplaces place hreaches).1 with hstarts | hend
    · simp only [Code.StartsAt, List.mem_cons, List.not_mem_nil, or_false, exists_eq_or_imp,
        exists_eq_left] at hstarts
      simp only [List.mem_cons, List.not_mem_nil, or_false]
      omega
    · simp [hend, loopingBody]

end Metadata

end AssemblyGate
