import AssemblyGate.Proofs.Inheritance
import AssemblyGate.Proofs.Report

/-!
# The meaning of a verdict

An assembly is found to be safe exactly if each of its rows is: no method has a defect
that counts or leaves managed code, every reference is allowed, every member and every
base passes, and no type lays out its fields.
-/

namespace AssemblyGate

open Fallible

/-! ## Defects of methods -/

namespace VerifyContext

variable {context : VerifyContext}

def OnlyDefects (context : VerifyContext) (kinds : List DefectKind) (row : MethodDefRow) : Prop :=
  ∃ defects, context.methodDefects row = .ok defects ∧ ∀ defect ∈ defects, defect.kind ∈ kinds

theorem forall_methodFindings_iff {kinds : List DefectKind} {type : TypeExpr}
    {row : MethodDefRow} {findings : List Finding}
    (h : context.methodFindings type row = .ok findings) :
    (∀ finding ∈ findings, finding.kind ∈ kinds) ↔ context.OnlyDefects kinds row := by
  obtain ⟨defects, hdefects, h⟩ := bind_eq_ok_iff.mp h
  have hkinds : (∀ finding ∈ findings, finding.kind ∈ kinds) ↔
      ∀ defect ∈ defects, defect.kind ∈ kinds := by
    split at h
    · next hempty =>
        cases h
        simp [List.isEmpty_iff.mp hempty]
    · obtain ⟨name, -, h⟩ := bind_eq_ok_iff.mp h
      cases h
      simp [Finding.ofDefect]
  rw [hkinds]
  constructor
  · intro hall
    exact ⟨defects, hdefects, hall⟩
  · rintro ⟨defects', hdefects', hall⟩
    cases hdefects.symm.trans hdefects'
    exact hall

theorem forall_typeFindings_iff {kinds : List DefectKind} {rid : Nat} {findings : List Finding}
    (h : context.typeFindings rid = .ok findings) :
    (∀ finding ∈ findings, finding.kind ∈ kinds) ↔
      ∀ method row, context.metadata.Declares rid method →
        context.metadata.row MethodDefRow method = .ok row → context.OnlyDefects kinds row := by
  obtain ⟨type, methods, parts, hmethods, hparts, rfl⟩ := Metadata.exists_parts_of_methods h
  rw [List.forall_mem_flatten,
    forall_mem_iff_of_mapM_eq_ok hparts fun _ _ _ => forall_methodFindings_iff]
  exact Metadata.forall_mem_methodsOf_iff hmethods

end VerifyContext

namespace Policy

variable {policy : Policy} {metadata : Metadata} {assembly : String}

def ToleratesMethod (policy : Policy) (metadata : Metadata) (assembly : String)
    (row : MethodDefRow) : Prop :=
  VerifyContext.OnlyDefects ⟨metadata, assembly, policy.systemAssembly⟩ policy.toleratedDefects row

theorem passes_eq_true_iff {rid : Nat} {verdict : Bool}
    (h : (Verifier.structural policy metadata assembly).passes rid = .ok verdict) :
    verdict = true ↔
      ∀ method row, metadata.Declares rid method → metadata.row MethodDefRow method = .ok row →
        policy.ToleratesMethod metadata assembly row := by
  obtain ⟨findings, hfindings, h⟩ := bind_eq_ok_iff.mp h
  cases h
  simp only [Verifier.structural, List.all_eq_true, Bool.not_not, List.contains_iff_mem]
  exact VerifyContext.forall_typeFindings_iff hfindings

theorem allPass_eq_true_iff {verdict : Bool}
    (h : (Verifier.structural policy metadata assembly).allPass metadata.typeDefCount =
      .ok verdict) :
    verdict = true ↔
      ∀ rid method row, metadata.Declares rid method →
        metadata.row MethodDefRow method = .ok row →
          policy.ToleratesMethod metadata assembly row := by
  obtain ⟨verdicts, hverdicts, h⟩ := bind_eq_ok_iff.mp h
  cases h
  simp only [List.all_eq_true, id]
  rw [forall_mem_iff_of_mapM_eq_ok hverdicts fun _ _ _ => passes_eq_true_iff]
  constructor
  · intro hall rid method row hdeclares hrow
    exact hall rid (mem_rids.mpr (Metadata.range_of_declares hdeclares)) method row hdeclares hrow
  · intro hall rid _
    exact hall rid

/-! ## References -/

def PassesType (policy : Policy) (metadata : Metadata) (rid : Nat) : Prop :=
  ∃ rows reference, metadata.Refers rows rid reference ∧ (policy.access reference).isSome

theorem passes_iff_passesType {rid : Nat} {outcome : Outcome TypeReference}
    (h : metadata.ReferenceOutcome rid outcome) :
    outcome.Passes (fun reference => (policy.access reference).isSome) ↔
      policy.PassesType metadata rid := by
  cases h with
  | @kept rows reference hrefers =>
      rw [Outcome.passes_kept]
      constructor
      · intro haccess
        exact ⟨rows, reference, hrefers, haccess⟩
      · rintro ⟨rows', reference', hrefers', haccess⟩
        rw [(hrefers.unique hrefers').2]
        exact haccess
  | refused hnone =>
      rw [iff_false_left Outcome.not_passes_refused]
      rintro ⟨rows, reference, hrefers, -⟩
      exact hnone rows reference hrefers

@[simp] theorem checkTypes_eq_nil_iff {references : List TypeReference} :
    policy.checkTypes assembly references = [] ↔
      ∀ reference ∈ references, (policy.access reference).isSome := by
  simp [checkTypes, List.filter_eq_nil_iff, Option.isSome_iff_ne_none]

theorem types_eq_nil_iff {items : List Nat} {outcomes : List (Outcome TypeReference)}
    (h : List.Forall₂ metadata.ReferenceOutcome items outcomes) :
    (Outcome.refusedOf outcomes = [] ∧
      policy.checkTypes assembly (Outcome.keptOf outcomes) = []) ↔
      ∀ rid ∈ items, policy.PassesType metadata rid := by
  rw [checkTypes_eq_nil_iff, ← Outcome.forall_passes_iff]
  induction h with
  | nil => simp
  | cons houtcome _ ih =>
      rw [List.forall_mem_cons, List.forall_mem_cons]
      exact and_congr (passes_iff_passesType houtcome) ih

end Policy

/-! ## The verdict -/

/-- What a policy asks of the rows of an assembly, under the cache that they are read in. -/
structure Policy.AcceptsRows (policy : Policy) (metadata : Metadata) (cache : Cache) : Prop where
  methods : ∀ rid method row, metadata.Declares rid method →
    metadata.row MethodDefRow method = .ok row → row.Managed
  types : ∀ rid, 1 ≤ rid → rid ≤ metadata.rowCount .typeRef → policy.PassesType metadata rid
  members : ∀ rid, 1 ≤ rid → rid ≤ metadata.rowCount .memberRef →
    policy.PassesMember metadata cache rid
  bases : ∀ rid row, metadata.row TypeDefRow rid = .ok row →
    policy.PassesBase metadata cache row.base
  interfaces : ∃ implementations, metadata.implementations = .ok implementations ∧
    ∀ owner interface, (owner, interface) ∈ implementations →
      1 ≤ owner → owner ≤ metadata.typeDefCount → policy.PassesBase metadata cache interface
  layouts : ∀ rid, ¬ metadata.LaysOutFields rid

/-- What a policy asks of an assembly: of its code, and of its rows. -/
structure Policy.Accepts (policy : Policy) (metadata : Metadata) (cache : Cache) : Prop extends
    policy.AcceptsRows metadata cache where
  noNativeCode : metadata.hasNativeCode = false
  bodies : ∃ assembly, metadata.assemblyName = .ok assembly ∧
    ∀ rid method row, metadata.Declares rid method → metadata.row MethodDefRow method = .ok row →
      policy.ToleratesMethod metadata assembly row

@[simp] theorem sortedMessages_eq_nil_iff {found : List Violation} :
    sortedMessages found = [] ↔ found = [] := by
  simp [sortedMessages, sortMessages, ← List.length_eq_zero_iff]

@[simp] theorem Report.isSafe_rejected (assembly : String) :
    (rejected assembly).isSafe = false := rfl

namespace Policy

variable {policy : Policy} {schedule : Schedule} {options : CheckOptions} {metadata : Metadata}

theorem found_eq_nil_iff {assembly : String} {cache : Cache} {found : List Violation}
    (hcache : metadata.CacheSound cache)
    (h : policy.found schedule metadata assembly cache = .ok found) :
    found = [] ↔ policy.AcceptsRows metadata (metadata.settledCache cache) := by
  obtain ⟨references, unmanaged, layouts, accesses, hreferences, hunmanaged, hlayouts, haccesses,
    rfl⟩ := found_eq_ok_iff.mp h
  obtain ⟨types, members, inherited, refused, htypes, hmembers, hinherited, rfl⟩ :=
    (Metadata.references_eq_ok_iff hcache).mp hreferences
  obtain ⟨hsettled, houtcomes⟩ := Metadata.settled_of_typeReferences hcache htypes
  have hmethods := Metadata.unmanagedMethods_eq_nil_iff_declares hunmanaged
  have hlayout := Metadata.explicitLayouts_eq_nil_iff hlayouts
  have hmember := members_eq_nil_iff hsettled hmembers haccesses
  have hbase : (refused = [] ∧ policy.checkInheritance inherited = []) ↔ _ :=
    inheritedTypes_eq_nil_iff hsettled hinherited
  have htype : (Outcome.refusedOf types = [] ∧
      policy.checkTypes assembly (Outcome.keptOf types) = []) ↔
      ∀ rid, 1 ≤ rid → rid ≤ metadata.rowCount .typeRef → policy.PassesType metadata rid := by
    rw [types_eq_nil_iff houtcomes]
    simp only [mem_rids, and_imp]
  simp only [List.append_eq_nil_iff]
  constructor
  · rintro ⟨⟨⟨⟨⟨⟨⟨htypes, hmembers⟩, hbases⟩, htypes'⟩, hbases'⟩, hmethods'⟩, hlayouts'⟩, haccess⟩
    obtain ⟨hbases, hinterfaces⟩ := hbase.mp ⟨hbases, hbases'⟩
    exact ⟨hmethods.mp hmethods', htype.mp ⟨htypes, htypes'⟩, hmember.mp ⟨hmembers, haccess⟩,
      hbases, hinterfaces, hlayout.mp hlayouts'⟩
  · intro haccepts
    obtain ⟨htypes, htypes'⟩ := htype.mpr haccepts.types
    obtain ⟨hmembers, haccess⟩ := hmember.mpr haccepts.members
    obtain ⟨hbases, hbases'⟩ := hbase.mpr ⟨haccepts.bases, haccepts.interfaces⟩
    exact ⟨⟨⟨⟨⟨⟨⟨htypes, hmembers⟩, hbases⟩, htypes'⟩, hbases'⟩, hmethods.mpr haccepts.methods⟩,
      hlayout.mpr haccepts.layouts⟩, haccess⟩

/--
A report calls an assembly safe exactly if the policy accepts it, in whatever order the
work was done and whether or not a cache was kept.
-/
theorem isSafe_iff_accepts {entries : Array LogEntry} {report : Report}
    (hverify : options.verify = true)
    (h : ((policy.checkIn schedule options metadata
      (Verifier.structural policy metadata)).runOn entries).1 = .ok report) :
    report.isSafe = true ↔ policy.Accepts metadata (metadata.settledCache options.cache) := by
  cases checkIn_eq_ok_iff.mp h with
  | native hname hnative =>
      rw [Report.isSafe_rejected, iff_false_left Bool.false_ne_true]
      intro haccepts
      cases hnative.symm.trans haccepts.noNativeCode
  | invalid hname hmanaged _ hinvalid =>
      rw [Report.isSafe_rejected, iff_false_left Bool.false_ne_true]
      intro haccepts
      obtain ⟨assembly, hname', hbodies⟩ := haccepts.bodies
      cases hname.symm.trans hname'
      cases (allPass_eq_true_iff hinvalid).mpr hbodies
  | scanned hname hmanaged hvalid hfound =>
      have hbodies := (allPass_eq_true_iff (hvalid hverify)).mp rfl
      -- The code was accepted before the rows were looked at.
      rw [Report.isSafe, Bool.true_and, List.isEmpty_iff, sortedMessages_eq_nil_iff,
        found_eq_nil_iff (options.cacheSound metadata) hfound]
      constructor
      · intro hrows
        exact ⟨hrows, hmanaged, _, hname, hbodies⟩
      · intro haccepts
        exact haccepts.toAcceptsRows

def trustingPolicy : Policy := ⟨"", [], ["L"], [], []⟩

/-- A type with an abstract method derives from a type of `L` and uses a field of it. -/
def derivedType : Metadata :=
  .ofTables
    [(.module, 1), (.typeRef, 1), (.typeDef, 1), (.methodDef, 1), (.memberRef, 1),
      (.assemblyRef, 1)]
    #[0, 0, 1, 0, 0, 0, 0, 0, 0, 0,
      6, 0, 3, 0, 0, 0,
      0, 0, 0, 0, 1, 0, 0, 0, 5, 0, 1, 0, 1, 0,
      0, 0, 0, 0, 0, 0, 0, 4, 1, 0, 0, 0, 1, 0,
      9, 0, 3, 0, 1, 0,
      0, 0, 0, 0, 0, 0, 0, 0, 0, 0, 0, 0, 0, 0, 5, 0, 0, 0, 0, 0]
    #[0, 77, 0, 84, 0, 76, 0] #[0, 2, 6, 8]

theorem accepts_derivedType :
    ((trustingPolicy.checkIn .inOrder .serial derivedType
      (Verifier.structural trustingPolicy derivedType)).runOn #[]).1 = .ok ⟨"M", true, []⟩ ∧
      trustingPolicy.Accepts derivedType (derivedType.settledCache Cache.disabled) := by
  let base : TypeReference := .top "L" none "T"
  let field : MemberRef :=
    .field (TableId.memberRef.token 1) (.referenced base) "T" (.primitive .int32)
  have hreferences : ((derivedType.references .inOrder).runOn Cache.disabled).1 = .ok _ :=
    (Metadata.references_eq_ok_iff Metadata.cacheSound_disabled).mpr
      ⟨[.kept base], [(1, .kept field)], [⟨.defined none "M", some (.referenced base), []⟩], [],
        rfl, rfl, rfl, rfl⟩
  have hfound : trustingPolicy.found .inOrder derivedType "M" Cache.disabled = .ok [] := by
    refine found_eq_ok_iff.mpr ⟨_, [], [], [], hreferences, rfl, rfl, ?_, rfl⟩
    simp only [Outcome.inRowOrder, List.mergeSort_singleton]
    rfl
  have hcheck : ((trustingPolicy.checkIn .inOrder .serial derivedType
      (Verifier.structural trustingPolicy derivedType)).runOn #[]).1 =
        .ok ⟨"M", true, sortedMessages []⟩ :=
    checkIn_eq_ok_iff.mpr (.scanned rfl rfl (fun _ => rfl) hfound)
  rw [sortedMessages_eq_nil_iff.mpr rfl] at hcheck
  exact ⟨hcheck, (isSafe_iff_accepts rfl hcheck).mp rfl⟩

end Policy

end AssemblyGate
