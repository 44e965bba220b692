import AssemblyGate.Check
import AssemblyGate.Proofs.Fallible

/-!
# The report without the log

A check writes a log on its way, but nothing that it decides depends on the log.  So the
report of a check is told by a plain result, and a report that was given tells how it
came about.
-/

namespace AssemblyGate

open Fallible

theorem yields_log (entry : LogEntry) : Yields (log entry) (.ok ()) := fun _ => rfl

theorem yields_logTotal (count : Nat) : Yields (logTotal count) (.ok ()) := fun _ => rfl

theorem yields_endPhase (name : String) (violations : List Violation) :
    Yields (endPhase name violations) (.ok ()) :=
  .after (yields_logTotal _) (yields_log _)

namespace Verifier

variable (verifier : Verifier)

def passes (rid : Nat) : Except Error Bool := do
  let findings ← verifier.findings rid
  pure (findings.all fun finding => !verifier.isViolation finding)

def allPass (typeDefs : Nat) : Except Error Bool := do
  let verdicts ← (rids typeDefs).mapM verifier.passes
  pure (verdicts.all id)

theorem yields_logFinding (assembly : String) (finding : Finding) :
    Yields (verifier.logFinding assembly finding) (.ok ()) := by
  unfold logFinding
  split <;> exact yields_log _

theorem yields_verifyType (assembly : String) (rid : Nat) :
    Yields (verifier.verifyType assembly rid) (verifier.passes rid) :=
  .bind (.ofExcept _) fun findings =>
    .after (.forM (verifier.yields_logFinding assembly) findings) (.pure _)

theorem yields_verifyAll (assembly : String) (typeDefs : Nat) :
    Yields (verifier.verifyAll assembly typeDefs) (verifier.allPass typeDefs) := by
  refine .after (yields_log _) (.bind (.mapM (verifier.yields_verifyType assembly) _) ?_)
  exact fun verdicts => .after (yields_log _) (.pure _)

end Verifier

namespace Policy

variable (policy : Policy)

def found (schedule : Schedule) (metadata : Metadata) (assembly : String) (cache : Cache) :
    Except Error (List Violation) := do
  let references ← ((metadata.references schedule).runOn cache).1
  let unmanaged ← metadata.unmanagedMethods
  let layouts ← metadata.explicitLayouts
  let members ← policy.checkMembers (schedule.members references.members)
  pure (references.refused ++ policy.checkTypes assembly references.types ++
    policy.checkInheritance references.inherited ++ unmanaged ++ layouts ++ members)

theorem yields_violations (schedule : Schedule) (metadata : Metadata) (assembly : String)
    (cache : Cache) :
    Yields (policy.violations schedule metadata assembly cache)
      (policy.found schedule metadata assembly cache) := by
  refine .bind (.ofExcept _) fun references => .after (yields_log _) ?_
  refine .after (yields_endPhase _ _) (.after (yields_endPhase _ _) ?_)
  refine .after (yields_endPhase _ _) (.bind (.ofExcept _) fun unmanaged => ?_)
  refine .after (yields_endPhase _ _) (.bind (.ofExcept _) fun layouts => ?_)
  refine .after (yields_endPhase _ _) (.bind (.ofExcept _) fun members => ?_)
  exact .after (yields_endPhase _ _) (.pure _)

def report (schedule : Schedule) (options : CheckOptions) (metadata : Metadata)
    (verifier : String → Verifier) : Except Error Report := do
  let assembly ← metadata.assemblyName
  if metadata.hasNativeCode then
    pure (.rejected assembly)
  else
    let valid ←
      if options.verify then (verifier assembly).allPass metadata.typeDefCount else pure true
    if valid then
      let found ← policy.found schedule metadata assembly options.cache
      pure ⟨assembly, true, sortedMessages found⟩
    else
      pure (.rejected assembly)

theorem yields_checkIn (schedule : Schedule) (options : CheckOptions) (metadata : Metadata)
    (verifier : String → Verifier) :
    Yields (policy.checkIn schedule options metadata verifier)
      (policy.report schedule options metadata verifier) := by
  refine .bind (.ofExcept _) fun assembly => .ite (.after (yields_log _) (.pure _)) ?_
  refine .ite (.bind ((verifier assembly).yields_verifyAll assembly _) ?rest) (.bind (.pure _) ?rest)
  intro valid
  refine .ite ?_ (.after (yields_log _) (.pure _))
  refine .bind (policy.yields_violations schedule metadata assembly _) fun found => ?_
  refine .after (.forM (fun message => yields_log _) _) ?_
  exact .after (yields_logTotal _) (.after (yields_log _) (.pure _))

end Policy

/-! ## How a report comes about -/

namespace Policy

variable {policy : Policy} {schedule : Schedule} {options : CheckOptions} {metadata : Metadata}
  {verifier : String → Verifier}

theorem found_eq_ok_iff {assembly : String} {cache : Cache} {found : List Violation} :
    policy.found schedule metadata assembly cache = .ok found ↔
      ∃ references unmanaged layouts members,
        ((metadata.references schedule).runOn cache).1 = .ok references ∧
        metadata.unmanagedMethods = .ok unmanaged ∧
        metadata.explicitLayouts = .ok layouts ∧
        policy.checkMembers (schedule.members references.members) = .ok members ∧
        found = references.refused ++ policy.checkTypes assembly references.types ++
          policy.checkInheritance references.inherited ++ unmanaged ++ layouts ++ members := by
  simp only [Policy.found, bind_eq_ok_iff]
  constructor
  · rintro ⟨references, hreferences, unmanaged, hunmanaged, layouts, hlayouts, members, hmembers,
      hfound⟩
    cases hfound
    exact ⟨references, unmanaged, layouts, members, hreferences, hunmanaged, hlayouts, hmembers,
      rfl⟩
  · rintro ⟨references, unmanaged, layouts, members, hreferences, hunmanaged, hlayouts, hmembers,
      rfl⟩
    exact ⟨references, hreferences, unmanaged, hunmanaged, layouts, hlayouts, members, hmembers,
      rfl⟩

/-- The three ways in which a report comes about. -/
inductive Reports (policy : Policy) (schedule : Schedule) (options : CheckOptions)
    (metadata : Metadata) (verifier : String → Verifier) : Report → Prop
  | native {assembly : String} (hname : metadata.assemblyName = .ok assembly)
      (hnative : metadata.hasNativeCode = true) :
      Reports policy schedule options metadata verifier (.rejected assembly)
  | invalid {assembly : String} (hname : metadata.assemblyName = .ok assembly)
      (hmanaged : metadata.hasNativeCode = false) (hverify : options.verify = true)
      (hinvalid : (verifier assembly).allPass metadata.typeDefCount = .ok false) :
      Reports policy schedule options metadata verifier (.rejected assembly)
  | scanned {assembly : String} {found : List Violation}
      (hname : metadata.assemblyName = .ok assembly) (hmanaged : metadata.hasNativeCode = false)
      (hvalid : options.verify = true →
        (verifier assembly).allPass metadata.typeDefCount = .ok true)
      (hfound : policy.found schedule metadata assembly options.cache = .ok found) :
      Reports policy schedule options metadata verifier ⟨assembly, true, sortedMessages found⟩

theorem reports_of_report {report : Report}
    (h : policy.report schedule options metadata verifier = .ok report) :
    policy.Reports schedule options metadata verifier report := by
  obtain ⟨assembly, hname, h⟩ := bind_eq_ok_iff.mp h
  cases hnative : metadata.hasNativeCode with
  | true =>
      simp only [hnative, if_true] at h
      cases h
      exact .native hname hnative
  | false =>
      simp only [hnative, Bool.false_eq_true, if_false] at h
      cases hverify : options.verify with
      | false =>
          simp only [hverify, Bool.false_eq_true, if_false, pure_bind, if_true] at h
          obtain ⟨found, hfound, h⟩ := bind_eq_ok_iff.mp h
          cases h
          exact .scanned hname hnative (by simp [hverify]) hfound
      | true =>
          simp only [hverify, if_true] at h
          obtain ⟨valid, hvalid, h⟩ := bind_eq_ok_iff.mp h
          cases valid with
          | false =>
              cases h
              exact .invalid hname hnative hverify hvalid
          | true =>
              obtain ⟨found, hfound, h⟩ := bind_eq_ok_iff.mp h
              cases h
              exact .scanned hname hnative (fun _ => hvalid) hfound

theorem Reports.report_eq {report : Report}
    (h : policy.Reports schedule options metadata verifier report) :
    policy.report schedule options metadata verifier = .ok report := by
  cases h with
  | native hname hnative =>
      refine bind_eq_ok_iff.mpr ⟨_, hname, ?_⟩
      simp only [hnative, if_true]
      rfl
  | invalid hname hmanaged hverify hinvalid =>
      refine bind_eq_ok_iff.mpr ⟨_, hname, ?_⟩
      simp only [hmanaged, hverify, hinvalid, Bool.false_eq_true, if_false, if_true]
      rfl
  | scanned hname hmanaged hvalid hfound =>
      refine bind_eq_ok_iff.mpr ⟨_, hname, ?_⟩
      cases hverify : options.verify with
      | false =>
          simp only [hmanaged, hfound, Bool.false_eq_true, if_false, if_true, pure_bind]
          rfl
      | true =>
          simp only [hmanaged, hvalid hverify, hfound, Bool.false_eq_true, if_false, if_true]
          rfl

theorem checkIn_eq_ok_iff {report : Report} {entries : Array LogEntry} :
    ((policy.checkIn schedule options metadata verifier).runOn entries).1 = .ok report ↔
      policy.Reports schedule options metadata verifier report := by
  rw [yields_checkIn]
  exact ⟨reports_of_report, Reports.report_eq⟩

end Policy

end AssemblyGate
