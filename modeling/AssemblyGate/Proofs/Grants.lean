import Mathlib.Data.List.Perm.Subperm
import AssemblyGate.Proofs.Verdict

/-!
# More grants

A policy may be widened: more assemblies are trusted, or more namespaces.  A grant that is
added replaces whatever the policy said of a type by full access, and with full access every
scan is content.  So a check under the wider policy gives a report exactly when it did
before, and finds some of the violations that it found before, but no others.
-/

namespace AssemblyGate

structure Report.Narrows (before after : Report) : Prop where
  assembly : after.assembly = before.assembly
  bytecodeValid : after.bytecodeValid = before.bytecodeValid
  violations : after.violations.Subperm before.violations

namespace Policy

variable {policy wider : Policy}

/-- One policy trusts all that another one trusts, and is the same otherwise. -/
structure Widens (policy wider : Policy) : Prop where
  namespaces : policy.namespaces ⊆ wider.namespaces
  assemblies : policy.assemblies ⊆ wider.assemblies
  types : wider.types = policy.types
  systemAssembly : wider.systemAssembly = policy.systemAssembly
  toleratedDefects : wider.toleratedDefects = policy.toleratedDefects

theorem widens_withAssembly (policy : Policy) (assembly : String) :
    policy.Widens (policy.withAssembly assembly) := by
  unfold withAssembly
  split
  · exact ⟨List.Subset.refl _, List.Subset.refl _, rfl, rfl, rfl⟩
  · exact ⟨List.Subset.refl _, List.subset_append_left _ _, rfl, rfl, rfl⟩

/-! ## Access -/

theorem Widens.trustsNamespace (h : policy.Widens wider) {ns : String}
    (htrusts : policy.trustsNamespace ns = true) : wider.trustsNamespace ns = true := by
  simp only [Policy.trustsNamespace, List.any_eq_true] at htrusts ⊢
  obtain ⟨start, hstart, hns⟩ := htrusts
  exact ⟨start, h.namespaces hstart, hns⟩

theorem Widens.trustsAssembly (h : policy.Widens wider) {assembly : String}
    (htrusts : policy.trustsAssembly assembly = true) : wider.trustsAssembly assembly = true := by
  simp only [Policy.trustsAssembly, List.contains_iff_mem] at htrusts ⊢
  exact h.assemblies htrusts

theorem Widens.typePolicy? (h : policy.Widens wider) (ns name : String) :
    wider.typePolicy? ns name = policy.typePolicy? ns name := by
  simp only [Policy.typePolicy?, h.types]

def Regrants (before after : Option TypePolicy) : Prop :=
  after = before ∨ after = some .allowAll

theorem Regrants.ite {trusted trusted' : Bool} {before after : Option TypePolicy}
    (htrusted : trusted = true → trusted' = true) (h : Regrants before after) :
    Regrants (if trusted then some .allowAll else before)
      (if trusted' then some .allowAll else after) := by
  cases trusted' with
  | true => exact .inr rfl
  | false =>
      cases trusted with
      | true => cases htrusted rfl
      | false => exact h

theorem Regrants.nested {before after : Option TypePolicy} (h : Regrants before after)
    (name : String) :
    Regrants (before.bind fun outer => nestedAccess outer name)
      (after.bind fun outer => nestedAccess outer name) := by
  rcases h with rfl | rfl
  · exact .inl rfl
  · exact .inr rfl

theorem Widens.access (h : policy.Widens wider) :
    (reference : TypeReference) → Regrants (policy.access reference) (wider.access reference)
  | .top assembly (some ns) name => by
      simp only [Policy.access, h.typePolicy?]
      exact .ite h.trustsNamespace (.ite h.trustsAssembly (.inl rfl))
  | .top assembly none name => by
      simp only [Policy.access]
      exact .ite h.trustsAssembly (.inl rfl)
  | .nested _ (some ns) name => by
      simp only [Policy.access, h.typePolicy?]
      exact .ite h.trustsNamespace (.inl rfl)
  | .nested scope none name => by
      -- Without a namespace of its own, a nested type has what the type around it grants.
      cases scope with
      | referenced outer => exact (h.access outer).nested name
      | _ => exact .inl rfl

/-! ## Scans -/

theorem Widens.checkTypes (h : policy.Widens wider) (assembly : String)
    (references : List TypeReference) :
    (wider.checkTypes assembly references).Sublist (policy.checkTypes assembly references) := by
  refine List.Sublist.map _ (List.monotone_filter_right _ ?_)
  intro reference hdenied
  rcases h.access reference with hsame | hall
  · rwa [← hsame]
  · simp [hall] at hdenied

theorem Widens.mayInherit (h : policy.Widens wider) {base : TypeExpr}
    (hmay : policy.mayInherit base = true) : wider.mayInherit base = true := by
  rw [mayInherit_iff] at hmay ⊢
  intro reference hexternal
  obtain ⟨type, haccess, hinherit⟩ := hmay reference hexternal
  rcases h.access reference with hsame | hall
  · exact ⟨type, hsame.trans haccess, hinherit⟩
  · exact ⟨.allowAll, hall, rfl⟩

theorem Widens.checkInherited (h : policy.Widens wider) (inherited : InheritedType) :
    (wider.checkInherited inherited).Sublist (policy.checkInherited inherited) := by
  have hbases : ∀ bases : List TypeExpr, (bases.filter fun base => !wider.mayInherit base).Sublist
      (bases.filter fun base => !policy.mayInherit base) := by
    intro bases
    refine List.monotone_filter_right _ ?_
    intro base hblocked
    cases hmay : policy.mayInherit base with
    | false => rfl
    | true => simp [h.mayInherit hmay] at hblocked
  exact ((hbases _).map _).append ((hbases _).map _)

theorem Widens.checkInheritance (h : policy.Widens wider) (types : List InheritedType) :
    (wider.checkInheritance types).Sublist (policy.checkInheritance types) := by
  induction types with
  | nil => exact .slnil
  | cons inherited types ih => exact (h.checkInherited inherited).append ih

theorem Widens.checkMember (h : policy.Widens wider) {member : MemberRef}
    {before after : Option Violation} (hbefore : policy.checkMember member = .ok before)
    (hafter : wider.checkMember member = .ok after) : after = before ∨ after = none := by
  obtain ⟨governing, hgoverning, hbefore⟩ := bind_eq_ok_iff.mp hbefore
  obtain ⟨governing', hgoverning', hafter⟩ := bind_eq_ok_iff.mp hafter
  cases hgoverning.symm.trans hgoverning'
  cases governing with
  | none =>
      cases hafter
      exact .inr rfl
  | some reference =>
      rcases h.access reference with hsame | hall
      · simp only [hsame] at hafter
        exact .inl (Except.ok.inj (hafter.symm.trans hbefore))
      · simp only [hall] at hafter
        cases hafter
        exact .inr rfl

theorem Widens.checkMembers (h : policy.Widens wider) {members : List MemberRef}
    {before after : List Violation} (hbefore : policy.checkMembers members = .ok before)
    (hafter : wider.checkMembers members = .ok after) : after.Sublist before := by
  rw [Policy.checkMembers, bind_eq_ok_iff] at hbefore hafter
  obtain ⟨results, hresults, hbefore⟩ := hbefore
  obtain ⟨results', hresults', hafter⟩ := hafter
  cases hbefore
  cases hafter
  rw [mapM_eq_ok_iff] at hresults hresults'
  induction hresults generalizing results' with
  | nil =>
      cases hresults'
      exact .slnil
  | @cons member result _ _ hresult _ ih =>
      obtain ⟨result', others', hresult', hothers', rfl⟩ := List.forall₂_cons_left_iff.mp hresults'
      rcases h.checkMember hresult hresult' with rfl | rfl
      · cases result' with
        | none => exact ih others' hothers'
        | some violation => exact (ih others' hothers').cons_cons violation
      · cases result with
        | none => exact ih others' hothers'
        | some violation => exact (ih others' hothers').cons violation

/-! ## Reports -/

section

variable {schedule : Schedule} {metadata : Metadata}

theorem exists_found_eq_ok_of_found (other : Policy) {assembly : String} {cache : Cache}
    {found : List Violation} (h : policy.found schedule metadata assembly cache = .ok found) :
    ∃ found', other.found schedule metadata assembly cache = .ok found' := by
  obtain ⟨references, unmanaged, layouts, members, hreferences, hunmanaged, hlayouts, hmembers,
    -⟩ := found_eq_ok_iff.mp h
  obtain ⟨members', hmembers'⟩ := (@exists_checkMembers_eq_ok_iff other _).mpr
    (exists_checkMembers_eq_ok_iff.mp ⟨members, hmembers⟩)
  exact ⟨_, found_eq_ok_iff.mpr ⟨references, unmanaged, layouts, members', hreferences,
    hunmanaged, hlayouts, hmembers', rfl⟩⟩

theorem Widens.found (h : policy.Widens wider) {assembly : String} {cache : Cache}
    {before after : List Violation}
    (hbefore : policy.found schedule metadata assembly cache = .ok before)
    (hafter : wider.found schedule metadata assembly cache = .ok after) :
    after.Sublist before := by
  obtain ⟨references, unmanaged, layouts, members, hreferences, hunmanaged, hlayouts, hmembers,
    rfl⟩ := found_eq_ok_iff.mp hbefore
  obtain ⟨references', unmanaged', layouts', members', hreferences', hunmanaged', hlayouts',
    hmembers', rfl⟩ := found_eq_ok_iff.mp hafter
  cases hreferences.symm.trans hreferences'
  cases hunmanaged.symm.trans hunmanaged'
  cases hlayouts.symm.trans hlayouts'
  have htypes := h.checkTypes assembly references.types
  have hinherited := h.checkInheritance references.inherited
  exact (((((List.Sublist.refl _).append htypes).append hinherited).append (.refl _)).append
    (.refl _)).append (h.checkMembers hmembers hmembers')

theorem Widens.structural (h : policy.Widens wider) :
    Verifier.structural wider metadata = Verifier.structural policy metadata := by
  funext assembly
  simp only [Verifier.structural, h.systemAssembly, h.toleratedDefects]

end

theorem subperm_sortedMessages {before after : List Violation} (h : after.Sublist before) :
    (sortedMessages after).Subperm (sortedMessages before) := by
  have hsorted : ∀ found, (sortedMessages found).Perm (found.map Violation.message) :=
    fun found => List.mergeSort_perm _ _
  exact (hsorted after).subperm.trans ((h.map _).subperm.trans (hsorted before).symm.subperm)

section

variable {schedule : Schedule} {options : CheckOptions} {metadata : Metadata}

theorem Reports.unique {verifier : String → Verifier} {report report' : Report}
    (h : policy.Reports schedule options metadata verifier report)
    (h' : policy.Reports schedule options metadata verifier report') : report = report' :=
  Except.ok.inj (h.report_eq.symm.trans h'.report_eq)

theorem exists_reports_of_reports {other : Policy} {verifier : String → Verifier}
    {report : Report} (h : policy.Reports schedule options metadata verifier report) :
    ∃ report', other.Reports schedule options metadata verifier report' := by
  cases h with
  | native hname hnative => exact ⟨_, .native hname hnative⟩
  | invalid hname hmanaged hverify hinvalid =>
      exact ⟨_, .invalid hname hmanaged hverify hinvalid⟩
  | scanned hname hmanaged hvalid hfound =>
      obtain ⟨found', hfound'⟩ := exists_found_eq_ok_of_found other hfound
      exact ⟨_, .scanned hname hmanaged hvalid hfound'⟩

theorem Widens.narrows (h : policy.Widens wider) {verifier : String → Verifier}
    {before after : Report}
    (hbefore : policy.Reports schedule options metadata verifier before)
    (hafter : wider.Reports schedule options metadata verifier after) :
    before.Narrows after := by
  cases hbefore with
  | native hname hnative =>
      obtain rfl := Reports.unique (.native hname hnative) hafter
      exact ⟨rfl, rfl, .refl _⟩
  | invalid hname hmanaged hverify hinvalid =>
      obtain rfl := Reports.unique (.invalid hname hmanaged hverify hinvalid) hafter
      exact ⟨rfl, rfl, .refl _⟩
  | scanned hname hmanaged hvalid hfound =>
      obtain ⟨found', hfound'⟩ := exists_found_eq_ok_of_found wider hfound
      obtain rfl := Reports.unique (.scanned hname hmanaged hvalid hfound') hafter
      exact ⟨rfl, rfl, subperm_sortedMessages (h.found hfound hfound')⟩

end

/--
Grants can be added without harm.  What a wider policy says of a type is what was said
before, or that it may be used in full; a check gives a report under the one policy exactly
when it does under the other, on the same assembly and with the same judgement of its code;
and all violations that are left were there before, as often as they are now.
-/
theorem check_of_widens (h : policy.Widens wider) :
    (∀ reference, wider.access reference = policy.access reference ∨
      wider.access reference = some .allowAll) ∧
    ∀ (schedule : Schedule) (options : CheckOptions) (metadata : Metadata)
      (entries : Array LogEntry),
      ((∃ report, ((policy.checkIn schedule options metadata
          (Verifier.structural policy metadata)).runOn entries).1 = .ok report) ↔
        ∃ report, ((wider.checkIn schedule options metadata
          (Verifier.structural wider metadata)).runOn entries).1 = .ok report) ∧
      ∀ before after,
        ((policy.checkIn schedule options metadata
          (Verifier.structural policy metadata)).runOn entries).1 = .ok before →
        ((wider.checkIn schedule options metadata
          (Verifier.structural wider metadata)).runOn entries).1 = .ok after →
        before.Narrows after := by
  refine ⟨h.access, ?_⟩
  intro schedule options metadata entries
  simp only [checkIn_eq_ok_iff, h.structural]
  constructor
  · constructor
    · rintro ⟨report, hreport⟩
      exact exists_reports_of_reports hreport
    · rintro ⟨report, hreport⟩
      exact exists_reports_of_reports hreport
  · intro before after hbefore hafter
    exact h.narrows hbefore hafter

def strictPolicy : Policy := ⟨"", [], [], [], []⟩

/-- A type derives from a type of `L`, and a type that is nested in that one is referred to. -/
def nestedTypes : Metadata :=
  .ofTables [(.module, 1), (.typeRef, 2), (.typeDef, 1), (.assemblyRef, 1)]
    #[0, 0, 1, 0, 0, 0, 0, 0, 0, 0,
      6, 0, 3, 0, 0, 0,
      7, 0, 3, 0, 0, 0,
      0, 0, 0, 0, 1, 0, 0, 0, 5, 0, 1, 0, 1, 0,
      0, 0, 0, 0, 0, 0, 0, 0, 0, 0, 0, 0, 0, 0, 5, 0, 0, 0, 0, 0]
    #[0, 77, 0, 84, 0, 76, 0] #[0]

theorem check_nestedTypes_withAssembly :
    ∃ before after,
      ((strictPolicy.checkIn .inOrder .serial nestedTypes
        (Verifier.structural strictPolicy nestedTypes)).runOn #[]).1 = .ok before ∧
      (((strictPolicy.withAssembly "L").checkIn .inOrder .serial nestedTypes
        (Verifier.structural (strictPolicy.withAssembly "L") nestedTypes)).runOn #[]).1 =
          .ok after ∧
      before.violations.length = 3 ∧ before.Narrows after := by
  let outer : TypeReference := .top "L" none "T"
  let inner : TypeReference := .nested (.referenced outer) none "T"
  have hreferences : ((nestedTypes.references .inOrder).runOn Cache.disabled).1 = .ok _ :=
    (Metadata.references_eq_ok_iff Metadata.cacheSound_disabled).mpr
      ⟨[.kept outer, .kept inner], [], [⟨.defined none "M", some (.referenced outer), []⟩], [],
        rfl, rfl, rfl, rfl⟩
  have hfound : strictPolicy.found .inOrder nestedTypes "M" Cache.disabled =
      .ok [.typeAccess outer "M", .typeAccess inner "M", .baseType (.referenced outer)] := by
    refine found_eq_ok_iff.mpr ⟨_, [], [], [], hreferences, rfl, rfl, ?_, rfl⟩
    simp only [Outcome.inRowOrder, List.mergeSort_nil]
    rfl
  have hbefore : ((strictPolicy.checkIn .inOrder .serial nestedTypes
      (Verifier.structural strictPolicy nestedTypes)).runOn #[]).1 =
        .ok ⟨"M", true, sortedMessages _⟩ :=
    checkIn_eq_ok_iff.mpr (.scanned rfl rfl (fun _ => rfl) hfound)
  obtain ⟨hiff, hnarrows⟩ :=
    (check_of_widens (widens_withAssembly strictPolicy "L")).2 .inOrder .serial nestedTypes #[]
  obtain ⟨after, hafter⟩ := hiff.mp ⟨_, hbefore⟩
  exact ⟨_, after, hbefore, hafter, by simp [sortedMessages, sortMessages],
    hnarrows _ _ hbefore hafter⟩

end Policy

end AssemblyGate
