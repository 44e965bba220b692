import AssemblyGate.Proofs.Settled

/-!
# What a policy makes of members

What can come of a row of the members is listed by `MemberRun`.  A row passes if it is of
no interest, or if it spells out a member that the policy of the type it belongs to
allows.
-/

namespace AssemblyGate

open Fallible

/-! ## Instantiations -/

namespace TypeExpr

/-- A type is a definition, or an instantiation of it, or one of that, and so on. -/
inductive InstanceOf (definition : TypeExpr) : TypeExpr → Prop
  | self : InstanceOf definition definition
  | generic {inner : TypeExpr} {arguments : List TypeExpr} (h : InstanceOf definition inner) :
      InstanceOf definition (.generic inner arguments)

inductive Definition : TypeExpr → Prop
  | top (ns : Option String) (name : String) : Definition (.defined ns name)
  | nested (outer : TypeExpr) (ns : Option String) (name : String) :
      Definition (.definedIn outer ns name)

theorem isOwn_iff (type : TypeExpr) :
    type.isOwn = true ↔ ∃ definition : TypeExpr, definition.Definition ∧ definition.InstanceOf type := by
  induction type using isOwn.induct with
  | case1 ns name =>
      exact ⟨fun _ => ⟨_, .top ns name, .self⟩, fun _ => rfl⟩
  | case2 outer ns name =>
      exact ⟨fun _ => ⟨_, .nested outer ns name, .self⟩, fun _ => rfl⟩
  | case3 inner arguments ih =>
      rw [isOwn, ih]
      constructor
      · rintro ⟨definition, hdefinition, hinstance⟩
        exact ⟨definition, hdefinition, .generic hinstance⟩
      · rintro ⟨definition, hdefinition, hinstance⟩
        cases hinstance with
        | self => cases hdefinition
        | generic hinstance => exact ⟨definition, hdefinition, hinstance⟩
  | case4 type hdefined hdefinedIn hgeneric =>
      constructor
      · intro hown
        cases type <;> simp_all [isOwn]
      · rintro ⟨definition, hdefinition, hinstance⟩
        cases hinstance with
        | self =>
            cases hdefinition with
            | top ns name => exact absurd rfl (hdefined ns name)
            | nested outer ns name => exact absurd rfl (hdefinedIn outer ns name)
        | generic => exact absurd rfl (hgeneric _ _)

end TypeExpr

/-! ## Rows of the members -/

def MemberRefRow.InType (row : MemberRefRow) : Prop :=
  row.parent.table = .typeRef ∨ row.parent.table = .typeDef ∨ row.parent.table = .typeSpec

namespace Metadata

def TypeOf (metadata : Metadata) (cache : Cache) (token : Token) (type : TypeExpr) : Prop :=
  ((metadata.resolve token).runOn cache).1 = .ok type

inductive ParentRun (metadata : Metadata) (cache : Cache) (row : MemberRefRow) :
    Outcome TypeExpr → Prop
  | foreign {violation : Violation} (htable : ¬ row.InType) :
      ParentRun metadata cache row (.refused violation)
  | unmodelled {cause : Unmodelled} (htable : row.InType)
      (hparent : ((metadata.resolve row.parent.token).runOn cache).1 =
        .error (.unmodelled cause)) :
      ParentRun metadata cache row (.refused (.unmodelled cause))
  | own {parent : TypeExpr} (htable : row.parent.table = .typeSpec)
      (hparent : metadata.TypeOf cache row.parent.token parent) (hown : parent.isOwn = true) :
      ParentRun metadata cache row .skipped
  | kept {parent : TypeExpr} (htable : row.InType)
      (hparent : metadata.TypeOf cache row.parent.token parent)
      (hother : row.parent.table = .typeSpec → parent.isOwn = false) :
      ParentRun metadata cache row (.kept parent)

variable {metadata : Metadata} {cache : Cache} {rid : Nat}

theorem parentRun_of_modelled {row : MemberRefRow} {outcome : Outcome TypeExpr}
    (htable : row.InType) (hnot : row.parent.table ≠ .typeSpec)
    (h : ((metadata.resolve row.parent.token).modelled.runOn cache).1 = .ok outcome) :
    metadata.ParentRun cache row outcome := by
  rcases Resolve.modelled_eq_ok h with ⟨parent, hparent, rfl⟩ | ⟨cause, hcause, rfl⟩
  · exact .kept htable hparent fun hspec => absurd hspec hnot
  · exact .unmodelled htable hcause

theorem parentRun (hcache : metadata.Settled cache) {row : MemberRefRow} {name : String}
    {outcome : Outcome TypeExpr}
    (h : ((metadata.memberParent row name).runOn cache).1 = .ok outcome) :
    metadata.ParentRun cache row outcome := by
  unfold memberParent at h
  split at h
  · next htable => exact parentRun_of_modelled (.inl htable) (by simp [htable]) h
  · next htable => exact parentRun_of_modelled (.inr (.inl htable)) (by simp [htable]) h
  · next htable =>
      -- Only under a specification can a type of the assembly itself be a parent to skip.
      rw [(hcache.still_modelled row.parent.token).result_bind, bind_eq_ok_iff] at h
      obtain ⟨first, hfirst, h⟩ := h
      rcases Resolve.modelled_eq_ok hfirst with ⟨parent, hparent, rfl⟩ | ⟨cause, hcause, rfl⟩
      · cases hown : parent.isOwn with
        | true =>
            simp only [hown, if_true] at h
            cases h
            exact .own htable hparent hown
        | false =>
            simp only [hown, Bool.false_eq_true, if_false] at h
            cases h
            exact .kept (.inr (.inr htable)) hparent fun _ => hown
      · cases h
        exact .unmodelled (.inr (.inr htable)) hcause
  · next htable =>
      cases h
      exact .foreign (by simp [MemberRefRow.InType, htable])
  · next htable =>
      cases h
      exact .foreign (by simp [MemberRefRow.InType, htable])
  · next hreference hdefinition hspecification _ _ =>
      cases h
      refine .foreign ?_
      rintro (htable | htable | htable)
      · exact hreference htable
      · exact hdefinition htable
      · exact hspecification htable

inductive SpellsMember (metadata : Metadata) (cache : Cache) (rid : Nat) : MemberRef → Prop
  | intro {row : MemberRefRow} {name : String} {parent : TypeExpr} {signature : Bytes}
      {member : MemberRef} (hrow : metadata.row MemberRefRow rid = .ok row)
      (hname : metadata.string row.name = .ok name) (htable : row.InType)
      (hparent : metadata.TypeOf cache row.parent.token parent)
      (hblob : metadata.blob row.signature = .ok signature)
      (hmember : ((metadata.memberOfSignature (TableId.memberRef.token rid) parent name
        signature).runOn cache).1 = .ok member) :
      SpellsMember metadata cache rid member

/-- A row of the members is about a specification over a type of the assembly itself. -/
inductive InOwnType (metadata : Metadata) (cache : Cache) (rid : Nat) : Prop
  | intro {row : MemberRefRow} {parent definition : TypeExpr}
      (hrow : metadata.row MemberRefRow rid = .ok row) (htable : row.parent.table = .typeSpec)
      (hparent : metadata.TypeOf cache row.parent.token parent)
      (hdefinition : definition.Definition) (hinstance : definition.InstanceOf parent) :
      InOwnType metadata cache rid

inductive MemberRun (metadata : Metadata) (cache : Cache) (rid : Nat) :
    Outcome MemberRef → Prop
  | own (h : metadata.InOwnType cache rid) : MemberRun metadata cache rid .skipped
  | kept {member : MemberRef} (h : metadata.SpellsMember cache rid member)
      (hother : ¬ metadata.InOwnType cache rid) : MemberRun metadata cache rid (.kept member)
  | refused {violation : Violation} (h : ∀ member, ¬ metadata.SpellsMember cache rid member)
      (hother : ¬ metadata.InOwnType cache rid) :
      MemberRun metadata cache rid (.refused violation)

theorem memberRun (hcache : metadata.Settled cache) {outcome : Outcome MemberRef}
    (h : ((metadata.memberReference rid).runOn cache).1 = .ok outcome) :
    metadata.MemberRun cache rid outcome := by
  unfold memberReference at h
  rw [(Still.ofExcept _).result_bind, bind_eq_ok_iff] at h
  obtain ⟨row, hrow, h⟩ := h
  rw [(Still.ofExcept _).result_bind, bind_eq_ok_iff] at h
  obtain ⟨name, hname, h⟩ := h
  rw [(hcache.still_memberParent row name).result_bind, bind_eq_ok_iff] at h
  obtain ⟨parentOutcome, hparentOutcome, h⟩ := h
  cases parentRun hcache hparentOutcome with
  | foreign htable =>
      cases h
      refine .refused ?_ ?_
      · rintro member ⟨hrow', -, htable', -, -, -⟩
        cases hrow.symm.trans hrow'
        exact htable htable'
      · rintro ⟨hrow', htable', -, -, -⟩
        cases hrow.symm.trans hrow'
        exact htable (.inr (.inr htable'))
  | unmodelled htable hcause =>
      cases h
      refine .refused ?_ ?_
      · rintro member ⟨hrow', -, -, hparent', -, -⟩
        cases hrow.symm.trans hrow'
        cases hcause.symm.trans hparent'
      · rintro ⟨hrow', -, hparent', -, -⟩
        cases hrow.symm.trans hrow'
        cases hcause.symm.trans hparent'
  | own htable hparent hown =>
      cases h
      obtain ⟨definition, hdefinition, hinstance⟩ := (TypeExpr.isOwn_iff _).mp hown
      exact .own ⟨hrow, htable, hparent, hdefinition, hinstance⟩
  | @kept parent htable hparent hother =>
      rw [(Still.ofExcept _).result_bind, bind_eq_ok_iff] at h
      obtain ⟨signature, hblob, h⟩ := h
      have hforeign : ¬ metadata.InOwnType cache rid := by
        rintro ⟨hrow', htable', hparent', hdefinition, hinstance⟩
        cases hrow.symm.trans hrow'
        cases hparent.symm.trans hparent'
        have hown := (TypeExpr.isOwn_iff parent).mpr ⟨_, hdefinition, hinstance⟩
        rw [hother htable'] at hown
        cases hown
      rcases Resolve.modelled_eq_ok h with ⟨member, hmember, rfl⟩ | ⟨cause, hcause, rfl⟩
      · exact .kept ⟨hrow, hname, htable, hparent, hblob, hmember⟩ hforeign
      · refine .refused ?_ hforeign
        rintro member ⟨hrow', hname', -, hparent', hblob', hmember'⟩
        cases hrow.symm.trans hrow'
        cases hname.symm.trans hname'
        cases hparent.symm.trans hparent'
        cases hblob.symm.trans hblob'
        cases hcause.symm.trans hmember'

theorem SpellsMember.unique {member member' : MemberRef}
    (h : metadata.SpellsMember cache rid member) (h' : metadata.SpellsMember cache rid member') :
    member = member' := by
  obtain ⟨hrow, hname, -, hparent, hblob, hmember⟩ := h
  obtain ⟨hrow', hname', -, hparent', hblob', hmember'⟩ := h'
  cases hrow.symm.trans hrow'
  cases hname.symm.trans hname'
  cases hparent.symm.trans hparent'
  cases hblob.symm.trans hblob'
  cases hmember.symm.trans hmember'
  rfl

end Metadata

/-! ## Members under a policy -/

namespace Policy

inductive AllowsMember (policy : Policy) (member : MemberRef) : Prop
  | free (h : member.parent.governing = .ok none)
  | granted {reference : TypeReference} {type : TypePolicy}
      (hgoverning : member.parent.governing = .ok (some reference))
      (haccess : policy.access reference = some type)
      (hmember : type.all = true ∨ type.allowsMember member = true)

variable {policy : Policy} {metadata : Metadata} {cache : Cache} {rid : Nat}

@[simp] theorem checkMember_eq_none_iff {member : MemberRef} :
    policy.checkMember member = .ok none ↔ policy.AllowsMember member := by
  constructor
  · intro h
    obtain ⟨governing, hgoverning, h⟩ := bind_eq_ok_iff.mp h
    cases governing with
    | none => exact .free hgoverning
    | some reference =>
        cases haccess : policy.access reference with
        | none =>
            simp only [haccess] at h
            cases h
        | some type =>
            simp only [haccess] at h
            split at h
            · next hallowed => exact .granted hgoverning haccess (Bool.or_eq_true_iff.mp hallowed)
            · cases h
  · intro h
    refine bind_eq_ok_iff.mpr ?_
    cases h with
    | free hgoverning => exact ⟨none, hgoverning, rfl⟩
    | @granted reference type hgoverning haccess hmember =>
        refine ⟨some reference, hgoverning, ?_⟩
        have hallowed : (type.all || type.allowsMember member) = true := by simpa using hmember
        simp only [haccess, hallowed, if_true]
        rfl

inductive PassesMember (policy : Policy) (metadata : Metadata) (cache : Cache) (rid : Nat) : Prop
  | own (h : metadata.InOwnType cache rid)
  | allowed {member : MemberRef} (h : metadata.SpellsMember cache rid member)
      (hallowed : policy.AllowsMember member)

theorem passes_iff_passesMember {outcome : Outcome MemberRef}
    (h : metadata.MemberRun cache rid outcome) :
    outcome.Passes policy.AllowsMember ↔ policy.PassesMember metadata cache rid := by
  cases h with
  | own hown =>
      rw [iff_true_left Outcome.passes_skipped]
      exact .own hown
  | kept hmember hother =>
      rw [Outcome.passes_kept]
      constructor
      · exact .allowed hmember
      · rintro (hown | ⟨hmember', hallowed⟩)
        · exact absurd hown hother
        · rw [hmember.unique hmember']
          exact hallowed
  | refused hnone hother =>
      rw [iff_false_left Outcome.not_passes_refused]
      rintro (hown | ⟨hmember, -⟩)
      · exact hother hown
      · exact hnone _ hmember

theorem exists_checkMembers_eq_ok_iff {members : List MemberRef} :
    (∃ found, policy.checkMembers members = .ok found) ↔
      ∀ member ∈ members, ∃ base, member.parent.governing = .ok base := by
  have hmember : ∀ member, (∃ result, policy.checkMember member = .ok result) ↔
      ∃ base, member.parent.governing = .ok base := by
    intro member
    simp only [checkMember, bind_eq_ok_iff]
    constructor
    · rintro ⟨_, base, hbase, -⟩
      exact ⟨base, hbase⟩
    · rintro ⟨base, hbase⟩
      cases base with
      | none => exact ⟨_, none, hbase, rfl⟩
      | some reference =>
          cases haccess : policy.access reference with
          | none => exact ⟨_, some reference, hbase, by simp only [haccess]; rfl⟩
          | some type => exact ⟨_, some reference, hbase, by simp only [haccess]; rfl⟩
  simp only [← hmember, ← exists_mapM_eq_ok_iff, checkMembers, bind_eq_ok_iff]
  constructor
  · rintro ⟨_, results, hresults, -⟩
    exact ⟨results, hresults⟩
  · rintro ⟨results, hresults⟩
    exact ⟨_, results, hresults, rfl⟩

theorem checkMembers_eq_nil_iff {members : List MemberRef} {found : List Violation}
    (h : policy.checkMembers members = .ok found) :
    found = [] ↔ ∀ member ∈ members, policy.AllowsMember member := by
  obtain ⟨results, hresults, hfound⟩ := bind_eq_ok_iff.mp h
  cases hfound
  rw [List.filterMap_eq_nil_iff]
  refine forall_mem_iff_of_mapM_eq_ok hresults fun member _ result hresult => ?_
  rw [← checkMember_eq_none_iff, hresult]
  simp

theorem members_eq_nil_iff {schedule : Schedule} {members : List (Nat × Outcome MemberRef)}
    {found : List Violation} (hcache : metadata.Settled cache)
    (hmembers : ((metadata.memberReferencesIn schedule).runOn cache).1 = .ok members)
    (hfound : policy.checkMembers
      (schedule.members (Outcome.keptOf (Outcome.inRowOrder members))) = .ok found) :
    Outcome.refusedOf (members.map Prod.snd) = [] ∧ found = [] ↔
      ∀ rid, 1 ≤ rid → rid ≤ metadata.rowCount .memberRef →
        policy.PassesMember metadata cache rid := by
  have hkept : ∀ member, member ∈ schedule.members (Outcome.keptOf (Outcome.inRowOrder members)) ↔
      member ∈ Outcome.keptOf (members.map Prod.snd) := by
    intro member
    rw [(schedule.members_perm _).mem_iff]
    simp [Outcome.keptOf, Outcome.inRowOrder]
  rw [hcache.result_memberReferencesIn] at hmembers
  have hpasses : (∀ entry ∈ members, entry.2.Passes policy.AllowsMember) ↔
      ∀ rid ∈ schedule.rows (rids (metadata.rowCount .memberRef)),
        policy.PassesMember metadata cache rid := by
    refine forall_mem_iff_of_mapM_eq_ok hmembers fun rid _ entry hentry => ?_
    cases houtcome : ((metadata.memberReference rid).runOn cache).1 with
    | error error =>
        rw [houtcome] at hentry
        cases hentry
    | ok outcome =>
        rw [houtcome] at hentry
        cases hentry
        exact passes_iff_passesMember (Metadata.memberRun hcache houtcome)
  simp only [checkMembers_eq_nil_iff hfound, hkept]
  rw [← Outcome.forall_passes_iff, List.forall_mem_map, hpasses]
  simp only [(schedule.rows_perm _).mem_iff, mem_rids, and_imp]

end Policy

end AssemblyGate
