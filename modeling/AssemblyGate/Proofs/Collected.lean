import AssemblyGate.Proofs.Answers
import AssemblyGate.Proofs.Orders
import AssemblyGate.Proofs.Tables
import AssemblyGate.Proofs.Tokens

/-!
# What is collected of an assembly

Members and bases are collected row by row while the cache fills.  No row is lost: a row of the
members is a member with its own token, or one violation, or it is about a type of the assembly
itself.  A type has the base and the interfaces that its rows name, in the order of the table,
whichever order it was that the rows of the interfaces came in.
-/

namespace AssemblyGate

open Fallible

/-! ## Outcomes -/

theorem forall₂_and_map_iff {ι β : Type} {f : ι → β} {p : ι → Prop} {items : List ι}
    {values : List β} :
    List.Forall₂ (fun item value => p item ∧ f item = value) items values ↔
      (∀ item ∈ items, p item) ∧ items.map f = values := by
  rw [List.forall₂_and_left, ← List.forall₂_eq_eq_eq, List.forall₂_map_left_iff]

namespace Outcome

variable {α : Type}

def isSkipped : Outcome α → Bool
  | .skipped => true
  | _ => false

def isRefused (outcome : Outcome α) : Bool := outcome.refused?.isSome

theorem length_eq (outcomes : List (Outcome α)) :
    outcomes.length =
      (keptOf outcomes).length + (refusedOf outcomes).length + outcomes.countP isSkipped := by
  induction outcomes with
  | nil => rfl
  | cons outcome outcomes ih =>
      simp only [keptOf, refusedOf] at ih ⊢
      cases outcome <;>
        simp [List.filterMap_cons, List.countP_cons, kept?, refused?, isSkipped, ih] <;> omega

@[simp] theorem length_refusedOf (outcomes : List (Outcome α)) :
    (refusedOf outcomes).length = outcomes.countP isRefused := by
  induction outcomes with
  | nil => rfl
  | cons outcome outcomes ih =>
      simp only [refusedOf] at ih ⊢
      cases outcome <;> simp [List.filterMap_cons, List.countP_cons, refused?, isRefused, ih]

theorem exists_function {ι : Type} {p : ι → Outcome α → Prop}
    (hunique : ∀ item outcome outcome', p item outcome → p item outcome' → outcome = outcome') :
    ∃ f : ι → Outcome α, ∀ item outcome, p item outcome → f item = outcome := by
  classical
  refine ⟨fun item => if h : ∃ outcome, p item outcome then h.choose else .skipped, ?_⟩
  intro item outcome houtcome
  have hexists : ∃ outcome, p item outcome := ⟨outcome, houtcome⟩
  dsimp only
  rw [dif_pos hexists]
  exact hunique item _ _ hexists.choose_spec houtcome

end Outcome

theorem Fallible.Ensures.modelled_cases {α : Type} {inv : Cache → Prop} {post : α → Prop}
    {action : Resolve α} (h : Ensures inv post action) :
    Ensures inv
      (fun outcome => (∃ value, outcome = .kept value ∧ post value) ∨
        ∃ violation, outcome = .refused violation) action.modelled := by
  intro cache hinv
  refine ⟨(h.modelled cache hinv).1, fun outcome houtcome => ?_⟩
  rcases Resolve.modelled_eq_ok houtcome with ⟨value, hvalue, rfl⟩ | ⟨cause, -, rfl⟩
  · exact .inl ⟨value, rfl, (h cache hinv).2 value hvalue⟩
  · exact .inr ⟨_, rfl⟩

namespace Metadata

variable {metadata : Metadata} {cache : Cache} {rid : Nat}

/-! ## Members -/

structure OfOwnType (metadata : Metadata) (row : MemberRefRow) (parent definition : TypeExpr) :
    Prop where
  table : row.parent.table = .typeSpec
  resolves : metadata.Answers (metadata.resolve row.parent.token) (.ok parent)
  defined : definition.Definition
  instantiated : definition.InstanceOf parent

inductive Accounts (metadata : Metadata) (rid : Nat) : Outcome MemberRef → Prop
  | member {member : MemberRef} (htoken : member.token = TableId.memberRef.token rid) :
      Accounts metadata rid (.kept member)
  | violation {violation : Violation} : Accounts metadata rid (.refused violation)
  | own {row : MemberRefRow} {parent definition : TypeExpr}
      (hrow : metadata.row MemberRefRow rid = .ok row)
      (hown : metadata.OfOwnType row parent definition) : Accounts metadata rid .skipped

theorem ensures_memberParent_own (row : MemberRefRow) (name : String) :
    Ensures metadata.CacheSound
      (fun outcome => outcome = .skipped → ∃ parent definition,
        metadata.OfOwnType row parent definition)
      (metadata.memberParent row name) := by
  have hresolve := @ensures_resolve_outcomeOf metadata row.parent.token
  have hkept : ∀ outcome, metadata.OutcomeOf (metadata.resolve row.parent.token) outcome →
      outcome = .skipped → ∃ parent definition, metadata.OfOwnType row parent definition := by
    rintro _ houtcome rfl
    cases houtcome
  unfold memberParent
  split
  · exact hresolve.mono hkept
  · exact hresolve.mono hkept
  · next htable =>
      refine .bind hresolve fun outcome houtcome => ?_
      cases houtcome with
      | refused => exact .pure nofun
      | @kept parent hparent =>
          refine .pure fun hskipped => ?_
          cases hown : parent.isOwn with
          | false => simp [hown] at hskipped
          | true =>
              obtain ⟨definition, hdefinition, hinstance⟩ := (TypeExpr.isOwn_iff parent).mp hown
              exact ⟨parent, definition, htable, hparent, hdefinition, hinstance⟩
  · exact .pure nofun
  · exact .pure nofun
  · exact .pure nofun

theorem ensures_memberOfSignature_token (token : Token) (parent : TypeExpr) (name : String)
    (signature : Bytes) :
    Ensures metadata.CacheSound (fun member => member.token = token)
      (metadata.memberOfSignature token parent name signature) := by
  have hleaf : ∀ token mark, Ensures metadata.CacheSound (fun _ => True)
      (metadata.leaf token mark) :=
    fun token _ => metadata.hereditary_true.ensures_resolve token
  unfold memberOfSignature
  split
  · exact .throw _
  · refine .ite ?_ fun _ => ?_
    · exact .bind (Signature.Decoder.ensures_field hleaf _)
        fun type _ => .pure rfl
    · exact .bind (Signature.Decoder.ensures_method hleaf _)
        fun method _ => .pure rfl

theorem ensures_memberReference_accounts (rid : Nat) :
    Ensures metadata.CacheSound (metadata.Accounts rid) (metadata.memberReference rid) := by
  refine .bind (.ofExcept fun row hrow => hrow) fun row hrow => ?_
  refine .bind (.any _) fun name _ => ?_
  refine .bind (ensures_memberParent_own row name) fun outcome houtcome => ?_
  split
  · exact .pure .violation
  · obtain ⟨parent, definition, hown⟩ := houtcome rfl
    exact .pure (.own hrow hown)
  · refine .bind (.any _) fun signature _ => ?_
    refine (ensures_memberOfSignature_token _ _ _ _).modelled_cases.mono ?_
    rintro _ (⟨member, rfl, htoken⟩ | ⟨violation, rfl⟩)
    · exact .member htoken
    · exact .violation

theorem ensures_memberReference (rid : Nat) :
    Ensures metadata.CacheSound
      (fun outcome => metadata.Answers (metadata.memberReference rid) (.ok outcome) ∧
        metadata.Accounts rid outcome)
      (metadata.memberReference rid) := by
  intro cache hcache
  obtain ⟨hafter, haccounts⟩ := ensures_memberReference_accounts rid cache hcache
  refine ⟨hafter, fun outcome houtcome => ⟨?_, haccounts outcome houtcome⟩⟩
  exact answers_of_runOn (uniform_memberReference uniform_typeReference .limit rid)
    hcache houtcome nofun

theorem exists_outcome_of_memberReferencesIn {schedule : Schedule}
    {entries : List (Nat × Outcome MemberRef)} (hcache : metadata.CacheSound cache)
    (hrun : ((metadata.memberReferencesIn schedule).runOn cache).1 = .ok entries) :
    ∃ outcome : Nat → Outcome MemberRef,
      (∀ rid ∈ rids (metadata.rowCount .memberRef),
        metadata.Answers (metadata.memberReference rid) (.ok (outcome rid)) ∧
          metadata.Accounts rid (outcome rid)) ∧
      entries = (schedule.rows (rids (metadata.rowCount .memberRef))).map
        fun rid => (rid, outcome rid) := by
  let found (rid : Nat) (outcome : Outcome MemberRef) : Prop :=
    metadata.Answers (metadata.memberReference rid) (.ok outcome) ∧ metadata.Accounts rid outcome
  have hunique : ∀ rid outcome outcome', found rid outcome → found rid outcome' →
      outcome = outcome' :=
    fun rid outcome outcome' h h' => Except.ok.inj (h.1.unique h'.1 nofun)
  obtain ⟨outcome, houtcome⟩ := Outcome.exists_function hunique
  have hrow : ∀ rid, Ensures metadata.CacheSound
      (fun entry => found rid (outcome rid) ∧ (rid, outcome rid) = entry)
      (do pure (rid, ← metadata.memberReference rid)) := by
    intro rid
    refine .bind (ensures_memberReference rid) fun value hvalue => .pure ?_
    rw [houtcome rid value hvalue]
    exact ⟨hvalue, rfl⟩
  have hentries := ((Ensures.mapM_forall₂ fun rid _ => hrow rid) cache hcache).2 entries hrun
  obtain ⟨hfound, hsame⟩ := forall₂_and_map_iff.mp hentries
  refine ⟨outcome, fun rid hrid => ?_, hsame.symm⟩
  exact hfound rid ((schedule.rows_perm _).mem_iff.mpr hrid)

@[simp] theorem length_rids (count : Nat) : (rids count).length = count := by
  simp [rids]

theorem pairwise_lt_rids (count : Nat) : (rids count).Pairwise (· < ·) := by
  refine List.pairwise_map.mpr (List.pairwise_lt_range.imp ?_)
  intro a b h
  omega

theorem toNat_memberRef_token (h : rid < Token.rowLimit) :
    (TableId.memberRef.token rid).value.toNat = 0x0a000000 + rid := by
  have hbase : TableId.memberRef.tokenBase = 0x0a000000 := rfl
  rw [TableId.token, hbase, Token.toNat_value_ofNat]
  rw [Token.rowLimit] at h
  rw [wordLimit]
  omega

@[simp] theorem inRowOrder_of_schedule {α : Type} (schedule : Schedule) (count : Nat)
    (outcome : Nat → Outcome α) :
    Outcome.inRowOrder ((schedule.rows (rids count)).map fun rid => (rid, outcome rid)) =
      (rids count).map outcome := by
  have hperm : ((schedule.rows (rids count)).map fun rid => (rid, outcome rid)).Perm
      ((rids count).zip ((rids count).map outcome)) := by
    rw [← List.map_prod_left_eq_zip]
    exact (schedule.rows_perm _).map _
  have hdistinct :
      (((schedule.rows (rids count)).map fun rid => (rid, outcome rid)).map Prod.fst).Nodup := by
    rw [List.map_map]
    exact (List.map_id _).symm ▸ (schedule.rows_perm _).nodup_iff.mpr (nodup_rids count)
  rw [Outcome.inRowOrder_eq_of_perm hdistinct hperm,
    Outcome.inRowOrder_zip (by simp) (pairwise_rids count)]

theorem Accounts.toNat_token {member : MemberRef} (h : metadata.Accounts rid (.kept member))
    (hrid : rid < Token.rowLimit) : member.token.value.toNat = 0x0a000000 + rid := by
  cases h with
  | member htoken => rw [htoken, toNat_memberRef_token hrid]

/--
However the rows of the members are spread over the workers and whatever the cache holds, each of
them has one outcome.  The members are those of the rows that are kept, in the order of the rows
and of their tokens, and there is one violation for each row that is refused.
-/
theorem members_conserved {schedule : Schedule} {entries : List (Nat × Outcome MemberRef)}
    (hrows : metadata.rowCount .memberRef < Token.rowLimit) (hcache : metadata.CacheSound cache)
    (hrun : ((metadata.memberReferencesIn schedule).runOn cache).1 = .ok entries) :
    let rows := rids (metadata.rowCount .memberRef)
    let members := Outcome.keptOf (Outcome.inRowOrder entries)
    let violations := Outcome.refusedOf (entries.map Prod.snd)
    ∃ outcome : Nat → Outcome MemberRef,
      (∀ rid ∈ rows, metadata.Answers (metadata.memberReference rid) (.ok (outcome rid)) ∧
        metadata.Accounts rid (outcome rid)) ∧
      members = rows.filterMap (fun rid => (outcome rid).kept?) ∧
      violations.Perm (rows.filterMap fun rid => (outcome rid).refused?) ∧
      metadata.rowCount .memberRef =
        members.length + violations.length + rows.countP (fun rid => (outcome rid).isSkipped) ∧
      (∀ rid ∈ rows, ∀ member, (outcome rid).kept? = some member →
        member.token.value.toNat = 0x0a000000 + rid) ∧
      members.Pairwise fun left right => left.token.value.toNat < right.token.value.toNat := by
  intro rows members violations
  obtain ⟨outcome, houtcome, rfl⟩ := exists_outcome_of_memberReferencesIn hcache hrun
  have hmembers : members = Outcome.keptOf (rows.map outcome) :=
    congrArg Outcome.keptOf (inRowOrder_of_schedule schedule _ outcome)
  have hviolations : violations.Perm (Outcome.refusedOf (rows.map outcome)) := by
    refine List.Perm.filterMap _ ?_
    rw [List.map_map]
    exact (schedule.rows_perm rows).map outcome
  have htoken : ∀ rid ∈ rows, ∀ member, (outcome rid).kept? = some member →
      member.token.value.toNat = 0x0a000000 + rid := by
    intro rid hrid member hmember
    obtain ⟨-, haccounts⟩ := houtcome rid hrid
    have hlt : rid < Token.rowLimit := Nat.lt_of_le_of_lt (mem_rids.mp hrid).2 hrows
    cases hkept : outcome rid <;> rw [hkept] at hmember haccounts <;> cases hmember
    exact haccounts.toNat_token hlt
  refine ⟨outcome, houtcome, ?_, ?_, ?_, htoken, ?_⟩
  · rw [hmembers, Outcome.keptOf, List.filterMap_map]
    rfl
  · rwa [Outcome.refusedOf, List.filterMap_map] at hviolations
  · have hcount := Outcome.length_eq (rows.map outcome)
    rw [List.length_map, List.countP_map] at hcount
    rw [hmembers, hviolations.length_eq]
    exact (length_rids _).symm.trans hcount
  · rw [hmembers, Outcome.keptOf, List.filterMap_map, List.pairwise_filterMap]
    refine (pairwise_lt_rids _).imp_of_mem ?_
    intro rid rid' hrid hrid' hlt member hmember member' hmember'
    rw [htoken rid hrid member hmember, htoken rid' hrid' member' hmember']
    omega

/-- A member of a module, one of a type of `L`, and one of a specification of the type itself. -/
def threeMembers : Metadata :=
  ofTables [(.typeRef, 1), (.typeDef, 1), (.memberRef, 3), (.typeSpec, 1), (.assemblyRef, 1)]
    #[6, 0, 3, 0, 0, 0,
      0, 0, 0, 0, 3, 0, 0, 0, 0, 0, 1, 0, 1, 0,
      10, 0, 3, 0, 1, 0,
      9, 0, 3, 0, 1, 0,
      12, 0, 3, 0, 1, 0,
      4, 0,
      0, 0, 0, 0, 0, 0, 0, 0, 0, 0, 0, 0, 0, 0, 5, 0, 0, 0, 0, 0]
    #[0, 77, 0, 84, 0, 76, 0] #[0, 2, 6, 8, 2, 0x12, 4]

theorem threeMembers_conserved :
    let backwards : Schedule :=
      ⟨List.reverse, List.reverse, List.reverse_perm, List.reverse_perm⟩
    let member : MemberRef :=
      .field ⟨0x0a000002⟩ (.referenced (.top "L" none "T")) "T" (.primitive .int32)
    ((threeMembers.memberReferencesIn backwards).runOn Cache.disabled).1 =
        .ok [(3, .skipped), (2, .kept member), (1, .refused (.moduleMember "T"))] ∧
      ∃ outcome : Nat → Outcome MemberRef,
        [member] = [1, 2, 3].filterMap (fun rid => (outcome rid).kept?) ∧
        [Violation.moduleMember "T"].Perm
          ([1, 2, 3].filterMap fun rid => (outcome rid).refused?) ∧
        3 = 1 + 1 + [1, 2, 3].countP fun rid => (outcome rid).isSkipped := by
  intro backwards member
  have hrun : ((threeMembers.memberReferencesIn backwards).runOn Cache.disabled).1 =
      .ok [(3, .skipped), (2, .kept member), (1, .refused (.moduleMember "T"))] := rfl
  have hsorted : Outcome.inRowOrder
      [(3, .skipped), (2, .kept member), (1, .refused (.moduleMember "T"))] =
        [.refused (.moduleMember "T"), .kept member, .skipped] := by
    simp [Outcome.inRowOrder, List.mergeSort]
  obtain ⟨outcome, -, hmembers, hviolations, hcount, -, -⟩ :=
    members_conserved (by decide) cacheSound_disabled hrun
  rw [hsorted] at hmembers hcount
  exact ⟨hrun, outcome, hmembers, hviolations, hcount⟩

/-! ## Bases and interfaces -/

inductive InheritsFrom (metadata : Metadata) (index : CodedIndex) : Outcome TypeExpr → Prop
  | nil (hindex : index.isNil = true) : InheritsFrom metadata index .skipped
  | resolved {outcome : Outcome TypeExpr} (hindex : index.isNil = false)
      (houtcome : metadata.OutcomeOf (metadata.resolve index.token) outcome) :
      InheritsFrom metadata index outcome

theorem InheritsFrom.unique {index : CodedIndex} {outcome outcome' : Outcome TypeExpr}
    (h : metadata.InheritsFrom index outcome) (h' : metadata.InheritsFrom index outcome') :
    outcome = outcome' := by
  cases h with
  | nil hindex =>
      cases h' with
      | nil => rfl
      | resolved hindex' => cases hindex.symm.trans hindex'
  | resolved hindex houtcome =>
      cases h' with
      | nil hindex' => cases hindex.symm.trans hindex'
      | resolved _ houtcome' => exact houtcome.unique houtcome'

theorem ensures_inheritedFrom (index : CodedIndex) :
    Ensures metadata.CacheSound (metadata.InheritsFrom index) (metadata.inheritedFrom index) := by
  unfold inheritedFrom
  split
  · next hindex => exact .pure (.nil hindex)
  · next hindex =>
      refine (ensures_resolve_outcomeOf index.token).mono fun outcome houtcome => ?_
      exact .resolved (by simpa using hindex) houtcome

theorem rowCount_eq (metadata : Metadata) (ρ : Type) [Row ρ] :
    metadata.rowCount (Row.table ρ) = (metadata.table? ρ).elim 0 Table.count := by
  simp only [table?, TableHeader.table?]
  split
  · next hrows => exact hrows
  · rfl

theorem exists_implementations {implementations : List (Nat × CodedIndex)}
    (h : metadata.implementations = .ok implementations) :
    ∃ rows, (rids (metadata.rowCount .interfaceImpl)).mapM (metadata.row InterfaceImplRow) =
        .ok rows ∧
      implementations = rows.map fun row => (row.owner, row.interface) := by
  have hcount : metadata.rowCount .interfaceImpl = _ := metadata.rowCount_eq InterfaceImplRow
  rw [Metadata.implementations] at h
  cases htable : metadata.table? InterfaceImplRow with
  | none =>
      rw [htable] at h hcount
      cases h
      rw [hcount]
      exact ⟨[], rfl, rfl⟩
  | some table =>
      rw [htable] at h hcount
      obtain ⟨rows, hrows, h⟩ := bind_eq_ok_iff.mp h
      cases h
      have hrow : metadata.row InterfaceImplRow = table.get := by
        funext rid
        simp only [Metadata.row, htable]
      rw [hcount, hrow]
      exact ⟨rows, Table.get_of_rows hrows, rfl⟩

section

variable {outcome : CodedIndex → Outcome TypeExpr}
  {implementations : List (Nat × CodedIndex)} {found : InheritedType × List Violation}

structure InheritedBy (metadata : Metadata) (outcome : CodedIndex → Outcome TypeExpr)
    (implementations : List (Nat × CodedIndex)) (rid : Nat) (row : TypeDefRow)
    (found : InheritedType × List Violation) : Prop where
  read : metadata.row TypeDefRow rid = .ok row
  type : metadata.typeDefinition rid = .ok found.1.type
  base : metadata.InheritsFrom row.base (outcome row.base)
  interfaces : ∀ item ∈ implementations, item.1 = rid →
    metadata.InheritsFrom item.2 (outcome item.2)
  keptBase : found.1.base = (outcome row.base).kept?
  keptInterfaces : found.1.interfaces =
    (implementations.filter (·.1 == rid)).filterMap fun item => (outcome item.2).kept?
  violations : found.2.length = (if (outcome row.base).isRefused then 1 else 0) +
    (implementations.filter (·.1 == rid)).countP fun item => (outcome item.2).isRefused

theorem ensures_inheritedType
    (houtcome : ∀ index found, metadata.InheritsFrom index found → outcome index = found)
    (implementations : List (Nat × CodedIndex)) (rid : Nat) :
    Ensures metadata.CacheSound
      (fun found => ∃ row, metadata.InheritedBy outcome implementations rid row found)
      (metadata.inheritedType implementations rid) := by
  have hfrom : ∀ index, Ensures metadata.CacheSound
      (fun found => metadata.InheritsFrom index (outcome index) ∧ outcome index = found)
      (metadata.inheritedFrom index) := by
    intro index
    refine (ensures_inheritedFrom index).mono fun found hfound => ?_
    rw [houtcome index found hfound]
    exact ⟨hfound, rfl⟩
  refine .bind (.ofExcept fun row hrow => hrow) fun row hrow => ?_
  refine .bind (hfrom row.base) ?_
  rintro _ ⟨hbase, rfl⟩
  refine .bind (.mapM_forall₂ fun item _ => hfrom item.2) fun outcomes houtcomes => ?_
  obtain ⟨hinterfaces, rfl⟩ := forall₂_and_map_iff.mp houtcomes
  refine .bind (.ofExcept fun type htype => htype) fun type htype => .pure ⟨row, ?_⟩
  refine ⟨hrow, htype, hbase, ?_, rfl, ?_, ?_⟩
  · intro item hitem hrid
    exact hinterfaces item (List.mem_filter.mpr ⟨hitem, by simpa using hrid⟩)
  · rw [Outcome.keptOf, List.filterMap_map]
    rfl
  · rw [Outcome.length_refusedOf, List.countP_cons, List.countP_map, Nat.add_comm]
    rfl

theorem ensures_inheritedTypes
    (houtcome : ∀ index found, metadata.InheritsFrom index found → outcome index = found) :
    Ensures metadata.CacheSound
      (fun collected => ∃ pairs found, metadata.implementations = .ok pairs ∧
        List.Forall₂ (fun rid found => ∃ row, metadata.InheritedBy outcome pairs rid row found)
          (rids metadata.typeDefCount) found ∧
        collected = (found.map Prod.fst, found.flatMap Prod.snd))
      metadata.inheritedTypes := by
  refine .bind (.ofExcept fun pairs hpairs => hpairs) fun pairs hpairs => ?_
  refine .bind (.mapM_forall₂ fun rid _ => ensures_inheritedType houtcome pairs rid) ?_
  exact fun found hfound => .pure ⟨pairs, found, hpairs, hfound, rfl⟩

theorem exists_rows_of_forall₂ {rows : List Nat} {found : List (InheritedType × List Violation)}
    (h : List.Forall₂
      (fun rid found => ∃ row, metadata.InheritedBy outcome implementations rid row found) rows
      found) :
    ∀ rid ∈ rows, ∃ row, metadata.row TypeDefRow rid = .ok row ∧
      metadata.InheritsFrom row.base (outcome row.base) ∧
      ∀ item ∈ implementations, item.1 = rid →
        metadata.InheritsFrom item.2 (outcome item.2) := by
  induction h with
  | nil => simp
  | cons hfirst _ ih =>
      obtain ⟨row, hrow⟩ := hfirst
      exact List.forall_mem_cons.mpr ⟨⟨row, hrow.read, hrow.base, hrow.interfaces⟩, ih⟩

theorem sum_countP_owners {owners : List Nat} (howners : owners.Nodup)
    (items : List (Nat × CodedIndex)) (p : Nat × CodedIndex → Bool) :
    (owners.map fun owner => (items.filter (·.1 == owner)).countP p).sum =
      items.countP fun item => decide (item.1 ∈ owners) && p item := by
  induction owners with
  | nil => simp
  | cons owner owners ih =>
      obtain ⟨howner, hothers⟩ := List.nodup_cons.mp howners
      rw [List.map_cons, List.sum_cons, ih hothers]
      clear ih
      -- By the items: one that belongs to this owner belongs to none of the others.
      induction items with
      | nil => rfl
      | cons item items ih =>
          rw [List.filter_cons, List.countP_cons, List.countP_cons, ← ih]
          by_cases hitem : item.1 = owner
          · simp [hitem, howner, List.countP_cons]
            omega
          · simp [hitem]
            omega

theorem length_violations {rows : List Nat} {definitions : List TypeDefRow}
    {found : List (InheritedType × List Violation)}
    (hdefinitions : List.Forall₂ (fun rid row => metadata.row TypeDefRow rid = .ok row) rows
      definitions)
    (hfound : List.Forall₂
      (fun rid found => ∃ row, metadata.InheritedBy outcome implementations rid row found) rows
      found) :
    (found.flatMap Prod.snd).length =
      definitions.countP (fun row => (outcome row.base).isRefused) +
        (rows.map fun rid => (implementations.filter (·.1 == rid)).countP
          fun item => (outcome item.2).isRefused).sum := by
  induction hdefinitions generalizing found with
  | nil =>
      cases hfound
      rfl
  | cons hrow _ ih =>
      cases hfound with
      | cons hfirst hothers =>
          obtain ⟨row, hinherited⟩ := hfirst
          cases hrow.symm.trans hinherited.read
          have hlength := hinherited.violations
          simp only [List.flatMap_cons, List.length_append, List.countP_cons, List.map_cons,
            List.sum_cons, ih hothers]
          omega

end

/--
Whatever the cache holds, the types come in the order of their rows, each with its base and with
the interfaces of its own rows in table order, and there is one violation for each base and each
interface of a type that is refused.
-/
theorem inheritance_complete {inherited : List InheritedType} {violations : List Violation}
    (hcache : metadata.CacheSound cache)
    (hrun : (metadata.inheritedTypes.runOn cache).1 = .ok (inherited, violations)) :
    ∃ (definitions : List TypeDefRow) (implementations : List InterfaceImplRow)
      (outcome : CodedIndex → Outcome TypeExpr),
      (rids metadata.typeDefCount).mapM (metadata.row TypeDefRow) = .ok definitions ∧
      (rids (metadata.rowCount .interfaceImpl)).mapM (metadata.row InterfaceImplRow) =
        .ok implementations ∧
      (∀ row ∈ definitions, metadata.InheritsFrom row.base (outcome row.base)) ∧
      (∀ row ∈ implementations, row.owner ∈ rids metadata.typeDefCount →
        metadata.InheritsFrom row.interface (outcome row.interface)) ∧
      List.Forall₂
        (fun rid entry => ∃ row, metadata.row TypeDefRow rid = .ok row ∧
          metadata.typeDefinition rid = .ok entry.type ∧
          entry.base = (outcome row.base).kept? ∧
          entry.interfaces = (implementations.filter (·.owner == rid)).filterMap
            fun row => (outcome row.interface).kept?)
        (rids metadata.typeDefCount) inherited ∧
      violations.length =
        definitions.countP (fun row => (outcome row.base).isRefused) +
          implementations.countP fun row =>
            decide (row.owner ∈ rids metadata.typeDefCount) && (outcome row.interface).isRefused := by
  obtain ⟨outcome, houtcome⟩ :=
    Outcome.exists_function fun index found found' (h : metadata.InheritsFrom index found) h' =>
      h.unique h'
  obtain ⟨pairs, found, hpairs, hfound, hcollected⟩ := (ensures_inheritedTypes houtcome cache hcache).2 _ hrun
  cases hcollected
  obtain ⟨implementations, himplementations, rfl⟩ := exists_implementations hpairs
  have hrows := exists_rows_of_forall₂ hfound
  obtain ⟨definitions, hdefinitions⟩ := exists_mapM_eq_ok_iff.mpr fun rid hrid =>
    (hrows rid hrid).imp fun row hrow => hrow.1
  refine ⟨definitions, implementations, outcome, hdefinitions, himplementations, ?_, ?_, ?_, ?_⟩
  · intro row hrow
    obtain ⟨rid, hrid, hread⟩ := exists_of_mem_of_mapM_eq_ok hdefinitions hrow
    obtain ⟨row', hread', hbase, -⟩ := hrows rid hrid
    cases hread.symm.trans hread'
    exact hbase
  · intro row hrow howner
    obtain ⟨-, -, -, hinterfaces⟩ := hrows row.owner howner
    exact hinterfaces (row.owner, row.interface) (List.mem_map_of_mem hrow) rfl
  · rw [List.forall₂_map_right_iff]
    refine hfound.imp ?_
    rintro rid entry ⟨row, hinherited⟩
    refine ⟨row, hinherited.read, hinherited.type, hinherited.keptBase, ?_⟩
    rw [hinherited.keptInterfaces, List.filter_map, List.filterMap_map]
    rfl
  · rw [length_violations (mapM_eq_ok_iff.mp hdefinitions) hfound,
      sum_countP_owners (nodup_rids _), List.countP_map]
    rfl

/--
Two types.  The first derives from a type of `L`, the second from a type that was forwarded; their
interfaces come in no order, one of them belongs to no type, and one is nil.
-/
def mixedTypes : Metadata :=
  ofTables [(.typeRef, 2), (.typeDef, 2), (.interfaceImpl, 4), (.assemblyRef, 1)]
    #[6, 0, 3, 0, 0, 0,
      0, 0, 1, 0, 0, 0,
      0, 0, 0, 0, 3, 0, 0, 0, 5, 0, 1, 0, 1, 0,
      0, 0, 0, 0, 1, 0, 0, 0, 9, 0, 1, 0, 1, 0,
      2, 0, 5, 0,
      1, 0, 9, 0,
      9, 0, 9, 0,
      2, 0, 0, 0,
      0, 0, 0, 0, 0, 0, 0, 0, 0, 0, 0, 0, 0, 0, 5, 0, 0, 0, 0, 0]
    #[0, 77, 0, 84, 0, 76, 0] #[0]

theorem inheritance_of_mixedTypes :
    let base := TypeExpr.referenced (.top "L" none "T")
    let forwarded := Violation.unmodelled (.forwardedType "M")
    (mixedTypes.inheritedTypes.runOn Cache.disabled).1 =
        .ok ([⟨.defined none "T", some base, []⟩, ⟨.defined none "M", none, [base]⟩],
          [forwarded, forwarded]) ∧
      ∃ (definitions : List TypeDefRow) (implementations : List InterfaceImplRow)
        (outcome : CodedIndex → Outcome TypeExpr),
        [1, 2].mapM (mixedTypes.row TypeDefRow) = .ok definitions ∧
        [1, 2, 3, 4].mapM (mixedTypes.row InterfaceImplRow) = .ok implementations ∧
        [forwarded, forwarded].length =
          definitions.countP (fun row => (outcome row.base).isRefused) +
            implementations.countP fun row =>
              decide (row.owner ∈ [1, 2]) && (outcome row.interface).isRefused := by
  intro base forwarded
  have hrun : (mixedTypes.inheritedTypes.runOn Cache.disabled).1 =
      .ok ([⟨.defined none "T", some base, []⟩, ⟨.defined none "M", none, [base]⟩],
        [forwarded, forwarded]) := rfl
  obtain ⟨definitions, implementations, outcome, hdefinitions, himplementations, -, -, -, hcount⟩ :=
    inheritance_complete cacheSound_disabled hrun
  exact ⟨hrun, definitions, implementations, outcome, hdefinitions, himplementations, hcount⟩

end Metadata

end AssemblyGate
