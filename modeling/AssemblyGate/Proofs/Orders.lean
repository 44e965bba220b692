import Mathlib.Data.List.Nodup
import Mathlib.Data.List.Perm.Basic
import AssemblyGate.Proofs.Members
import AssemblyGate.Proofs.Report

/-!
# The order of the work, and the cache

A report does not show in which order the rows of the members were read and the members
were checked: violations are sorted, and members are handed on in the order of their rows.
Nor does it show whether references were kept, as long as no chain of scopes is longer than
the nesting limit.  A longer chain is resolved through the cache, which is asked before the
levels are counted, but without a cache it fails.
-/

namespace AssemblyGate

open Fallible

/-! ## Work in another order -/

section

variable {α β ε : Type}

theorem mergeSort_eq_of_perm {le : α → α → Bool} {left right : List α}
    (htrans : ∀ a b c, le a b → le b c → le a c) (htotal : ∀ a b, le a b || le b a)
    (hantisymm : ∀ a ∈ left, ∀ b ∈ left, le a b → le b a → a = b) (h : left.Perm right) :
    left.mergeSort le = right.mergeSort le := by
  refine List.Perm.eq_of_pairwise ?_ (List.pairwise_mergeSort htrans htotal left)
    (List.pairwise_mergeSort htrans htotal right) ?_
  · intro a b ha hb
    exact hantisymm a (List.mem_mergeSort.mp ha) b (h.mem_iff.mpr (List.mem_mergeSort.mp hb))
  · exact (left.mergeSort_perm le).trans (h.trans (right.mergeSort_perm le).symm)

theorem mapM_perm {f : α → Except ε β} {items items' : List α} {values : List β}
    (h : items.mapM f = .ok values) (hperm : items'.Perm items) :
    ∃ values', items'.mapM f = .ok values' ∧ values'.Perm values := by
  obtain ⟨values', hvalues', hperm'⟩ := List.perm_comp_forall₂ hperm (mapM_eq_ok_iff.mp h)
  exact ⟨values', mapM_eq_ok_iff.mpr hvalues', hperm'⟩

end

theorem sortedMessages_eq_of_perm {left right : List Violation} (h : left.Perm right) :
    sortedMessages left = sortedMessages right := by
  refine mergeSort_eq_of_perm ?_ ?_ ?_ (h.map _)
  · intro a b c
    simpa using String.le_trans
  · intro a b
    simpa using String.le_total a b
  · intro a _ b _
    simpa using String.le_antisymm

theorem Outcome.inRowOrder_eq_of_perm {α : Type} {left right : List (Nat × Outcome α)}
    (hrows : (left.map Prod.fst).Nodup) (h : left.Perm right) :
    inRowOrder left = inRowOrder right := by
  refine congrArg (List.map Prod.snd) (mergeSort_eq_of_perm ?_ ?_ ?_ h)
  · intro a b c
    simpa using Nat.le_trans
  · intro a b
    simpa using Nat.le_total a.1 b.1
  · intro a ha b hb hab hba
    have hsame : a.1 = b.1 := Nat.le_antisymm (of_decide_eq_true hab) (of_decide_eq_true hba)
    exact List.inj_on_of_nodup_map hrows ha hb hsame

/-! ## Schedules -/

theorem nodup_rids (count : Nat) : (rids count).Nodup := by
  refine List.Nodup.map ?_ List.nodup_range
  intro a b h
  exact Nat.succ.inj h

theorem map_fst_of_mapM_eq_ok {α : Type} {f : Nat → Except Error α} {items : List Nat}
    {entries : List (Nat × α)}
    (h : items.mapM (fun rid => (f rid).map (rid, ·)) = .ok entries) :
    entries.map Prod.fst = items := by
  rw [mapM_eq_ok_iff] at h
  induction h with
  | nil => rfl
  | @cons rid entry _ _ hentry _ ih =>
      rw [List.map_cons, ih]
      cases hvalue : f rid with
      | error error =>
          rw [hvalue] at hentry
          cases hentry
      | ok value =>
          rw [hvalue] at hentry
          cases hentry
          rfl

namespace Policy

variable {policy : Policy} {metadata : Metadata} {schedule schedule' : Schedule}

theorem checkMembers_perm {members members' : List MemberRef} {found : List Violation}
    (h : policy.checkMembers members = .ok found) (hperm : members'.Perm members) :
    ∃ found', policy.checkMembers members' = .ok found' ∧ found'.Perm found := by
  obtain ⟨results, hresults, hfound⟩ := bind_eq_ok_iff.mp h
  cases hfound
  obtain ⟨results', hresults', hperm'⟩ := mapM_perm hresults hperm
  exact ⟨_, bind_eq_ok_iff.mpr ⟨results', hresults', rfl⟩, hperm'.filterMap id⟩

theorem found_perm {assembly : String} {cache : Cache} {found : List Violation}
    (hcache : metadata.CacheSound cache)
    (h : policy.found schedule metadata assembly cache = .ok found) :
    ∃ found', policy.found schedule' metadata assembly cache = .ok found' ∧
      found'.Perm found := by
  obtain ⟨references, unmanaged, layouts, accesses, hreferences, hunmanaged, hlayouts, haccesses,
    rfl⟩ := found_eq_ok_iff.mp h
  obtain ⟨types, members, inherited, refused, htypes, hmembers, hinherited, rfl⟩ :=
    (Metadata.references_eq_ok_iff hcache).mp hreferences
  obtain ⟨hsettled, -⟩ := Metadata.settled_of_typeReferences hcache htypes
  rw [hsettled.result_memberReferencesIn] at hmembers
  have hrows : ∀ work, (schedule'.rows work).Perm (schedule.rows work) :=
    fun work => (schedule'.rows_perm work).trans (schedule.rows_perm work).symm
  -- The same outcomes come in another order, each with the number of its row.
  obtain ⟨members', hmembers', hperm⟩ := mapM_perm hmembers (hrows _)
  have hdistinct : (members'.map Prod.fst).Nodup := by
    rw [map_fst_of_mapM_eq_ok hmembers', (schedule'.rows_perm _).nodup_iff]
    exact nodup_rids _
  have hkept : Outcome.inRowOrder members' = Outcome.inRowOrder members :=
    Outcome.inRowOrder_eq_of_perm hdistinct hperm
  obtain ⟨accesses', haccesses', hperm'⟩ := checkMembers_perm haccesses
    ((schedule'.members_perm _).trans (schedule.members_perm _).symm)
  rw [← hsettled.result_memberReferencesIn] at hmembers'
  have hreferences' := (Metadata.references_eq_ok_iff hcache).mpr
    ⟨types, members', inherited, refused, htypes, hmembers', hinherited, rfl⟩
  rw [← hkept] at haccesses'
  refine ⟨_, found_eq_ok_iff.mpr
    ⟨_, unmanaged, layouts, accesses', hreferences', hunmanaged, hlayouts, haccesses', rfl⟩, ?_⟩
  have hrefused : (Outcome.refusedOf types ++ Outcome.refusedOf (members'.map Prod.snd) ++
      refused).Perm (Outcome.refusedOf types ++ Outcome.refusedOf (members.map Prod.snd) ++
        refused) :=
    (((hperm.map Prod.snd).filterMap Outcome.refused?).append_left _).append_right _
  exact ((((hrefused.append_right _).append_right _).append_right _).append_right _).append hperm'

theorem Reports.of_schedule {options : CheckOptions} {verifier : String → Verifier}
    {report : Report} (h : policy.Reports schedule options metadata verifier report) :
    policy.Reports schedule' options metadata verifier report := by
  cases h with
  | native hname hnative => exact .native hname hnative
  | invalid hname hmanaged hverify hinvalid => exact .invalid hname hmanaged hverify hinvalid
  | scanned hname hmanaged hvalid hfound =>
      obtain ⟨found', hfound', hperm⟩ := found_perm (options.cacheSound metadata) hfound
      rw [← sortedMessages_eq_of_perm hperm]
      exact .scanned hname hmanaged hvalid hfound'

end Policy

/-! ## Members in any order -/

theorem pairwise_rids (count : Nat) : (rids count).Pairwise (· ≤ ·) := by
  refine List.pairwise_map.mpr (List.pairwise_lt_range.imp ?_)
  intro a b h
  omega

theorem mapM_zip_of_mapM_eq_ok {α : Type} {f : Nat → Except Error α} {items : List Nat}
    {values : List α} (h : items.mapM f = .ok values) :
    items.mapM (fun rid => (f rid).map (rid, ·)) = .ok (items.zip values) := by
  rw [mapM_eq_ok_iff] at h ⊢
  induction h with
  | nil => exact .nil
  | cons hvalue _ ih => exact .cons (by rw [hvalue]; rfl) ih

theorem Outcome.inRowOrder_zip {α : Type} {rows : List Nat} {outcomes : List (Outcome α)}
    (hlength : rows.length = outcomes.length) (hrows : rows.Pairwise (· ≤ ·)) :
    inRowOrder (rows.zip outcomes) = outcomes := by
  have hsorted : (rows.zip outcomes).Pairwise fun left right => decide (left.1 ≤ right.1) := by
    rw [← List.map_fst_zip (Nat.le_of_eq hlength), List.pairwise_map] at hrows
    simpa using hrows
  rw [inRowOrder, List.mergeSort_of_pairwise hsorted]
  exact List.map_snd_zip (Nat.le_of_eq hlength.symm)

namespace Metadata

variable {metadata : Metadata} {cache : Cache} {schedule : Schedule}

theorem exists_memberReferencesIn_eq_ok_iff (h : metadata.Settled cache) :
    (∃ entries, ((metadata.memberReferencesIn schedule).runOn cache).1 = .ok entries) ↔
      ∃ outcomes, (metadata.memberReferences.runOn cache).1 = .ok outcomes := by
  rw [h.result_memberReferencesIn, h.result_memberReferences, exists_mapM_eq_ok_iff,
    exists_mapM_eq_ok_iff]
  simp only [(schedule.rows_perm _).mem_iff]
  refine forall₂_congr fun rid _ => ?_
  cases ((metadata.memberReference rid).runOn cache).1 <;> simp [Except.map]

theorem memberReferencesIn_perm (h : metadata.Settled cache)
    {entries : List (Nat × Outcome MemberRef)} {outcomes : List (Outcome MemberRef)}
    (hentries : ((metadata.memberReferencesIn schedule).runOn cache).1 = .ok entries)
    (houtcomes : (metadata.memberReferences.runOn cache).1 = .ok outcomes) :
    Outcome.inRowOrder entries = outcomes ∧ (entries.map Prod.snd).Perm outcomes := by
  rw [h.result_memberReferencesIn] at hentries
  rw [h.result_memberReferences] at houtcomes
  have hlength := (mapM_eq_ok_iff.mp houtcomes).length_eq
  have hzip := mapM_zip_of_mapM_eq_ok houtcomes
  -- Every outcome carries the number of its row, so that it finds its place again.
  obtain ⟨entries', hentries', hperm⟩ := mapM_perm hzip (schedule.rows_perm _)
  cases hentries.symm.trans hentries'
  constructor
  · have hdistinct : (entries.map Prod.fst).Nodup := by
      rw [map_fst_of_mapM_eq_ok hentries, (schedule.rows_perm _).nodup_iff]
      exact nodup_rids _
    rw [Outcome.inRowOrder_eq_of_perm hdistinct hperm,
      Outcome.inRowOrder_zip hlength (pairwise_rids _)]
  · rw [← List.map_snd_zip (Nat.le_of_eq hlength.symm)]
    exact hperm.map Prod.snd

end Metadata

namespace Policy

variable {policy : Policy}

/--
Neither the order in which members are checked nor the order in which they are read shows.
Members can be checked if each of their parents can have members, and then the sorted
violations are the same; without a cache every schedule reads the rows as a single worker
does.
-/
theorem members_in_any_order {left right : List MemberRef} (h : left.Perm right)
    (metadata : Metadata) (schedule : Schedule) :
    ((∃ found, policy.checkMembers left = .ok found) ↔
      ∀ member ∈ left, ∃ base, member.parent.governing = .ok base) ∧
    ((∃ found, policy.checkMembers left = .ok found) ↔
      ∃ found, policy.checkMembers right = .ok found) ∧
    (∀ before found found', policy.checkMembers left = .ok found →
      policy.checkMembers right = .ok found' →
        sortedMessages (before ++ found) = sortedMessages (before ++ found')) ∧
    ((∃ entries, ((metadata.memberReferencesIn schedule).runOn Cache.disabled).1 = .ok entries) ↔
      ∃ outcomes, (metadata.memberReferences.runOn Cache.disabled).1 = .ok outcomes) ∧
    ∀ entries outcomes,
      ((metadata.memberReferencesIn schedule).runOn Cache.disabled).1 = .ok entries →
      (metadata.memberReferences.runOn Cache.disabled).1 = .ok outcomes →
        Outcome.keptOf (Outcome.inRowOrder entries) = Outcome.keptOf outcomes ∧
        (Outcome.refusedOf (entries.map Prod.snd)).Perm (Outcome.refusedOf outcomes) := by
  refine ⟨exists_checkMembers_eq_ok_iff, ?_, ?_,
    Metadata.exists_memberReferencesIn_eq_ok_iff Metadata.settled_disabled, ?_⟩
  · rw [exists_checkMembers_eq_ok_iff, exists_checkMembers_eq_ok_iff]
    simp only [h.mem_iff]
  · intro before found found' hfound hfound'
    obtain ⟨found'', hfound'', hperm⟩ := checkMembers_perm hfound' h
    cases hfound.symm.trans hfound''
    exact sortedMessages_eq_of_perm (hperm.append_left before)
  · intro entries outcomes hentries houtcomes
    obtain ⟨hrows, hperm⟩ :=
      Metadata.memberReferencesIn_perm Metadata.settled_disabled hentries houtcomes
    exact ⟨by rw [hrows], hperm.filterMap _⟩

/-- Two rows of members: one of a module, and one of a type of `L`. -/
def twoMembers : Metadata :=
  .ofTables [(.typeRef, 1), (.memberRef, 2), (.assemblyRef, 1)]
    #[6, 0, 3, 0, 0, 0,
      10, 0, 3, 0, 1, 0,
      9, 0, 3, 0, 1, 0,
      0, 0, 0, 0, 0, 0, 0, 0, 0, 0, 0, 0, 0, 0, 5, 0, 0, 0, 0, 0]
    #[0, 77, 0, 84, 0, 76, 0] #[0, 2, 6, 8]

theorem members_in_reverse_order :
    let field (name : String) : MemberRef :=
      .field (TableId.memberRef.token 2) (.referenced (.top "L" none name)) "T" (.primitive .int32)
    let denied (name : String) : Violation := .memberTypeAccess (.top "L" none name)
    let backwards : Schedule :=
      ⟨List.reverse, List.reverse, List.reverse_perm, List.reverse_perm⟩
    sortedMessages [denied "T", denied "U"] = sortedMessages [denied "U", denied "T"] ∧
      ∃ entries,
        ((twoMembers.memberReferencesIn backwards).runOn Cache.disabled).1 = .ok entries ∧
        Outcome.keptOf (Outcome.inRowOrder entries) = [field "T"] ∧
        (Outcome.refusedOf (entries.map Prod.snd)).Perm [.moduleMember "T"] := by
  intro field denied backwards
  have hperm : [field "T", field "U"].Perm [field "U", field "T"] := .swap _ _ _
  obtain ⟨-, -, hsorted, -, hrows⟩ :=
    @members_in_any_order ⟨"", [], [], [], []⟩ _ _ hperm twoMembers backwards
  constructor
  · exact hsorted [] _ _ rfl rfl
  · exact ⟨[(2, .kept (field "T")), (1, .refused (.moduleMember "T"))], rfl,
      hrows _ [.refused (.moduleMember "T"), .kept (field "T")] rfl rfl⟩

end Policy

/-! ## Chains within the limit -/

def Metadata.WithinLimit (metadata : Metadata) : Prop :=
  ∀ rows rid reference, metadata.Refers rows rid reference → rows ≤ nestingLimit

namespace Metadata

variable {metadata : Metadata} {cache : Cache}

theorem typeReference_of_withinLimit (h : metadata.WithinLimit)
    (hcache : metadata.CacheSound cache) {rows rid : Nat} {reference : TypeReference}
    (hrefers : metadata.Refers rows rid reference) :
    ((metadata.typeReference rid).runOn cache).1 = .ok reference := by
  rcases typeReference_of_refers hcache hrefers with hok | ⟨-, hlt⟩
  · exact hok
  · have hle := h rows rid reference hrefers
    omega

theorem respects_of_withinLimit (h : metadata.WithinLimit) (rid : Nat) :
    Respects (fun left right => metadata.CacheSound left ∧ right = Cache.disabled)
      (metadata.typeReference rid) := by
  refine respects_iff.mpr ?_
  rintro left _ ⟨hleft, rfl⟩
  refine ⟨?_, ((referenceRun metadata rid left).sound hleft).1,
    (referenceRun metadata rid Cache.disabled).extends_before.eq_disabled⟩
  by_cases hrefers : ∃ rows reference, metadata.Refers rows rid reference
  · obtain ⟨rows, reference, hrefers⟩ := hrefers
    rw [typeReference_of_withinLimit h hleft hrefers,
      typeReference_of_withinLimit h cacheSound_disabled hrefers]
  · refine typeReference_of_not_refers hleft ?_
    intro rows reference hreference
    exact hrefers ⟨rows, reference, hreference⟩

theorem withinLimit_of_typeReferences {outcomes : List (Outcome TypeReference)}
    (h : (metadata.typeReferences.runOn Cache.disabled).1 = .ok outcomes) :
    metadata.WithinLimit := by
  intro rows rid reference hrefers
  have hstill : ∀ rid, Still Cache.disabled (metadata.typeReference rid).modelled :=
    fun rid => .of_respects ((settled_disabled.respects rid).modelled .never)
  unfold typeReferences at h
  rw [Still.result_mapM fun rid _ => hstill rid] at h
  obtain ⟨outcome, -, houtcome⟩ := exists_of_mapM_eq_ok h (mem_rids.mpr hrefers.range)
  rcases typeReference_of_refers cacheSound_disabled hrefers with hok | ⟨hlimit, -⟩
  · obtain ⟨rows', hle, hrefers'⟩ := typeReference_disabled_iff.mp hok
    rw [(hrefers.unique hrefers').1]
    exact hle
  · rcases Resolve.modelled_eq_ok houtcome with ⟨value, hvalue, -⟩ | ⟨cause, hcause, -⟩
    · cases hlimit.symm.trans hvalue
    · cases hlimit.symm.trans hcause

end Metadata

namespace Policy

variable {policy : Policy} {metadata : Metadata} {schedule : Schedule}
  {verifier : String → Verifier} {report : Report}

theorem found_of_withinLimit (h : metadata.WithinLimit) {assembly : String} {cache : Cache}
    (hcache : metadata.CacheSound cache) :
    policy.found schedule metadata assembly cache =
      policy.found schedule metadata assembly Cache.disabled := by
  have hrespects := Metadata.uniform_references (Metadata.respects_of_withinLimit h) .never schedule
  have hreferences := (respects_iff.mp hrespects cache Cache.disabled ⟨hcache, rfl⟩).1
  unfold Policy.found
  rw [hreferences]

/--
Work that is spread over several workers with a cache, and work on a single worker without
one, give the same report, but for one case: with the cache a chain of scopes may be longer
than the nesting limit.
-/
theorem default_iff_serial {entries entries' : Array LogEntry} :
    (((policy.checkIn schedule .default metadata verifier).runOn entries).1 = .ok report ∧
      (report.bytecodeValid = true → metadata.WithinLimit)) ↔
    ((policy.checkIn .inOrder .serial metadata verifier).runOn entries').1 = .ok report := by
  rw [checkIn_eq_ok_iff, checkIn_eq_ok_iff]
  constructor
  · rintro ⟨hreports, hlimit⟩
    cases hreports with
    | native hname hnative => exact .native hname hnative
    | invalid hname hmanaged _ hinvalid => exact .invalid hname hmanaged rfl hinvalid
    | scanned hname hmanaged hvalid hfound =>
        rw [found_of_withinLimit (hlimit rfl) (CheckOptions.default.cacheSound metadata)] at hfound
        have hserial : policy.Reports schedule .serial metadata verifier _ :=
          .scanned hname hmanaged hvalid hfound
        exact hserial.of_schedule
  · intro hreports
    cases hreports with
    | native hname hnative => exact ⟨.native hname hnative, nofun⟩
    | invalid hname hmanaged _ hinvalid => exact ⟨.invalid hname hmanaged rfl hinvalid, nofun⟩
    | scanned hname hmanaged hvalid hfound =>
        -- Without a cache every chain was walked to its end, so none of them is too long.
        obtain ⟨references, -, -, -, hreferences, -⟩ := found_eq_ok_iff.mp hfound
        obtain ⟨types, -, -, -, htypes, -⟩ :=
          (Metadata.references_eq_ok_iff Metadata.cacheSound_disabled).mp hreferences
        have hlimit := Metadata.withinLimit_of_typeReferences htypes
        refine ⟨?_, fun _ => hlimit⟩
        change policy.found .inOrder metadata _ Cache.disabled = .ok _ at hfound
        rw [← found_of_withinLimit hlimit (CheckOptions.default.cacheSound metadata)] at hfound
        have hdefault : policy.Reports .inOrder .default metadata verifier _ :=
          .scanned hname hmanaged hvalid hfound
        exact hdefault.of_schedule

end Policy

end AssemblyGate
