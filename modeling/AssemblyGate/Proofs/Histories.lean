import AssemblyGate.Proofs.Definitions
import AssemblyGate.Proofs.Resolution
import AssemblyGate.Proofs.Scopes

/-!
# Caches after any history of calls

A cache starts empty and is filled by whatever is asked of it: references, specifications
and the types of tokens, in any order, and whether the answer is a type or a failure.
`Spells` follows the chain of scopes of a row through the tables, with no limit and no
cache.  All that a cache holds after such a history is what some chain spells out, and no
row comes twice in that chain.  So a cache never changes an answer; it can only give one
where the limit would have refused.
-/

namespace AssemblyGate.Metadata

open Fallible

variable {metadata : Metadata} {cache : Cache} {rid : Nat} {outer : List Nat}
  {reference : TypeReference}

/-! ## Chains in the tables -/

/--
The rows behind `rid` on its chain of scopes, up to one that stands in an assembly, and the
reference that the names, namespaces and scopes of all these rows make up.
-/
inductive Spells (metadata : Metadata) : (rid : Nat) → (outer : List Nat) → TypeReference → Prop
  | top {rid : Nat} {row : TypeRefRow} {assemblyRow : AssemblyRefRow} {ns : Option String}
      {name assembly : String} (hrow : metadata.row TypeRefRow rid = .ok row)
      (hname : metadata.string row.name = .ok name) (hns : metadata.string? row.ns = .ok ns)
      (hscope : row.scope.table = .assemblyRef)
      (hassembly : metadata.row AssemblyRefRow row.scope.row = .ok assemblyRow)
      (hassemblyName : metadata.string assemblyRow.name = .ok assembly) :
      Spells metadata rid [] (.top assembly ns name)
  | inside {rid : Nat} {row : TypeRefRow} {ns : Option String} {name : String}
      {outer : List Nat} {parent : TypeReference}
      (hrow : metadata.row TypeRefRow rid = .ok row)
      (hname : metadata.string row.name = .ok name) (hns : metadata.string? row.ns = .ok ns)
      (hscope : row.scope.table = .typeRef)
      (houter : Spells metadata row.scope.row outer parent) :
      Spells metadata rid (row.scope.row :: outer) (.nested (.referenced parent) ns name)

theorem scopeLink_eq_ok {link : ScopeLink} (h : metadata.scopeLink rid = .ok link) :
    ∃ row name ns, metadata.row TypeRefRow rid = .ok row ∧
      metadata.string row.name = .ok name ∧ metadata.string? row.ns = .ok ns ∧
      ((row.scope.table = .assemblyRef ∧ ∃ assemblyRow assembly,
          metadata.row AssemblyRefRow row.scope.row = .ok assemblyRow ∧
          metadata.string assemblyRow.name = .ok assembly ∧ link = .top assembly ns name) ∨
        (row.scope.table = .typeRef ∧ link = .inside row.scope.row ns name)) := by
  obtain ⟨row, hrow, h⟩ := bind_eq_ok_iff.mp h
  obtain ⟨name, hname, h⟩ := bind_eq_ok_iff.mp h
  obtain ⟨ns, hns, h⟩ := bind_eq_ok_iff.mp h
  refine ⟨row, name, ns, hrow, hname, hns, ?_⟩
  dsimp only at h
  by_cases hnil : row.scope.isNil = true
  · rw [if_pos hnil] at h
    cases h
  rw [if_neg hnil] at h
  split at h
  · next htable =>
      obtain ⟨assemblyRow, hassembly, h⟩ := bind_eq_ok_iff.mp h
      obtain ⟨assembly, hassemblyName, h⟩ := bind_eq_ok_iff.mp h
      cases h
      exact .inl ⟨htable, assemblyRow, assembly, hassembly, hassemblyName, rfl⟩
  · next htable =>
      cases h
      exact .inr ⟨htable, rfl⟩
  · cases h
  · cases h

theorem Refers.exists_spells {rows : Nat} (h : metadata.Refers rows rid reference) :
    ∃ outer, metadata.Spells rid outer reference := by
  induction h with
  | top hlink =>
      obtain ⟨row, name, ns, hrow, hname, hns, hscope | hscope⟩ := scopeLink_eq_ok hlink
      · obtain ⟨htable, assemblyRow, assembly, hassembly, hassemblyName, hlink⟩ := hscope
        cases hlink
        exact ⟨[], .top hrow hname hns htable hassembly hassemblyName⟩
      · cases hscope.2
  | inside hlink _ ih =>
      obtain ⟨row, name, ns, hrow, hname, hns, hscope | hscope⟩ := scopeLink_eq_ok hlink
      · obtain ⟨-, _, _, -, -, hscope⟩ := hscope
        cases hscope
      · obtain ⟨htable, hlink⟩ := hscope
        cases hlink
        obtain ⟨outer, houter⟩ := ih
        exact ⟨row.scope.row :: outer, .inside hrow hname hns htable houter⟩

theorem Spells.outer_unique {outer' : List Nat} {reference' : TypeReference}
    (h : metadata.Spells rid outer reference) (h' : metadata.Spells rid outer' reference') :
    outer = outer' := by
  induction h generalizing outer' reference' with
  | top hrow _ _ hscope _ _ =>
      cases h' with
      | top => rfl
      | inside hrow' _ _ hscope' _ =>
          cases hrow.symm.trans hrow'
          cases hscope.symm.trans hscope'
  | inside hrow _ _ hscope _ ih =>
      cases h' with
      | top hrow' _ _ hscope' _ _ =>
          cases hrow.symm.trans hrow'
          cases hscope.symm.trans hscope'
      | inside hrow' _ _ _ houter' =>
          cases hrow.symm.trans hrow'
          rw [ih houter']

theorem Spells.shorter_of_mem {other : Nat} (h : metadata.Spells rid outer reference)
    (hother : other ∈ outer) :
    ∃ behind parent, metadata.Spells other behind parent ∧ behind.length < outer.length := by
  induction h with
  | top => simp at hother
  | inside _ _ _ _ houter ih =>
      rcases List.mem_cons.mp hother with rfl | hother
      · exact ⟨_, _, houter, by simp⟩
      · obtain ⟨behind, parent, hbehind, hlt⟩ := ih hother
        exact ⟨behind, parent, hbehind, by simp; omega⟩

theorem Spells.nodup (h : metadata.Spells rid outer reference) : (rid :: outer).Nodup := by
  induction h with
  | top => simp
  | inside hrow hname hns hscope houter ih =>
      refine List.nodup_cons.mpr ⟨fun hmem => ?_, ih⟩
      have hself := Spells.inside hrow hname hns hscope houter
      obtain ⟨behind, parent, hbehind, hlt⟩ := hself.shorter_of_mem hmem
      rw [hself.outer_unique hbehind] at hlt
      exact Nat.lt_irrefl _ hlt

/-! ## Histories -/

inductive Call where
  | reference (rid : Nat)
  | specification (rid : Nat)
  | resolve (token : Token)
  deriving DecidableEq, Repr

def afterCall (metadata : Metadata) (cache : Cache) : Call → Cache
  | .reference rid => ((metadata.typeReference rid).runOn cache).2
  | .specification rid => ((metadata.typeSpecification rid).runOn cache).2
  | .resolve token => ((metadata.resolve token).runOn cache).2

def cacheAfter (metadata : Metadata) (calls : List Call) : Cache :=
  calls.foldl metadata.afterCall Cache.empty

/-- A cache that is kept and does not lie. -/
structure Honest (metadata : Metadata) (cache : Cache) : Prop where
  kept : cache.isSome
  sound : metadata.CacheSound cache

theorem respects_honest (metadata : Metadata) (rid : Nat) :
    Respects (fun left right => left = right ∧ metadata.Honest right)
      (metadata.typeReference rid) := by
  refine respects_iff.mpr ?_
  rintro cache _ ⟨rfl, hcache⟩
  have hrun := referenceRun metadata rid cache
  have hkept := hrun.extends_before.isSome_eq ▸ hcache.kept
  exact ⟨rfl, rfl, hkept, (hrun.sound hcache.sound).1⟩

theorem Honest.afterCall (h : metadata.Honest cache) (call : Call) :
    metadata.Honest (metadata.afterCall cache call) := by
  have hreference := metadata.respects_honest
  have hafter {α : Type} {action : Resolve α}
      (hrespects : Respects (fun left right => left = right ∧ metadata.Honest right) action) :
      metadata.Honest (action.runOn cache).2 :=
    (respects_iff.mp hrespects cache cache ⟨rfl, h⟩).2.2
  cases call with
  | reference rid => exact hafter (hreference rid)
  | specification rid =>
      exact hafter (uniform_specification (fun token _ => uniform_resolveAt hreference _ token) rid)
  | resolve token => exact hafter (uniform_resolve hreference token)

theorem Honest.foldl (h : metadata.Honest cache) (calls : List Call) :
    metadata.Honest (calls.foldl metadata.afterCall cache) := by
  induction calls generalizing cache with
  | nil => exact h
  | cons call calls ih => exact ih (h.afterCall call)

theorem honest_cacheAfter (metadata : Metadata) (calls : List Call) :
    metadata.Honest (metadata.cacheAfter calls) :=
  Honest.foldl ⟨rfl, cacheSound_empty⟩ calls

/-! ## What a cache answers -/

theorem typeReference_of_disabled (hcache : metadata.CacheSound cache)
    (h : ((metadata.typeReference rid).runOn Cache.disabled).1 = .ok reference) :
    ((metadata.typeReference rid).runOn cache).1 = .ok reference := by
  obtain ⟨rows, hle, hrefers⟩ := typeReference_disabled_iff.mp h
  rcases typeReference_of_refers hcache hrefers with hok | ⟨-, hlt⟩
  · exact hok
  · omega

/--
After any calls a cache holds nothing but what the chains of its rows spell out, and these
repeat no row.  Where an answer comes with the cache and without it, it is the same; where it
comes without the cache it comes with it; and what was answered stays in the cache.
-/
theorem cache_never_lies (metadata : Metadata) (calls : List Call) :
    (∀ rid reference, (metadata.cacheAfter calls).find? rid = some reference →
      ∃ outer, metadata.Spells rid outer reference ∧ (rid :: outer).Nodup) ∧
    (∀ rid reference reference',
      ((metadata.typeReference rid).runOn (metadata.cacheAfter calls)).1 = .ok reference →
      ((metadata.typeReference rid).runOn Cache.disabled).1 = .ok reference' →
        reference = reference') ∧
    (∀ rid reference, ((metadata.typeReference rid).runOn Cache.disabled).1 = .ok reference →
      ((metadata.typeReference rid).runOn (metadata.cacheAfter calls)).1 = .ok reference) ∧
    ∀ rid reference,
      ((metadata.typeReference rid).runOn (metadata.cacheAfter calls)).1 = .ok reference →
        (metadata.cacheAfter (calls ++ [.reference rid])).find? rid = some reference := by
  obtain ⟨hkept, hsound⟩ := metadata.honest_cacheAfter calls
  refine ⟨?entries, ?same, ?answers, ?stays⟩
  case entries =>
    intro rid reference hfound
    obtain ⟨rows, hrefers⟩ := hsound hfound
    obtain ⟨outer, hspells⟩ := hrefers.exists_spells
    exact ⟨outer, hspells, hspells.nodup⟩
  case same =>
    intro rid reference reference' hcached huncached
    have hsame := typeReference_of_disabled hsound huncached
    exact Except.ok.inj (hcached.symm.trans hsame)
  case answers =>
    intro rid reference huncached
    exact typeReference_of_disabled hsound huncached
  case stays =>
    intro rid reference hcached
    have hfind := (referenceRun metadata rid _).kept hsound hkept hcached
    rw [cacheAfter, List.foldl_append]
    exact hfind

/-- A type of `L`, a type nested in it, and two types that are nested in each other. -/
def knottedRows : Metadata :=
  ofTables [(.typeRef, 4), (.assemblyRef, 1)]
    #[6, 0, 1, 0, 0, 0,
      7, 0, 3, 0, 0, 0,
      19, 0, 3, 0, 0, 0,
      15, 0, 3, 0, 0, 0,
      0, 0, 0, 0, 0, 0, 0, 0, 0, 0, 0, 0, 0, 0, 5, 0, 0, 0, 0, 0]
    #[0, 84, 0, 85, 0, 76, 0] #[0]

theorem cache_of_knottedRows :
    let nested := TypeReference.nested (.referenced (.top "L" none "T")) none "U"
    ((knottedRows.typeReference 3).runOn Cache.disabled).1 =
        .error (.inconsistent (.cyclicTypeRef ⟨0x1000003⟩)) ∧
      (knottedRows.cacheAfter [.reference 3, .reference 2]).find? 2 = some nested ∧
      ∃ outer, knottedRows.Spells 2 outer nested ∧ (2 :: outer).Nodup := by
  intro nested
  have huncached : ((knottedRows.typeReference 2).runOn Cache.disabled).1 = .ok nested := rfl
  obtain ⟨-, -, hanswers, hstays⟩ := cache_never_lies knottedRows [.reference 3]
  have hfound := hstays 2 nested (hanswers 2 nested huncached)
  obtain ⟨hentries, -⟩ := cache_never_lies knottedRows [.reference 3, .reference 2]
  exact ⟨rfl, hfound, hentries 2 nested hfound⟩

end AssemblyGate.Metadata
