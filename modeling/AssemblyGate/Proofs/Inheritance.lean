import AssemblyGate.Proofs.Members

/-!
# What a policy makes of inheritance

A type may be derived from if the reference behind it permits it.  The reference is seen
behind a type that names it, and behind one instantiation of such a type; behind anything
else, modifiers and further instantiations included, no reference is seen and nothing is
asked.
-/

namespace AssemblyGate

open Fallible

/-! ## Types with a reference behind them -/

namespace TypeExpr

/-- A reference is what is left of a type without its instantiations and modifiers. -/
inductive Unwraps (reference : TypeReference) : TypeExpr → Prop
  | referenced : Unwraps reference (.referenced reference)
  | generic {definition : TypeExpr} {arguments : List TypeExpr}
      (h : Unwraps reference definition) : Unwraps reference (.generic definition arguments)
  | modified {underlying modifier : TypeExpr} {required : Bool}
      (h : Unwraps reference underlying) :
      Unwraps reference (.modified underlying modifier required)

@[simp] theorem external?_eq_some_iff {type : TypeExpr} {reference : TypeReference} :
    type.external? = some reference ↔
      type = .referenced reference ∨ ∃ arguments, type = .generic (.referenced reference) arguments := by
  constructor
  · intro h
    unfold external? at h
    split at h
    · cases h
      exact .inl rfl
    · cases h
      exact .inr ⟨_, rfl⟩
    · cases h
  · rintro (rfl | ⟨arguments, rfl⟩) <;> rfl

theorem Unwraps.eq_of_external? {type : TypeExpr} {reference seen : TypeReference}
    (h : Unwraps reference type) (hseen : type.external? = some seen) : seen = reference := by
  rcases external?_eq_some_iff.mp hseen with rfl | ⟨arguments, rfl⟩
  · cases h
    rfl
  · cases h with
    | generic h =>
        cases h
        rfl

end TypeExpr

namespace Policy

variable {policy : Policy}

def PermitsInheritance (policy : Policy) (reference : TypeReference) : Prop :=
  ∃ type, policy.access reference = some type ∧ type.allowsInheritance = true

theorem mayInherit_iff {base : TypeExpr} :
    policy.mayInherit base = true ↔
      ∀ reference, base.external? = some reference → policy.PermitsInheritance reference := by
  unfold mayInherit
  cases base.external? with
  | none => simp
  | some reference => simp [PermitsInheritance, Option.any_eq_true]

@[simp] theorem baseType_mem_checkInheritance {types : List InheritedType} {base : TypeExpr} :
    .baseType base ∈ policy.checkInheritance types ↔
      (∃ inherited ∈ types, inherited.base = some base) ∧ policy.mayInherit base = false := by
  simp only [checkInheritance, checkInherited, List.mem_flatMap, List.mem_append, List.mem_map,
    List.mem_filter, Option.mem_toList]
  constructor
  · rintro ⟨inherited, hinherited, ⟨_, ⟨hbase, hrefused⟩, ⟨⟩⟩ | ⟨_, -, ⟨⟩⟩⟩
    exact ⟨⟨inherited, hinherited, hbase⟩, by simpa using hrefused⟩
  · rintro ⟨⟨inherited, hinherited, hbase⟩, hrefused⟩
    exact ⟨inherited, hinherited, .inl ⟨base, ⟨hbase, by simpa using hrefused⟩, rfl⟩⟩

@[simp] theorem interface_mem_checkInheritance {types : List InheritedType} {base : TypeExpr} :
    .interface base ∈ policy.checkInheritance types ↔
      (∃ inherited ∈ types, base ∈ inherited.interfaces) ∧ policy.mayInherit base = false := by
  simp only [checkInheritance, checkInherited, List.mem_flatMap, List.mem_append, List.mem_map,
    List.mem_filter, Option.mem_toList]
  constructor
  · rintro ⟨inherited, hinherited, ⟨_, -, ⟨⟩⟩ | ⟨_, ⟨hbase, hrefused⟩, ⟨⟩⟩⟩
    exact ⟨⟨inherited, hinherited, hbase⟩, by simpa using hrefused⟩
  · rintro ⟨⟨inherited, hinherited, hbase⟩, hrefused⟩
    exact ⟨inherited, hinherited, .inr ⟨base, ⟨hbase, by simpa using hrefused⟩, rfl⟩⟩

theorem mayInherit_eq_false_iff_of_unwraps {type : TypeExpr} {reference : TypeReference}
    (h : TypeExpr.Unwraps reference type) :
    policy.mayInherit type = false ↔
      (type = .referenced reference ∨
        ∃ arguments, type = .generic (.referenced reference) arguments) ∧
      ¬ policy.PermitsInheritance reference := by
  rw [← Bool.not_eq_true, mayInherit_iff, ← TypeExpr.external?_eq_some_iff]
  constructor
  · intro hrefused
    obtain ⟨seen, hseen⟩ := Classical.not_forall.mp hrefused
    obtain ⟨hexternal, hblocked⟩ := Classical.not_imp.mp hseen
    obtain rfl := h.eq_of_external? hexternal
    exact ⟨hexternal, hblocked⟩
  · rintro ⟨hexternal, hblocked⟩ hpermitted
    exact hblocked (hpermitted reference hexternal)

/--
A type that is derived from or implemented is reported exactly if the reference behind it
blocks that and it is the reference or one instantiation of it.  Under a modifier, or
under a second instantiation, the same reference is not reported.
-/
theorem inheritance_reported_iff {types : List InheritedType} {inherited : InheritedType}
    {type : TypeExpr} {reference : TypeReference} (hinherited : inherited ∈ types)
    (hunwraps : TypeExpr.Unwraps reference type) :
    (inherited.base = some type →
      (.baseType type ∈ policy.checkInheritance types ↔
        (type = .referenced reference ∨
          ∃ arguments, type = .generic (.referenced reference) arguments) ∧
        ¬ policy.PermitsInheritance reference)) ∧
    (type ∈ inherited.interfaces →
      (.interface type ∈ policy.checkInheritance types ↔
        (type = .referenced reference ∨
          ∃ arguments, type = .generic (.referenced reference) arguments) ∧
        ¬ policy.PermitsInheritance reference)) := by
  rw [baseType_mem_checkInheritance, interface_mem_checkInheritance,
    mayInherit_eq_false_iff_of_unwraps hunwraps]
  constructor
  · intro hbase
    exact and_iff_right ⟨inherited, hinherited, hbase⟩
  · intro hinterface
    exact and_iff_right ⟨inherited, hinherited, hinterface⟩

def entity : TypeReference := .top "Lib" (some "Game") "Entity"

def blockingPolicy : Policy where
  systemAssembly := ""
  namespaces := []
  assemblies := []
  toleratedDefects := []
  types := [("Game", [("Entity", ⟨true, .block, [], [], []⟩)])]

theorem inheritance_unreported_under_modifier :
    TypeExpr.Unwraps entity (.modified (.referenced entity) (.referenced entity) false) ∧
      ¬ blockingPolicy.PermitsInheritance entity ∧
      .baseType (.modified (.referenced entity) (.referenced entity) false) ∉
        blockingPolicy.checkInheritance
          [⟨.defined none "Plugin",
            some (.modified (.referenced entity) (.referenced entity) false), []⟩] := by
  have hunwraps :
      TypeExpr.Unwraps entity (.modified (.referenced entity) (.referenced entity) false) :=
    .modified .referenced
  refine ⟨hunwraps, ?_, ?_⟩
  · rintro ⟨type, haccess, hinherit⟩
    cases haccess
    cases hinherit
  · rw [(inheritance_reported_iff (List.mem_singleton.mpr rfl) hunwraps).1 rfl]
    rintro ⟨hshape | ⟨_, hshape⟩, -⟩
    · cases hshape
    · cases hshape

end Policy

/-! ## Rows of the types -/

namespace Policy

variable {policy : Policy} {metadata : Metadata} {cache : Cache} {rid : Nat}

inductive PassesBase (policy : Policy) (metadata : Metadata) (cache : Cache)
    (index : CodedIndex) : Prop
  | nil (h : index.isNil = true)
  | permitted {base : TypeExpr} (hbase : metadata.TypeOf cache index.token base)
      (hpermitted : ∀ reference, base.external? = some reference →
        policy.PermitsInheritance reference)

theorem passes_iff_passesBase {index : CodedIndex} {outcome : Outcome TypeExpr}
    (h : ((metadata.inheritedFrom index).runOn cache).1 = .ok outcome) :
    outcome.Passes (policy.mayInherit · = true) ↔ policy.PassesBase metadata cache index := by
  unfold Metadata.inheritedFrom at h
  split at h
  · next hnil =>
      cases h
      rw [iff_true_left Outcome.passes_skipped]
      exact .nil hnil
  · next hindex =>
      rcases Resolve.modelled_eq_ok h with ⟨base, hbase, rfl⟩ | ⟨cause, hcause, rfl⟩
      · rw [Outcome.passes_kept, mayInherit_iff]
        constructor
        · exact .permitted hbase
        · rintro (hnil | ⟨hbase', hpermitted⟩)
          · exact absurd hnil hindex
          · cases hbase.symm.trans hbase'
            exact hpermitted
      · rw [iff_false_left Outcome.not_passes_refused]
        rintro (hnil | ⟨hbase, -⟩)
        · exact hindex hnil
        · cases hcause.symm.trans hbase

theorem checkInherited_eq_nil_iff {type : TypeExpr} {base : Outcome TypeExpr}
    {interfaces : List (Outcome TypeExpr)} :
    (Outcome.refusedOf (base :: interfaces) = [] ∧
      policy.checkInherited ⟨type, base.kept?, Outcome.keptOf interfaces⟩ = []) ↔
      ∀ outcome ∈ base :: interfaces, outcome.Passes (policy.mayInherit · = true) := by
  have hkept : Outcome.keptOf (base :: interfaces) =
      base.kept?.toList ++ Outcome.keptOf interfaces := by
    cases base <;> rfl
  rw [Outcome.forall_passes_iff, hkept, checkInherited]
  simp [List.filter_eq_nil_iff, or_imp, forall_and]

theorem inheritedType_eq_nil_iff (hcache : metadata.Settled cache)
    {implementations : List (Nat × CodedIndex)} {inherited : InheritedType}
    {refused : List Violation}
    (h : ((metadata.inheritedType implementations rid).runOn cache).1 =
      .ok (inherited, refused)) :
    (refused = [] ∧ policy.checkInherited inherited = []) ↔
      (∀ row, metadata.row TypeDefRow rid = .ok row →
        policy.PassesBase metadata cache row.base) ∧
      ∀ interface, (rid, interface) ∈ implementations →
        policy.PassesBase metadata cache interface := by
  unfold Metadata.inheritedType at h
  rw [(Still.ofExcept _).result_bind, bind_eq_ok_iff] at h
  obtain ⟨row, hrow, h⟩ := h
  rw [(hcache.still_inheritedFrom row.base).result_bind, bind_eq_ok_iff] at h
  obtain ⟨base, hbase, h⟩ := h
  have hstill : ∀ implementation : Nat × CodedIndex,
      Still cache (metadata.inheritedFrom implementation.2) :=
    fun implementation => hcache.still_inheritedFrom implementation.2
  rw [(Still.mapM fun item _ => hstill item).result_bind, bind_eq_ok_iff] at h
  obtain ⟨interfaces, hinterfaces, h⟩ := h
  rw [Still.result_mapM fun item _ => hstill item] at hinterfaces
  rw [(Still.ofExcept _).result_bind, bind_eq_ok_iff] at h
  obtain ⟨type, -, h⟩ := h
  cases h
  rw [checkInherited_eq_nil_iff, List.forall_mem_cons, passes_iff_passesBase hbase,
    forall_mem_iff_of_mapM_eq_ok hinterfaces fun _ _ _ => passes_iff_passesBase]
  refine and_congr ?_ ?_
  · constructor
    · intro hpasses row' hrow'
      cases hrow.symm.trans hrow'
      exact hpasses
    · intro hpasses
      exact hpasses row hrow
  · constructor
    · intro hpasses interface hmem
      exact hpasses (rid, interface) (List.mem_filter.mpr ⟨hmem, by simp⟩)
    · rintro hpasses ⟨owner, interface⟩ hentry
      obtain ⟨hmem, howner⟩ := List.mem_filter.mp hentry
      obtain rfl : owner = rid := by simpa using howner
      exact hpasses interface hmem

theorem inheritedTypes_eq_nil_iff (hcache : metadata.Settled cache)
    {inherited : List InheritedType} {refused : List Violation}
    (h : (metadata.inheritedTypes.runOn cache).1 = .ok (inherited, refused)) :
    (refused = [] ∧ policy.checkInheritance inherited = []) ↔
      (∀ rid row, metadata.row TypeDefRow rid = .ok row →
        policy.PassesBase metadata cache row.base) ∧
      ∃ implementations, metadata.implementations = .ok implementations ∧
        ∀ owner interface, (owner, interface) ∈ implementations →
          1 ≤ owner → owner ≤ metadata.typeDefCount →
            policy.PassesBase metadata cache interface := by
  unfold Metadata.inheritedTypes at h
  rw [(Still.ofExcept _).result_bind, bind_eq_ok_iff] at h
  obtain ⟨implementations, himplementations, h⟩ := h
  have hstill := hcache.still_inheritedType implementations
  rw [(Still.mapM fun rid _ => hstill rid).result_bind, bind_eq_ok_iff] at h
  obtain ⟨found, hfound, h⟩ := h
  rw [Still.result_mapM fun rid _ => hstill rid] at hfound
  cases h
  have hnil : (found.flatMap Prod.snd = [] ∧ policy.checkInheritance (found.map Prod.fst) = []) ↔
      ∀ entry ∈ found, entry.2 = [] ∧ policy.checkInherited entry.1 = [] := by
    simp only [checkInheritance, List.flatMap_eq_nil_iff, List.forall_mem_map]
    exact ⟨fun hall entry hentry => ⟨hall.1 entry hentry, hall.2 entry hentry⟩,
      fun hall => ⟨fun entry hentry => (hall entry hentry).1,
        fun entry hentry => (hall entry hentry).2⟩⟩
  rw [hnil, forall_mem_iff_of_mapM_eq_ok hfound
    fun rid _ entry hentry => inheritedType_eq_nil_iff hcache hentry]
  constructor
  · intro hall
    constructor
    · intro rid row hrow
      exact (hall rid (mem_rids.mpr (Metadata.range_of_row_eq_ok hrow))).1 row hrow
    · refine ⟨implementations, himplementations, ?_⟩
      intro owner interface hmem hpos hle
      exact (hall owner (mem_rids.mpr ⟨hpos, hle⟩)).2 interface hmem
  · rintro ⟨hbases, implementations', himplementations', hinterfaces⟩ rid hrid
    cases himplementations.symm.trans himplementations'
    obtain ⟨hpos, hle⟩ := mem_rids.mp hrid
    exact ⟨hbases rid, fun interface hmem => hinterfaces rid interface hmem hpos hle⟩

end Policy

end AssemblyGate
