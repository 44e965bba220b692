import AssemblyGate.Proofs.Fallible

/-!
# Chains of scopes

A row of the references stands at the top of an assembly or inside the type of another
row.  `Metadata.Refers` follows such a chain to its end, however long it is.  The
resolution of a row follows it only for so many rows, but it may cut the chain short at
a row that the cache has.  `ReferenceRun` lists what one such resolution can do; all
that is known about the cache follows from it by induction.
-/

namespace AssemblyGate

/-! ## The cache -/

namespace Cache

variable {cache before middle after : Cache} {rid other : Nat} {reference kept : TypeReference}

@[simp] theorem find?_disabled (rid : Nat) : Cache.disabled.find? rid = none := rfl

@[simp] theorem find?_empty (rid : Nat) : Cache.empty.find? rid = none := by
  simp [Cache.empty, Cache.find?]

@[simp] theorem isSome_insert : (cache.insert rid reference).isSome = cache.isSome := by
  cases cache <;> rfl

theorem find?_insert_of_find? (h : cache.find? other = some kept) :
    (cache.insert rid reference).find? other = some kept := by
  cases cache with
  | none => simp [Cache.find?] at h
  | some entries =>
      simp only [Cache.find?, Option.bind_some] at h
      have hmem : other ∈ entries := by
        rw [Std.HashMap.mem_iff_isSome_getElem?, h]
        rfl
      simp only [Cache.find?, Cache.insert, Option.map_some, Option.bind_some,
        Std.HashMap.getElem?_insertIfNew, h]
      split
      · next hnew =>
          obtain ⟨hrid, habsent⟩ := hnew
          rw [eq_of_beq hrid] at habsent
          exact absurd hmem habsent
      · rfl

theorem find?_of_find?_insert (h : (cache.insert rid reference).find? other = some kept) :
    cache.find? other = some kept ∨ rid = other ∧ reference = kept := by
  cases cache with
  | none => simp [Cache.find?, Cache.insert] at h
  | some entries =>
      simp only [Cache.find?, Cache.insert, Option.map_some, Option.bind_some,
        Std.HashMap.getElem?_insertIfNew] at h
      split at h
      · next hnew => exact .inr ⟨eq_of_beq hnew.1, Option.some.inj h⟩
      · exact .inl h

theorem find?_insert_self (henabled : cache.isSome) (hnew : cache.find? rid = none) :
    (cache.insert rid reference).find? rid = some reference := by
  obtain ⟨entries, rfl⟩ := Option.isSome_iff_exists.mp henabled
  have habsent : rid ∉ entries := by
    rw [Std.HashMap.mem_iff_isSome_getElem?]
    simpa [Cache.find?] using hnew
  simp only [Cache.find?, Cache.insert, Option.map_some, Option.bind_some,
    Std.HashMap.getElem?_insertIfNew]
  simp [habsent]

structure Extends (before after : Cache) : Prop where
  isSome_eq : before.isSome = after.isSome
  find? : ∀ {rid reference}, before.find? rid = some reference → after.find? rid = some reference

@[refl] theorem Extends.refl (cache : Cache) : cache.Extends cache := ⟨rfl, id⟩

@[trans] theorem Extends.trans (first : before.Extends middle) (second : middle.Extends after) :
    before.Extends after :=
  ⟨first.isSome_eq.trans second.isSome_eq, fun h => second.find? (first.find? h)⟩

theorem Extends.insert (h : before.Extends after) (rid : Nat) (reference : TypeReference) :
    before.Extends (after.insert rid reference) :=
  ⟨by simpa using h.isSome_eq, fun hfound => find?_insert_of_find? (h.find? hfound)⟩

theorem Extends.eq_disabled (h : Cache.disabled.Extends after) : after = Cache.disabled := by
  have hnone := h.isSome_eq
  cases after with
  | none => rfl
  | some entries => simp [Cache.disabled] at hnone

end Cache

/-! ## Chains -/

namespace Metadata

variable {metadata : Metadata}

/--
The chain of scopes of row `rid` has `rows` rows, this one included, and ends at the top
of an assembly; the reference is what the rows spell out together.
-/
inductive Refers (metadata : Metadata) : (rows rid : Nat) → TypeReference → Prop
  | top {rid : Nat} {assembly : String} {ns : Option String} {name : String}
      (hlink : metadata.scopeLink rid = .ok (.top assembly ns name)) :
      Refers metadata 1 rid (.top assembly ns name)
  | inside {rid outer : Nat} {ns : Option String} {name : String} {rows : Nat}
      {parent : TypeReference} (hlink : metadata.scopeLink rid = .ok (.inside outer ns name))
      (houter : Refers metadata rows outer parent) :
      Refers metadata (rows + 1) rid (.nested (.referenced parent) ns name)

theorem Refers.unique {rows rows' rid : Nat} {reference reference' : TypeReference}
    (h : metadata.Refers rows rid reference) (h' : metadata.Refers rows' rid reference') :
    rows = rows' ∧ reference = reference' := by
  induction h generalizing rows' reference' with
  | top hlink =>
      cases h' with
      | top hlink' =>
          rw [hlink] at hlink'
          cases hlink'
          exact ⟨rfl, rfl⟩
      | inside hlink' _ =>
          rw [hlink] at hlink'
          cases hlink'
  | inside hlink _ ih =>
      cases h' with
      | top hlink' =>
          rw [hlink] at hlink'
          cases hlink'
      | inside hlink' houter' =>
          rw [hlink] at hlink'
          cases hlink'
          obtain ⟨rfl, rfl⟩ := ih houter'
          exact ⟨rfl, rfl⟩

theorem Refers.pos {rows rid : Nat} {reference : TypeReference}
    (h : metadata.Refers rows rid reference) : 0 < rows := by
  cases h <;> omega

theorem Refers.of_inside {rows rid outer : Nat} {ns : Option String} {name : String}
    {reference : TypeReference} (h : metadata.Refers rows rid reference)
    (hlink : metadata.scopeLink rid = .ok (.inside outer ns name)) :
    ∃ before parent, rows = before + 1 ∧ reference = .nested (.referenced parent) ns name ∧
      metadata.Refers before outer parent := by
  cases h with
  | top hlink' =>
      rw [hlink] at hlink'
      cases hlink'
  | inside hlink' houter =>
      rw [hlink] at hlink'
      cases hlink'
      exact ⟨_, _, rfl, rfl, houter⟩

/-- The cache holds nothing but what the chains of its rows spell out. -/
def CacheSound (metadata : Metadata) (cache : Cache) : Prop :=
  ∀ {rid reference}, cache.find? rid = some reference →
    ∃ rows, metadata.Refers rows rid reference

theorem cacheSound_disabled : metadata.CacheSound Cache.disabled := by
  intro rid reference h
  simp at h

theorem cacheSound_empty : metadata.CacheSound Cache.empty := by
  intro rid reference h
  simp at h

theorem CacheSound.insert {cache : Cache} (h : metadata.CacheSound cache) {rows rid : Nat}
    {reference : TypeReference} (hrefers : metadata.Refers rows rid reference) :
    metadata.CacheSound (cache.insert rid reference) := by
  intro other kept hkept
  rcases Cache.find?_of_find?_insert hkept with hold | ⟨rfl, rfl⟩
  · exact h hold
  · exact ⟨rows, hrefers⟩

end Metadata

/-! ## One resolution -/

namespace Metadata

variable {metadata : Metadata} {levels : Nat} {chain : List Nat} {rid : Nat} {cache : Cache}

theorem runOn_cached {find : Resolve TypeReference} (hfound : cache.find? rid = none) :
    (cached rid find).runOn cache =
      match find.runOn cache with
      | (.ok reference, after) => (.ok reference, after.insert rid reference)
      | (.error error, after) => (.error error, after) := by
  simp only [Fallible.runOn, cached, hfound]
  rcases find cache with ⟨_ | _, _⟩ <;> rfl

@[simp] theorem runOn_typeReferenceIn_of_find? {reference : TypeReference}
    (hfound : cache.find? rid = some reference) :
    (metadata.typeReferenceIn levels chain rid).runOn cache = (.ok reference, cache) := by
  rw [typeReferenceIn.eq_def]
  simp [Fallible.runOn, cached, hfound]

@[simp] theorem runOn_typeReferenceIn_of_mem (hfound : cache.find? rid = none)
    (hchain : rid ∈ chain) :
    (metadata.typeReferenceIn levels chain rid).runOn cache =
      (.error (.inconsistent (.cyclicTypeRef (Token.ofParts TableId.typeRef.number rid))),
        cache) := by
  rw [typeReferenceIn.eq_def, runOn_cached hfound]
  simp [hchain]

@[simp] theorem runOn_typeReferenceIn_zero (hfound : cache.find? rid = none)
    (hchain : rid ∉ chain) :
    (metadata.typeReferenceIn 0 chain rid).runOn cache = (.error .nestingLimit, cache) := by
  rw [typeReferenceIn.eq_def, runOn_cached hfound]
  simp [hchain]

theorem runOn_typeReferenceIn_succ (hfound : cache.find? rid = none) (hchain : rid ∉ chain) :
    (metadata.typeReferenceIn (levels + 1) chain rid).runOn cache =
      match metadata.scopeLink rid with
      | .error error => (.error error, cache)
      | .ok (.top assembly ns name) =>
          (.ok (.top assembly ns name), cache.insert rid (.top assembly ns name))
      | .ok (.inside outer ns name) =>
          match (metadata.typeReferenceIn levels (rid :: chain) outer).runOn cache with
          | (.ok parent, after) =>
              (.ok (.nested (.referenced parent) ns name),
                after.insert rid (.nested (.referenced parent) ns name))
          | (.error error, after) => (.error error, after) := by
  rw [typeReferenceIn.eq_def, runOn_cached hfound]
  have hcontains : chain.contains rid = false := by simpa using hchain
  simp only [hcontains, Bool.false_eq_true, if_false, Fallible.runOn_bind,
    Fallible.runOn_ofExcept]
  rcases metadata.scopeLink rid with _ | ⟨assembly, ns, name⟩ | ⟨outer, ns, name⟩
  · rfl
  · rfl
  · simp only [Fallible.runOn_bind]
    rcases (metadata.typeReferenceIn levels (rid :: chain) outer).runOn cache with ⟨_ | _, _⟩ <;>
      rfl

end Metadata

/--
All that the resolution of a row can do, with `levels` levels left, behind the rows of
`chain`, from one cache to another.
-/
inductive ReferenceRun (metadata : Metadata) : (levels : Nat) → (chain : List Nat) → (rid : Nat) →
    (before : Cache) → Except Error TypeReference → (after : Cache) → Prop
  | found {levels : Nat} {chain : List Nat} {rid : Nat} {cache : Cache}
      {reference : TypeReference} (hfound : cache.find? rid = some reference) :
      ReferenceRun metadata levels chain rid cache (.ok reference) cache
  | cyclic {levels : Nat} {chain : List Nat} {rid : Nat} {cache : Cache}
      (hfound : cache.find? rid = none) (hchain : rid ∈ chain) :
      ReferenceRun metadata levels chain rid cache
        (.error (.inconsistent (.cyclicTypeRef (Token.ofParts TableId.typeRef.number rid)))) cache
  | tooDeep {chain : List Nat} {rid : Nat} {cache : Cache}
      (hfound : cache.find? rid = none) (hchain : rid ∉ chain) :
      ReferenceRun metadata 0 chain rid cache (.error .nestingLimit) cache
  | broken {levels : Nat} {chain : List Nat} {rid : Nat} {cache : Cache} {error : Error}
      (hfound : cache.find? rid = none) (hchain : rid ∉ chain)
      (hlink : metadata.scopeLink rid = .error error) :
      ReferenceRun metadata (levels + 1) chain rid cache (.error error) cache
  | top {levels : Nat} {chain : List Nat} {rid : Nat} {cache : Cache} {assembly : String}
      {ns : Option String} {name : String}
      (hfound : cache.find? rid = none) (hchain : rid ∉ chain)
      (hlink : metadata.scopeLink rid = .ok (.top assembly ns name)) :
      ReferenceRun metadata (levels + 1) chain rid cache (.ok (.top assembly ns name))
        (cache.insert rid (.top assembly ns name))
  | inside {levels : Nat} {chain : List Nat} {rid outer : Nat} {before after : Cache}
      {ns : Option String} {name : String} {parent : TypeReference}
      (hfound : before.find? rid = none) (hchain : rid ∉ chain)
      (hlink : metadata.scopeLink rid = .ok (.inside outer ns name))
      (houter : ReferenceRun metadata levels (rid :: chain) outer before (.ok parent) after) :
      ReferenceRun metadata (levels + 1) chain rid before
        (.ok (.nested (.referenced parent) ns name))
        (after.insert rid (.nested (.referenced parent) ns name))
  | insideFails {levels : Nat} {chain : List Nat} {rid outer : Nat} {before after : Cache}
      {ns : Option String} {name : String} {error : Error}
      (hfound : before.find? rid = none) (hchain : rid ∉ chain)
      (hlink : metadata.scopeLink rid = .ok (.inside outer ns name))
      (houter : ReferenceRun metadata levels (rid :: chain) outer before (.error error) after) :
      ReferenceRun metadata (levels + 1) chain rid before (.error error) after

namespace ReferenceRun

variable {metadata : Metadata} {levels : Nat} {chain : List Nat} {rid : Nat}
  {before after : Cache} {result : Except Error TypeReference}

theorem of_runOn (metadata : Metadata) (levels : Nat) (chain : List Nat) (rid : Nat)
    (cache : Cache) :
    ReferenceRun metadata levels chain rid cache
      ((metadata.typeReferenceIn levels chain rid).runOn cache).1
      ((metadata.typeReferenceIn levels chain rid).runOn cache).2 := by
  cases hfound : cache.find? rid with
  | some reference =>
      rw [Metadata.runOn_typeReferenceIn_of_find? hfound]
      exact .found hfound
  | none =>
      by_cases hchain : rid ∈ chain
      · rw [Metadata.runOn_typeReferenceIn_of_mem hfound hchain]
        exact .cyclic hfound hchain
      · match levels with
        | 0 =>
            rw [Metadata.runOn_typeReferenceIn_zero hfound hchain]
            exact .tooDeep hfound hchain
        | levels + 1 =>
            rw [Metadata.runOn_typeReferenceIn_succ hfound hchain]
            rcases hlink : metadata.scopeLink rid with
              error | ⟨assembly, ns, name⟩ | ⟨outer, ns, name⟩
            · exact .broken hfound hchain hlink
            · exact .top hfound hchain hlink
            · have houter := of_runOn metadata levels (rid :: chain) outer cache
              rcases hrun : (metadata.typeReferenceIn levels (rid :: chain) outer).runOn cache with
                ⟨error | parent, after⟩
              · simp only [hrun] at houter ⊢
                exact .insideFails hfound hchain hlink houter
              · simp only [hrun] at houter ⊢
                exact .inside hfound hchain hlink houter

theorem runOn_eq (h : ReferenceRun metadata levels chain rid before result after) :
    (metadata.typeReferenceIn levels chain rid).runOn before = (result, after) := by
  induction h with
  | found hfound => exact Metadata.runOn_typeReferenceIn_of_find? hfound
  | cyclic hfound hchain => exact Metadata.runOn_typeReferenceIn_of_mem hfound hchain
  | tooDeep hfound hchain => exact Metadata.runOn_typeReferenceIn_zero hfound hchain
  | broken hfound hchain hlink =>
      rw [Metadata.runOn_typeReferenceIn_succ hfound hchain, hlink]
  | top hfound hchain hlink =>
      rw [Metadata.runOn_typeReferenceIn_succ hfound hchain, hlink]
  | inside hfound hchain hlink _ ih =>
      rw [Metadata.runOn_typeReferenceIn_succ hfound hchain, hlink]
      simp only [ih]
  | insideFails hfound hchain hlink _ ih =>
      rw [Metadata.runOn_typeReferenceIn_succ hfound hchain, hlink]
      simp only [ih]

/-! ### What every run keeps -/

theorem unchanged_of_error (h : ReferenceRun metadata levels chain rid before result after)
    {error : Error} (hresult : result = .error error) : after = before := by
  induction h with
  | insideFails _ _ _ _ ih => exact ih hresult
  | found | top | inside => cases hresult
  | cyclic | tooDeep | broken => rfl

theorem extends_before (h : ReferenceRun metadata levels chain rid before result after) :
    before.Extends after := by
  induction h with
  | found | cyclic | tooDeep | broken => exact .refl _
  | top => exact (Cache.Extends.refl _).insert _ _
  | inside _ _ _ _ ih => exact ih.insert _ _
  | insideFails _ _ _ _ ih => exact ih

theorem sound (h : ReferenceRun metadata levels chain rid before result after)
    (hbefore : metadata.CacheSound before) :
    metadata.CacheSound after ∧
      ∀ {reference}, result = .ok reference → ∃ rows, metadata.Refers rows rid reference := by
  induction h with
  | found hfound =>
      refine ⟨hbefore, ?_⟩
      rintro _ ⟨⟩
      exact hbefore hfound
  | cyclic | tooDeep | broken => exact ⟨hbefore, nofun⟩
  | top _ _ hlink =>
      refine ⟨hbefore.insert (.top hlink), ?_⟩
      rintro _ ⟨⟩
      exact ⟨1, .top hlink⟩
  | inside _ _ hlink _ ih =>
      obtain ⟨hafter, hparent⟩ := ih hbefore
      obtain ⟨rows, hrefers⟩ := hparent rfl
      refine ⟨hafter.insert (.inside hlink hrefers), ?_⟩
      rintro _ ⟨⟩
      exact ⟨rows + 1, .inside hlink hrefers⟩
  | insideFails _ _ _ _ ih => exact ⟨(ih hbefore).1, nofun⟩

theorem kept (h : ReferenceRun metadata levels chain rid before result after)
    (hbefore : metadata.CacheSound before) (henabled : before.isSome)
    {reference : TypeReference} (hresult : result = .ok reference) :
    after.find? rid = some reference := by
  obtain ⟨rows, hrefers⟩ := (h.sound hbefore).2 hresult
  cases h with
  | found hfound =>
      cases hresult
      exact hfound
  | top hfound _ _ =>
      cases hresult
      exact Cache.find?_insert_self henabled hfound
  | @inside _ _ _ _ _ middle _ _ _ hfound _ _ houter =>
      cases hresult
      have hmiddle : middle.isSome := houter.extends_before.isSome_eq ▸ henabled
      cases hrid : middle.find? rid with
      | none => exact Cache.find?_insert_self hmiddle hrid
      | some already =>
          -- The outer rows may have brought this one along; then it is the same reference.
          obtain ⟨_, halready⟩ := (houter.sound hbefore).1 hrid
          rw [(hrefers.unique halready).2]
          exact Cache.find?_insert_of_find? hrid
  | cyclic | tooDeep | broken | insideFails => cases hresult

/-! ### When a run succeeds -/

private theorem shorter_behind {rows outer : Nat} {ns : Option String} {name : String}
    (hlink : metadata.scopeLink rid = .ok (.inside outer ns name))
    {parent : TypeReference} (houter : metadata.Refers rows outer parent)
    (hchain : ∀ {other rows' reference'}, other ∈ chain →
      metadata.Refers rows' other reference' → rows + 1 < rows')
    {other rows' : Nat} {reference' : TypeReference} (hother : other ∈ rid :: chain)
    (hrefers : metadata.Refers rows' other reference') : rows < rows' := by
  rcases List.mem_cons.mp hother with rfl | hother
  · rw [← (Metadata.Refers.unique (.inside hlink houter) hrefers).1]
    omega
  · have := hchain hother hrefers
    omega

/--
A row whose chain ends is resolved unless the levels run out before the chain does.  The
rows in front of it have longer chains, so that none of them comes again.
-/
theorem result_of_refers (h : ReferenceRun metadata levels chain rid before result after)
    (hbefore : metadata.CacheSound before) {rows : Nat} {reference : TypeReference}
    (hrefers : metadata.Refers rows rid reference)
    (hchain : ∀ {other rows' reference'}, other ∈ chain →
      metadata.Refers rows' other reference' → rows < rows') :
    result = .ok reference ∨ result = .error .nestingLimit ∧ levels < rows := by
  induction h generalizing rows reference with
  | found hfound =>
      obtain ⟨_, hkept⟩ := hbefore hfound
      rw [(hrefers.unique hkept).2]
      exact .inl rfl
  | cyclic _ hmem => exact absurd (hchain hmem hrefers) (Nat.lt_irrefl _)
  | tooDeep => exact .inr ⟨rfl, hrefers.pos⟩
  | broken _ _ hlink => cases hrefers <;> simp_all
  | top _ _ hlink => exact .inl (congrArg _ (Metadata.Refers.unique (.top hlink) hrefers).2)
  | inside _ _ hlink _ ih =>
      obtain ⟨outerRows, parent, rfl, rfl, houter⟩ := hrefers.of_inside hlink
      rcases ih hbefore houter (shorter_behind hlink houter hchain) with hparent | ⟨hfails, _⟩
      · cases hparent
        exact .inl rfl
      · cases hfails
  | insideFails _ _ hlink _ ih =>
      obtain ⟨outerRows, parent, rfl, rfl, houter⟩ := hrefers.of_inside hlink
      rcases ih hbefore houter (shorter_behind hlink houter hchain) with hparent | ⟨hfails, hlt⟩
      · cases hparent
      · exact .inr ⟨hfails, by omega⟩

theorem rows_le_of_disabled (h : ReferenceRun metadata levels chain rid before result after)
    (hbefore : before = Cache.disabled) {reference : TypeReference}
    (hresult : result = .ok reference) :
    ∃ rows, rows ≤ levels ∧ metadata.Refers rows rid reference := by
  induction h generalizing reference with
  | found hfound =>
      rw [hbefore] at hfound
      cases hfound
  | cyclic | tooDeep | broken | insideFails => cases hresult
  | top _ _ hlink =>
      cases hresult
      exact ⟨1, by omega, .top hlink⟩
  | inside _ _ hlink _ ih =>
      cases hresult
      obtain ⟨rows, hle, houter⟩ := ih hbefore rfl
      exact ⟨rows + 1, by omega, .inside hlink houter⟩

theorem without_cache (h : ReferenceRun metadata levels chain rid before result after)
    (hbefore : metadata.CacheSound before)
    (hnone : ∀ rows reference, ¬ metadata.Refers rows rid reference) :
    ReferenceRun metadata levels chain rid Cache.disabled result Cache.disabled := by
  induction h with
  | found hfound =>
      obtain ⟨rows, hkept⟩ := hbefore hfound
      exact absurd hkept (hnone rows _)
  | cyclic _ hmem => exact .cyclic rfl hmem
  | tooDeep _ hmem => exact .tooDeep rfl hmem
  | broken _ hmem hlink => exact .broken rfl hmem hlink
  | top _ _ hlink => exact absurd (.top hlink) (hnone 1 _)
  | inside _ _ hlink houter _ =>
      obtain ⟨rows, hparent⟩ := (houter.sound hbefore).2 rfl
      exact absurd (.inside hlink hparent) (hnone (rows + 1) _)
  | insideFails _ hmem hlink _ ih =>
      have houter := ih hbefore fun rows parent hparent =>
        hnone (rows + 1) _ (.inside hlink hparent)
      exact .insideFails rfl hmem hlink houter

end ReferenceRun

/-! ## The reference of a row -/

namespace Metadata

variable {metadata : Metadata} {cache : Cache} {rows rid : Nat} {reference : TypeReference}

theorem referenceRun (metadata : Metadata) (rid : Nat) (cache : Cache) :
    ReferenceRun metadata nestingLimit [] rid cache
      ((metadata.typeReference rid).runOn cache).1 ((metadata.typeReference rid).runOn cache).2 :=
  .of_runOn metadata nestingLimit [] rid cache

theorem typeReference_of_refers (hcache : metadata.CacheSound cache)
    (h : metadata.Refers rows rid reference) :
    ((metadata.typeReference rid).runOn cache).1 = .ok reference ∨
      ((metadata.typeReference rid).runOn cache).1 = .error .nestingLimit ∧
        nestingLimit < rows :=
  (referenceRun metadata rid cache).result_of_refers hcache h nofun

theorem typeReference_of_not_refers (hcache : metadata.CacheSound cache)
    (h : ∀ rows reference, ¬ metadata.Refers rows rid reference) :
    ((metadata.typeReference rid).runOn cache).1 =
      ((metadata.typeReference rid).runOn Cache.disabled).1 := by
  have hrun := ((referenceRun metadata rid cache).without_cache hcache h).runOn_eq
  exact (congrArg Prod.fst hrun).symm

theorem typeReference_disabled_iff :
    ((metadata.typeReference rid).runOn Cache.disabled).1 = .ok reference ↔
      ∃ rows, rows ≤ nestingLimit ∧ metadata.Refers rows rid reference := by
  constructor
  · exact (referenceRun metadata rid Cache.disabled).rows_le_of_disabled rfl
  · rintro ⟨rows, hle, h⟩
    rcases typeReference_of_refers cacheSound_disabled h with hok | ⟨_, hlt⟩
    · exact hok
    · omega

end Metadata

end AssemblyGate
