import Mathlib.Data.List.Nodup
import AssemblyGate.Policy.Load
import AssemblyGate.Proofs.Fallible

/-!
# What loading does with a document

A document is a tree of maps.  `Pairs` compares two maps apart from the order of their entries,
and the relations on type entries are built from it, one level inside the other.  Loading
succeeds if and only if every field that is listed anywhere can be read, in whatever order the
maps are gone through.  Every type then has a policy with what it says itself, with all of its
fields and with those of its methods that can be read.
-/

namespace AssemblyGate.Policy

/-! ## Maps -/

/-- The keys are the same, in whatever order, and under the same key the values are related. -/
structure Pairs {α β : Type} (related : α → β → Prop) (left : List (String × α))
    (right : List (String × β)) : Prop where
  keys : (right.map Prod.fst).Perm (left.map Prod.fst)
  values : ∀ key value other, (key, value) ∈ left → (key, other) ∈ right → related value other

section Maps

variable {α β γ : Type} {left : List (String × α)} {right : List (String × β)}
variable {related : α → β → Prop}

theorem value_unique {entries : List (String × α)} (h : (entries.map Prod.fst).Nodup)
    {key : String} {value other : α} (hvalue : (key, value) ∈ entries)
    (hother : (key, other) ∈ entries) : value = other :=
  congrArg Prod.snd (List.inj_on_of_nodup_map h hvalue hother rfl)

namespace Pairs

theorem exists_right (h : Pairs related left right) {key : String} {value : α}
    (hvalue : (key, value) ∈ left) : ∃ other, (key, other) ∈ right ∧ related value other := by
  have hkey : key ∈ right.map Prod.fst := h.keys.mem_iff.mpr (List.mem_map_of_mem hvalue)
  obtain ⟨⟨_, other⟩, hother, rfl⟩ := List.mem_map.mp hkey
  exact ⟨other, hother, h.values _ _ _ hvalue hother⟩

theorem exists_left (h : Pairs related left right) {key : String} {other : β}
    (hother : (key, other) ∈ right) : ∃ value, (key, value) ∈ left ∧ related value other := by
  have hkey : key ∈ left.map Prod.fst := h.keys.mem_iff.mp (List.mem_map_of_mem hother)
  obtain ⟨⟨_, value⟩, hvalue, rfl⟩ := List.mem_map.mp hkey
  exact ⟨value, hvalue, h.values _ _ _ hvalue hother⟩

theorem nodup (h : Pairs related left right) (hleft : (left.map Prod.fst).Nodup) :
    (right.map Prod.fst).Nodup :=
  h.keys.nodup_iff.mpr hleft

theorem trans {last : List (String × γ)} {further : β → γ → Prop} {whole : α → γ → Prop}
    (hfirst : Pairs related left right) (hsecond : Pairs further right last)
    (hwhole : ∀ value middle other, related value middle → further middle other →
      whole value other) : Pairs whole left last where
  keys := hsecond.keys.trans hfirst.keys
  values := by
    intro key value other hvalue hother
    obtain ⟨middle, hmiddle, hrelated⟩ := hfirst.exists_right hvalue
    exact hwhole value middle other hrelated (hsecond.values key middle other hmiddle hother)

theorem of_perm {entries arranged : List (String × α)} {related : α → α → Prop}
    (hnodup : (entries.map Prod.fst).Nodup) (hperm : arranged.Perm entries)
    (hself : ∀ key value, (key, value) ∈ entries → related value value) :
    Pairs related entries arranged where
  keys := hperm.map Prod.fst
  values := by
    intro key value other hvalue hother
    rw [← value_unique hnodup hvalue (hperm.mem_iff.mp hother)]
    exact hself key value hvalue

end Pairs

def loadValues (load : α → Except Error β) (entries : List (String × α)) :
    Except Error (List (String × β)) :=
  entries.mapM fun entry => do pure (entry.1, ← load entry.2)

@[simp] theorem withKey_eq_ok_iff {key : String} {result : Except Error β} {loaded : String × β} :
    (do pure (key, ← result) : Except Error (String × β)) = .ok loaded ↔
      key = loaded.1 ∧ result = .ok loaded.2 := by
  obtain ⟨key', value⟩ := loaded
  cases result <;> simp [bind, Except.bind, pure, Except.pure]

theorem pairs_of_loadValues {load : α → Except Error β} {loaded : List (String × β)}
    (hnodup : (left.map Prod.fst).Nodup) (h : loadValues load left = .ok loaded) :
    Pairs (fun value result => load value = .ok result) left loaded := by
  have hkeys : loaded.map Prod.fst = left.map Prod.fst := by
    have hall := mapM_eq_ok_iff.mp h
    clear hnodup h
    induction hall with
    | nil => rfl
    | cons hfirst _ ih =>
        rw [List.map_cons, List.map_cons, (withKey_eq_ok_iff.mp hfirst).1, ih]
  refine ⟨.of_eq hkeys, ?_⟩
  intro key value other hvalue hother
  -- No key stands twice, so what was loaded under the key is what this entry was loaded to.
  obtain ⟨⟨_, result⟩, hresult, hload⟩ := exists_of_mapM_eq_ok h hvalue
  obtain ⟨rfl, hload⟩ := withKey_eq_ok_iff.mp hload
  rwa [value_unique (hkeys ▸ hnodup) hother hresult]

theorem exists_of_loadValues_eq_error {load : α → Except Error β} {error : Error}
    (h : loadValues load left = .error error) :
    ∃ key value, (key, value) ∈ left ∧ load value = .error error := by
  obtain ⟨⟨key, value⟩, hentry, herror⟩ := exists_of_mapM_eq_error h
  refine ⟨key, value, hentry, ?_⟩
  rcases bind_eq_error_iff.mp herror with hload | ⟨_, _, hpure⟩
  · exact hload
  · cases hpure

end Maps

/-! ## Type entries -/

namespace TypeEntry

inductive DistinctKeys : TypeEntry → Prop
  | intro {entry : TypeEntry} (keys : (entry.nested.map Prod.fst).Nodup)
      (nested : ∀ name inner, (name, inner) ∈ entry.nested → DistinctKeys inner) :
      DistinctKeys entry

inductive Reordered : TypeEntry → TypeEntry → Prop
  | intro {entry other : TypeEntry} (all : other.all = entry.all)
      (inherit : other.inherit = entry.inherit) (methods : other.methods = entry.methods)
      (fields : other.fields = entry.fields)
      (keys : (other.nested.map Prod.fst).Perm (entry.nested.map Prod.fst))
      (nested : ∀ name inner inner', (name, inner) ∈ entry.nested → (name, inner') ∈ other.nested →
        Reordered inner inner') :
      Reordered entry other

inductive Lists (declaration : String) : TypeEntry → Prop
  | own {entry : TypeEntry} (h : declaration ∈ entry.fields) : Lists declaration entry
  | nested {entry inner : TypeEntry} {name : String} (hinner : (name, inner) ∈ entry.nested)
      (h : Lists declaration inner) : Lists declaration entry

/-- All fields become rules, and so do the methods that can be read, at every depth. -/
inductive Becomes : TypeEntry → TypePolicy → Prop
  | intro {entry : TypeEntry} {policy : TypePolicy} (all : policy.all = entry.all)
      (inherit : policy.inherit = entry.inherit)
      (fields : List.Forall₂ (fun declaration rule => parseField declaration = .ok rule)
        entry.fields policy.fields)
      (methods : List.Forall₂ (fun declaration rule => parseMethod declaration = .ok rule)
        (entry.methods.filter fun declaration => (parseMethod declaration).isOk) policy.methods)
      (keys : (policy.nested.map Prod.fst).Perm (entry.nested.map Prod.fst))
      (nested : ∀ name inner around, (name, inner) ∈ entry.nested → (name, around) ∈ policy.nested →
        Becomes inner around) :
      Becomes entry policy

variable {entry other : TypeEntry} {policy : TypePolicy} {declaration : String}

theorem DistinctKeys.of_nested_nil (h : entry.nested = []) : entry.DistinctKeys :=
  .intro (by simp [h]) (by simp [h])

theorem Reordered.pairs (h : entry.Reordered other) :
    Pairs Reordered entry.nested other.nested := by
  cases h with
  | intro _ _ _ _ keys nested => exact ⟨keys, nested⟩

theorem Becomes.pairs (h : entry.Becomes policy) :
    Pairs Becomes entry.nested policy.nested := by
  cases h with
  | intro _ _ _ _ keys nested => exact ⟨keys, nested⟩

theorem DistinctKeys.reordered_self (hdistinct : entry.DistinctKeys) : entry.Reordered entry := by
  induction hdistinct with
  | intro keys nested ih =>
      have hpairs := Pairs.of_perm keys (.refl _) ih
      exact .intro rfl rfl rfl rfl hpairs.keys hpairs.values

theorem DistinctKeys.reordered_of_perm (hdistinct : entry.DistinctKeys)
    {arranged : List (String × TypeEntry)} (hperm : arranged.Perm entry.nested) :
    entry.Reordered { entry with nested := arranged } := by
  cases hdistinct with
  | intro keys nested =>
      have hpairs := Pairs.of_perm keys hperm fun name inner hinner =>
        (nested name inner hinner).reordered_self
      exact .intro rfl rfl rfl rfl hpairs.keys hpairs.values

theorem DistinctKeys.reordered (hdistinct : entry.DistinctKeys) (h : entry.Reordered other) :
    other.DistinctKeys := by
  induction hdistinct generalizing other with
  | intro keys nested ih =>
      refine .intro (h.pairs.nodup keys) ?_
      intro name inner hinner
      obtain ⟨before, hbefore, hreordered⟩ := h.pairs.exists_left hinner
      exact ih name before hbefore hreordered

theorem Lists.of_reordered (hlists : other.Lists declaration) (h : entry.Reordered other) :
    entry.Lists declaration := by
  induction hlists generalizing entry with
  | own hown =>
      cases h with
      | intro _ _ _ fields _ _ => exact .own (fields ▸ hown)
  | nested hinner _ ih =>
      obtain ⟨before, hbefore, hreordered⟩ := h.pairs.exists_left hinner
      exact .nested hbefore (ih hreordered)

theorem Becomes.of_reordered (h : entry.Reordered other) (hbecomes : other.Becomes policy) :
    entry.Becomes policy := by
  induction h generalizing policy with
  | intro all inherit methods fields keys nested ih =>
      -- An entry and its policy meet in the entry of the same name in the other order.
      cases hbecomes with
      | intro all' inherit' fields' methods' keys' nested' =>
          refine .intro (all'.trans all) (inherit'.trans inherit) (fields ▸ fields')
            (methods ▸ methods') (keys'.trans keys) ?_
          intro name inner around hinner haround
          obtain ⟨inner', hinner', hbecomes⟩ := Pairs.exists_left ⟨keys', nested'⟩ haround
          exact ih name inner inner' hinner hinner' hbecomes

/-! ### Loading an entry -/

@[simp] theorem loadAll_eq (entries : List (String × TypeEntry)) :
    loadAll entries = loadValues load entries := by
  induction entries with
  | nil => rfl
  | cons entry entries ih =>
      obtain ⟨name, entry⟩ := entry
      rw [loadAll, loadValues, List.mapM_cons, ih, loadValues]
      cases entry.load <;> rfl

theorem load_eq (entry : TypeEntry) : entry.load = (do
    let fields ← entry.fields.mapM parseField
    let nested ← loadValues load entry.nested
    pure {
      all := entry.all
      inherit := entry.inherit
      fields
      methods := methodRules entry.methods
      nested }) := by
  obtain ⟨all, inherit, methods, fields, nested⟩ := entry
  rw [load, loadAll_eq]

theorem forall₂_methodRules (declarations : List String) :
    List.Forall₂ (fun declaration rule => parseMethod declaration = .ok rule)
      (declarations.filter fun declaration => (parseMethod declaration).isOk)
      (methodRules declarations) := by
  induction declarations with
  | nil => exact .nil
  | cons declaration declarations ih =>
      rw [methodRules, List.filterMap_cons, List.filter_cons]
      cases hparse : parseMethod declaration with
      | error error => exact ih
      | ok rule => exact .cons hparse ih

theorem DistinctKeys.becomes_of_load (hdistinct : entry.DistinctKeys)
    (h : entry.load = .ok policy) : entry.Becomes policy := by
  induction hdistinct generalizing policy with
  | intro keys nested ih =>
      rw [load_eq] at h
      obtain ⟨fields, hfields, h⟩ := bind_eq_ok_iff.mp h
      obtain ⟨inner, hinner, h⟩ := bind_eq_ok_iff.mp h
      cases h
      have hpairs := pairs_of_loadValues keys hinner
      refine .intro rfl rfl (mapM_eq_ok_iff.mp hfields) (forall₂_methodRules _) hpairs.keys ?_
      intro name inner around hinner haround
      exact ih name inner hinner (hpairs.values name inner around hinner haround)

theorem DistinctKeys.lists_of_load_error (hdistinct : entry.DistinctKeys) {error : Error}
    (h : entry.load = .error error) :
    ∃ declaration, entry.Lists declaration ∧ parseField declaration = .error error := by
  induction hdistinct with
  | intro keys nested ih =>
      rw [load_eq] at h
      rcases bind_eq_error_iff.mp h with hfields | ⟨fields, -, h⟩
      · obtain ⟨declaration, hdeclaration, herror⟩ := exists_of_mapM_eq_error hfields
        exact ⟨declaration, .own hdeclaration, herror⟩
      rcases bind_eq_error_iff.mp h with hnested | ⟨policies, -, h⟩
      · obtain ⟨name, inner, hinner, hload⟩ := exists_of_loadValues_eq_error hnested
        obtain ⟨declaration, hlists, herror⟩ := ih name inner hinner hload
        exact ⟨declaration, .nested hinner hlists, herror⟩
      · cases h

theorem Becomes.exists_rule (h : entry.Becomes policy) (hlists : entry.Lists declaration) :
    ∃ rule, parseField declaration = .ok rule := by
  induction hlists generalizing policy with
  | own hown =>
      cases h with
      | intro _ _ fields _ _ _ =>
          obtain ⟨rule, -, hrule⟩ := exists_of_mapM_eq_ok (mapM_eq_ok_iff.mpr fields) hown
          exact ⟨rule, hrule⟩
  | nested hinner _ ih =>
      obtain ⟨around, -, hbecomes⟩ := h.pairs.exists_right hinner
      exact ih hbecomes

end TypeEntry

/-! ## Documents -/

namespace Document

structure DistinctKeys (document : Document) : Prop where
  namespaces : (document.types.map Prod.fst).Nodup
  types : ∀ ns entries, (ns, entries) ∈ document.types → (entries.map Prod.fst).Nodup
  entries : ∀ ns entries, (ns, entries) ∈ document.types →
    ∀ name entry, (name, entry) ∈ entries → entry.DistinctKeys

structure Reordered (document other : Document) : Prop where
  systemAssembly : other.systemAssembly = document.systemAssembly
  namespaces : other.namespaces = document.namespaces
  assemblies : other.assemblies = document.assemblies
  toleratedDefects : other.toleratedDefects = document.toleratedDefects
  types : Pairs (Pairs TypeEntry.Reordered) document.types other.types

def Lists (document : Document) (declaration : String) : Prop :=
  ∃ ns entries name entry, (ns, entries) ∈ document.types ∧ (name, entry) ∈ entries ∧
    entry.Lists declaration

structure Becomes (document : Document) (policy : Policy) : Prop where
  systemAssembly : policy.systemAssembly = document.systemAssembly
  namespaces : ∀ ns, ns ∈ policy.namespaces ↔ ns ∈ document.namespaces
  assemblies : ∀ assembly, assembly ∈ policy.assemblies ↔ assembly ∈ document.assemblies
  toleratedDefects : ∀ kind, kind ∈ policy.toleratedDefects ↔ kind.name ∈ document.toleratedDefects
  types : Pairs (Pairs TypeEntry.Becomes) document.types policy.types

variable {document other : Document} {policy : Policy}

theorem DistinctKeys.reordered (hdistinct : document.DistinctKeys) (h : document.Reordered other) :
    other.DistinctKeys where
  namespaces := h.types.nodup hdistinct.namespaces
  types := by
    intro ns entries hentries
    obtain ⟨before, hbefore, hpairs⟩ := h.types.exists_left hentries
    exact hpairs.nodup (hdistinct.types ns before hbefore)
  entries := by
    intro ns entries hentries name entry hentry
    obtain ⟨before, hbefore, hpairs⟩ := h.types.exists_left hentries
    obtain ⟨inner, hinner, hreordered⟩ := hpairs.exists_left hentry
    exact (hdistinct.entries ns before hbefore name inner hinner).reordered hreordered

theorem Lists.of_reordered {declaration : String} (h : document.Reordered other)
    (hlists : other.Lists declaration) : document.Lists declaration := by
  obtain ⟨ns, entries, name, entry, hentries, hentry, hlists⟩ := hlists
  obtain ⟨before, hbefore, hpairs⟩ := h.types.exists_left hentries
  obtain ⟨inner, hinner, hreordered⟩ := hpairs.exists_left hentry
  exact ⟨ns, before, name, inner, hbefore, hinner, hlists.of_reordered hreordered⟩

theorem Becomes.of_reordered (h : document.Reordered other) (hbecomes : other.Becomes policy) :
    document.Becomes policy where
  systemAssembly := hbecomes.systemAssembly.trans h.systemAssembly
  namespaces := h.namespaces ▸ hbecomes.namespaces
  assemblies := h.assemblies ▸ hbecomes.assemblies
  toleratedDefects := h.toleratedDefects ▸ hbecomes.toleratedDefects
  types := h.types.trans hbecomes.types fun _ _ _ hfirst hsecond =>
    hfirst.trans hsecond fun _ _ _ hreordered hentry => hentry.of_reordered hreordered

/-! ### Loading a document -/

@[simp] theorem ofName?_eq_some_iff {name : String} {kind : DefectKind} :
    DefectKind.ofName? name = some kind ↔ kind.name = name := by
  constructor
  · intro h
    simpa using List.find?_some h
  · rintro rfl
    cases kind <;> decide

@[simp] theorem mem_toleratedDefects {names : List String} {kind : DefectKind} :
    kind ∈ (names.filterMap DefectKind.ofName?).eraseDups ↔ kind.name ∈ names := by
  simp [List.mem_eraseDups]

theorem load_eq (document : Document) : document.load = (do
    let types ← loadValues TypeEntry.loadAll document.types
    pure {
      systemAssembly := document.systemAssembly
      namespaces := document.namespaces.eraseDups
      assemblies := document.assemblies.eraseDups
      toleratedDefects := (document.toleratedDefects.filterMap DefectKind.ofName?).eraseDups
      types }) := rfl

theorem DistinctKeys.becomes_of_load (hdistinct : document.DistinctKeys)
    (h : document.load = .ok policy) : document.Becomes policy := by
  rw [load_eq] at h
  obtain ⟨types, htypes, h⟩ := bind_eq_ok_iff.mp h
  cases h
  have hpairs := pairs_of_loadValues hdistinct.namespaces htypes
  refine ⟨rfl, fun _ => List.mem_eraseDups, fun _ => List.mem_eraseDups,
    fun _ => mem_toleratedDefects, hpairs.keys, ?_⟩
  intro ns entries policies hentries hpolicies
  have hload := hpairs.values ns entries policies hentries hpolicies
  rw [TypeEntry.loadAll_eq] at hload
  have hinner := pairs_of_loadValues (hdistinct.types ns entries hentries) hload
  refine ⟨hinner.keys, ?_⟩
  intro name entry around hentry haround
  exact (hdistinct.entries ns entries hentries name entry hentry).becomes_of_load
    (hinner.values name entry around hentry haround)

theorem DistinctKeys.lists_of_load_error (hdistinct : document.DistinctKeys) {error : Error}
    (h : document.load = .error error) :
    ∃ declaration, document.Lists declaration ∧ parseField declaration = .error error := by
  rw [load_eq] at h
  rcases bind_eq_error_iff.mp h with htypes | ⟨types, -, h⟩
  · obtain ⟨ns, entries, hentries, hload⟩ := exists_of_loadValues_eq_error htypes
    rw [TypeEntry.loadAll_eq] at hload
    obtain ⟨name, entry, hentry, hload⟩ := exists_of_loadValues_eq_error hload
    obtain ⟨declaration, hlists, herror⟩ :=
      (hdistinct.entries ns entries hentries name entry hentry).lists_of_load_error hload
    exact ⟨declaration, ⟨ns, entries, name, entry, hentries, hentry, hlists⟩, herror⟩
  · cases h

theorem Becomes.exists_rule {declaration : String} (h : document.Becomes policy)
    (hlists : document.Lists declaration) : ∃ rule, parseField declaration = .ok rule := by
  obtain ⟨ns, entries, name, entry, hentries, hentry, hlists⟩ := hlists
  obtain ⟨policies, -, hpairs⟩ := h.types.exists_right hentries
  obtain ⟨around, -, hbecomes⟩ := hpairs.exists_right hentry
  exact hbecomes.exists_rule hlists

/-! ### Reading a document -/

section Reading

variable {α : Type} {entries : List (String × α)}

@[simp] theorem map_fst_put (entries : List (String × α)) (key : String) (value : α) :
    (put entries key value).map Prod.fst =
      if key ∈ entries.map Prod.fst then entries.map Prod.fst
      else entries.map Prod.fst ++ [key] := by
  have hany : (entries.any fun entry => entry.1 == key) ↔ key ∈ entries.map Prod.fst := by
    simp
  simp only [put, hany]
  split
  · rw [List.map_map]
    refine List.map_congr_left fun entry _ => ?_
    by_cases hkey : entry.1 = key <;> simp [hkey]
  · simp

theorem nodup_put (h : (entries.map Prod.fst).Nodup) (key : String) (value : α) :
    ((put entries key value).map Prod.fst).Nodup := by
  rw [map_fst_put]
  split
  · exact h
  · next hnew =>
      rw [← List.concat_eq_append]
      exact h.concat hnew

theorem mem_of_mem_put {key : String} {value : α} {entry : String × α}
    (h : entry ∈ put entries key value) : entry ∈ entries ∨ entry = (key, value) := by
  unfold put at h
  split at h
  · obtain ⟨before, hbefore, hentry⟩ := List.mem_map.mp h
    split at hentry
    · exact .inr hentry.symm
    · exact .inl (hentry ▸ hbefore)
  · simpa using h

theorem foldl_put (items entries : List (String × α)) (h : (entries.map Prod.fst).Nodup) :
    ((items.foldl (fun entries item => put entries item.1 item.2) entries).map Prod.fst).Nodup ∧
      ∀ entry ∈ items.foldl (fun entries item => put entries item.1 item.2) entries,
        entry ∈ entries ∨ entry ∈ items := by
  induction items generalizing entries with
  | nil => exact ⟨h, fun entry hentry => .inl hentry⟩
  | cons item items ih =>
      obtain ⟨hnodup, hmem⟩ := ih _ (nodup_put h item.1 item.2)
      refine ⟨hnodup, ?_⟩
      intro entry hentry
      rcases hmem entry hentry with hput | hlater
      · rcases mem_of_mem_put hput with hbefore | rfl
        · exact .inl hbefore
        · exact .inr (by simp)
      · exact .inr (by simp [hlater])

theorem exists_of_mem_of_mapM_eq_some {β : Type} {read : α → Option β} {items : List α}
    {found : List β} (h : items.mapM read = some found) {value : β} (hvalue : value ∈ found) :
    ∃ item ∈ items, read item = some value := by
  induction items generalizing found with
  | nil =>
      cases h
      cases hvalue
  | cons item items ih =>
      rw [List.mapM_cons] at h
      obtain ⟨first, hfirst, h⟩ := Option.bind_eq_some_iff.mp h
      obtain ⟨others, hothers, h⟩ := Option.bind_eq_some_iff.mp h
      cases h
      rcases List.mem_cons.mp hvalue with rfl | hvalue
      · exact ⟨item, by simp, hfirst⟩
      · obtain ⟨other, hother, hread⟩ := ih hothers hvalue
        exact ⟨other, by simp [hother], hread⟩

theorem table_eq_some {item : JsonValue → Option α} {value : JsonValue}
    (h : table item value = some entries) :
    (entries.map Prod.fst).Nodup ∧
      ∀ key found, (key, found) ∈ entries → ∃ source, item source = some found := by
  unfold table at h
  split at h
  · next members =>
      obtain ⟨items, hitems, h⟩ := Option.bind_eq_some_iff.mp h
      cases h
      obtain ⟨hnodup, hmem⟩ := foldl_put items [] List.nodup_nil
      refine ⟨hnodup, ?_⟩
      intro key found hfound
      rcases hmem _ hfound with hnil | hitem
      · cases hnil
      obtain ⟨⟨written, source⟩, -, hread⟩ := exists_of_mem_of_mapM_eq_some hitems hitem
      obtain ⟨_, -, hread⟩ := Option.bind_eq_some_iff.mp hread
      obtain ⟨_, hsource, hread⟩ := Option.bind_eq_some_iff.mp hread
      cases hread
      exact ⟨source, hsource⟩
  · cases h

theorem orElse_eq_some {shape : JsonValue → Option α} {default found : α}
    {value : Option JsonValue} (h : orElse shape default value = some found) :
    found = default ∨ ∃ source, shape source = some found := by
  cases value with
  | none =>
      cases h
      exact .inl rfl
  | some source => exact .inr ⟨source, h⟩

theorem orNull_eq_some {shape : JsonValue → Option (List α)} {value : JsonValue} {found : List α}
    (h : orNull shape value = some found) : found = [] ∨ shape value = some found := by
  unfold orNull at h
  split at h
  · cases h
    exact .inl rfl
  · exact .inr h

end Reading

theorem typeEntryBody_eq_some {room : Nat} {nested : JsonValue → Option (List (String × TypeEntry))}
    {value : JsonValue} {entry : TypeEntry} (h : typeEntryBody room nested value = some entry) :
    entry.nested = [] ∨ ∃ source, nested source = some entry.nested := by
  obtain ⟨values, -, h⟩ := Option.bind_eq_some_iff.mp h
  split at h
  · obtain ⟨all, -, h⟩ := Option.bind_eq_some_iff.mp h
    obtain ⟨inherit, -, h⟩ := Option.bind_eq_some_iff.mp h
    obtain ⟨methods, -, h⟩ := Option.bind_eq_some_iff.mp h
    obtain ⟨fields, -, h⟩ := Option.bind_eq_some_iff.mp h
    obtain ⟨types, htypes, h⟩ := Option.bind_eq_some_iff.mp h
    cases h
    rcases orElse_eq_some htypes with hnil | ⟨source, hsource⟩
    · exact .inl hnil
    · exact (orNull_eq_some hsource).imp_right fun hnested => ⟨source, hnested⟩
  · cases h

-- Each level of entries takes two containers, the map and the entry in it.
theorem typeEntry_distinctKeys : ∀ (room : Nat) {value : JsonValue} {entry : TypeEntry},
    typeEntry room value = some entry → entry.DistinctKeys
  | 0, _, _, h => by cases h
  | 1, value, entry, h => by
      rcases typeEntryBody_eq_some h with hnil | ⟨source, hnone⟩
      · exact .of_nested_nil hnil
      · cases hnone
  | room + 2, value, entry, h => by
      rcases typeEntryBody_eq_some h with hnil | ⟨source, htable⟩
      · exact .of_nested_nil hnil
      · obtain ⟨hnodup, hread⟩ := table_eq_some htable
        refine .intro hnodup ?_
        intro name inner hinner
        obtain ⟨source, hsource⟩ := hread name inner hinner
        exact typeEntry_distinctKeys room hsource

theorem types_of_ofText? {text : String} {document : Document} (h : ofText? text = some document) :
    document.types = [] ∨ ∃ room source, typeTable room source = some document.types := by
  obtain ⟨value, -, h⟩ := Option.bind_eq_some_iff.mp h
  rw [openLimit, Document.document] at h
  obtain ⟨values, -, h⟩ := Option.bind_eq_some_iff.mp h
  split at h
  · obtain ⟨system, -, h⟩ := Option.bind_eq_some_iff.mp h
    obtain ⟨namespaces, -, h⟩ := Option.bind_eq_some_iff.mp h
    obtain ⟨assemblies, -, h⟩ := Option.bind_eq_some_iff.mp h
    obtain ⟨tolerated, -, h⟩ := Option.bind_eq_some_iff.mp h
    obtain ⟨types, htypes, h⟩ := Option.bind_eq_some_iff.mp h
    cases h
    exact (orElse_eq_some htypes).imp_right fun htable => ⟨_, htable⟩
  · cases h

theorem distinctKeys_of_ofText? {text : String} {document : Document}
    (h : ofText? text = some document) : document.DistinctKeys := by
  rcases types_of_ofText? h with hnil | ⟨room, source, htable⟩
  · constructor <;> simp [hnil]
  match room, htable with
  | room + 2, htable =>
    obtain ⟨hnodup, hread⟩ := table_eq_some htable
    refine ⟨hnodup, ?_, ?_⟩
    · intro ns entries hentries
      obtain ⟨source, hsource⟩ := hread ns entries hentries
      exact (table_eq_some hsource).1
    · intro ns entries hentries name entry hentry
      obtain ⟨source, hsource⟩ := hread ns entries hentries
      obtain ⟨source, hsource⟩ := (table_eq_some hsource).2 name entry hentry
      exact typeEntry_distinctKeys room hsource

end Document

/-! ## The result of loading -/

theorem declaration_of_parseField_error {declaration : String} {error : Error}
    (h : parseField declaration = .error error) :
    ∃ expected column, error = .declaration expected column declaration := by
  obtain ⟨stop, -, rfl⟩ := mapError_eq_error_iff.mp h
  exact ⟨_, _, rfl⟩

theorem load_eq_of_ofText? {text : String} {document : Document}
    (h : Document.ofText? text = some document) :
    load text = document.load.map fun policy => (policy, document.notices) := by
  rw [load, h]
  dsimp only
  cases document.load <;> rfl

/--
A policy is loaded if and only if all fields of the document can be read, in whatever order
the maps of the document are gone through.  It says what the document says, apart from methods
and kinds of defects that cannot be read.  A failure is that of a field of the document.
-/
theorem load_fails_only_for_fields :
    (∀ text document, Document.ofText? text = some document → document.DistinctKeys ∧
      load text = document.load.map fun policy => (policy, document.notices)) ∧
    ∀ document other : Document, document.DistinctKeys → document.Reordered other →
      ((∃ policy, other.load = .ok policy) ↔
        ∀ declaration, document.Lists declaration → ∃ rule, parseField declaration = .ok rule) ∧
      (∀ policy, other.load = .ok policy → document.Becomes policy) ∧
      ∀ error, other.load = .error error →
        ∃ declaration expected column, document.Lists declaration ∧
          parseField declaration = .error error ∧
          error = .declaration expected column declaration := by
  constructor
  · intro text document h
    exact ⟨Document.distinctKeys_of_ofText? h, load_eq_of_ofText? h⟩
  intro document other hdistinct hreordered
  have hother : other.DistinctKeys := hdistinct.reordered hreordered
  have hbecomes : ∀ policy, other.load = .ok policy → document.Becomes policy :=
    fun policy hload => .of_reordered hreordered (hother.becomes_of_load hload)
  have hfails : ∀ error, other.load = .error error →
      ∃ declaration, document.Lists declaration ∧ parseField declaration = .error error := by
    intro error hload
    obtain ⟨declaration, hlists, herror⟩ := hother.lists_of_load_error hload
    exact ⟨declaration, hlists.of_reordered hreordered, herror⟩
  refine ⟨⟨?_, ?_⟩, hbecomes, ?_⟩
  · rintro ⟨policy, hload⟩ declaration hlists
    exact (hbecomes policy hload).exists_rule hlists
  · intro hall
    cases hload : other.load with
    | ok policy => exact ⟨policy, rfl⟩
    | error error =>
        obtain ⟨declaration, hlists, herror⟩ := hfails error hload
        obtain ⟨rule, hrule⟩ := hall declaration hlists
        rw [hrule] at herror
        cases herror
  · intro error hload
    obtain ⟨declaration, hlists, herror⟩ := hfails error hload
    obtain ⟨expected, column, heq⟩ := declaration_of_parseField_error herror
    exact ⟨declaration, expected, column, hlists, herror, heq⟩

def menuEntry (field : String) : TypeEntry where
  all := false
  inherit := .default
  methods := ["void Open()", "not a method"]
  fields := ["int Width"]
  nested := [("Row", ⟨false, .default, [], [field], []⟩), ("Cell", ⟨true, .block, [], [], []⟩)]

def buttonEntry : TypeEntry := ⟨true, .allow, [], [], []⟩

def menuDocument (types : List (String × TypeEntry)) : Document where
  systemAssembly := "System.Runtime"
  namespaces := ["Game.Shared"]
  assemblies := []
  toleratedDefects := ["InvalidToken", "NotAnError"]
  types := [("Game", types)]

def menu (field : String) : Document :=
  menuDocument [("Menu", menuEntry field), ("Button", buttonEntry)]

def arrangedMenu (field : String) : Document :=
  menuDocument [("Button", buttonEntry),
    ("Menu", { menuEntry field with nested := (menuEntry field).nested.reverse })]

theorem menuEntry_distinctKeys (field : String) : (menuEntry field).DistinctKeys := by
  refine .intro (by simp [menuEntry]) ?_
  intro name inner hinner
  simp only [menuEntry, List.mem_cons, Prod.mk.injEq, List.not_mem_nil, or_false] at hinner
  rcases hinner with ⟨-, rfl⟩ | ⟨-, rfl⟩ <;> exact .of_nested_nil rfl

theorem buttonEntry_distinctKeys : buttonEntry.DistinctKeys := .of_nested_nil rfl

theorem menu_distinctKeys (field : String) : (menu field).DistinctKeys where
  namespaces := by simp [menu, menuDocument]
  types := by simp [menu, menuDocument]
  entries := by
    intro ns entries hentries name entry hentry
    cases List.mem_singleton.mp hentries
    simp only [List.mem_cons, Prod.mk.injEq, List.not_mem_nil, or_false] at hentry
    rcases hentry with ⟨-, rfl⟩ | ⟨-, rfl⟩
    · exact menuEntry_distinctKeys field
    · exact buttonEntry_distinctKeys

theorem menu_reordered (field : String) : (menu field).Reordered (arrangedMenu field) := by
  refine ⟨rfl, rfl, rfl, rfl, .refl _, ?_⟩
  intro ns entries others hentries hothers
  cases List.mem_singleton.mp hentries
  cases List.mem_singleton.mp hothers
  refine ⟨.swap _ _ _, ?_⟩
  intro name entry other hentry hother
  simp only [List.mem_cons, Prod.mk.injEq, List.not_mem_nil, or_false] at hentry hother
  rcases hentry with ⟨rfl, rfl⟩ | ⟨rfl, rfl⟩ <;> rcases hother with ⟨hname, rfl⟩ | ⟨hname, rfl⟩
  · simp at hname
  · exact (menuEntry_distinctKeys field).reordered_of_perm (List.reverse_perm _)
  · exact buttonEntry_distinctKeys.reordered_self
  · simp at hname

def menuText : String :=
  "\x7b\"Types\": \x7b\"Game\": \x7b\"Menu\": \x7b\"NestedTypes\": " ++
    "\x7b\"Row\": \x7b\"Fields\": [\"int\"]\x7d\x7d\x7d\x7d\x7d\x7d"

theorem arrangedMenu_load :
    (∃ document, Document.ofText? menuText = some document ∧ document.DistinctKeys) ∧
      (∃ policy, (arrangedMenu "int Height").load = .ok policy ∧
        (menu "int Height").Becomes policy) ∧
      ∃ error declaration, (arrangedMenu "int").load = .error error ∧
        (menu "int").Lists declaration ∧ parseField declaration = .error error := by
  obtain ⟨hread, hload⟩ := load_fails_only_for_fields
  refine ⟨?_, ?_, ?_⟩
  · have hsome : (Document.ofText? menuText).isSome := by decide +kernel
    obtain ⟨document, hdocument⟩ := Option.isSome_iff_exists.mp hsome
    exact ⟨document, hdocument, (hread menuText document hdocument).1⟩
  · have hpolicy : (arrangedMenu "int Height").load = .ok _ := rfl
    obtain ⟨-, hbecomes, -⟩ := hload _ _ (menu_distinctKeys _) (menu_reordered _)
    exact ⟨_, hpolicy, hbecomes _ hpolicy⟩
  · have herror : (arrangedMenu "int").load = .error _ := rfl
    obtain ⟨-, -, hfails⟩ := hload _ _ (menu_distinctKeys _) (menu_reordered _)
    obtain ⟨declaration, _, _, hlists, hparse, -⟩ := hfails _ herror
    exact ⟨_, declaration, herror, hlists, hparse⟩

end AssemblyGate.Policy
