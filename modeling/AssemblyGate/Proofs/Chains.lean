import Mathlib.Data.List.Nodup
import AssemblyGate.Proofs.Definitions
import AssemblyGate.Proofs.Scopes

/-!
# Where chains of rows end

References are chained by their scopes and definitions by the types around them, and both are
followed in the same way: a row that comes again is refused, then the levels are counted, then
the row is read.  What comes of a chain is told once for both of them.  A chain ends at a row
that is inside of no other, or a row comes again, or there are more rows than levels.
-/

namespace AssemblyGate

structure Link where
  rid : Nat
  ns : Option String
  name : String
  deriving DecidableEq, Repr

/--
How the rows of a table are chained: which row is inside the type of which other one, what comes
of a chain that ends at a row, the type of a row inside of another type, and the error at a row
that comes again.
-/
structure Chaining (τ : Type) where
  inside : Link → Nat → Prop
  ends : Nat → Except Error τ → Prop
  around : Link → τ → τ
  cyclic : Nat → Error

namespace Chaining

variable {τ : Type} {chaining : Chaining τ} {rid last outer : Nat} {links : List Link}
  {result : Except Error τ}

/-- The rows from `rid` on, each one inside the type of the next, up to but without the last. -/
inductive Walk (chaining : Chaining τ) : (rid : Nat) → List Link → (last : Nat) → Prop
  | here {rid : Nat} : Walk chaining rid [] rid
  | inside {rid outer last : Nat} {ns : Option String} {name : String} {links : List Link}
      (hinside : chaining.inside ⟨rid, ns, name⟩ outer)
      (houter : Walk chaining outer links last) :
      Walk chaining rid (⟨rid, ns, name⟩ :: links) last

theorem Walk.snoc {ns : Option String} {name : String} (hwalk : chaining.Walk rid links last)
    (hinside : chaining.inside ⟨last, ns, name⟩ outer) :
    chaining.Walk rid (links ++ [⟨last, ns, name⟩]) outer := by
  induction hwalk with
  | here => exact .inside hinside .here
  | inside hfirst _ ih => exact .inside hfirst (ih hinside)

structure Reaches (chaining : Chaining τ) (rid : Nat) (links : List Link) (last : Nat) :
    Prop where
  walk : chaining.Walk rid links last
  distinct : (last :: links.map Link.rid).Nodup

/-- What can come of a chain: it ends within the levels, or a row comes again, or neither. -/
inductive Fate (chaining : Chaining τ) (rid : Nat) : Except Error τ → Prop
  | ends {links : List Link} {last : Nat} {result : Except Error τ}
      (hreaches : chaining.Reaches rid links last) (hlength : links.length < nestingLimit)
      (hends : chaining.ends last result) :
      Fate chaining rid (result.map fun type => links.foldr chaining.around type)
  | cyclic {links : List Link} {again : Nat} (hwalk : chaining.Walk rid links again)
      (hlength : links.length ≤ nestingLimit) (hdistinct : (links.map Link.rid).Nodup)
      (hagain : again ∈ links.map Link.rid) : Fate chaining rid (.error (chaining.cyclic again))
  | tooDeep {links : List Link} {last : Nat} (hreaches : chaining.Reaches rid links last)
      (hlength : links.length = nestingLimit) : Fate chaining rid (.error .nestingLimit)

/-! ## Following a chain -/

structure Follows (chaining : Chaining τ)
    (resolve : (levels : Nat) → (chain : List Nat) → (rid : Nat) → Except Error τ) : Prop where
  again : ∀ {levels chain rid}, rid ∈ chain →
    resolve levels chain rid = .error (chaining.cyclic rid)
  limit : ∀ {chain rid}, rid ∉ chain → resolve 0 chain rid = .error .nestingLimit
  ends : ∀ {levels chain rid result}, rid ∉ chain → chaining.ends rid result →
    resolve (levels + 1) chain rid = result
  inside : ∀ {levels chain link outer}, link.rid ∉ chain → chaining.inside link outer →
    resolve (levels + 1) chain link.rid =
      (resolve levels (link.rid :: chain) outer).map (chaining.around link)

namespace Follows

variable {resolve : (levels : Nat) → (chain : List Nat) → (rid : Nat) → Except Error τ}
  (h : chaining.Follows resolve)

include h

theorem walk (hwalk : chaining.Walk rid links last) (levels : Nat) {chain : List Nat}
    (hdistinct : (links.map Link.rid).Nodup) (hnew : ∀ link ∈ links, link.rid ∉ chain) :
    resolve (links.length + levels) chain rid =
      (resolve levels ((links.map Link.rid).reverse ++ chain) last).map
        fun type => links.foldr chaining.around type := by
  induction hwalk generalizing chain with
  | here =>
      simp only [List.length_nil, Nat.zero_add, List.map_nil, List.reverse_nil, List.nil_append]
      cases resolve levels chain _ <;> rfl
  | @inside rid outer last ns name links hinside _ ih =>
      obtain ⟨hfirst, hothers⟩ := List.nodup_cons.mp hdistinct
      have hlater : ∀ other ∈ links, other.rid ∉ rid :: chain := by
        intro other hother hmem
        rcases List.mem_cons.mp hmem with hsame | hmem
        · exact hfirst (List.mem_map.mpr ⟨other, hother, hsame⟩)
        · exact hnew other (by simp [hother]) hmem
      have hrid : rid ∉ chain := hnew ⟨rid, ns, name⟩ (by simp)
      have hstep : resolve (links.length + levels + 1) chain rid = _ := h.inside hrid hinside
      rw [List.length_cons, Nat.add_right_comm, hstep, ih hothers hlater]
      simp only [List.map_cons, List.reverse_cons, List.append_assoc, List.singleton_append]
      cases resolve levels ((links.map Link.rid).reverse ++ rid :: chain) last <;> rfl

theorem at_last (hwalk : chaining.Walk rid links last) (levels : Nat)
    (hdistinct : (links.map Link.rid).Nodup) :
    resolve (links.length + levels) [] rid =
      (resolve levels (links.map Link.rid).reverse last).map
        fun type => links.foldr chaining.around type := by
  have hnew : ∀ link ∈ links, link.rid ∉ [] := by simp
  simpa using h.walk hwalk levels hdistinct hnew

theorem eq_of_fate (hfate : chaining.Fate rid result) : resolve nestingLimit [] rid = result := by
  cases hfate with
  | @ends links last result hreaches hlength hends =>
      obtain ⟨hlast, hdistinct⟩ := List.nodup_cons.mp hreaches.distinct
      obtain ⟨levels, hlevels⟩ : ∃ levels, nestingLimit = links.length + (levels + 1) :=
        ⟨nestingLimit - links.length - 1, by omega⟩
      rw [hlevels, h.at_last hreaches.walk _ hdistinct, h.ends (by simpa using hlast) hends]
  | @cyclic links again hwalk hlength hdistinct hagain =>
      obtain ⟨levels, hlevels⟩ := Nat.le.dest hlength
      rw [← hlevels, h.at_last hwalk _ hdistinct, h.again (List.mem_reverse.mpr hagain)]
      rfl
  | @tooDeep links last hreaches hlength =>
      obtain ⟨hlast, hdistinct⟩ := List.nodup_cons.mp hreaches.distinct
      have hlevels : nestingLimit = links.length + 0 := hlength.symm
      rw [hlevels, h.at_last hreaches.walk _ hdistinct, h.limit (by simpa using hlast)]
      rfl

end Follows

/-! ## Every chain has a fate -/

def Leads (chaining : Chaining τ) (rid : Nat) : Prop :=
  (∃ ns name outer, chaining.inside ⟨rid, ns, name⟩ outer) ∨ ∃ result, chaining.ends rid result

theorem fate_or_reaches_succ (hreaches : chaining.Reaches rid links last)
    (hlength : links.length < nestingLimit) (hleads : chaining.Leads last) :
    (∃ result, chaining.Fate rid result) ∨
      ∃ links' last', chaining.Reaches rid links' last' ∧ links'.length = links.length + 1 := by
  rcases hleads with ⟨ns, name, outer, hinside⟩ | ⟨result, hends⟩
  · let link : Link := ⟨last, ns, name⟩
    have hwalk : chaining.Walk rid (links ++ [link]) outer := hreaches.walk.snoc hinside
    have hdistinct : ((links ++ [link]).map Link.rid).Nodup := by
      rw [List.map_append, List.nodup_append_comm]
      exact hreaches.distinct
    have hlength' : (links ++ [link]).length = links.length + 1 := List.length_append
    by_cases hagain : outer ∈ (links ++ [link]).map Link.rid
    · exact .inl ⟨_, .cyclic hwalk (by omega) hdistinct hagain⟩
    · exact .inr ⟨_, outer, ⟨hwalk, List.nodup_cons.mpr ⟨hagain, hdistinct⟩⟩, hlength'⟩
  · exact .inl ⟨_, .ends hreaches hlength hends⟩

theorem exists_fate (hleads : ∀ links last, chaining.Reaches rid links last →
    links.length < nestingLimit → chaining.Leads last) : ∃ result, chaining.Fate rid result := by
  -- By the number of rows: as long as the chain goes on, each row of it is a new one.
  have hrows : ∀ count ≤ nestingLimit, (∃ result, chaining.Fate rid result) ∨
      ∃ links last, chaining.Reaches rid links last ∧ links.length = count := by
    intro count hcount
    induction count with
    | zero => exact .inr ⟨[], rid, ⟨.here, by simp⟩, rfl⟩
    | succ count ih =>
        rcases ih (by omega) with hfate | ⟨links, last, hreaches, rfl⟩
        · exact .inl hfate
        · exact fate_or_reaches_succ hreaches hcount (hleads links last hreaches hcount)
  rcases hrows nestingLimit (Nat.le_refl _) with hfate | ⟨links, last, hreaches, hlength⟩
  · exact hfate
  · exact ⟨_, .tooDeep hreaches hlength⟩

theorem Follows.fate {resolve : Nat → List Nat → Nat → Except Error τ}
    (h : chaining.Follows resolve) (hleads : ∀ links last, chaining.Reaches rid links last →
      links.length < nestingLimit → chaining.Leads last) :
    chaining.Fate rid (resolve nestingLimit [] rid) := by
  obtain ⟨result, hfate⟩ := exists_fate hleads
  rw [h.eq_of_fate hfate]
  exact hfate

end Chaining

/-! ## Coded indexes in rows -/

theorem CodedIndex.table_mem_of_decode {kind : CodedKind} {value : Nat} {index : CodedIndex}
    (h : CodedIndex.decode kind value = .ok index) : index.table ∈ kind.tables := by
  simp only [CodedIndex.decode] at h
  split at h
  · next table htable =>
      cases h
      exact List.mem_of_getElem? htable
  · cases h

theorem Column.table_mem_of_read {layout : Layout} {kind : CodedKind} {data : Bytes}
    {offset next : Nat} {index : CodedIndex}
    (h : Column.read layout data offset (.coded kind) = .ok (index, next)) :
    index.table ∈ kind.tables := by
  simp only [Column.read, CodedIndex.read] at h
  cases hnumber : data.number offset (layout.width (.coded kind)) with
  | error error =>
      rw [hnumber] at h
      cases h
  | ok value =>
      simp only [hnumber] at h
      split at h
      · next hdecode =>
          cases h
          exact CodedIndex.table_mem_of_decode (congrArg Prod.fst hdecode)
      · cases h

theorem Table.exists_record_of_get {ρ : Type} [Row ρ] {table : Table ρ} {rid : Nat} {row : ρ}
    (h : table.get rid = .ok row) :
    ∃ (offset next : Nat) (cells : Record (Row.table ρ).columns),
      Record.read table.layout table.data (Row.table ρ).columns offset = .ok (cells, next) ∧
        row = Row.ofRecord rid cells := by
  simp only [Table.get, Table.readAt] at h
  split at h
  · cases h
  · generalize table.start + (rid - 1) * table.rowSize = offset at h
    cases hread : Record.read table.layout table.data (Row.table ρ).columns offset with
    | error error =>
        rw [hread] at h
        cases h
    | ok found =>
        rw [hread] at h
        cases h
        exact ⟨offset, found.2, found.1, hread, rfl⟩

namespace Metadata

variable {metadata : Metadata} {rid : Nat}

theorem scope_table_mem {row : TypeRefRow} (h : metadata.row TypeRefRow rid = .ok row) :
    row.scope.table ∈ CodedKind.resolutionScope.tables := by
  rw [Metadata.row] at h
  split at h
  · obtain ⟨offset, next, cells, hread, rfl⟩ := Table.exists_record_of_get h
    obtain ⟨⟨scope, next'⟩, hscope, hread⟩ := bind_eq_ok_iff.mp hread
    obtain ⟨others, -, hread⟩ := bind_eq_ok_iff.mp hread
    cases hread
    exact Column.table_mem_of_read hscope
  · cases h

/-! ## Scopes -/

structure NamesReference (metadata : Metadata) (link : Link) (row : TypeRefRow) : Prop where
  read : metadata.row TypeRefRow link.rid = .ok row
  name : metadata.string row.name = .ok link.name
  ns : metadata.string? row.ns = .ok link.ns

/--
A chain of scopes ends in an assembly, or at a type that is not modelled: forwarded, of another
module, or of the module itself.
-/
inductive ScopeEnds (metadata : Metadata) (rid : Nat) : Except Error TypeReference → Prop
  | assembly {row : TypeRefRow} {ns : Option String} {name assembly : String}
      {assemblyRow : AssemblyRefRow} (hrow : metadata.NamesReference ⟨rid, ns, name⟩ row)
      (hscope : row.scope.isNil = false) (htable : row.scope.table = .assemblyRef)
      (hassembly : metadata.row AssemblyRefRow row.scope.row = .ok assemblyRow)
      (hassemblyName : metadata.string assemblyRow.name = .ok assembly) :
      ScopeEnds metadata rid (.ok (.top assembly ns name))
  | forwarded {row : TypeRefRow} {ns : Option String} {name : String}
      (hrow : metadata.NamesReference ⟨rid, ns, name⟩ row) (hscope : row.scope.isNil = true) :
      ScopeEnds metadata rid (.error (.unmodelled (.forwardedType (qualified ns name))))
  | crossModule {row : TypeRefRow} {ns : Option String} {name : String}
      (hrow : metadata.NamesReference ⟨rid, ns, name⟩ row) (hscope : row.scope.isNil = false)
      (htable : row.scope.table = .moduleRef) :
      ScopeEnds metadata rid (.error (.unmodelled (.crossModuleType (qualified ns name))))
  | ownModule {row : TypeRefRow} {ns : Option String} {name : String}
      (hrow : metadata.NamesReference ⟨rid, ns, name⟩ row) (hscope : row.scope.isNil = false)
      (htable : row.scope.table = .module) :
      ScopeEnds metadata rid (.error (.unmodelled (.scope .module (qualified ns name))))

def scopes (metadata : Metadata) : Chaining TypeReference where
  inside link outer := ∃ row, metadata.NamesReference link row ∧ row.scope.isNil = false ∧
    row.scope.table = .typeRef ∧ row.scope.row = outer
  ends := metadata.ScopeEnds
  around link parent := .nested (.referenced parent) link.ns link.name
  cyclic rid := .inconsistent (.cyclicTypeRef (Token.ofParts TableId.typeRef.number rid))

theorem scopeLink_eq {link : Link} {row : TypeRefRow} (h : metadata.NamesReference link row) :
    metadata.scopeLink link.rid =
      if row.scope.isNil then
        .error (.unmodelled (.forwardedType (qualified link.ns link.name)))
      else
        match row.scope.table with
        | .assemblyRef => do
            let assembly ← metadata.row AssemblyRefRow row.scope.row
            pure (.top (← metadata.string assembly.name) link.ns link.name)
        | .typeRef => .ok (.inside row.scope.row link.ns link.name)
        | .moduleRef => .error (.unmodelled (.crossModuleType (qualified link.ns link.name)))
        | table => .error (.unmodelled (.scope table (qualified link.ns link.name))) := by
  simp only [scopeLink, h.read, h.name, h.ns, bind, Except.bind]
  rfl

def uncachedReference (metadata : Metadata) (levels : Nat) (chain : List Nat) (rid : Nat) :
    Except Error TypeReference :=
  ((metadata.typeReferenceIn levels chain rid).runOn Cache.disabled).1

theorem uncachedReference_of_ends {levels : Nat} {chain : List Nat}
    {result : Except Error TypeReference} (hchain : rid ∉ chain)
    (h : metadata.ScopeEnds rid result) :
    metadata.uncachedReference (levels + 1) chain rid = result := by
  rw [uncachedReference, runOn_typeReferenceIn_succ rfl hchain]
  cases h with
  | assembly hrow hscope htable hassembly hassemblyName =>
      rw [scopeLink_eq hrow, hscope, htable, hassembly]
      simp only [bind, Except.bind, hassemblyName]
      rfl
  | forwarded hrow hscope => rw [scopeLink_eq hrow, if_pos hscope]
  | crossModule hrow hscope htable =>
      rw [scopeLink_eq hrow, hscope, htable]
      rfl
  | ownModule hrow hscope htable =>
      rw [scopeLink_eq hrow, hscope, htable]
      rfl

theorem follows_scopes (metadata : Metadata) :
    metadata.scopes.Follows metadata.uncachedReference where
  again hchain := congrArg Prod.fst (runOn_typeReferenceIn_of_mem rfl hchain)
  limit hchain := congrArg Prod.fst (runOn_typeReferenceIn_zero rfl hchain)
  ends := uncachedReference_of_ends
  inside := by
    rintro levels chain link outer hchain ⟨row, hrow, hscope, htable, rfl⟩
    rw [uncachedReference, uncachedReference, runOn_typeReferenceIn_succ rfl hchain,
      scopeLink_eq hrow, hscope, htable]
    simp only [Bool.false_eq_true, if_false]
    rcases (metadata.typeReferenceIn levels (link.rid :: chain) row.scope.row).runOn
      Cache.disabled with ⟨_ | _, _⟩ <;> rfl

def ReferenceReadable (metadata : Metadata) (rid : Nat) : Prop :=
  ∃ ns name row, metadata.NamesReference ⟨rid, ns, name⟩ row ∧
    (row.scope.isNil = false → row.scope.table = .assemblyRef →
      ∃ assemblyRow assembly, metadata.row AssemblyRefRow row.scope.row = .ok assemblyRow ∧
        metadata.string assemblyRow.name = .ok assembly)

theorem ReferenceReadable.leads (h : metadata.ReferenceReadable rid) :
    metadata.scopes.Leads rid := by
  obtain ⟨ns, name, row, hrow, hassembly⟩ := h
  cases hscope : row.scope.isNil with
  | true => exact .inr ⟨_, .forwarded hrow hscope⟩
  | false =>
      have hmem := scope_table_mem hrow.read
      simp only [CodedKind.tables, List.mem_cons, List.not_mem_nil, or_false] at hmem
      rcases hmem with htable | htable | htable | htable
      · exact .inr ⟨_, .ownModule hrow hscope htable⟩
      · exact .inr ⟨_, .crossModule hrow hscope htable⟩
      · obtain ⟨assemblyRow, assembly, hassemblyRow, hname⟩ := hassembly hscope htable
        exact .inr ⟨_, .assembly hrow hscope htable hassemblyRow hname⟩
      · exact .inl ⟨ns, name, _, row, hrow, hscope, htable, rfl⟩

/-! ## Enclosing types -/

structure NamesDefinition (metadata : Metadata) (link : Link) (row : TypeDefRow) : Prop where
  read : metadata.row TypeDefRow link.rid = .ok row
  name : metadata.string row.name = .ok link.name
  ns : metadata.string? row.ns = .ok link.ns

def enclosures (metadata : Metadata) : Chaining TypeExpr where
  inside link outer := ∃ row, metadata.NamesDefinition link row ∧
    metadata.enclosing? link.rid = some outer
  ends rid result := ∃ ns name row, metadata.NamesDefinition ⟨rid, ns, name⟩ row ∧
    metadata.enclosing? rid = none ∧ result = .ok (.defined ns name)
  around link outer := .definedIn outer link.ns link.name
  cyclic rid := .inconsistent (.cyclicTypeDef (Token.ofParts TableId.typeDef.number rid))

theorem follows_enclosures (metadata : Metadata) :
    metadata.enclosures.Follows metadata.typeDefinitionIn where
  again hchain := by
    rw [typeDefinitionIn.eq_def]
    simp [hchain, enclosures]
  limit hchain := by
    rw [typeDefinitionIn.eq_def]
    simp [hchain]
  ends := by
    rintro levels chain rid _ hchain ⟨ns, name, row, hrow, htop, rfl⟩
    rw [typeDefinitionIn.eq_def]
    simp [hchain, hrow.read, hrow.name, hrow.ns, htop, bind, Except.bind, pure, Except.pure]
  inside := by
    rintro levels chain link outer hchain ⟨row, hrow, houter⟩
    rw [typeDefinitionIn.eq_def]
    simp only [List.contains_eq_mem, hchain, decide_false, Bool.false_eq_true, if_false, hrow.read,
      hrow.name, hrow.ns, houter, bind, Except.bind]
    cases metadata.typeDefinitionIn levels (link.rid :: chain) outer <;> rfl

def DefinitionReadable (metadata : Metadata) (rid : Nat) : Prop :=
  ∃ ns name row, metadata.NamesDefinition ⟨rid, ns, name⟩ row

theorem DefinitionReadable.leads (h : metadata.DefinitionReadable rid) :
    metadata.enclosures.Leads rid := by
  obtain ⟨ns, name, row, hrow⟩ := h
  cases houter : metadata.enclosing? rid with
  | none => exact .inr ⟨_, ns, name, row, hrow, houter, rfl⟩
  | some outer => exact .inl ⟨ns, name, outer, row, hrow, houter⟩

/--
A reference without a cache and a definition are what becomes of their chains, and as long as the
rows can be read every chain has such a fate.
-/
theorem resolves_to_fate (metadata : Metadata) (rid : Nat) :
    (∀ result, metadata.scopes.Fate rid result →
      ((metadata.typeReference rid).runOn Cache.disabled).1 = result) ∧
    ((∀ links other, metadata.scopes.Reaches rid links other → links.length < nestingLimit →
        metadata.ReferenceReadable other) →
      metadata.scopes.Fate rid ((metadata.typeReference rid).runOn Cache.disabled).1) ∧
    (∀ result, metadata.enclosures.Fate rid result → metadata.typeDefinition rid = result) ∧
    ((∀ links other, metadata.enclosures.Reaches rid links other → links.length < nestingLimit →
        metadata.DefinitionReadable other) →
      metadata.enclosures.Fate rid (metadata.typeDefinition rid)) := by
  refine ⟨?_, ?_, ?_, ?_⟩
  · intro result hfate
    exact metadata.follows_scopes.eq_of_fate hfate
  · intro hreadable
    exact metadata.follows_scopes.fate fun links last hreaches hlength =>
      (hreadable links last hreaches hlength).leads
  · intro result hfate
    exact metadata.follows_enclosures.eq_of_fate hfate
  · intro hreadable
    exact metadata.follows_enclosures.fate fun links last hreaches hlength =>
      (hreadable links last hreaches hlength).leads

/--
References to a type of `L`, to a type in it, and to two types that are in each other; and a type
with a type in it.
-/
def chainedRows : Metadata :=
  { ofTables [(.typeRef, 4), (.typeDef, 2), (.assemblyRef, 1)]
      #[6, 0, 1, 0, 0, 0,
        7, 0, 3, 0, 0, 0,
        19, 0, 3, 0, 0, 0,
        15, 0, 3, 0, 0, 0,
        0, 0, 0, 0, 1, 0, 0, 0, 0, 0, 1, 0, 1, 0,
        0, 0, 0, 0, 3, 0, 0, 0, 0, 0, 1, 0, 1, 0,
        0, 0, 0, 0, 0, 0, 0, 0, 0, 0, 0, 0, 0, 0, 5, 0, 0, 0, 0, 0]
      #[0, 84, 0, 85, 0, 76, 0] #[0] with
    nesting := [(2, 1)] }

theorem fate_of_chainedRows :
    let nested := TypeReference.nested (.referenced (.top "L" none "T")) none "U"
    ((chainedRows.typeReference 3).runOn Cache.disabled).1 =
        .error (.inconsistent (.cyclicTypeRef ⟨0x1000003⟩)) ∧
      chainedRows.scopes.Fate 2 (.ok nested) ∧
      chainedRows.typeDefinition 2 = .ok (.definedIn (.defined none "T") none "U") ∧
      chainedRows.enclosures.Fate 1 (.ok (.defined none "T")) := by
  intro nested
  have hfirst : chainedRows.row TypeRefRow 1 = .ok ⟨1, ⟨.assemblyRef, 1⟩, 1, 0⟩ := rfl
  have hsecond : chainedRows.row TypeRefRow 2 = .ok ⟨2, ⟨.typeRef, 1⟩, 3, 0⟩ := rfl
  have hthird : chainedRows.scopes.inside ⟨3, none, "U"⟩ 4 := ⟨_, ⟨rfl, rfl, rfl⟩, rfl, rfl, rfl⟩
  have hfourth : chainedRows.scopes.inside ⟨4, none, "U"⟩ 3 :=
    ⟨_, ⟨rfl, rfl, rfl⟩, rfl, rfl, rfl⟩
  have htop : chainedRows.enclosures.ends 1 (.ok (.defined none "T")) :=
    ⟨none, "T", _, ⟨rfl, rfl, rfl⟩, rfl, rfl⟩
  have hnested : chainedRows.enclosures.inside ⟨2, none, "U"⟩ 1 := ⟨_, ⟨rfl, rfl, rfl⟩, rfl⟩
  refine ⟨?_, ?_, ?_, ?_⟩
  · have hwalk : chainedRows.scopes.Walk 3 [⟨3, none, "U"⟩, ⟨4, none, "U"⟩] 3 :=
      .inside hthird (.inside hfourth .here)
    exact (resolves_to_fate chainedRows 3).1 _
      (.cyclic hwalk (by decide) (by decide) (by decide))
  · have hresult : ((chainedRows.typeReference 2).runOn Cache.disabled).1 = .ok nested := rfl
    rw [← hresult]
    refine (resolves_to_fate chainedRows 2).2.1 fun links other hreaches _ => ?_
    rcases hreaches.walk with _ | ⟨⟨row, hrow, -, -, rfl⟩, houter⟩
    · exact ⟨none, "U", _, ⟨rfl, rfl, rfl⟩, fun _ htable => nomatch htable⟩
    · cases hsecond.symm.trans hrow.read
      rcases houter with _ | ⟨⟨row, hrow, -, htable, rfl⟩, houter⟩
      · exact ⟨none, "T", _, ⟨rfl, rfl, rfl⟩, fun _ _ => ⟨_, "L", rfl, rfl⟩⟩
      · cases hfirst.symm.trans hrow.read
        cases htable
  · have hwalk : chainedRows.enclosures.Walk 2 [⟨2, none, "U"⟩] 1 := .inside hnested .here
    exact (resolves_to_fate chainedRows 2).2.2.1 _ (.ends ⟨hwalk, by decide⟩ (by decide) htop)
  · have hresult : chainedRows.typeDefinition 1 = .ok (.defined none "T") := rfl
    rw [← hresult]
    refine (resolves_to_fate chainedRows 1).2.2.2 fun links other hreaches _ => ?_
    rcases hreaches.walk with _ | ⟨⟨row, hrow, houter⟩, -⟩
    · exact ⟨none, "T", _, ⟨rfl, rfl, rfl⟩⟩
    · cases houter

end Metadata

end AssemblyGate
