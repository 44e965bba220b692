import AssemblyGate.Proofs.Tables

/-!
# Rows in order and rows by number

A table is read in two ways: all rows one behind the other, where each row starts where the one
in front of it stopped, and one row by its number, where the size of the rows tells the start.
Both give the same rows, because a row that is read is as long as the size says.
-/

namespace AssemblyGate

namespace Layout

def rowBytes (layout : Layout) (table : TableId) : Nat :=
  let string := indexWidth layout.largeStrings
  let guid := indexWidth layout.largeGuids
  let blob := indexWidth layout.largeBlobs
  let row := fun target => indexWidth (layout.isLarge target)
  let coded := fun kind => indexWidth (layout.codedBits kind > 16)
  match table with
  | .module => 2 + string + guid + guid + guid
  | .typeRef => coded .resolutionScope + string + string
  | .typeDef => 4 + string + string + coded .typeDefOrRef + row .field + row .methodDef
  | .fieldPtr => row .field
  | .field => 2 + string + blob
  | .methodPtr => row .methodDef
  | .methodDef => 4 + 2 + 2 + string + blob + row .param
  | .paramPtr => row .param
  | .param => 2 + 2 + string
  | .interfaceImpl => row .typeDef + coded .typeDefOrRef
  | .memberRef => coded .memberRefParent + string + blob
  | .constant => 2 + coded .hasConstant + blob
  | .customAttribute => coded .hasCustomAttribute + coded .customAttributeType + blob
  | .fieldMarshal => coded .hasFieldMarshal + blob
  | .declSecurity => 2 + coded .hasDeclSecurity + blob
  | .classLayout => 2 + 4 + row .typeDef
  | .fieldLayout => 4 + row .field
  | .standAloneSig => blob
  | .eventMap => row .typeDef + row .event
  | .eventPtr => row .event
  | .event => 2 + string + coded .typeDefOrRef
  | .propertyMap => row .typeDef + row .property
  | .propertyPtr => row .property
  | .property => 2 + string + blob
  | .methodSemantics => 2 + row .methodDef + coded .hasSemantics
  | .methodImpl => row .typeDef + coded .methodDefOrRef + coded .methodDefOrRef
  | .moduleRef => string
  | .typeSpec => blob
  | .implMap => 2 + coded .memberForwarded + string + row .moduleRef
  | .fieldRVA => 4 + row .field
  | .encLog => 4 + 4
  | .encMap => 4
  | .assembly => 4 + 2 + 2 + 2 + 2 + 4 + blob + string + string
  | .assemblyProcessor => 4
  | .assemblyOS => 4 + 4 + 4
  | .assemblyRef => 2 + 2 + 2 + 2 + 4 + blob + string + string + blob
  | .assemblyRefProcessor => 4 + row .assemblyRef
  | .assemblyRefOS => 4 + 4 + 4 + row .assemblyRef
  | .file => 4 + string + blob
  | .exportedType => 4 + 4 + string + string + coded .implementation
  | .manifestResource => 4 + 4 + string + coded .implementation
  | .nestedClass => row .typeDef + row .typeDef
  | .genericParam => 2 + 2 + coded .typeOrMethodDef + string
  | .methodSpec => coded .methodDefOrRef + blob
  | .genericParamConstraint => row .genericParam + coded .typeDefOrRef

theorem rowSize_eq_rowBytes (layout : Layout) (table : TableId) :
    layout.rowSize table = layout.rowBytes table := by
  cases table <;>
    simp only [rowSize, rowBytes, List.map_cons, List.map_nil, total_cons, total_nil, width] <;>
    omega

end Layout

namespace Table

variable {ρ : Type} [Row ρ]

/--
A row that is read is as long as the rows of its table are.  While all rows could be read, the
next row in order is the row with the next number, be it a row or a failure, and nothing comes
behind a failure.
-/
theorem rows_in_order_by_number (table : Table ρ) :
    table.rowSize = table.layout.rowBytes (Row.table ρ) ∧
    (∀ rid offset row next, table.readAt rid offset = .ok (row, next) →
      next = offset + table.rowSize) ∧
    (∀ rid, 1 ≤ rid → rid ≤ table.count →
      (∀ earlier, 1 ≤ earlier → earlier < rid →
        ∃ row, table.rows[earlier - 1]? = some (.ok row)) →
      table.rows[rid - 1]? = some (table.get rid)) ∧
    (∀ position error, table.rows[position]? = some (.error error) →
      position + 1 = table.rows.length) ∧
    table.rows.length ≤ table.count := by
  refine ⟨table.layout.rowSize_eq_rowBytes _, fun _ _ _ _ => next_of_readAt, ?_, ?_, ?_⟩
  · intro rid hpos hle hearlier
    have hnumber : ((rids table.count).map table.get)[rid - 1]? = some (table.get rid) := by
      have hlt : rid - 1 < table.count := by omega
      simp [rids, hlt, Nat.sub_add_cancel hpos]
    rw [rows_eq] at hearlier ⊢
    rw [getElem?_upToError, hnumber]
    intro earlier hlt
    exact hearlier (earlier + 1) (by omega) (by omega)
  · intro position error herror
    rw [rows_eq] at herror ⊢
    exact length_of_error herror
  · rw [rows_eq]
    simpa [rids] using length_upToError_le ((rids table.count).map table.get)

end Table

end AssemblyGate
