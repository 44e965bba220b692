import Mathlib.Data.List.TakeWhile
import Mathlib.Data.Multiset.Bind
import AssemblyGate.Number
import AssemblyGate.Text.Columns

/-!
# What a table shows

Texts are cut, wrapped, filled and set side by side, all of which moves blanks and nothing
else.  So a table shows the characters of its headings and cells, each as often as they have it.
-/

namespace AssemblyGate.Text

/-- What is to be seen of a text: its characters, but no blanks. -/
def ink (text : String) : List Char := text.toList.filter fun c => !isBlank c

@[simp] theorem ink_empty : ink "" = [] := rfl

@[simp] theorem ink_space : ink " " = [] := by decide

@[simp] theorem ink_append (left right : String) : ink (left ++ right) = ink left ++ ink right := by
  simp [ink]

@[simp] theorem ink_join (texts : List String) : ink (String.join texts) = texts.flatMap ink := by
  simp only [ink, String.toList_join, List.filter_flatMap]
  rfl

/-! ## Clusters -/

@[simp] theorem flatten_addToClusters (c : Char) (found : List (List Char)) :
    (addToClusters c found).flatten = c :: found.flatten := by
  cases found with
  | nil => simp [addToClusters]
  | cons cluster clusters =>
      simp only [addToClusters]
      split <;> simp

@[simp] theorem flatten_foldl_addToClusters (text : List Char) (found : List (List Char)) :
    (text.foldl (fun found c => addToClusters c found) found).flatten =
      text.reverse ++ found.flatten := by
  induction text generalizing found with
  | nil => rfl
  | cons c text ih => simp [ih]

@[simp] theorem join_clusters (text : String) : String.join (clusters text) = text := by
  have hflatten := congrArg List.reverse (flatten_foldl_addToClusters text.toList [])
  rw [List.reverse_flatten] at hflatten
  apply String.toList_injective
  simpa [clusters, List.flatMap_def, Function.comp_def] using hflatten

@[simp] theorem flatMap_ink_clusters (text : String) : (clusters text).flatMap ink = ink text := by
  rw [← ink_join, join_clusters]

/-! ## Pieces -/

theorem filter_intercalate {α : Type} {p : α → Bool} {separator : List α}
    (h : separator.filter p = []) (parts : List (List α)) :
    (separator.intercalate parts).filter p = parts.flatMap (List.filter p) := by
  induction parts with
  | nil => rfl
  | cons first others ih =>
      cases others with
      | nil => simp
      | cons second others =>
          rw [List.intercalate_cons_cons, List.filter_append, List.filter_append, ih, h]
          simp

theorem flatMap_ink_pieces {separator : Char} (h : isBlank separator = true) (text : String) :
    (pieces separator text).flatMap ink = ink text := by
  rw [pieces, String.toList_split_char, List.flatMap_map]
  simp only [ink, String.toList_ofList]
  have hseparator : [separator].filter (fun c => !isBlank c) = [] := by simp [h]
  rw [← filter_intercalate hseparator, List.intercalate_splitOn]

/-! ## Wrapping -/

namespace Wrapping

def shown (state : Wrapping) : List Char := state.closed.reverse.flatMap ink ++ ink state.line

@[simp] theorem shown_close (state : Wrapping) : state.close.shown = state.shown := by
  simp [shown, close]

@[simp] theorem shown_settle (limit : Nat) (state : Wrapping) :
    (state.settle limit).shown = state.shown := by
  unfold settle
  split
  · exact shown_close state
  · rfl

@[simp] theorem flatMap_ink_lines (state : Wrapping) : state.lines.flatMap ink = state.shown := by
  unfold lines shown
  split
  · next hempty => simp [String.isEmpty_iff.mp hempty]
  · simp

@[simp] theorem takeFitting_append (room : Nat) (taken clusters : List String) :
    (takeFitting room taken clusters).1.reverse ++ (takeFitting room taken clusters).2 =
      taken.reverse ++ clusters := by
  induction clusters generalizing room taken with
  | nil => simp [takeFitting]
  | cons cluster clusters ih =>
      rw [takeFitting]
      split
      · rw [ih]
        simp
      · rfl

@[simp] theorem takeLine_append (limit : Nat) (word : List String) :
    (takeLine limit word).1.reverse ++ (takeLine limit word).2 = word := by
  unfold takeLine
  split
  · next hnone => simpa [hnone] using takeFitting_append limit [] word
  · simp

theorem length_takeLine (limit : Nat) (word : List String) :
    (takeLine limit word).2.length ≤ word.length - 1 := by
  have hlength := congrArg List.length (takeFitting_append limit [] word)
  unfold takeLine
  generalize takeFitting limit [] word = parts at hlength ⊢
  rcases parts with ⟨_ | ⟨cluster, taken⟩, _ | ⟨next, rest⟩⟩ <;>
    simp at hlength ⊢ <;> omega

theorem shown_begin {limit lines : Nat} {word : List String} {state : Wrapping}
    (hlines : word.length ≤ lines) (hline : state.line = "") :
    (begin limit lines word state).shown = state.shown ++ word.flatMap ink := by
  induction lines generalizing word state with
  | zero =>
      obtain rfl := List.eq_nil_of_length_eq_zero (Nat.le_zero.mp hlines)
      simp [begin]
  | succ lines ih =>
      unfold begin
      dsimp only
      split
      · rw [shown_settle]
        simp [shown, hline]
      · have hrest := length_takeLine limit word
        have hparts := congrArg (List.flatMap ink) (takeLine_append limit word)
        rw [List.flatMap_append] at hparts
        rw [ih (by omega) rfl, shown_close, ← hparts]
        simp [shown, hline]

@[simp] theorem shown_beginWord {limit : Nat} {word : List String} {state : Wrapping}
    (hline : state.line = "") :
    (beginWord limit word state).shown = state.shown ++ word.flatMap ink :=
  shown_begin (Nat.le_succ _) hline

@[simp] theorem shown_add (limit : Nat) (state : Wrapping) (word : String) :
    (state.add limit word).shown = state.shown ++ ink word := by
  unfold add
  split
  · next hempty => simp [String.isEmpty_iff.mp hempty]
  · split
    · rw [shown_settle]
      simp [shown]
    · dsimp only
      split
      · rw [shown_beginWord rfl, shown_close, flatMap_ink_clusters]
      · have hparts := congrArg (List.flatMap ink) (takeFitting_append
          (limit - state.used - 1) [] (clusters word))
        rw [List.flatMap_append, List.reverse_nil, List.nil_append, flatMap_ink_clusters] at hparts
        rw [shown_beginWord rfl, shown_close, ← hparts]
        simp [shown]

@[simp] theorem shown_foldl_add (limit : Nat) (state : Wrapping) (words : List String) :
    (words.foldl (add limit) state).shown = state.shown ++ words.flatMap ink := by
  induction words generalizing state with
  | nil => simp
  | cons word words ih => rw [List.foldl_cons, ih, shown_add, List.flatMap_cons, List.append_assoc]

end Wrapping

@[simp] theorem flatMap_ink_wrap (limit : Nat) (text : String) :
    (wrap limit text).flatMap ink = ink text := by
  unfold wrap
  split
  · exact List.flatMap_singleton ink text
  · rw [Wrapping.flatMap_ink_lines, Wrapping.shown_foldl_add, flatMap_ink_pieces (by decide)]
    rfl

/-! ## Columns -/

@[simp] theorem ink_replicate_space (count : Nat) :
    ink (String.ofList (List.replicate count ' ')) = [] := by
  rw [ink, String.toList_ofList, List.filter_replicate_of_neg (by decide)]

@[simp] theorem ink_fill (side : Side) (size : Nat) (text : String) :
    ink (side.fill size text) = ink text := by
  cases side <;> simp [Side.fill]

@[simp] theorem ink_trimEnd (text : String) : ink (trimEnd text) = ink text := by
  have hblank : (text.toList.reverse.takeWhile isBlank).filter (fun c => !isBlank c) = [] :=
    List.filter_eq_nil_iff.mpr fun c hc => by simp [List.mem_takeWhile_imp hc]
  have hparts := congrArg (List.filter fun c => !isBlank c)
    (List.takeWhile_append_dropWhile (p := isBlank) (l := text.toList.reverse))
  rw [List.filter_append, hblank, List.nil_append, List.filter_reverse] at hparts
  rw [ink, trimEnd, String.toList_ofList, List.filter_reverse, hparts, List.reverse_reverse, ink]

@[simp] theorem Column.length_set (column : Column) (size : Nat) :
    (column.set size).1.length = column.cells.length := by
  simp [set]

@[simp] theorem Column.flatMap_ink_set (column : Column) (size : Nat) :
    (column.set size).1.flatMap (List.flatMap ink) = column.cells.flatMap ink := by
  simp only [set, List.flatMap_map]
  refine List.flatMap_congr fun cell _ => ?_
  simp only [cellLines, ink_fill, List.flatMap_assoc, flatMap_ink_wrap]
  exact flatMap_ink_pieces (by decide) cell

theorem length_cells_of_mem_columnsOf {headings : List (Side × String)} {rows : List (List String)}
    {column : Column} (h : column ∈ columnsOf headings rows) :
    column.cells.length = rows.length + 1 := by
  obtain ⟨index, hindex, rfl⟩ := List.mem_mapIdx.mp h
  simp

/-! ## Rows -/

theorem flatMap_range_getD {α β : Type} {items : List α} {default : α} {f : α → List β}
    {count : Nat} (hcount : items.length ≤ count) (hdefault : f default = []) :
    ((List.range count).flatMap fun index => f (items[index]?.getD default)) = items.flatMap f := by
  have hitems : (List.range count).map (fun index => items[index]?.getD default) =
      items ++ List.replicate (count - items.length) default := by
    apply List.ext_getElem
    · simp; omega
    · intro index hindex hindex'
      by_cases h : index < items.length <;> simp [List.getElem_append, h]
  have hfilling : (List.replicate (count - items.length) default).flatMap f = [] := by
    simp [List.flatMap_eq_nil_iff, hdefault]
  rw [← List.append_nil (items.flatMap f), ← hfilling, ← List.flatMap_append, ← hitems,
    List.flatMap_map]

theorem flatMap_swap {α β γ : Type} (left : List α) (right : List β) (f : α → β → List γ) :
    (left.flatMap fun item => right.flatMap fun other => f item other).Perm
      (right.flatMap fun other => left.flatMap fun item => f item other) := by
  simp only [← Multiset.coe_eq_coe, ← Multiset.coe_bind]
  exact Multiset.bind_bind _ _

@[simp] theorem ink_intercalate (texts : List String) :
    ink ("  ".intercalate texts) = texts.flatMap ink := by
  rw [ink, String.toList_intercalate, filter_intercalate (by decide), List.flatMap_map]
  rfl

theorem flatMap_ink_rowLines {cells : List (List String × String)}
    (hblank : ∀ cell ∈ cells, ink cell.2 = []) :
    ((rowLines cells).flatMap ink).Perm (cells.flatMap fun cell => cell.1.flatMap ink) := by
  simp only [rowLines, List.flatMap_map, ink_trimEnd, ink_intercalate]
  refine (flatMap_swap _ _ _).trans ?_
  refine List.Perm.of_eq (List.flatMap_congr fun cell hcell => ?_)
  refine flatMap_range_getD ?_ (hblank cell hcell)
  exact (foldl_max_le_iff.mp (Nat.le_refl _)).2 _ (List.mem_map_of_mem hcell)

/--
A table shows the characters of its headings and its cells, each as often as they have it, and
nothing else but blanks.
-/
theorem flatMap_ink_columnLines (headings : List (Side × String)) (rows : List (List String)) :
    ((columnLines headings rows).flatMap ink).Perm
      ((columnsOf headings rows).flatMap fun column => column.cells.flatMap ink) := by
  have hrow (row : Nat) := @flatMap_ink_rowLines ((columnsOf headings rows).map fun column =>
      ((column.set column.width).1[row]?.getD [], (column.set column.width).2)) <| by
    rintro _ hcell
    obtain ⟨column, -, rfl⟩ := List.mem_map.mp hcell
    exact ink_fill column.side column.width ""
  unfold columnLines
  simp only [List.flatMap_assoc, List.map_map, Function.comp_def]
  refine (List.Perm.flatMap_left _ fun row _ => hrow row).trans ?_
  simp only [List.flatMap_map]
  refine (flatMap_swap _ _ _).trans (List.Perm.of_eq (List.flatMap_congr fun column hcolumn => ?_))
  have hcount : (column.set column.width).1.length ≤ rows.length + 1 := by
    rw [Column.length_set, length_cells_of_mem_columnsOf hcolumn]
  rw [flatMap_range_getD hcount (f := List.flatMap ink) rfl, column.flatMap_ink_set]

end AssemblyGate.Text
