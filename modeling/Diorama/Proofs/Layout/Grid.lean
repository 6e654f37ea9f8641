import Mathlib.Data.List.Nodup
import Diorama.Layout.Basic
import Diorama.Proofs.List.Repetition

/-!
# The grid of a layout

Every node has one cell of the grid: its column has a place among the columns (`columnIndex`), and so
many nodes of this column come before it in the graph (`rowIndex`). A layout lists all nodes of the
graph once (`perm_ofGraph`), in the order of their cells (`pairwise_cell`), and the cell alone decides
where a node of some kind stands (`mem_ofGraph`).
-/

namespace Diorama

/-! ### Groups of a list -/

section

variable {α : Type} [DecidableEq α]

/-- The groups of a list by a key are together a permutation of it. -/
theorem perm_flatMap_filter {β : Type} {key : β → α} {keys : List α} (hKeys : keys.Nodup)
    (items : List β) :
    (keys.flatMap fun k => items.filter (key · = k)).Perm (items.filter (key · ∈ keys)) := by
  induction keys with
  | nil => simp
  | cons k keys ih =>
    obtain ⟨hk, hKeys⟩ := List.nodup_cons.mp hKeys
    rw [List.flatMap_cons]
    refine (List.Perm.append_left _ (ih hKeys)).trans ?_
    have hSplit := List.filter_append_perm (key · = k) (items.filter (key · ∈ k :: keys))
    rw [List.filter_filter, List.filter_filter] at hSplit
    have hFirst : (items.filter fun a => decide (key a = k) && decide (key a ∈ k :: keys)) =
        items.filter (key · = k) := by
      refine List.filter_congr fun a _ => ?_
      by_cases h : key a = k <;> simp [h]
    have hRest : (items.filter fun a => !decide (key a = k) && decide (key a ∈ k :: keys)) =
        items.filter (key · ∈ keys) := by
      refine List.filter_congr fun a _ => ?_
      by_cases h : key a = k <;> simp [h, hk]
    rwa [hFirst, hRest] at hSplit

/-- The place of an item among those that it is filtered with. -/
theorem length_filter_takeWhile {p : α → Bool} {l : List α} (hl : l.Nodup) {row : Nat} {a : α}
    (h : (l.filter p)[row]? = some a) : ((l.takeWhile (· ≠ a)).filter p).length = row := by
  induction l generalizing row with
  | nil => cases h
  | cons b l ih =>
    obtain ⟨hb, hl⟩ := List.nodup_cons.mp hl
    have hMem := List.mem_of_getElem? h
    by_cases hp : p b = true
    · rw [List.filter_cons_of_pos hp] at h
      cases row with
      | zero =>
        obtain rfl : b = a := Option.some.inj h
        simp
      | succ row =>
        rw [List.getElem?_cons_succ] at h
        have hNe : b ≠ a := by
          rintro rfl
          exact hb (List.mem_of_mem_filter (List.mem_of_getElem? h))
        rw [List.takeWhile_cons_of_pos (by simpa using hNe), List.filter_cons_of_pos hp,
          List.length_cons, ih hl h]
    · rw [List.filter_cons_of_neg hp] at h hMem
      have hNe : b ≠ a := by
        rintro rfl
        exact hp (List.mem_filter.mp hMem).2
      rw [List.takeWhile_cons_of_pos (by simpa using hNe), List.filter_cons_of_neg hp, ih hl h]

theorem pairwise_snd_zipIdx {β : Type} (l : List β) : l.zipIdx.Pairwise (·.2 < ·.2) := by
  refine List.pairwise_map.mp ?_
  rw [List.zipIdx_map_snd]
  exact List.pairwise_lt_range'

end

namespace Layout

/-! ### Columns -/

/-- The regions that are not recorded, in the order of the first nodes that name them. -/
def unrecordedRegions (g : Graph) : List String :=
  ((g.nodes.filterMap (·.region)).filter (· ∉ g.regions)).eraseDups

theorem columnsOf_eq (g : Graph) :
    columnsOf g =
      g.regions.map .region ++ (unrecordedRegions g).map .region ++ [.unassigned] := by
  have hLate : (g.nodes.filterMap (·.region)).removeAll g.regions =
      (g.nodes.filterMap (·.region)).filter (· ∉ g.regions) := by
    refine List.filter_congr fun name _ => ?_
    simp
  rw [columnsOf, List.eraseDups_append, eraseDups_eq_self g.regions_nodup, hLate,
    List.map_append, unrecordedRegions]

/-- Regions without repetition, and the column of nodes without region behind theirs. -/
theorem nodup_map_region_concat {regions : List String} (h : regions.Nodup) :
    (regions.map Column.region ++ [Column.unassigned]).Nodup := by
  rw [List.nodup_append]
  refine ⟨h.map fun _ _ h => Column.region.inj h, List.nodup_singleton _, ?_⟩
  intro column hColumn other hOther
  obtain ⟨name, -, rfl⟩ := List.mem_map.mp hColumn
  rw [List.mem_singleton.mp hOther]
  exact nofun

theorem nodup_columnsOf (g : Graph) : (columnsOf g).Nodup := by
  rw [columnsOf]
  exact nodup_map_region_concat (nodup_eraseDups _)

theorem column_mem_columnsOf {g : Graph} {n : Node} (hn : n ∈ g.nodes) :
    n.column ∈ columnsOf g := by
  rw [columnsOf, List.mem_append, Node.column]
  cases hRegion : n.region with
  | none => exact .inr (List.mem_singleton_self _)
  | some name =>
    refine .inl (List.mem_map_of_mem (List.mem_eraseDups.mpr (List.mem_append_right _ ?_)))
    exact List.mem_filterMap.mpr ⟨n, hn, hRegion⟩

/-! ### Cells -/

/-- The place of a node's column among the columns. -/
def columnIndex (g : Graph) (n : Node) : Nat := (columnsOf g).idxOf n.column

/-- How many nodes of its column come before a node in the graph. -/
def rowIndex (g : Graph) (n : Node) : Nat :=
  ((g.nodes.takeWhile (· ≠ n)).filter (·.column = n.column)).length

theorem nodup_nodes (g : Graph) : g.nodes.Nodup := List.Nodup.of_map _ g.ids_nodup

theorem columnIndex_eq {g : Graph} {n : Node} {index : Nat}
    (h : (columnsOf g)[index]? = some n.column) : columnIndex g n = index := by
  obtain ⟨hIndex, hColumn⟩ := List.getElem?_eq_some_iff.mp h
  rw [columnIndex, ← hColumn]
  exact (nodup_columnsOf g).idxOf_getElem index hIndex

/-- The nodes of a column are counted in the order of the graph. -/
theorem rowIndex_eq {g : Graph} {n : Node} {column : Column} {row : Nat}
    (h : (g.nodes.filter (·.column = column))[row]? = some n) :
    n.column = column ∧ rowIndex g n = row := by
  have hn : n.column = column := of_decide_eq_true (List.mem_filter.mp (List.mem_of_getElem? h)).2
  subst hn
  exact ⟨rfl, length_filter_takeWhile (nodup_nodes g) h⟩

/-- The cell of a node that stands in a layout. -/
def cell (g : Graph) (p : PlacedNode) : Nat × Nat := (columnIndex g p.node, rowIndex g p.node)

/-! ### The nodes of a layout -/

theorem map_node_placeColumn (spacing : Spacing) (nodes : List Node) (column : Column)
    (index : Nat) :
    (placeColumn spacing nodes column index).map PlacedNode.node =
      nodes.filter (·.column = column) := by
  rw [placeColumn, List.map_map]
  exact List.zipIdx_map_fst 0 _

/-- Nodes are listed column by column, and in a column as in the graph. -/
theorem map_node_ofGraph (spacing : Spacing) (g : Graph) :
    (ofGraph spacing g).nodes.map PlacedNode.node =
      (columnsOf g).flatMap fun column => g.nodes.filter (·.column = column) := by
  show ((columnsOf g).zipIdx.flatMap _).map PlacedNode.node = _
  rw [List.map_flatMap]
  simp only [map_node_placeColumn]
  conv_rhs => rw [← List.zipIdx_map_fst 0 (columnsOf g), List.flatMap_map]

theorem perm_ofGraph (spacing : Spacing) (g : Graph) :
    ((ofGraph spacing g).nodes.map PlacedNode.node).Perm g.nodes := by
  rw [map_node_ofGraph]
  have hAll : g.nodes.filter (·.column ∈ columnsOf g) = g.nodes :=
    List.filter_eq_self.mpr fun n hn => decide_eq_true (column_mem_columnsOf hn)
  have hPerm : ((columnsOf g).flatMap fun column => g.nodes.filter (·.column = column)).Perm
      (g.nodes.filter (·.column ∈ columnsOf g)) :=
    perm_flatMap_filter (nodup_columnsOf g) g.nodes
  rwa [hAll] at hPerm

section

variable {spacing : Spacing} {g : Graph} {column : Column} {index : Nat} {p : PlacedNode}

theorem mem_placeColumn (hColumn : (columnsOf g)[index]? = some column)
    (hp : p ∈ placeColumn spacing g.nodes column index) :
    p.node.column = column ∧ columnIndex g p.node = index ∧
      p.position = position spacing index (rowIndex g p.node) p.node.band := by
  obtain ⟨⟨n, row⟩, hRow, rfl⟩ := List.mem_map.mp hp
  obtain ⟨rfl, hIndex⟩ := rowIndex_eq (List.mk_mem_zipIdx_iff_getElem?.mp hRow)
  exact ⟨rfl, columnIndex_eq hColumn, by rw [hIndex]⟩

/-- A node stands where its cell is. -/
theorem mem_ofGraph (hp : p ∈ (ofGraph spacing g).nodes) :
    (columnsOf g)[columnIndex g p.node]? = some p.node.column ∧
      p.position =
        position spacing (columnIndex g p.node) (rowIndex g p.node) p.node.band := by
  obtain ⟨⟨column, index⟩, hColumn, hPlaced⟩ := List.mem_flatMap.mp hp
  have hAt := List.mk_mem_zipIdx_iff_getElem?.mp hColumn
  obtain ⟨rfl, rfl, hPosition⟩ := mem_placeColumn hAt hPlaced
  exact ⟨hAt, hPosition⟩

theorem pairwise_placeColumn (hColumn : (columnsOf g)[index]? = some column) :
    (placeColumn spacing g.nodes column index).Pairwise fun p q =>
      Prod.Lex (· < ·) (· < ·) (cell g p) (cell g q) := by
  refine List.pairwise_map.mpr ((pairwise_snd_zipIdx _).imp_of_mem ?_)
  rintro ⟨n, row⟩ ⟨n', row'⟩ hRow hRow' hLt
  obtain ⟨hn, hRow⟩ := rowIndex_eq (List.mk_mem_zipIdx_iff_getElem?.mp hRow)
  obtain ⟨hn', hRow'⟩ := rowIndex_eq (List.mk_mem_zipIdx_iff_getElem?.mp hRow')
  rw [cell, cell, hRow, hRow', columnIndex_eq (hn ▸ hColumn), columnIndex_eq (hn' ▸ hColumn)]
  exact .right _ hLt

end

/-- **Nodes are listed in the order of their cells**, so that no two share one. -/
theorem pairwise_cell (spacing : Spacing) (g : Graph) :
    (ofGraph spacing g).nodes.Pairwise fun p q =>
      Prod.Lex (· < ·) (· < ·) (cell g p) (cell g q) := by
  refine List.pairwise_flatMap.mpr ⟨?_, ?_⟩
  · rintro ⟨column, index⟩ hColumn
    exact pairwise_placeColumn (List.mk_mem_zipIdx_iff_getElem?.mp hColumn)
  · refine (pairwise_snd_zipIdx (columnsOf g)).imp_of_mem ?_
    rintro ⟨column, index⟩ ⟨column', index'⟩ hColumn hColumn' hLt p hp q hq
    have hp := (mem_placeColumn (List.mk_mem_zipIdx_iff_getElem?.mp hColumn) hp).2.1
    have hq := (mem_placeColumn (List.mk_mem_zipIdx_iff_getElem?.mp hColumn') hq).2.1
    refine .left _ _ ?_
    rw [hp, hq]
    exact hLt

end Layout

end Diorama
