import Mathlib.Data.List.Induction
import Mathlib.Order.RelClasses
import Diorama.Proofs.Layout.Grid

/-!
# Filing the nodes of a layout

The columns of a layout can also be made node by node: at first there is a column for every recorded
region and one for nodes without region, then every node goes to its column, which is opened behind
all others if there is none, and in the end the column of nodes without region is put last. After some
nodes the columns hold these nodes (`foldl_add`), and in the end they are those of the layout
(`filed_eq`, `ofGraph_nodes_eq_filed`).
-/

namespace Diorama.Layout

/-- Columns, and the nodes that have been put into them. -/
abbrev Filing := List (Column × List Node)

namespace Filing

/-- The columns that are there before any node. -/
def firstColumns (g : Graph) : List Column := g.regions.map .region ++ [.unassigned]

/-- Puts a node into its column, which is opened at the end if there is none. -/
def add (filing : Filing) (n : Node) : Filing :=
  if n.column ∈ filing.map Prod.fst then
    filing.map fun (column, nodes) =>
      if column = n.column then (column, nodes ++ [n]) else (column, nodes)
  else filing ++ [(n.column, [n])]

/-- Puts the column of nodes without region behind the others. -/
def close (filing : Filing) : Filing :=
  filing.filter (·.1 ≠ .unassigned) ++ filing.filter (·.1 = .unassigned)

end Filing

def filed (g : Graph) : Filing :=
  (g.nodes.foldl Filing.add ((Filing.firstColumns g).map fun column => (column, []))).close

namespace Filing

/-- The columns with the nodes that belong to them. -/
def sorted (columns : List Column) (nodes : List Node) : Filing :=
  columns.map fun column => (column, nodes.filter (·.column = column))

theorem map_fst_sorted (columns : List Column) (nodes : List Node) :
    (sorted columns nodes).map Prod.fst = columns := by
  rw [sorted, List.map_map]
  exact List.map_id columns

theorem filter_concat (nodes : List Node) (n : Node) (column : Column) :
    (nodes ++ [n]).filter (·.column = column) =
      nodes.filter (·.column = column) ++ if column = n.column then [n] else [] := by
  rw [List.filter_append]
  by_cases h : column = n.column
  · simp [h]
  · simp [h, Ne.symm h]

theorem add_sorted {columns : List Column} {nodes : List Node}
    (hNodes : ∀ m ∈ nodes, m.column ∈ columns) (n : Node) :
    add (sorted columns nodes) n =
      sorted (if n.column ∈ columns then columns else columns ++ [n.column]) (nodes ++ [n]) := by
  rw [add, map_fst_sorted]
  split_ifs with hOld
  · rw [sorted, sorted, List.map_map]
    refine List.map_congr_left fun column _ => ?_
    show (if column = n.column then _ else _) = _
    rw [filter_concat]
    split_ifs with hColumn
    · rfl
    · rw [List.append_nil]
  · have hNone : nodes.filter (·.column = n.column) = [] := by
      rw [List.filter_eq_nil_iff]
      intro m hm hColumn
      exact hOld (of_decide_eq_true hColumn ▸ hNodes m hm)
    rw [sorted, sorted, List.map_append, List.map_singleton, filter_concat, hNone, if_pos rfl,
      List.nil_append]
    congr 1
    refine List.map_congr_left fun column hColumn => ?_
    have hNe : column ≠ n.column := by
      rintro rfl
      exact hOld hColumn
    rw [filter_concat, if_neg hNe, List.append_nil]

/-- **After some nodes every column holds those of them that belong to it**, and columns that were
not there at first stand in the order of their first nodes. -/
theorem foldl_add {columns : List Column} (hColumns : columns.Nodup) (nodes : List Node) :
    nodes.foldl add (columns.map fun column => (column, [])) =
      sorted (columns ++ nodes.map Node.column).eraseDups nodes := by
  induction nodes using List.reverseRecOn with
  | nil => rw [List.map_nil, List.append_nil, eraseDups_eq_self hColumns, List.foldl_nil, sorted]; rfl
  | append_singleton nodes n ih =>
    have hNodes : ∀ m ∈ nodes, m.column ∈ (columns ++ nodes.map Node.column).eraseDups :=
      fun m hm => List.mem_eraseDups.mpr (List.mem_append_right _ (List.mem_map_of_mem hm))
    rw [List.foldl_concat, ih, add_sorted hNodes, List.map_append, List.map_singleton,
      ← List.append_assoc, eraseDups_concat]
    simp only [List.mem_eraseDups]

theorem close_sorted (columns : List Column) (nodes : List Node) :
    (sorted columns nodes).close =
      sorted (columns.filter (· ≠ .unassigned) ++ columns.filter (· = .unassigned)) nodes := by
  rw [close, sorted, sorted, List.filter_map, List.filter_map, List.map_append]
  rfl

theorem filter_unassigned {columns : List Column} (hColumns : columns.Nodup)
    (h : .unassigned ∈ columns) : columns.filter (· = .unassigned) = [.unassigned] := by
  rw [List.filter_eq, hColumns.count, if_pos h]
  rfl

/-- The columns that nodes belong to, but for that of nodes without region. -/
theorem filter_map_column (nodes : List Node) :
    (nodes.map Node.column).filter (· ≠ .unassigned) =
      (nodes.filterMap (·.region)).map .region := by
  induction nodes with
  | nil => rfl
  | cons n nodes ih =>
    rw [List.map_cons, List.filterMap_cons, Node.column]
    cases n.region with
    | none => exact ih
    | some name => exact congrArg (_ :: ·) ih

end Filing

/-- **Filing the nodes one by one makes the columns of the layout.** -/
theorem filed_eq (g : Graph) : filed g = Filing.sorted (columnsOf g) g.nodes := by
  have hFirst : (Filing.firstColumns g).Nodup := nodup_map_region_concat g.regions_nodup
  have hRegions : (Filing.firstColumns g ++ g.nodes.map Node.column).filter (· ≠ .unassigned) =
      (g.regions ++ g.nodes.filterMap (·.region)).map .region := by
    rw [Filing.firstColumns, List.filter_append, Filing.filter_map_column, List.map_append]
    simp
  rw [filed, Filing.foldl_add hFirst, Filing.close_sorted, columnsOf]
  congr 2
  · rw [filter_eraseDups, hRegions, eraseDups_map fun _ _ h => Column.region.inj h]
  · refine Filing.filter_unassigned (nodup_eraseDups _) ?_
    simp [Filing.firstColumns]

/-- A layout is read off the filed nodes: the place of a column gives the first coordinate, the place
of a node in its column the second. -/
theorem ofGraph_nodes_eq_filed (spacing : Spacing) (g : Graph) :
    (ofGraph spacing g).nodes = (filed g).zipIdx.flatMap fun ((_, nodes), index) =>
      nodes.zipIdx.map fun (n, row) => ⟨n, position spacing index row n.band⟩ := by
  rw [filed_eq, Filing.sorted, List.zipIdx_map, List.flatMap_map]
  rfl

theorem ofGraph_columns_eq_filed (spacing : Spacing) (g : Graph) :
    (ofGraph spacing g).columns = (filed g).map Prod.fst := by
  rw [filed_eq, Filing.map_fst_sorted]
  rfl

/-- **A layout is a grid.** Its columns are the recorded regions, then those that only nodes name, then
that of the nodes without region, each once. All nodes of the graph are listed once, column by column
and in a column as in the graph; no two of them share a cell, and each stands where its cell is. Columns
that are opened for one node after the other make the same layout. -/
theorem ofGraph_grid (spacing : Spacing) (g : Graph) :
    (ofGraph spacing g).columns =
        g.regions.map .region ++ (unrecordedRegions g).map .region ++ [.unassigned] ∧
      (ofGraph spacing g).columns.Nodup ∧
      Column.region unassignedName ≠ .unassigned ∧
      ((ofGraph spacing g).nodes.map PlacedNode.node).Perm g.nodes ∧
      ((ofGraph spacing g).nodes.map (·.node.id)).Nodup ∧
      (ofGraph spacing g).nodes.map PlacedNode.node =
        ((ofGraph spacing g).columns.flatMap fun column => g.nodes.filter (·.column = column)) ∧
      (∀ p ∈ (ofGraph spacing g).nodes,
        (ofGraph spacing g).columns[columnIndex g p.node]? = some p.node.column ∧
        p.position = ⟨
          Binary.positiveZero (.ofNat (columnIndex g p.node) * spacing.column),
          Binary.positiveZero (-(.ofNat (rowIndex g p.node) * spacing.row)),
          Binary.positiveZero (depth spacing p.node.band)⟩) ∧
      (ofGraph spacing g).nodes.Pairwise (fun p q =>
        Prod.Lex (· < ·) (· < ·) (cell g p) (cell g q)) ∧
      ((ofGraph spacing g).nodes.map (cell g)).Nodup ∧
      (ofGraph spacing g).columns = (filed g).map Prod.fst ∧
      (ofGraph spacing g).nodes = ((filed g).zipIdx.flatMap fun ((_, nodes), index) =>
        nodes.zipIdx.map fun (n, row) => ⟨n, position spacing index row n.band⟩) ∧
      (ofGraph spacing g).edges = g.edges := by
  have hPerm := perm_ofGraph spacing g
  have hOrder := pairwise_cell spacing g
  refine ⟨columnsOf_eq g, nodup_columnsOf g, nofun, hPerm, ?_, map_node_ofGraph spacing g,
    fun p hp => mem_ofGraph hp, hOrder, ?_, ofGraph_columns_eq_filed spacing g,
    ofGraph_nodes_eq_filed spacing g, rfl⟩
  · have hIds := (hPerm.map Node.id).nodup_iff.mpr g.ids_nodup
    rwa [List.map_map] at hIds
  · refine List.pairwise_map.mpr (hOrder.imp fun {p q} hLess hEq => ?_)
    rw [hEq] at hLess
    exact irrefl (r := Prod.Lex (· < ·) (· < ·)) _ hLess

/-- A region that only a node names has a column of its own, whatever its name is. -/
example : (columnsOf
    { nodes := [⟨"A", "a", none, "a", none⟩, ⟨"B", "b", none, "b", some "_default_"⟩]
      edges := []
      regions := ["x"]
      ids_nodup := by decide
      regions_nodup := by decide }) =
    [.region "x", .region "_default_", .unassigned] := by decide

end Diorama.Layout
