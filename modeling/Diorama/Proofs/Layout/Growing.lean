import Diorama.Proofs.Diagram.Growing

/-!
# Layouts of diagrams that grow

When a graph is extended, every node keeps its row (`Extends.rowIndex_eq`), the column of a region
keeps its place (`Extends.columnIndex_region`), and the column of nodes without region moves behind the
new regions (`Extends.columnIndex_unassigned`). So the layout of a source is found again in that of the
source with further lines, but for this one column (`layout_of_grown`).
-/

namespace Diorama

namespace Layout

/-! ### One column of a layout -/

theorem filter_flatMap_filter {α β : Type} [DecidableEq α] {key : β → α} {keys : List α}
    (hKeys : keys.Nodup) (items : List β) (k : α) :
    (keys.flatMap fun k' => items.filter (key · = k')).filter (key · = k) =
      if k ∈ keys then items.filter (key · = k) else [] := by
  induction keys with
  | nil => rfl
  | cons first keys ih =>
    obtain ⟨hFirst, hKeys⟩ := List.nodup_cons.mp hKeys
    rw [List.flatMap_cons, List.filter_append, ih hKeys, List.filter_filter]
    by_cases hk : k = first
    · subst hk
      simp [hFirst]
    · have hNone : (items.filter fun a => decide (key a = k) && decide (key a = first)) = [] := by
        rw [List.filter_eq_nil_iff]
        intro a _ ha
        rw [Bool.and_eq_true, decide_eq_true_eq, decide_eq_true_eq] at ha
        exact hk (ha.1.symm.trans ha.2)
      rw [hNone, List.nil_append]
      simp [hk]

/-- A column lists the nodes that belong to it as the graph does. -/
theorem filter_column_ofGraph (spacing : Spacing) (g : Graph) (column : Column) :
    ((ofGraph spacing g).nodes.map PlacedNode.node).filter (·.column = column) =
      g.nodes.filter (·.column = column) := by
  rw [map_node_ofGraph, filter_flatMap_filter (nodup_columnsOf g)]
  split_ifs with hColumn
  · rfl
  · symm
    rw [List.filter_eq_nil_iff]
    intro n hn hEq
    exact hColumn (of_decide_eq_true hEq ▸ column_mem_columnsOf hn)

theorem exists_mem_ofGraph (spacing : Spacing) {g : Graph} {n : Node} (hn : n ∈ g.nodes) :
    ∃ p ∈ (ofGraph spacing g).nodes, p.node = n :=
  List.mem_map.mp ((perm_ofGraph spacing g).mem_iff.mpr hn)

end Layout

namespace Graph.Extends

open Layout

variable {g g' : Graph}

/-! ### The cells of nodes that were there before -/

/-- What comes first in the graph stays above. -/
theorem rowIndex_eq (h : Extends g g') {n : Node} (hn : n ∈ g.nodes) :
    rowIndex g' n = rowIndex g n := by
  obtain ⟨more, hNodes⟩ := h.nodes
  have hShort : (g.nodes.takeWhile (· ≠ n)).length ≠ g.nodes.length := by
    intro hLength
    have hAll := (List.takeWhile_prefix (· ≠ n)).eq_of_length hLength
    have hSelf := List.mem_takeWhile_imp (p := (· ≠ n)) (hAll ▸ hn)
    simp at hSelf
  rw [rowIndex, rowIndex, ← hNodes, List.takeWhile_append, if_neg hShort]

theorem columnIndex_region (h : Extends g g') (hGraph : g.IsWellFormed) (hGraph' : g'.IsWellFormed)
    {n : Node} (hn : n ∈ g.nodes) (hRegion : n.region ≠ none) :
    columnIndex g' n = columnIndex g n := by
  obtain ⟨names, hRegions⟩ := h.regions
  obtain ⟨name, hName⟩ := Option.ne_none_iff_exists'.mp hRegion
  have hMem : .region name ∈ g.regions.map Column.region :=
    List.mem_map_of_mem (hGraph.recorded n hn name hName)
  have hColumn : n.column = .region name := (Node.column_eq_region_iff n name).mpr hName
  rw [columnIndex, columnIndex, hGraph.columnsOf_eq, hGraph'.columnsOf_eq, ← hRegions, hColumn,
    List.map_append, List.append_assoc, List.idxOf_append_of_mem hMem,
    List.idxOf_append_of_mem hMem]

theorem idxOf_unassigned (regions : List String) :
    (regions.map Column.region ++ [Column.unassigned]).idxOf Column.unassigned =
      regions.length := by
  rw [List.idxOf_append_of_notMem (by simp), List.length_map]
  simp

/-- The last column moves behind the new regions. -/
theorem columnIndex_unassigned (hGraph : g.IsWellFormed) (hGraph' : g'.IsWellFormed)
    {names : List String} (hRegions : g'.regions = g.regions ++ names) {n : Node}
    (hRegion : n.region = none) : columnIndex g' n = columnIndex g n + names.length := by
  have hColumn : n.column = .unassigned := by
    rw [Node.column, hRegion]
  rw [columnIndex, columnIndex, hGraph.columnsOf_eq, hGraph'.columnsOf_eq, hColumn,
    idxOf_unassigned, idxOf_unassigned, hRegions, List.length_append]

theorem position_eq (spacing : Spacing) (column row : Nat) (band : DepthBand) :
    position spacing column row band = ⟨Binary.positiveZero (.ofNat column * spacing.column),
      Binary.positiveZero (-(.ofNat row * spacing.row)),
      Binary.positiveZero (depth spacing band)⟩ := rfl

/-- A node that was placed stands in its row as before. It stands in its column as before if it has a
region, and otherwise as many columns further as there are new regions. -/
structure Keeps (spacing : Spacing) (g g' : Graph) (added : Nat) (p p' : PlacedNode) : Prop where
  node : p'.node = p.node
  row : rowIndex g' p'.node = rowIndex g p.node
  y : p'.position.y = p.position.y
  z : p'.position.z = p.position.z
  region : p.node.region ≠ none → p'.position = p.position
  unassigned : p.node.region = none →
    p.position.x = Binary.positiveZero (.ofNat (columnIndex g p.node) * spacing.column) ∧
    p'.position.x = Binary.positiveZero (.ofNat (columnIndex g p.node + added) * spacing.column) ∧
    columnIndex g' p'.node = columnIndex g p.node + added

theorem keeps (h : Extends g g') (hGraph : g.IsWellFormed) (hGraph' : g'.IsWellFormed)
    {names : List String} (hRegions : g'.regions = g.regions ++ names) {spacing : Spacing}
    {p p' : PlacedNode} (hp : p ∈ (ofGraph spacing g).nodes) (hp' : p' ∈ (ofGraph spacing g').nodes)
    (hNode : p'.node = p.node) : Keeps spacing g g' names.length p p' := by
  have hn : p.node ∈ g.nodes := (perm_ofGraph spacing g).mem_iff.mp (List.mem_map_of_mem hp)
  have hPosition := (mem_ofGraph hp).2
  have hPosition' := (mem_ofGraph hp').2
  have hRow := h.rowIndex_eq hn
  rw [hNode, hRow] at hPosition'
  refine ⟨hNode, by rw [hNode, hRow], ?_, ?_, fun hSome => ?_, fun hNone => ⟨?_, ?_, ?_⟩⟩
  · rw [hPosition, hPosition', position_eq, position_eq]
  · rw [hPosition, hPosition', position_eq, position_eq]
  · rw [hPosition, hPosition', h.columnIndex_region hGraph hGraph' hn hSome]
  · rw [hPosition, position_eq]
  · rw [hPosition', position_eq, columnIndex_unassigned hGraph hGraph' hRegions hNone]
  · rw [hNode, columnIndex_unassigned hGraph hGraph' hRegions hNone]

end Graph.Extends

/-! ### The layout of a source with further lines -/

namespace Graph

open Layout Statement

/-- **Growing a diagram is stable.** Lines that are added below a source and declare none of its nodes
again leave every node what it is and keep its place but for one thing: the column of nodes without
region moves behind the regions that are new, which are those that the added lines name and the source
does not. In every column the nodes of the source come first, in the order that they had. -/
theorem layout_of_grown {source grown : String} {added : List (List Char)} {g : Graph}
    (hRead : ofSource false source = .ok g) (hGrown : linesOf grown = linesOf source ++ added)
    (hAdded : ∀ line ∈ added, ∀ id label, ofLine line = .node id label →
      id ∉ g.nodes.map Node.id) :
    ∃ g' names, ofSource false grown = .ok g' ∧ g'.regions = g.regions ++ names ∧
      (∀ name, name ∈ names ↔ name ∉ g.regions ∧ ∃ i, (linesOf source).length ≤ i ∧
        titleAt ((linesOf grown).map ofLine) i = some name) ∧
      ∀ spacing,
        (∀ p ∈ (ofGraph spacing g).nodes, ∃ p' ∈ (ofGraph spacing g').nodes,
          Extends.Keeps spacing g g' names.length p p') ∧
        ∀ column, ((ofGraph spacing g).nodes.map PlacedNode.node).filter (·.column = column) <+:
          ((ofGraph spacing g').nodes.map PlacedNode.node).filter (·.column = column) := by
  have hDescribes := describes_of_ofSource hRead
  obtain rfl := eq_after_of_describes hDescribes
  have hExtends : Extends (after (linesOf source)) (after (linesOf source ++ added)) := by
    refine extends_after_append fun line hLine id hId => ?_
    cases hStatement : ofLine line with
    | node id' label =>
      rw [hStatement] at hId
      obtain rfl : id' = id := Option.some.inj hId
      exact hAdded line hLine id' label hStatement
    | _ =>
      rw [hStatement] at hId
      cases hId
  have hSource : ¬ IsBlank grown := by
    rw [isBlank_iff_linesOf, hGrown]
    intro hBlank
    have hOld : IsBlank source := (isBlank_iff_linesOf source).mpr fun line hLine =>
      hBlank line (List.mem_append_left _ hLine)
    rw [ofSource_of_isBlank hOld] at hRead
    cases hRead
  obtain ⟨g', hRead', hDescribes', -⟩ := ofSource_describes hSource
  obtain rfl := eq_after_of_describes hDescribes'
  rw [hGrown] at hRead' hDescribes' ⊢
  obtain ⟨names, hNames⟩ := hExtends.regions
  have hGraph := (ofSource_isWellFormed hRead).1
  have hGraph' := (ofSource_isWellFormed hRead').1
  refine ⟨_, names, hRead', hNames.symm, fun name => mem_newRegions_iff hNames.symm,
    fun spacing => ⟨fun p hp => ?_, fun column => ?_⟩⟩
  · have hn := (perm_ofGraph spacing _).mem_iff.mp (List.mem_map_of_mem hp)
    obtain ⟨p', hp', hNode⟩ := exists_mem_ofGraph spacing (hExtends.nodes.subset hn)
    exact ⟨p', hp', hExtends.keeps hGraph hGraph' hNames.symm hp hp' hNode⟩
  · rw [filter_column_ofGraph, filter_column_ofGraph]
    exact hExtends.nodes.filter _

/-- A node without region, one in a region, and one in a region that stays open. -/
def begun : String := "B[b]\nsubgraph a\nA[Service: x]\nend\nsubgraph b\nC[Pod: c]\n"

/-- Further lines: a node in the open region, one in an old region, and one in a region without
title. -/
def furtherLines : List (List Char) :=
  ["D[d]".toList, "end".toList, "subgraph a".toList, "E[e]".toList, "end".toList,
    "subgraph".toList, "F[f]".toList, "end".toList, "G[g]".toList]

def continued : String :=
  begun ++ "D[d]\nend\nsubgraph a\nE[e]\nend\nsubgraph\nF[f]\nend\nG[g]"

theorem layout_of_grown_continued :
    linesOf continued = linesOf begun ++ furtherLines ∧
      ∃ g g', ofSource false begun = .ok g ∧ ofSource false continued = .ok g' ∧
        g.nodes.map Node.id = ["B", "A", "C"] ∧ g'.regions = g.regions ++ ["sub2"] ∧
        (∀ spacing, ∀ p ∈ (ofGraph spacing g).nodes, ∃ p' ∈ (ofGraph spacing g').nodes,
          Extends.Keeps spacing g g' 1 p p') ∧
        ∀ n ∈ g.nodes, n.id = "B" → columnIndex g n = 2 := by
  have hGrown : linesOf continued = linesOf begun ++ furtherLines := by decide +kernel
  have hBegun : (ofSource false begun).toOption.map (fun g => (g.nodes.map Node.id, g.regions,
      g.nodes.map fun n => (n.id, columnIndex g n))) =
      some (["B", "A", "C"], ["a", "b"], [("B", 2), ("A", 0), ("C", 1)]) := by
    decide +kernel
  have hContinued : (ofSource false continued).toOption.map (·.regions) =
      some ["a", "b", "sub2"] := by
    decide +kernel
  obtain ⟨g, hRead, hParts⟩ := exists_eq_ok_of_map hBegun
  obtain ⟨hIds, hParts⟩ := Prod.mk.inj hParts
  obtain ⟨hOld, hColumns⟩ := Prod.mk.inj hParts
  have hNew : ∀ line ∈ furtherLines, ∀ id ∈ (ofLine line).nodeId?, id ∉ ["B", "A", "C"] := by
    decide +kernel
  have hAdded : ∀ line ∈ furtherLines, ∀ id label, ofLine line = .node id label →
      id ∉ g.nodes.map Node.id := by
    intro line hLine id label hStatement
    rw [hIds]
    exact hNew line hLine id (by rw [hStatement]; rfl)
  obtain ⟨g', names, hRead', hRegions, -, hLayout⟩ := layout_of_grown hRead hGrown hAdded
  rw [hRead'] at hContinued
  have hNames : names = ["sub2"] := by
    have hAll := hRegions.symm.trans (Option.some.inj hContinued)
    rw [hOld] at hAll
    exact List.append_cancel_left hAll
  subst hNames
  refine ⟨hGrown, g, g', hRead, hRead', hIds, hRegions, fun spacing => (hLayout spacing).1, ?_⟩
  intro n hn hId
  have hMem : (n.id, columnIndex g n) ∈ [("B", 2), ("A", 0), ("C", 1)] :=
    hColumns ▸ List.mem_map_of_mem (f := fun n => (n.id, columnIndex g n)) hn
  rw [hId] at hMem
  simpa using hMem

end Graph

end Diorama
