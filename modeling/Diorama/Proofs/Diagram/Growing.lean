import Diorama.Proofs.Diagram.WellFormed

/-!
# Diagrams that grow

Further lines below a source add to its graph: as long as they declare no node of the source again,
its nodes and its regions stay what they are and where they are, in front of the new ones
(`Extends.step`, `extends_after_append`). The regions that come to them are those that the further
lines name and the source does not (`mem_newRegions_iff`).
-/

namespace Diorama

open Statement

/-- The lines of a text. A line feed ends a line, it does not begin another one. -/
def linesOf (source : String) : List (List Char) :=
  if (source.toList.splitOn '\n').getLast? = some [] then (source.toList.splitOn '\n').dropLast
  else source.toList.splitOn '\n'

theorem splitOn_eq_linesOf (source : String) :
    source.toList.splitOn '\n' = linesOf source ∨
      source.toList.splitOn '\n' = linesOf source ++ [[]] := by
  rw [linesOf]
  split_ifs with hLast
  · obtain ⟨init, hInit⟩ := List.getLast?_eq_some_iff.mp hLast
    rw [hInit, List.dropLast_concat]
    exact .inr rfl
  · exact .inl rfl

/-- A text is blank if all its lines are. -/
theorem isBlank_iff_linesOf (source : String) :
    IsBlank source ↔ ∀ line ∈ linesOf source, ∀ c ∈ line, Text.isBlank c = true := by
  have hPieces : IsBlank source ↔
      ∀ line ∈ source.toList.splitOn '\n', ∀ c ∈ line, Text.isBlank c = true := by
    have hJoin : ['\n'].intercalate (source.toList.splitOn '\n') = source.toList :=
      List.intercalate_splitOn '\n'
    rw [IsBlank, List.all_eq_true]
    constructor
    · intro h line hLine c hc
      exact h c (hJoin ▸ (Text.infix_intercalate hLine).subset hc)
    · intro h c hc
      rw [← hJoin] at hc
      rcases Text.mem_intercalate hc with rfl | ⟨line, hLine, hc⟩
      · decide
      · exact h line hLine c hc
  rw [hPieces]
  rcases splitOn_eq_linesOf source with h | h
  · rw [h]
  · rw [h, List.forall_mem_append]
    simp

theorem statements_eq_linesOf (source : String) :
    statements source = (linesOf source).map ofLine ∨
      statements source = (linesOf source).map ofLine ++ [.blank] := by
  rw [statements]
  rcases splitOn_eq_linesOf source with h | h
  · rw [h]
    exact .inl rfl
  · rw [h, List.map_append]
    exact .inr rfl

namespace Graph

/-! ### The graph after some lines -/

def after (lines : List (List Char)) : Graph :=
  (Reading.ofLines false (placeLines 0 lines)).graph

theorem describes_after (lines : List (List Char)) :
    Describes (lines.map ofLine) (after lines) := by
  rw [← map_statement_placeLines 0]
  exact (Reading.follows_ofLines false _).graph

/-- An empty last line says nothing. -/
theorem eq_after_of_describes {source : String} {g : Graph} (h : Describes (statements source) g) :
    g = after (linesOf source) := by
  have hLines := describes_after (linesOf source)
  rcases statements_eq_linesOf source with hStatements | hStatements
  · rw [hStatements] at h
    exact h.unique hLines
  · rw [hStatements] at h
    exact h.unique (hLines.concat rfl rfl rfl)

theorem placeLines_append (offset : Nat) (lines added : List (List Char)) :
    ∃ offset', placeLines offset (lines ++ added) =
      placeLines offset lines ++ placeLines offset' added := by
  induction lines generalizing offset with
  | nil => exact ⟨offset, rfl⟩
  | cons line lines ih =>
    obtain ⟨offset', hRest⟩ := ih (offset + Text.byteLength line + 1)
    exact ⟨offset', by rw [List.cons_append, placeLines, hRest, placeLines, List.cons_append]⟩

/-! ### Graphs that extend others -/

/-- What is in the first graph is in front in the second one. -/
structure Extends (g g' : Graph) : Prop where
  nodes : g.nodes <+: g'.nodes
  edges : g.edges <+: g'.edges
  regions : g.regions <+: g'.regions

theorem Extends.refl (g : Graph) : Extends g g :=
  ⟨List.prefix_rfl, List.prefix_rfl, List.prefix_rfl⟩

/-- A node with another id leaves the nodes in front alone. -/
theorem prefix_insertNode {nodes nodes' : List Node} (h : nodes <+: nodes') {n : Node}
    (hNew : n.id ∉ nodes.map Node.id) : nodes <+: insertNode nodes' n := by
  unfold insertNode
  split_ifs with hOld
  · have hKeep : nodes.map (fun m => if m.id = n.id then n else m) = nodes := by
      conv_rhs => rw [← List.map_id nodes]
      refine List.map_congr_left fun m hm => if_neg fun hId => ?_
      exact hNew (hId ▸ List.mem_map_of_mem hm)
    rw [← hKeep]
    exact h.map _
  · exact h.trans (List.prefix_append _ _)

namespace Extends

variable {g : Graph} {r : Reading}

theorem insert {g' : Graph} (h : Extends g g') {n : Node} (hNew : n.id ∉ g.nodes.map Node.id) :
    Extends g (g'.insert n) :=
  ⟨prefix_insertNode h.nodes hNew, h.edges, h.regions⟩

theorem addEdge {g' : Graph} (h : Extends g g') (e : Edge) : Extends g (g'.addEdge e) :=
  ⟨h.nodes, h.edges.trans (List.prefix_append _ _), h.regions⟩

theorem recordRegion {g' : Graph} (h : Extends g g') (name : String) :
    Extends g (g'.recordRegion name) := by
  refine ⟨?_, ?_, ?_⟩
  · rw [nodes_recordRegion]
    exact h.nodes
  · rw [edges_recordRegion]
    exact h.edges
  · rw [regions_recordRegion]
    split_ifs
    · exact h.regions
    · exact h.regions.trans (List.prefix_append _ _)

/-- A line that declares no node of a graph again leaves the graph in front. -/
theorem step (h : Extends g r.graph) {line : SourceLine}
    (hNew : ∀ id ∈ line.statement.nodeId?, id ∉ g.nodes.map Node.id) :
    Extends g (r.step line).graph := by
  show Extends g (r.apply line line.statement).graph
  cases hStatement : line.statement with
  | openRegion identifier title => exact h.recordRegion _
  | closeRegion =>
    rw [Reading.graph_apply_closeRegion]
    exact h
  | node id label =>
    rw [hStatement] at hNew
    exact h.insert (hNew id rfl)
  | edge source target label => exact h.addEdge _
  | unrecognized =>
    rw [Reading.apply, Reading.graph_report]
    exact h
  | blank | comment | header => exact h

theorem foldl_step (h : Extends g r.graph) {lines : List SourceLine}
    (hNew : ∀ line ∈ lines, ∀ id ∈ line.statement.nodeId?, id ∉ g.nodes.map Node.id) :
    Extends g (lines.foldl Reading.step r).graph := by
  induction lines generalizing r with
  | nil => exact h
  | cons line lines ih =>
    rw [List.foldl_cons]
    refine ih (h.step (hNew line List.mem_cons_self)) ?_
    exact fun l hl => hNew l (List.mem_cons_of_mem _ hl)

end Extends

/-- **Further lines add to a graph** if they declare none of its nodes again. -/
theorem extends_after_append {lines added : List (List Char)}
    (hNew : ∀ line ∈ added, ∀ id ∈ (ofLine line).nodeId?, id ∉ (after lines).nodes.map Node.id) :
    Extends (after lines) (after (lines ++ added)) := by
  obtain ⟨offset, hPlaced⟩ := placeLines_append 0 lines added
  have hLines : ∀ line ∈ placeLines offset added, ∀ id ∈ line.statement.nodeId?,
      id ∉ (after lines).nodes.map Node.id := by
    intro line hLine
    have hStatement := List.mem_map_of_mem (f := SourceLine.statement) hLine
    rw [map_statement_placeLines] at hStatement
    obtain ⟨chars, hChars, hEq⟩ := List.mem_map.mp hStatement
    rw [← hEq]
    exact hNew chars hChars
  have hRun : after (lines ++ added) = ((placeLines offset added).foldl Reading.step
      (Reading.ofLines false (placeLines 0 lines))).graph := by
    rw [after, hPlaced, Reading.ofLines, List.foldl_append]
    rfl
  rw [hRun]
  exact (Extends.refl (after lines)).foldl_step hLines

/-- The regions that are new are those that further lines name and the lines before do not. -/
theorem mem_newRegions_iff {lines added : List (List Char)} {names : List String}
    (hNames : (after (lines ++ added)).regions = (after lines).regions ++ names) {name : String} :
    name ∈ names ↔ name ∉ (after lines).regions ∧ ∃ i, lines.length ≤ i ∧
      titleAt ((lines ++ added).map ofLine) i = some name := by
  have hAll : ∀ lines, name ∈ (after lines).regions ↔
      ∃ i, titleAt (lines.map ofLine) i = some name := by
    intro lines
    rw [(describes_after lines).regions, List.mem_eraseDups]
    exact ⟨exists_titleAt_of_mem_titles, fun ⟨_, hTitle⟩ => mem_titles_of_titleAt hTitle⟩
  have hNodup := (after (lines ++ added)).regions_nodup
  rw [hNames, List.nodup_append] at hNodup
  constructor
  · intro hName
    have hOld : name ∉ (after lines).regions := fun hOld => hNodup.2.2 name hOld name hName rfl
    have hMem : name ∈ (after (lines ++ added)).regions := by
      rw [hNames]
      exact List.mem_append_right _ hName
    obtain ⟨i, hTitle⟩ := (hAll _).mp hMem
    refine ⟨hOld, i, ?_, hTitle⟩
    by_contra hLt
    rw [List.map_append, titleAt_append (by simpa using hLt)] at hTitle
    exact hOld ((hAll lines).mpr ⟨i, hTitle⟩)
  · rintro ⟨hOld, i, -, hTitle⟩
    have hMem := (hAll _).mpr ⟨i, hTitle⟩
    rw [hNames, List.mem_append] at hMem
    exact hMem.resolve_left hOld

end Graph

end Diorama
