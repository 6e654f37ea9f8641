import Diorama.Proofs.Diagram.WellFormed
import Diorama.Proofs.Export.Agreement

/-!
# Names of columns

The columns of a layout are all different, but a document tells only their names, and the column of the
nodes without region has a name that a region can have as well. It is always the last one, so that a
reader who knows this finds the column of every node (`namesColumn_iff`); the names alone tell it
exactly if no region has that title (`sourceText_columnNames`).
-/

namespace Diorama

open Json (Datum Value)

namespace Layout

/-- The names of the columns that a document tells. -/
def columnNames? (root : Datum) : Option (List String) :=
  (root.member? "columns").bind (·.list? Datum.string?)

/-- Place `i` of the names is the column of the nodes with this region: before the last place that of a
region with the name, and the last place that of the nodes without region. -/
def NamesColumn (names : List String) (region : Option String) (i : Nat) : Prop :=
  match region with
  | some name => i + 1 < names.length ∧ names[i]? = some name
  | none => i + 1 = names.length

theorem columnNames?_record (l : Layout) (generatedAt : Option Nat) :
    columnNames? (l.record generatedAt).datum = some (l.columns.map Column.text) := by
  have hNames := list?_columnNames l.columns
  rw [columnNames?, record, Value.member?_datum]
  cases generatedAt <;> simpa [List.lookup_cons] using hNames

theorem getElem?_concat_eq_some_iff {α : Type} {l : List α} {a b : α} {i : Nat} :
    (l ++ [a])[i]? = some b ↔ l[i]? = some b ∨ i = l.length ∧ a = b := by
  by_cases hi : i < l.length
  · simp [List.getElem?_append_left hi, Nat.ne_of_lt hi]
  · rw [List.getElem?_append_right (by omega), List.getElem?_singleton,
      List.getElem?_eq_none (by omega)]
    have hLast : i - l.length = 0 ↔ i = l.length := by omega
    by_cases hEq : i = l.length <;> simp [hLast, hEq]

section

variable {g : Graph} (hGraph : g.IsWellFormed)

include hGraph

theorem getElem?_columnsOf_eq_some_iff {column : Column} {i : Nat} :
    (columnsOf g)[i]? = some column ↔
      (∃ name, g.regions[i]? = some name ∧ .region name = column) ∨
        i = g.regions.length ∧ .unassigned = column := by
  rw [hGraph.columnsOf_eq, getElem?_concat_eq_some_iff, List.getElem?_map, Option.map_eq_some_iff,
    List.length_map]

theorem map_text_columnsOf : (columnsOf g).map Column.text = g.regions ++ [unassignedName] := by
  rw [hGraph.columnsOf_eq, List.map_append, List.map_map]
  exact congrArg (· ++ [unassignedName]) (List.map_id g.regions)

theorem columnNames?_ofGraph (spacing : Spacing) (generatedAt : Option Nat) :
    columnNames? ((ofGraph spacing g).record generatedAt).datum =
      some (g.regions ++ [unassignedName]) := by
  rw [columnNames?_record, ← map_text_columnsOf hGraph]
  rfl

/-- **Every node finds its column among the names**, since the last name is known. -/
theorem namesColumn_iff (n : Node) (i : Nat) :
    NamesColumn (g.regions ++ [unassignedName]) n.region i ↔
      (columnsOf g)[i]? = some n.column := by
  rw [getElem?_columnsOf_eq_some_iff hGraph, Node.column]
  cases n.region with
  | none => simp [NamesColumn]
  | some name =>
    constructor
    · rintro ⟨hi, hName⟩
      rw [List.getElem?_append_left (by simpa using hi)] at hName
      exact .inl ⟨name, hName, rfl⟩
    · rintro (⟨name', hName, hSame⟩ | ⟨-, hSame⟩)
      · obtain rfl := Column.region.inj hSame
        have hi := (List.getElem?_eq_some_iff.mp hName).1
        exact ⟨by simpa using hi, by rw [List.getElem?_append_left hi, hName]⟩
      · cases hSame

/-- A name that no region has is only that of the last column. -/
theorem getElem?_names_iff (hNew : unassignedName ∉ g.regions) {n : Node} (hn : n ∈ g.nodes)
    (i : Nat) :
    (g.regions ++ [unassignedName])[i]? = some (n.region.getD unassignedName) ↔
      (columnsOf g)[i]? = some n.column := by
  rw [getElem?_concat_eq_some_iff, getElem?_columnsOf_eq_some_iff hGraph, Node.column]
  cases hRegion : n.region with
  | none =>
    have hNone : g.regions[i]? ≠ some unassignedName := fun h => hNew (List.mem_of_getElem? h)
    simp [hNone]
  | some name =>
    have hNe : unassignedName ≠ name := by
      rintro rfl
      exact hNew (hGraph.recorded n hn _ hRegion)
    simp [hNe]

end

theorem nodup_names_iff (g : Graph) :
    (g.regions ++ [unassignedName]).Nodup ↔ unassignedName ∉ g.regions := by
  rw [← List.concat_eq_append, List.nodup_concat]
  exact and_iff_left g.regions_nodup

end Layout

namespace Rendering

open Statement

/-- **A layout document tells the columns by their names.** The last name is that of the nodes without
region, and those before it are different; a region that is given before the last name and the last
place for nodes without region tell the column of every node. All names are different, and the name
alone tells the column, exactly if no region has the title of the last name. -/
theorem sourceText_columnNames {settings : Settings} {source : String} {g : Graph}
    (hRead : settings.readGraph source = .ok g) (generatedAt : Option Nat) :
    ∃ text root names,
      sourceText ⟨settings, generatedAt, .layout⟩ source = .ok text ∧
      Json.read? text = some root ∧
      Layout.columnNames? root = some names ∧
      Layout.entries? root = some ((Layout.ofGraph settings.spacing g).nodes.map Layout.entry) ∧
      names.getLast? = some unassignedName ∧ names.dropLast.Nodup ∧
      (names.Nodup ↔ unassignedName ∉ titles (statements source)) ∧
      ∀ p ∈ (Layout.ofGraph settings.spacing g).nodes, ∀ i,
        (Layout.NamesColumn names (Layout.entry p).region i ↔ i = Layout.columnIndex g p.node) ∧
        (unassignedName ∉ titles (statements source) →
          (names[i]? = some ((Layout.entry p).region.getD unassignedName) ↔
            i = Layout.columnIndex g p.node)) := by
  have hDescribes := Graph.describes_of_ofSource (mapError_eq_ok_iff.mp hRead)
  have hGraph := Graph.isWellFormed_of_describes hDescribes
  have hTitled : unassignedName ∈ g.regions ↔ unassignedName ∈ titles (statements source) := by
    rw [hDescribes.regions, List.mem_eraseDups]
  refine ⟨_, _, _, sourceText_layout hRead generatedAt, Json.Value.read?_text _,
    Layout.columnNames?_ofGraph hGraph settings.spacing generatedAt,
    Layout.entries?_record _ generatedAt, List.getLast?_concat, ?_, ?_, fun p hp i => ?_⟩
  · rw [List.dropLast_concat]
    exact g.regions_nodup
  · rw [Layout.nodup_names_iff, hTitled]
  · obtain ⟨hAt, -⟩ := Layout.mem_ofGraph hp
    have hIndex : (Layout.columnsOf g)[i]? = some p.node.column ↔ i = Layout.columnIndex g p.node :=
      ⟨fun h => (Layout.columnIndex_eq h).symm, fun h => h ▸ hAt⟩
    refine ⟨(Layout.namesColumn_iff hGraph p.node i).trans hIndex, fun hNew => ?_⟩
    have hNode := Obj.mem_nodes_of_mem_ofGraph hp
    exact (Layout.getElem?_names_iff hGraph (mt hTitled.mp hNew) hNode i).trans hIndex

def apart : String := "B[b]\nsubgraph _default\nA[a]\nend"

theorem sourceText_columnNames_apart : ∃ g text root names,
    Settings.standard.readGraph apart = .ok g ∧
    g.nodes.map (fun n => (n.id, n.region)) = [("B", none), ("A", some "_default")] ∧
    sourceText ⟨.standard, none, .layout⟩ apart = .ok text ∧ Json.read? text = some root ∧
    Layout.columnNames? root = some names ∧ names.Nodup ∧
    ∀ p ∈ (Layout.ofGraph .standard g).nodes, ∀ i,
      names[i]? = some ((Layout.entry p).region.getD unassignedName) ↔
        i = Layout.columnIndex g p.node := by
  have hGraph : (Settings.standard.readGraph apart).toOption.map (fun g =>
      g.nodes.map fun n => (n.id, n.region)) = some [("B", none), ("A", some "_default")] := by
    decide +kernel
  have hUntitled : unassignedName ∉ titles (statements apart) := by decide +kernel
  obtain ⟨g, hRead, hNodes⟩ := exists_eq_ok_of_map hGraph
  obtain ⟨text, root, names, hText, hRoot, hNames, -, -, -, hNodup, hNode⟩ :=
    sourceText_columnNames hRead none
  exact ⟨g, text, root, names, hRead, hNodes, hText, hRoot, hNames, hNodup.mpr hUntitled,
    fun p hp i => (hNode p hp i).2 hUntitled⟩

/-- A region with the title of the last name, and a node without region. -/
def shared : String := "subgraph _default_\nA[a]\nend\nB[b]"

/-- Two columns of one name, which both fit both nodes. -/
theorem columnNames_shared : ∃ g text root,
    Settings.standard.readGraph shared = .ok g ∧
    sourceText ⟨.standard, none, .layout⟩ shared = .ok text ∧ Json.read? text = some root ∧
    Layout.columnNames? root = some ["_default_", "_default_"] ∧
    ¬ ["_default_", "_default_"].Nodup ∧
    ∀ n ∈ g.nodes, ∀ i < 2,
      ["_default_", "_default_"][i]? = some (n.region.getD unassignedName) := by
  have hGraph : (Settings.standard.readGraph shared).toOption.map (fun g =>
      (g.nodes.map (·.region), (Layout.ofGraph .standard g).columns)) =
      some ([some "_default_", none], [.region "_default_", .unassigned]) := by
    decide +kernel
  obtain ⟨g, hRead, hParts⟩ := exists_eq_ok_of_map hGraph
  obtain ⟨hNodes, hColumns⟩ := Prod.mk.inj hParts
  have hNames := Layout.columnNames?_record (Layout.ofGraph .standard g) none
  rw [hColumns] at hNames
  refine ⟨g, _, _, hRead, sourceText_layout hRead none, Json.Value.read?_text _, hNames, by decide,
    fun n hn i hi => ?_⟩
  have hRegion : n.region ∈ [some "_default_", none] := by
    rw [← hNodes]
    exact List.mem_map_of_mem hn
  have hName : n.region.getD unassignedName = "_default_" := by
    simp only [List.mem_cons, List.not_mem_nil, or_false] at hRegion
    rcases hRegion with hRegion | hRegion <;> rw [hRegion] <;> rfl
  rw [hName]
  match i, hi with
  | 0, _ => rfl
  | 1, _ => rfl

end Rendering

end Diorama
