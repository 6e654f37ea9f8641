import Diorama.Proofs.Gltf.Scenes
import Diorama.Proofs.Layout.Grid
import Diorama.Proofs.Layout.Restoring
import Diorama.Proofs.Obj.Blocks

/-!
# One scene in three formats

Whatever the settings are, the three texts that a source becomes tell the same nodes in the same order:
what the glTF document tells of a node is what the layout document tells of it, with the same digits,
and the block of the OBJ text stands at the same position (`sourceText_agree`).
-/

namespace Diorama.Rendering

theorem layoutText_gltf (settings : Settings) (generatedAt : Option Nat) (l : Layout) :
    layoutText ⟨settings, generatedAt, .gltf⟩ l =
      (Gltf.layoutText l).mapError .ofExportError := rfl

theorem nodes_ofGraph_ne_nil {g : Graph} (hSome : g.nodes ≠ []) (spacing : Spacing) :
    (Layout.ofGraph spacing g).nodes ≠ [] := by
  intro hNil
  have hPerm := Layout.perm_ofGraph spacing g
  rw [hNil] at hPerm
  exact hSome (List.nil_perm.mp hPerm)

section

variable {settings : Settings} {source : String} {g : Graph}
  (hRead : settings.readGraph source = .ok g) (generatedAt : Option Nat)

include hRead

theorem sourceText_of_readGraph (format : OutputFormat) :
    sourceText ⟨settings, generatedAt, format⟩ source =
      layoutText ⟨settings, generatedAt, format⟩ (.ofGraph settings.spacing g) := by
  rw [sourceText, hRead]
  rfl

theorem sourceText_obj : sourceText ⟨settings, generatedAt, .obj⟩ source =
    .ok (Obj.text settings.cubeSize (.ofGraph settings.spacing g)) :=
  sourceText_of_readGraph hRead generatedAt .obj

theorem sourceText_layout : sourceText ⟨settings, generatedAt, .layout⟩ source =
    .ok ((Layout.ofGraph settings.spacing g).record generatedAt).text :=
  sourceText_of_readGraph hRead generatedAt .layout

/-- A source with nodes becomes a document with the unit cube. -/
theorem sourceText_gltf (hSome : g.nodes ≠ []) : ∃ packing bytes positions indices,
    sourceText ⟨settings, generatedAt, .gltf⟩ source =
      .ok (Gltf.document packing
        ((Layout.ofGraph settings.spacing g).nodes.map fun p => ⟨some p⟩)).text ∧
    Gltf.Holds (Gltf.document packing
        ((Layout.ofGraph settings.spacing g).nodes.map fun p => ⟨some p⟩)).datum
      .unitCube bytes positions indices := by
  obtain ⟨packing, bytes, positions, indices, hText, hHolds⟩ :=
    Gltf.layoutText_eq_ok (nodes_ofGraph_ne_nil hSome settings.spacing)
  refine ⟨packing, bytes, positions, indices, ?_, hHolds⟩
  rw [sourceText_of_readGraph hRead, layoutText_gltf, hText, mapError_eq_ok_iff]

theorem hasNoLineFeed_of_readGraph :
    ∀ p ∈ (Layout.ofGraph settings.spacing g).nodes, HasNoLineFeed p.node := by
  intro p hp
  exact hasNoLineFeed_of_ofSource (mapError_eq_ok_iff.mp hRead) (Obj.mem_nodes_of_mem_ofGraph hp)

end

/-- **The three formats tell one scene.** The nodes of the glTF document are those of the layout
document, with the same identifiers, names, kinds, regions and digits; each draws the packed unit cube,
and the scene lists all of them. The blocks of the OBJ text tell the same nodes, and their cubes stand
where the digits say. Of a layout without nodes the OBJ text is empty, the layout document tells no
nodes, and there is no glTF document. -/
theorem sourceText_agree (settings : Settings) (generatedAt : Option Nat) :
    (∀ (source : String) (g : Graph), settings.readGraph source = .ok g → g.nodes ≠ [] →
      ∃ objText gltfText recordText cubes scene record entries,
        sourceText ⟨settings, generatedAt, .obj⟩ source = .ok objText ∧
        sourceText ⟨settings, generatedAt, .gltf⟩ source = .ok gltfText ∧
        sourceText ⟨settings, generatedAt, .layout⟩ source = .ok recordText ∧
        Obj.cubes? objText = some cubes ∧
        Json.read? gltfText = some scene ∧
        Json.read? recordText = some record ∧
        Layout.entries? record = some entries ∧
        entries = (Layout.ofGraph settings.spacing g).nodes.map Layout.entry ∧
        cubes = (Layout.ofGraph settings.spacing g).nodes.map (Obj.cube settings.cubeSize) ∧
        Gltf.drawnNodes? scene =
          some (entries.map fun e => ⟨e.id, 0, e.position, ⟨e.id, e.name, e.kind, e.region⟩⟩) ∧
        Gltf.sceneNodes? scene = some (List.range entries.length) ∧
        Gltf.primitives? scene 0 = some [(0, 1)] ∧
        (∃ bytes positions indices, Gltf.Holds scene .unitCube bytes positions indices) ∧
        ∀ p ∈ (Layout.ofGraph settings.spacing g).nodes,
          (∀ x ∈ p.position.toList, x.isFinite = true) →
            Point.ofData? (Layout.entry p).position = some p.position) ∧
    ∀ l : Layout, l.nodes = [] →
      layoutText ⟨settings, generatedAt, .obj⟩ l = .ok "" ∧
      layoutText ⟨settings, generatedAt, .gltf⟩ l = .error (.emptyGeometry 0 0) ∧
      ∃ text record, layoutText ⟨settings, generatedAt, .layout⟩ l = .ok text ∧
        Json.read? text = some record ∧ Layout.entries? record = some [] := by
  constructor
  · intro source g hRead hSome
    obtain ⟨packing, bytes, positions, indices, hGltf, hHolds⟩ :=
      sourceText_gltf hRead generatedAt hSome
    refine ⟨_, (Gltf.document packing _).text, _, _, (Gltf.document packing _).datum, _, _,
      sourceText_obj hRead generatedAt, hGltf, sourceText_layout hRead generatedAt,
      Obj.cubes?_text (hasNoLineFeed_of_readGraph hRead), Json.Value.read?_text _,
      Json.Value.read?_text _, Layout.entries?_record _ generatedAt, rfl, rfl, ?_, ?_, ?_,
      ⟨bytes, positions, indices, hHolds⟩, ?_⟩
    · rw [Gltf.drawnNodes?_document, List.map_map]
      rfl
    · rw [Gltf.sceneNodes?_document, List.length_map, List.length_map]
    · exact Gltf.primitives?_document packing _
    · exact fun p _ hFinite => Point.ofData?_datum hFinite
  · intro l hNone
    have hRecord := Layout.entries?_record l generatedAt
    rw [hNone] at hRecord
    refine ⟨?_, ?_, _, _, rfl, Json.Value.read?_text _, hRecord⟩
    · show Except.ok (Obj.text settings.cubeSize l) = _
      rw [Obj.text, Obj.lines, hNone]
      rfl
    · rw [layoutText_gltf, Gltf.layoutText_of_nil hNone]
      rfl

/-- A node with a kind, outside of the region that the other one stands in. -/
def pair : String := "A[Pod: web]\nsubgraph x\nB[b]\nend"

theorem sourceText_agree_pair :
    (∃ objText gltfText recordText cubes scene,
      sourceText ⟨.standard, some 7, .obj⟩ pair = .ok objText ∧
      sourceText ⟨.standard, some 7, .gltf⟩ pair = .ok gltfText ∧
      sourceText ⟨.standard, some 7, .layout⟩ pair = .ok recordText ∧
      Obj.cubes? objText = some cubes ∧
      cubes.map (fun c => (c.id, c.kind, c.name, c.region)) =
        [("B", none, some "b", some "x"), ("A", some "Pod", some "web", none)] ∧
      Json.read? gltfText = some scene ∧ Gltf.sceneNodes? scene = some [0, 1]) ∧
    layoutText ⟨.standard, some 7, .gltf⟩ ⟨[], [.unassigned], []⟩ = .error (.emptyGeometry 0 0) := by
  obtain ⟨hScene, hNone⟩ := sourceText_agree .standard (some 7)
  refine ⟨?_, (hNone ⟨[], [.unassigned], []⟩ rfl).2.1⟩
  have hGraph : (Settings.standard.readGraph pair).toOption.map (fun g =>
      (Layout.ofGraph .standard g).nodes.map fun p =>
        (p.node.id, p.node.kind.map NodeKind.keyword, Obj.shownName p.node, p.node.region)) =
      some [("B", none, some "b", some "x"), ("A", some "Pod", some "web", none)] := by
    decide +kernel
  obtain ⟨g, hRead, hNodes⟩ := exists_eq_ok_of_map hGraph
  have hLength := congrArg List.length hNodes
  rw [List.length_map] at hLength
  have hSome : g.nodes.length = 2 := by
    rw [← (Layout.perm_ofGraph .standard g).length_eq, List.length_map, hLength]
    rfl
  obtain ⟨objText, gltfText, recordText, cubes, scene, record, entries, hObj, hGltf, hRecord,
    hCubes, hScene, -, -, rfl, rfl, -, hList, -⟩ :=
    hScene pair g hRead (List.ne_nil_of_length_eq_add_one hSome)
  refine ⟨objText, gltfText, recordText, _, scene, hObj, hGltf, hRecord, hCubes, ?_, hScene, ?_⟩
  · rw [List.map_map]
    exact hNodes
  · rw [hList, List.length_map]
    exact congrArg (fun n => some (List.range n)) hLength

end Diorama.Rendering
