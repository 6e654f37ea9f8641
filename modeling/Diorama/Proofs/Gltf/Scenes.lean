import Diorama.Proofs.Gltf.Reencoding

/-!
# Scenes of glTF documents

A reader of the scene in a glTF document: which nodes the scene lists, what each of them tells, and by
which accessors a mesh is drawn. In the document of a layout every node draws the only mesh
(`drawnNodes?_document`), the scene lists all of them (`sceneNodes?_document`), and the mesh is the unit
cube (`layoutText_eq_ok`).
-/

namespace Diorama.Gltf

open Json (Datum Value)

/-! ### The reader -/

/-- What a node of a scene tells about the node of the diagram. -/
structure Extras where
  id : String
  name : String
  kind : Option String
  region : Option String
deriving DecidableEq, Repr

def Extras.ofDatum? (d : Datum) : Option Extras :=
  match d.values? ["id", "name", "type", "subgraph"] with
  | some [id, name, kind, region] => do
    let id ← id.string?
    let name ← name.string?
    let kind ← kind.optional? Datum.string?
    let region ← region.optional? Datum.string?
    return ⟨id, name, kind, region⟩
  | _ => none

/-- A node of a scene, its coordinates as they are written. -/
structure DrawnNode where
  name : String
  mesh : Nat
  translation : List Datum
  extras : Extras

def DrawnNode.ofDatum? (d : Datum) : Option DrawnNode :=
  match d.values? ["name", "mesh", "translation", "extras"] with
  | some [name, mesh, translation, extras] => do
    let name ← name.string?
    let mesh ← mesh.natural?
    let translation ← translation.items?
    let extras ← Extras.ofDatum? extras
    return ⟨name, mesh, translation, extras⟩
  | _ => none

def drawnNodes? (root : Datum) : Option (List DrawnNode) :=
  (root.member? "nodes").bind (·.list? DrawnNode.ofDatum?)

/-- The indices of the nodes that the only scene lists. -/
def sceneNodes? (root : Datum) : Option (List Nat) :=
  match (root.member? "scenes").bind Datum.items? with
  | some [scene] => (scene.member? "nodes").bind (·.list? Datum.natural?)
  | _ => none

/-- The accessors of the positions and of the indices of one part of a mesh. -/
def primitive? (d : Datum) : Option (Nat × Nat) := do
  let positions ← (d.member? "attributes").bind (natural? "POSITION")
  let indices ← natural? "indices" d
  return (positions, indices)

/-- The parts of a mesh. -/
def primitives? (root : Datum) (mesh : Nat) : Option (List (Nat × Nat)) := do
  let mesh ← part? "meshes" mesh root
  (mesh.member? "primitives").bind (·.list? primitive?)

/-! ### Documents -/

/-- What a document tells of a node that stands in a layout. -/
def drawnNode (p : PlacedNode) : DrawnNode where
  name := p.node.id
  mesh := 0
  translation := p.position.toList.map fun x => (Value.double x).datum
  extras := ⟨p.node.id, p.node.name, p.node.kind.map NodeKind.keyword, p.node.region⟩

theorem Extras.ofDatum?_extras (n : Node) : Extras.ofDatum? (extras n).datum =
    some ⟨n.id, n.name, n.kind.map NodeKind.keyword, n.region⟩ := by
  have hKind := Value.optional?_text_datum NodeKind.keyword n.kind
  rw [Extras.ofDatum?, Gltf.extras]
  simp [Value.values?_datum, Value.string?_datum, Value.optional?_string_datum, hKind]

theorem DrawnNode.ofDatum?_json (p : PlacedNode) :
    DrawnNode.ofDatum? (SceneNode.mk (some p)).json.datum = some (drawnNode p) := by
  rw [DrawnNode.ofDatum?, SceneNode.json]
  simp [Value.values?_datum, Value.string?_datum, Value.natural?_datum, Value.items?_datum,
    Extras.ofDatum?_extras, drawnNode]

section

variable (packing : Packing)

theorem drawnNodes?_document (nodes : List PlacedNode) :
    drawnNodes? (document packing (nodes.map fun p => ⟨some p⟩)).datum =
      some (nodes.map drawnNode) := by
  have hNodes : (Value.array ((nodes.map fun p => ⟨some p⟩).map SceneNode.json)).datum.list?
      DrawnNode.ofDatum? = some (nodes.map drawnNode) := by
    rw [List.map_map]
    exact Value.list?_datum fun p _ => DrawnNode.ofDatum?_json p
  simpa [drawnNodes?, document, Value.member?_datum, List.lookup_cons] using hNodes

theorem sceneNodes?_document (nodes : List SceneNode) :
    sceneNodes? (document packing nodes).datum = some (List.range nodes.length) := by
  have hIndices : (Value.array ((List.range nodes.length).map .natural)).datum.list?
      Datum.natural? = some (List.range nodes.length) :=
    Value.list?_datum_self fun n _ => Value.natural?_datum n
  simpa [sceneNodes?, document, Value.member?_datum, Value.items?_datum, List.lookup_cons]
    using hIndices

theorem primitives?_document (nodes : List SceneNode) :
    primitives? (document packing nodes).datum 0 = some [(0, 1)] := by
  simp [primitives?, primitive?, part?, natural?, document, Value.member?_datum,
    Value.item?_datum, Value.items?_datum, Value.natural?_datum, Datum.list?, List.lookup_cons]

end

/-! ### Layouts -/

theorem isPackable_unitCube : ∀ p ∈ Mesh.unitCube.vertices, p.IsPackable := by
  have hFinite : ∀ p ∈ Mesh.unitCube.vertices, ∀ x ∈ p.pack.toList, x.isFinite = true := by
    decide +kernel
  intro p hp axis
  cases axis <;> exact hFinite p hp _ (by simp [Vec3.toList, Vec3.along])

theorem lt_of_mem_indices_unitCube : ∀ index ∈ Mesh.unitCube.indices,
    index.toNat < Mesh.unitCube.vertices.length := by
  -- As a test of the list: there are too many numbers to decide the statement number by number.
  have hAll : Mesh.unitCube.indices.all (·.toNat < Mesh.unitCube.vertices.length) = true := by
    decide
  intro index hIndex
  exact of_decide_eq_true (List.all_eq_true.mp hAll index hIndex)

/-- **A layout with nodes is written as a document that holds the unit cube.** -/
theorem layoutText_eq_ok {l : Layout} (hSome : l.nodes ≠ []) :
    ∃ packing bytes positions indices,
      layoutText l = .ok (document packing (l.nodes.map fun p => ⟨some p⟩)).text ∧
      Holds (document packing (l.nodes.map fun p => ⟨some p⟩)).datum .unitCube bytes positions
        indices := by
  have hVertices : Mesh.unitCube.vertices ≠ [] := List.cons_ne_nil _ _
  obtain ⟨bytes, positions, indices, hHolds⟩ :=
    holds_document hVertices isPackable_unitCube lt_of_mem_indices_unitCube
      (l.nodes.map fun p => ⟨some p⟩)
  refine ⟨_, bytes, positions, indices, ?_, hHolds⟩
  have hEmpty : l.isEmpty = false := by
    rw [Layout.isEmpty, List.isEmpty_eq_false_iff]
    exact hSome
  rw [layoutText, hEmpty, Packing.ofMesh_eq_ok rfl lt_of_mem_indices_unitCube]
  rfl

theorem layoutText_of_nil {l : Layout} (hNone : l.nodes = []) :
    layoutText l = .error (.emptyGeometry 0 0) := by
  rw [layoutText, Layout.isEmpty, hNone]
  rfl

end Diorama.Gltf
