import Mathlib.Data.List.Forall2
import Diorama.Proofs.List.Blocks
import Diorama.Proofs.Obj.Cubes

/-!
# Scenes written as OBJ text and read back

The faces of a written cube are fanned into the triangles of the unit cube, moved to the cube's own
vertices (`exists_perm_cubeTriangles`). So a written scene is read back cube by cube, with every
corner and every triangle in its place (`read_text`).
-/

namespace Diorama

namespace Triangle

/-- The triangle whose corners come `base` places later. -/
def shift (base : Nat) (t : Triangle) : Triangle :=
  ⟨.ofNat (t.a.toNat + base), .ofNat (t.b.toNat + base), .ofNat (t.c.toNat + base)⟩

/-- The same triangle with the same orientation, told from its next corner. -/
def rotate (t : Triangle) : Triangle := ⟨t.b, t.c, t.a⟩

/-- Two triangles agree up to the corner that is told first. -/
def IsRotation (t u : Triangle) : Prop := u = t ∨ u = t.rotate ∨ u = t.rotate.rotate

instance (t u : Triangle) : Decidable (IsRotation t u) := inferInstanceAs (Decidable (_ ∨ _))

theorem IsRotation.shift {t u : Triangle} (h : IsRotation t u) (base : Nat) :
    IsRotation (t.shift base) (u.shift base) := by
  rcases h with rfl | rfl | rfl
  · exact .inl rfl
  · exact .inr (.inl rfl)
  · exact .inr (.inr rfl)

end Triangle

namespace Obj

/-! ### The triangles of a cube -/

/-- What the faces of a cube are read as. -/
def cubeTriangles (base : Nat) : List Triangle := (cubePolygons base).flatMap triangulate

theorem length_cubeTriangles (base : Nat) : (cubeTriangles base).length = 12 := rfl

theorem triangulate_map (f : UInt32 → UInt32) (indices : List UInt32) :
    triangulate (indices.map f) = (triangulate indices).map fun t => ⟨f t.a, f t.b, f t.c⟩ := by
  cases indices with
  | nil => rfl
  | cons first rest =>
    rw [List.map_cons, triangulate, triangulate, List.map_zipWith, ← List.map_tail,
      List.zipWith_map]

/-- The faces of any two cubes differ by their first vertex alone. -/
theorem cubePolygons_eq_map (base : Nat) :
    cubePolygons base = (cubePolygons 0).map (List.map fun i => .ofNat (i.toNat + base)) := by
  rw [cubePolygons, cubePolygons, List.map_map]
  refine List.map_congr_left fun face hf => ?_
  rw [Function.comp_apply, List.map_map]
  refine List.map_congr_left fun n hn => ?_
  have hBounds := bounds_of_mem_cubeFaces face hf n hn
  have hSize : UInt32.size = 2 ^ 32 := rfl
  rw [Function.comp_apply, UInt32.toNat_ofNat_of_lt' (by omega)]
  congr 1
  omega

theorem cubeTriangles_eq_map (base : Nat) :
    cubeTriangles base = (cubeTriangles 0).map (Triangle.shift base) := by
  rw [cubeTriangles, cubeTriangles, cubePolygons_eq_map, List.flatMap_map, List.map_flatMap]
  simp only [triangulate_map]
  rfl

/-- **The faces of a written cube are the triangles of the unit cube**, up to order and to the
corner that is told first. -/
theorem exists_perm_cubeTriangles (base : Nat) :
    ∃ ts, (Mesh.unitCube.triangles.map (Triangle.shift base)).Perm ts ∧
      List.Forall₂ Triangle.IsRotation ts (cubeTriangles base) := by
  obtain ⟨ts, hPerm, hTurned⟩ : ∃ ts, Mesh.unitCube.triangles.Perm ts ∧
      List.Forall₂ Triangle.IsRotation ts (cubeTriangles 0) :=
    ⟨[⟨0, 1, 2⟩, ⟨0, 2, 3⟩, ⟨4, 7, 6⟩, ⟨4, 6, 5⟩, ⟨0, 4, 5⟩, ⟨0, 5, 1⟩, ⟨1, 5, 6⟩, ⟨1, 6, 2⟩,
      ⟨2, 6, 7⟩, ⟨2, 7, 3⟩, ⟨3, 4, 0⟩, ⟨3, 7, 4⟩], by decide, by decide⟩
  refine ⟨ts.map (Triangle.shift base), hPerm.map _, ?_⟩
  rw [cubeTriangles_eq_map, List.forall₂_map_left_iff, List.forall₂_map_right_iff]
  exact hTurned.imp fun _ _ h => h.shift base

/-- No triangle of a cube reaches the vertices of another one. -/
theorem bounds_of_mem_cubeTriangles {base : Nat} (hBase : base + 8 ≤ UInt32.size) {t : Triangle}
    (ht : t ∈ cubeTriangles base) {i : UInt32} (hi : i ∈ t.toList) :
    base ≤ i.toNat ∧ i.toNat < base + 8 := by
  have hUnit : ∀ u ∈ cubeTriangles 0, u.toList.all (·.toNat < 8) = true := by decide
  rw [cubeTriangles_eq_map] at ht
  obtain ⟨u, hu, rfl⟩ := List.mem_map.mp ht
  have hMoved : ∃ j ∈ u.toList, i = .ofNat (j.toNat + base) := by
    simpa [Triangle.toList, Triangle.shift] using hi
  obtain ⟨j, hj, rfl⟩ := hMoved
  have hLt : j.toNat < 8 := of_decide_eq_true (List.all_eq_true.mp (hUnit u hu) j hj)
  rw [UInt32.toNat_ofNat_of_lt' (by omega)]
  omega

/-! ### Scenes -/

theorem length_cornersAt (cubeSize : Double) (placed : PlacedNode) :
    (cornersAt cubeSize placed.position).length = 8 := rfl

theorem toList_text (cubeSize : Double) (layout : Layout) :
    (text cubeSize layout).toList = (lines cubeSize layout).flatMap (· ++ ['\n']) :=
  String.toList_ofList

/-- A written layout is read back as the corners of its cubes and the triangles of their faces. -/
theorem read_text_eq {cubeSize : Double} {layout : Layout}
    (hFits : ∀ placed ∈ layout.nodes, FitsSingle cubeSize placed)
    (hTexts : ∀ placed ∈ layout.nodes, HasNoLineFeed placed.node)
    (hCount : layout.nodes.length < 2 ^ 29) :
    read (text cubeSize layout) =
      .ok ⟨layout.nodes.flatMap fun placed => cornersAt cubeSize placed.position,
        layout.nodes.zipIdx.flatMap fun placed => cubeTriangles (8 * placed.2)⟩ := by
  have hLines := (carries_lines hFits hCount).append carries_empty
  rw [List.append_nil, List.append_nil, ← Text.splitOn_flatMap_concat
    (lineFeed_not_mem_lines hTexts), ← toList_text] at hLines
  have hLength := length_flatMap_of_length (length_cornersAt cubeSize) layout.nodes
  rw [read_eq_of_carries hLines, List.flatMap_assoc]
  · rfl
  · intro polygon hPolygon index hIndex
    obtain ⟨⟨placed, k⟩, hPlaced, hFace⟩ := List.mem_flatMap.mp hPolygon
    have hk := List.snd_lt_of_mem_zipIdx hPlaced
    have hSize : UInt32.size = 2 ^ 32 := rfl
    have hBase : 8 * k + 8 ≤ UInt32.size := by omega
    have hIndex : index.toNat < 8 * k + 8 := lt_of_mem_cubePolygons hBase polygon hFace index hIndex
    rw [hLength]
    omega

/-- **A scene that is written as OBJ text is read back.** The mesh has the eight corners and the
twelve triangles of every node's cube, one cube after the other, whatever the texts of the
nodes are. -/
theorem read_text {strict : Bool} {source : String} {g : Graph}
    (hRead : Graph.ofSource strict source = .ok g) (spacing : Spacing) (cubeSize : Double)
    (hFits : ∀ placed ∈ (Layout.ofGraph spacing g).nodes, FitsSingle cubeSize placed)
    (hCount : (Layout.ofGraph spacing g).nodes.length < 2 ^ 29) :
    ∃ text mesh, (Exporter.obj cubeSize).exportLayout (.ofGraph spacing g) = .ok text ∧
      read text = .ok mesh ∧
      mesh.vertices.length = 8 * (Layout.ofGraph spacing g).nodes.length ∧
      mesh.triangles.length = 12 * (Layout.ofGraph spacing g).nodes.length ∧
      ∀ (k : Nat) (placed : PlacedNode), (Layout.ofGraph spacing g).nodes[k]? = some placed →
        (∀ (j : Nat) (corner : Point), Mesh.unitCube.vertices[j]? = some corner →
          mesh.vertices[8 * k + j]? = some (placed.position.offset (corner.scale cubeSize))) ∧
        (∃ ts, (Mesh.unitCube.triangles.map (Triangle.shift (8 * k))).Perm ts ∧
          List.Forall₂ Triangle.IsRotation ts ((mesh.triangles.drop (12 * k)).take 12)) ∧
        ∀ t ∈ (mesh.triangles.drop (12 * k)).take 12, ∀ i ∈ t.toList,
          8 * k ≤ i.toNat ∧ i.toNat < 8 * k + 8 := by
  have hTexts : ∀ placed ∈ (Layout.ofGraph spacing g).nodes, HasNoLineFeed placed.node :=
    fun placed h => hasNoLineFeed_of_ofSource hRead (mem_nodes_of_mem_ofGraph h)
  refine ⟨_, _, rfl, read_text_eq hFits hTexts hCount,
    length_flatMap_of_length (length_cornersAt cubeSize) _, ?_, fun k placed hAt => ?_⟩
  · rw [length_flatMap_of_length fun placed => length_cubeTriangles _, List.length_zipIdx]
  · have hk := (List.getElem?_eq_some_iff.mp hAt).1
    have hSize : UInt32.size = 2 ^ 32 := rfl
    have hCube : (((Layout.ofGraph spacing g).nodes.zipIdx.flatMap fun placed =>
        cubeTriangles (8 * placed.2)).drop (12 * k)).take 12 = cubeTriangles (8 * k) := by
      have hZip : (Layout.ofGraph spacing g).nodes.zipIdx[k]? = some (placed, k) := by
        rw [List.getElem?_zipIdx, hAt, Nat.zero_add]
        rfl
      exact take_drop_flatMap_of_length (fun placed => length_cubeTriangles _) hZip
    have hCorners := take_drop_flatMap_of_length (length_cornersAt cubeSize) hAt
    refine ⟨fun j corner hCorner => ?_, ?_, ?_⟩
    · have hj : j < 8 := (List.getElem?_eq_some_iff.mp hCorner).1
      rw [← List.getElem?_drop, ← List.getElem?_take_of_lt hj, hCorners, cornersAt,
        List.getElem?_map]
      exact congrArg (Option.map _) hCorner
    · rw [hCube]
      exact exists_perm_cubeTriangles _
    · rw [hCube]
      exact fun t ht i hi => bounds_of_mem_cubeTriangles (by omega) ht hi

instance (cubeSize : Double) (placed : PlacedNode) : Decidable (FitsSingle cubeSize placed) :=
  inferInstanceAs (Decidable (∀ corner ∈ _, ∀ x ∈ _, _))

/-- A node whose label looks like a face, and one in a region whose title looks like a vertex. -/
def disguised : String := "A[f 1 2 3]\nsubgraph v 1 2 3\nB[Pod: v 0 0 0]\nend"

theorem read_text_disguised :
    ∃ g, Graph.ofSource false disguised = .ok g ∧
      (∀ placed ∈ (Layout.ofGraph .standard g).nodes, FitsSingle standardCubeSize placed) ∧
      (Layout.ofGraph .standard g).nodes.length < 2 ^ 29 ∧
      ∃ text mesh, (Exporter.obj standardCubeSize).exportLayout (.ofGraph .standard g) = .ok text ∧
        read text = .ok mesh ∧ mesh.vertices.length = 16 ∧ mesh.triangles.length = 24 := by
  have hScene : ((Graph.ofSource false disguised).toOption.any fun g =>
      (∀ placed ∈ (Layout.ofGraph .standard g).nodes, FitsSingle standardCubeSize placed) ∧
        (Layout.ofGraph .standard g).nodes.length = 2) = true := by
    decide +kernel
  cases hRead : Graph.ofSource false disguised with
  | error problems =>
    rw [hRead] at hScene
    cases hScene
  | ok g =>
    rw [hRead] at hScene
    obtain ⟨hFits, hLength⟩ := of_decide_eq_true hScene
    have hCount : (Layout.ofGraph .standard g).nodes.length < 2 ^ 29 := by omega
    obtain ⟨text, mesh, hExport, hMesh, hVertices, hTriangles, -⟩ :=
      read_text hRead .standard standardCubeSize hFits hCount
    refine ⟨g, rfl, hFits, hCount, text, mesh, hExport, hMesh, ?_, ?_⟩
    · rw [hVertices, hLength]
    · rw [hTriangles, hLength]

end Obj

end Diorama
