import Diorama.Export.Formats
import Diorama.Proofs.Diagram.Characters
import Diorama.Proofs.Obj.Accepted
import Diorama.Proofs.Obj.Lines

/-!
# Cubes written and read back

A block of lines carries the corners of one cube and its faces (`carries_blockLines`), whatever is
known of its node, because no comment of the node can leave its line. The lines of a layout carry its
cubes one after the other (`carries_lines`), and what lines carry is what their text is read
as (`read_eq_of_carries`).
-/

namespace Diorama.Obj

/-! ### Comments -/

theorem mem_commentLines {n : Node} {line : List Char} (h : line ∈ commentLines n) :
    ∃ rest, line = '#' :: ' ' :: rest ∧ (HasNoLineFeed n → '\n' ∉ rest) := by
  simp only [commentLines, List.mem_append] at h
  rcases h with ((h | h) | h) | h
  · refine ⟨n.id.toList, ?_, fun hTexts => hTexts.id⟩
    rw [List.mem_singleton.mp h, String.toList_append]
    rfl
  · obtain ⟨kind, -, rfl⟩ := List.mem_map.mp h
    refine ⟨"type:".toList ++ kind.keyword.toList, ?_, fun _ => ?_⟩
    · rw [String.toList_append]
      rfl
    · cases kind <;> decide
  · split_ifs at h
    · cases h
    · refine ⟨"name:".toList ++ n.name.toList, ?_, fun hTexts => ?_⟩
      · rw [List.mem_singleton.mp h, String.toList_append]
        rfl
      · rw [List.mem_append, not_or]
        exact ⟨by decide, hTexts.name⟩
  · obtain ⟨region, hRegion, rfl⟩ := List.mem_map.mp h
    refine ⟨"subgraph:".toList ++ region.toList, ?_, fun hTexts => ?_⟩
    · rw [String.toList_append]
      rfl
    · rw [List.mem_append, not_or]
      exact ⟨by decide, hTexts.region region (Option.mem_toList.mp hRegion)⟩

theorem carries_commentLines (n : Node) : Carries (commentLines n) [] [] := by
  have hLines : ∀ line ∈ commentLines n, Carries [line] [] [] := by
    intro line h
    obtain ⟨rest, rfl, -⟩ := mem_commentLines h
    exact carries_comment rest
  simpa [flatMap_const_nil] using carries_flatMap hLines

/-! ### Blocks -/

/-- Every corner of the node's cube stays finite when it is packed. -/
def FitsSingle (cubeSize : Double) (placed : PlacedNode) : Prop :=
  ∀ corner ∈ cornersAt cubeSize placed.position, ∀ x ∈ corner.toList,
    (x.convert : Single).isFinite = true

/-- The faces of a cube before which `base` vertices stand, counted from zero. -/
def cubePolygons (base : Nat) : List (List UInt32) :=
  cubeFaces.map fun face => face.map fun n => .ofNat (n + base - 1)

theorem carries_vertexLines {points : List Point}
    (h : ∀ p ∈ points, ∀ x ∈ p.toList, (x.convert : Single).isFinite = true) :
    Carries (points.map vertexLine) points [] := by
  have hPoints := carries_flatMap fun p hp => carries_vertexLine (h p hp)
  rwa [← List.map_eq_flatMap, List.flatMap_singleton', flatMap_const_nil] at hPoints

theorem bounds_of_mem_cubeFaces : ∀ face ∈ cubeFaces, ∀ n ∈ face, 0 < n ∧ n ≤ 8 := by decide

theorem lt_of_mem_cubePolygons {base : Nat} (hBase : base + 8 ≤ UInt32.size) :
    ∀ polygon ∈ cubePolygons base, ∀ index ∈ polygon, index.toNat < base + 8 := by
  intro polygon hPolygon index hIndex
  obtain ⟨face, hFace, rfl⟩ := List.mem_map.mp hPolygon
  obtain ⟨n, hn, rfl⟩ := List.mem_map.mp hIndex
  have hBounds := bounds_of_mem_cubeFaces face hFace n hn
  rw [UInt32.toNat_ofNat_of_lt' (by omega)]
  omega

theorem carries_faceLines {base : Nat} (hBase : base + 8 ≤ UInt32.size) :
    Carries (cubeFaces.map fun face => faceLine (face.map (· + base))) [] (cubePolygons base) := by
  have hFace : ∀ face ∈ cubeFaces, Carries [faceLine (face.map (· + base))] []
      [face.map fun n => .ofNat (n + base - 1)] := by
    intro face hf
    have hCorners : ∀ n ∈ face.map (· + base), 0 < n ∧ n ≤ UInt32.size := by
      intro n hn
      obtain ⟨m, hm, rfl⟩ := List.mem_map.mp hn
      have := bounds_of_mem_cubeFaces face hf m hm
      omega
    have hLine := carries_faceLine hCorners
    rwa [List.map_map] at hLine
  have hFaces := carries_flatMap hFace
  rwa [← List.map_eq_flatMap, ← List.map_eq_flatMap, flatMap_const_nil] at hFaces

/-- **A block carries the corners and the faces of its cube, and nothing else.** -/
theorem carries_blockLines {cubeSize : Double} {placed : PlacedNode}
    (hFits : FitsSingle cubeSize placed) {base : Nat} (hBase : base + 8 ≤ UInt32.size) :
    Carries (blockLines cubeSize base placed) (cornersAt cubeSize placed.position)
      (cubePolygons base) := by
  have h := (((carries_commentLines placed.node).append (carries_vertexLines hFits)).append
    (carries_faceLines hBase)).append carries_empty
  simpa [blockLines] using h

/-! ### Layouts -/

theorem carries_lines {cubeSize : Double} {layout : Layout}
    (hFits : ∀ placed ∈ layout.nodes, FitsSingle cubeSize placed)
    (hCount : layout.nodes.length < 2 ^ 29) :
    Carries (lines cubeSize layout)
      (layout.nodes.flatMap fun placed => cornersAt cubeSize placed.position)
      (layout.nodes.zipIdx.flatMap fun placed => cubePolygons (8 * placed.2)) := by
  have hBlocks : ∀ placed ∈ layout.nodes.zipIdx,
      Carries (blockLines cubeSize (cubeCorners.length * placed.2) placed.1)
        (cornersAt cubeSize placed.1.position) (cubePolygons (8 * placed.2)) := by
    rintro ⟨placed, index⟩ h
    have hMem := List.fst_mem_of_mem_zipIdx h
    have hIndex := List.snd_lt_of_mem_zipIdx h
    have hSize : UInt32.size = 2 ^ 32 := rfl
    have hBase : 8 * index + 8 ≤ UInt32.size := by omega
    exact carries_blockLines (hFits placed hMem) hBase
  have hLines := carries_flatMap hBlocks
  have hPoints : (layout.nodes.zipIdx.flatMap fun placed => cornersAt cubeSize placed.1.position) =
      layout.nodes.flatMap fun placed => cornersAt cubeSize placed.position := by
    conv_rhs => rw [← List.zipIdx_map_fst 0 layout.nodes, List.flatMap_map]
  rwa [hPoints] at hLines

theorem lineFeed_not_mem_lines {cubeSize : Double} {layout : Layout}
    (hTexts : ∀ placed ∈ layout.nodes, HasNoLineFeed placed.node) :
    ∀ line ∈ lines cubeSize layout, '\n' ∉ line := by
  intro line h
  obtain ⟨⟨placed, index⟩, hPlaced, hBlock⟩ := List.mem_flatMap.mp h
  have hMem := List.fst_mem_of_mem_zipIdx hPlaced
  simp only [blockLines, List.mem_append] at hBlock
  rcases hBlock with ((hLine | hLine) | hLine) | hLine
  · obtain ⟨rest, rfl, hRest⟩ := mem_commentLines hLine
    simpa using hRest (hTexts placed hMem)
  · obtain ⟨corner, -, rfl⟩ := List.mem_map.mp hLine
    exact lineFeed_not_mem_vertexLine corner
  · obtain ⟨face, -, rfl⟩ := List.mem_map.mp hLine
    exact lineFeed_not_mem_faceLine _
  · rw [List.mem_singleton.mp hLine]
    exact List.not_mem_nil

theorem mem_nodes_of_mem_ofGraph {spacing : Spacing} {g : Graph} {placed : PlacedNode}
    (h : placed ∈ (Layout.ofGraph spacing g).nodes) : placed.node ∈ g.nodes := by
  obtain ⟨⟨column, index⟩, -, hColumn⟩ := List.mem_flatMap.mp h
  obtain ⟨⟨n, row⟩, hRow, rfl⟩ := List.mem_map.mp hColumn
  have hMem := List.fst_mem_of_mem_zipIdx hRow
  exact List.mem_of_mem_filter hMem

/-! ### Reading the whole text -/

/-- What lines carry is what the text of these lines is read as. -/
theorem read_eq_of_carries {text : String} {points : List Point} {polygons : List (List UInt32)}
    (hCarries : Carries (text.toList.splitOn '\n') points polygons)
    (hRange : ∀ polygon ∈ polygons, ∀ index ∈ polygon, index.toNat < points.length) :
    read text = .ok ⟨points, polygons.flatMap triangulate⟩ := by
  obtain ⟨progress, hRead, hPoints, hPolygons⟩ := hCarries ⟨#[], #[]⟩ 1
  have hPoints : progress.vertices.toList = points := hPoints
  have hPolygons : progress.faces.toList.map Face.indices = polygons := hPolygons
  have hFaces : progress.faces.toList.mapM (resolveFace progress.vertices.size) =
      .ok (progress.faces.toList.map fun face => triangulate face.indices) := by
    refine mapM_eq_ok fun face hf => resolveFace_eq_ok_iff.mpr ⟨fun index hIndex => ?_, rfl⟩
    have hPolygon : face.indices ∈ polygons := hPolygons ▸ List.mem_map_of_mem hf
    have hLt := hRange _ hPolygon index hIndex
    rwa [← hPoints, Array.length_toList] at hLt
  refine bind_eq_ok_iff.mpr ⟨progress, hRead, bind_eq_ok_iff.mpr ⟨_, hFaces, ?_⟩⟩
  rw [← hPoints, ← hPolygons, List.flatMap_map, List.flatMap_def]
  rfl

end Diorama.Obj
