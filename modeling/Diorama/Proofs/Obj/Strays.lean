import Diorama.Proofs.Obj.Statements

/-!
# Lines that leave a comment

Nodes that were not read from a source may hold line feeds. What follows one of them leaves its comment
and is a line of the text (`filter_textLines`). Scenes with the same positions are read alike as long as
no such line is a vertex or a face, and a scene is read as its positions tell exactly if these lines add
neither vertices nor triangles and name no vertex that is missing (`read_text_iff`).
-/

namespace Diorama

/-- Where the nodes of a layout stand, in their order. -/
def Layout.positions (l : Layout) : List Point := l.nodes.map (·.position)

namespace Obj

/-- The lines that start behind a line feed within a comment on a node. -/
def strayLines (n : Node) : List (List Char) :=
  (commentLines n).flatMap fun line => (line.splitOn '\n').tail

/-- No line that leaves a comment is a vertex or a face. -/
def IsQuiet (n : Node) : Prop := ∀ line ∈ strayLines n, isStatement line = false

instance : DecidablePred IsQuiet := fun n =>
  inferInstanceAs (Decidable (∀ line ∈ strayLines n, _))

/-- Below `seen` of `count` vertices, lines denote neither a vertex nor a triangle, and they name no
vertex that is missing. -/
def IsIdle (seen count : Nat) (lines : List (List Char)) : Prop :=
  ∃ polygons, DepictsBehind seen lines [] polygons ∧
    ∀ polygon ∈ polygons, polygon.length < 3 ∧ ∀ index ∈ polygon, index.toNat < count

/-- What positions alone tell: the corners of a cube around each of them, and its faces. -/
def sceneMesh (cubeSize : Double) (positions : List Point) : Mesh where
  vertices := positions.flatMap (cornersAt cubeSize)
  triangles := positions.zipIdx.flatMap fun entry => cubeTriangles (8 * entry.2)

/-- The corners of a block stay finite when they are packed, and the numbers of its vertices are not too
large. -/
structure IsWritable (cubeSize : Double) (entry : PlacedNode × Nat) : Prop where
  fits : FitsSingle cubeSize entry.1
  base : 8 * entry.2 + 8 ≤ UInt32.size

/-- The lines of a block without the comments themselves. -/
def shownLines (cubeSize : Double) (entry : PlacedNode × Nat) : List (List Char) :=
  strayLines entry.1.node ++ geometryLines cubeSize (8 * entry.2) entry.1.position

/-! ### Lines of comments and cubes -/

theorem splitOn_comment (rest : List Char) : ∃ first,
    ('#' :: ' ' :: rest).splitOn '\n' =
      ('#' :: ' ' :: first) :: (('#' :: ' ' :: rest).splitOn '\n').tail := by
  obtain ⟨first, others, hRest⟩ := List.exists_cons_of_ne_nil (List.splitOn_ne_nil '\n' rest)
  refine ⟨first, ?_⟩
  rw [List.splitOn_cons_eq_if_modifyHead, List.splitOn_cons_eq_if_modifyHead, hRest]
  rfl

/-- What is left of a comment is no statement. -/
theorem filter_commentLines (n : Node) :
    ((commentLines n).flatMap (·.splitOn '\n')).filter isStatement =
      (strayLines n).filter isStatement := by
  rw [strayLines, List.filter_flatMap, List.filter_flatMap]
  refine List.flatMap_congr fun line hLine => ?_
  obtain ⟨rest, rfl, -⟩ := mem_commentLines hLine
  obtain ⟨first, hSplit⟩ := splitOn_comment rest
  rw [hSplit, List.filter_cons_of_neg, List.tail_cons]
  rw [isStatement_comment]
  exact Bool.false_ne_true

theorem lineFeed_not_mem_geometryLines {cubeSize : Double} {base : Nat} {center : Point} :
    ∀ line ∈ geometryLines cubeSize base center, '\n' ∉ line := by
  intro line hLine
  rcases List.mem_append.mp hLine with hLine | hLine
  · obtain ⟨corner, -, rfl⟩ := List.mem_map.mp hLine
    exact lineFeed_not_mem_vertexLine corner
  · rcases List.mem_append.mp hLine with hLine | hLine
    · obtain ⟨face, -, rfl⟩ := List.mem_map.mp hLine
      exact lineFeed_not_mem_faceLine _
    · rw [List.mem_singleton.mp hLine]
      exact List.not_mem_nil

theorem filter_blockLines (cubeSize : Double) (entry : PlacedNode × Nat) :
    ((blockLines cubeSize (8 * entry.2) entry.1).flatMap (·.splitOn '\n')).filter isStatement =
      (shownLines cubeSize entry).filter isStatement := by
  rw [blockLines_eq, shownLines, List.flatMap_append,
    Text.flatMap_splitOn_eq_self lineFeed_not_mem_geometryLines, List.filter_append,
    filter_commentLines, ← List.filter_append]

/-- **Among the statements of a text are those that left a comment.** -/
theorem filter_textLines (cubeSize : Double) (layout : Layout) :
    (textLines (text cubeSize layout)).filter isStatement =
      (layout.nodes.zipIdx.flatMap (shownLines cubeSize)).filter isStatement := by
  have hEnd : [[]].filter isStatement = [] := by decide
  rw [textLines, toList_text, Text.splitOn_flatMap_ended, List.filter_append, hEnd, List.append_nil,
    lines, List.flatMap_assoc, List.filter_flatMap, List.filter_flatMap]
  exact List.flatMap_congr fun entry _ => filter_blockLines cubeSize entry

/-! ### Cubes behind strays -/

theorem isWritable_of_mem_zipIdx {cubeSize : Double} {nodes : List PlacedNode}
    (hFits : ∀ placed ∈ nodes, FitsSingle cubeSize placed) (hCount : nodes.length < 2 ^ 29) :
    ∀ entry ∈ nodes.zipIdx, IsWritable cubeSize entry := by
  intro entry hEntry
  have hIndex := List.snd_lt_of_mem_zipIdx hEntry
  have hSize : UInt32.size = 2 ^ 32 := rfl
  exact ⟨hFits entry.1 (List.fst_mem_of_mem_zipIdx hEntry), by omega⟩

section

variable {cubeSize : Double} {entry : PlacedNode × Nat} {entries : List (PlacedNode × Nat)}
  {nodes : List PlacedNode} {seen k count : Nat} {points : List Point} {polygons : List (List UInt32)}

theorem IsWritable.carries_geometryLines (h : IsWritable cubeSize entry) :
    Carries (geometryLines cubeSize (8 * entry.2) entry.1.position)
      (cornersAt cubeSize entry.1.position) (cubePolygons (8 * entry.2)) := by
  have hCube := (carries_vertexLines h.fits).append ((carries_faceLines h.base).append carries_empty)
  simpa [geometryLines, faceLines] using hCube

/-- A block denotes what its strays denote, and then its cube. -/
theorem IsWritable.depictsBehind_iff (h : IsWritable cubeSize entry) :
    DepictsBehind seen (shownLines cubeSize entry) points polygons ↔
      ∃ strays strayPolygons, points = strays ++ cornersAt cubeSize entry.1.position ∧
        polygons = strayPolygons ++ cubePolygons (8 * entry.2) ∧
        DepictsBehind seen (strayLines entry.1.node) strays strayPolygons := by
  rw [shownLines, depictsBehind_append_iff]
  simp only [h.carries_geometryLines.depictsBehind_iff]
  constructor
  · rintro ⟨strays, corners, strayPolygons, faces, rfl, rfl, hStrays, rfl, rfl⟩
    exact ⟨strays, strayPolygons, rfl, rfl, hStrays⟩
  · rintro ⟨strays, strayPolygons, rfl, rfl, hStrays⟩
    exact ⟨strays, _, strayPolygons, _, rfl, rfl, hStrays, rfl, rfl⟩

theorem depictsBehind_cons_iff (h : IsWritable cubeSize entry) :
    DepictsBehind seen ((entry :: entries).flatMap (shownLines cubeSize)) points polygons ↔
      ∃ strays strayPolygons rest restPolygons,
        points = strays ++ cornersAt cubeSize entry.1.position ++ rest ∧
        polygons = strayPolygons ++ cubePolygons (8 * entry.2) ++ restPolygons ∧
        DepictsBehind seen (strayLines entry.1.node) strays strayPolygons ∧
        DepictsBehind (seen + strays.length + 8) (entries.flatMap (shownLines cubeSize)) rest
          restPolygons := by
  rw [List.flatMap_cons, depictsBehind_append_iff]
  simp only [h.depictsBehind_iff]
  constructor
  · rintro ⟨block, rest, _, restPolygons, rfl, rfl, ⟨strays, strayPolygons, rfl, rfl, hStrays⟩, hRest⟩
    rw [List.length_append, length_cornersAt, ← Nat.add_assoc] at hRest
    exact ⟨strays, strayPolygons, rest, restPolygons, rfl, rfl, hStrays, hRest⟩
  · rintro ⟨strays, strayPolygons, rest, restPolygons, rfl, rfl, hStrays, hRest⟩
    refine ⟨_, rest, _, restPolygons, rfl, rfl, ⟨strays, strayPolygons, rfl, rfl, hStrays⟩, ?_⟩
    rwa [List.length_append, length_cornersAt, ← Nat.add_assoc]

theorem length_triangles_append (base : Nat) (before after : List (List UInt32)) :
    ((before ++ cubePolygons base ++ after).flatMap triangulate).length =
      (before.flatMap triangulate).length + 12 + (after.flatMap triangulate).length := by
  rw [List.flatMap_append, List.flatMap_append, List.length_append, List.length_append]
  rfl

/-- Every block has the corners and the triangles of its cube at least. -/
theorem le_length_of_depictsBehind (hWritable : ∀ entry ∈ entries, IsWritable cubeSize entry)
    (h : DepictsBehind seen (entries.flatMap (shownLines cubeSize)) points polygons) :
    8 * entries.length ≤ points.length ∧
      12 * entries.length ≤ (polygons.flatMap triangulate).length := by
  induction entries generalizing seen points polygons with
  | nil => exact ⟨Nat.zero_le _, Nat.zero_le _⟩
  | cons entry entries ih =>
    obtain ⟨strays, strayPolygons, rest, restPolygons, rfl, rfl, -, hRest⟩ :=
      (depictsBehind_cons_iff (hWritable entry List.mem_cons_self)).mp h
    have hBelow := ih (fun e he => hWritable e (List.mem_cons_of_mem _ he)) hRest
    rw [length_triangles_append, List.length_append, List.length_append, length_cornersAt,
      List.length_cons]
    omega

/-- Faces are fanned into no triangle exactly if none of them has three corners. -/
theorem flatMap_triangulate_eq_nil_iff :
    polygons.flatMap triangulate = [] ↔ ∀ polygon ∈ polygons, polygon.length < 3 := by
  rw [List.flatMap_eq_nil_iff]
  refine forall₂_congr fun polygon _ => ?_
  rw [← List.length_eq_zero_iff, length_triangulate]
  omega

/-- **If there are no more corners and triangles than those of the cubes, the strays are idle.** -/
theorem isIdle_of_depictsBehind (hWritable : ∀ entry ∈ nodes.zipIdx k, IsWritable cubeSize entry)
    (h : DepictsBehind (8 * k) ((nodes.zipIdx k).flatMap (shownLines cubeSize)) points polygons)
    (hPoints : points.length = 8 * nodes.length)
    (hTriangles : (polygons.flatMap triangulate).length = 12 * nodes.length)
    (hRange : ∀ polygon ∈ polygons, ∀ index ∈ polygon, index.toNat < count) :
    ∀ entry ∈ nodes.zipIdx k, IsIdle (8 * entry.2) count (strayLines entry.1.node) := by
  induction nodes generalizing k points polygons with
  | nil =>
    intro entry hEntry
    cases hEntry
  | cons placed nodes ih =>
    rw [List.zipIdx_cons] at h hWritable ⊢
    obtain ⟨strays, strayPolygons, rest, restPolygons, rfl, rfl, hStrays, hRest⟩ :=
      (depictsBehind_cons_iff (hWritable _ List.mem_cons_self)).mp h
    have hWritable := fun e he => hWritable e (List.mem_cons_of_mem _ he)
    have hBelow := le_length_of_depictsBehind hWritable hRest
    rw [length_triangles_append, List.length_cons] at hTriangles
    rw [List.length_append, List.length_append, length_cornersAt, List.length_cons] at hPoints
    rw [List.length_zipIdx] at hBelow
    -- The blocks below take their corners and triangles, so that nothing is left for the strays.
    obtain rfl : strays = [] := List.length_eq_zero_iff.mp (by omega)
    have hFans : strayPolygons.flatMap triangulate = [] := List.length_eq_zero_iff.mp (by omega)
    intro entry hEntry
    rcases List.mem_cons.mp hEntry with rfl | hEntry
    · refine ⟨strayPolygons, hStrays, fun polygon hPolygon => ⟨?_, ?_⟩⟩
      · exact flatMap_triangulate_eq_nil_iff.mp hFans polygon hPolygon
      · exact hRange polygon (List.mem_append_left _ (List.mem_append_left _ hPolygon))
    · have hSeen : 8 * k + ([] : List Point).length + 8 = 8 * (k + 1) := by
        rw [List.length_nil]
        omega
      rw [hSeen] at hRest
      rw [List.length_nil] at hPoints
      exact ih hWritable hRest (by omega) (by omega)
        (fun polygon hPolygon => hRange polygon (List.mem_append_right _ hPolygon)) entry hEntry

/-- **If the strays are idle, the corners and triangles are those of the cubes.** -/
theorem depictsBehind_of_isIdle (hWritable : ∀ entry ∈ nodes.zipIdx k, IsWritable cubeSize entry)
    (hIdle : ∀ entry ∈ nodes.zipIdx k, IsIdle (8 * entry.2) count (strayLines entry.1.node))
    (hCount : 8 * (k + nodes.length) ≤ count) :
    ∃ polygons, DepictsBehind (8 * k) ((nodes.zipIdx k).flatMap (shownLines cubeSize))
        (nodes.flatMap fun placed => cornersAt cubeSize placed.position) polygons ∧
      polygons.flatMap triangulate =
        (nodes.zipIdx k).flatMap (fun entry => cubeTriangles (8 * entry.2)) ∧
      ∀ polygon ∈ polygons, ∀ index ∈ polygon, index.toNat < count := by
  induction nodes generalizing k with
  | nil => exact ⟨[], depictsBehind_nil_iff.mpr ⟨rfl, rfl⟩, rfl, fun polygon h => nomatch h⟩
  | cons placed nodes ih =>
    rw [List.zipIdx_cons] at hWritable hIdle ⊢
    have hFirst := hWritable _ List.mem_cons_self
    obtain ⟨strayPolygons, hStrays, hStrayPolygons⟩ := hIdle _ List.mem_cons_self
    rw [List.length_cons] at hCount
    obtain ⟨restPolygons, hRest, hTriangles, hRange⟩ :=
      ih (fun e he => hWritable e (List.mem_cons_of_mem _ he))
        (fun e he => hIdle e (List.mem_cons_of_mem _ he)) (by omega)
    refine ⟨strayPolygons ++ cubePolygons (8 * k) ++ restPolygons, ?_, ?_, ?_⟩
    · refine (depictsBehind_cons_iff hFirst).mpr
        ⟨[], strayPolygons, _, restPolygons, rfl, rfl, hStrays, ?_⟩
      rwa [List.length_nil, Nat.add_zero, ← Nat.mul_succ]
    · have hFans : strayPolygons.flatMap triangulate = [] :=
        flatMap_triangulate_eq_nil_iff.mpr fun polygon hPolygon => (hStrayPolygons polygon hPolygon).1
      rw [List.flatMap_append, List.flatMap_append, hFans, hTriangles]
      rfl
    · intro polygon hPolygon
      rw [List.mem_append, List.mem_append] at hPolygon
      rcases hPolygon with (hPolygon | hPolygon) | hPolygon
      · exact (hStrayPolygons polygon hPolygon).2
      · intro index hIndex
        have hBelow := lt_of_mem_cubePolygons hFirst.base polygon hPolygon index hIndex
        simp only at hBelow
        omega
      · exact hRange polygon hPolygon

end

/-! ### Scenes -/

section

variable {cubeSize : Double} {layout layout' : Layout}

theorem length_sceneMesh (cubeSize : Double) (positions : List Point) :
    (sceneMesh cubeSize positions).vertices.length = 8 * positions.length ∧
      (sceneMesh cubeSize positions).triangles.length = 12 * positions.length := by
  constructor
  · have hCorners (center : Point) : (cornersAt cubeSize center).length = 8 := rfl
    exact length_flatMap_of_length hCorners positions
  · have hTriangles := length_flatMap_of_length
      (fun entry : Point × Nat => length_cubeTriangles (8 * entry.2)) positions.zipIdx
    rwa [List.length_zipIdx] at hTriangles

theorem triangles_sceneMesh (layout : Layout) :
    (sceneMesh cubeSize layout.positions).triangles =
      layout.nodes.zipIdx.flatMap fun entry => cubeTriangles (8 * entry.2) := by
  show layout.positions.zipIdx.flatMap _ = _
  rw [Layout.positions, List.zipIdx_map, List.flatMap_map]
  rfl

theorem vertices_sceneMesh (layout : Layout) :
    (sceneMesh cubeSize layout.positions).vertices =
      layout.nodes.flatMap fun placed => cornersAt cubeSize placed.position := by
  rw [sceneMesh, Layout.positions, List.flatMap_map]

theorem depicts_text_iff {points : List Point} {polygons : List (List UInt32)} :
    Depicts (textLines (text cubeSize layout)) points polygons ↔
      DepictsBehind 0 (layout.nodes.zipIdx.flatMap (shownLines cubeSize)) points polygons := by
  rw [← depictsBehind_zero_iff, ← depictsBehind_filter_iff, filter_textLines,
    depictsBehind_filter_iff]

/-- **A scene is read as its positions tell exactly if the strays among its lines are idle.** -/
theorem read_text_iff (hFits : ∀ placed ∈ layout.nodes, FitsSingle cubeSize placed)
    (hCount : layout.nodes.length < 2 ^ 29) :
    read (text cubeSize layout) = .ok (sceneMesh cubeSize layout.positions) ↔
      ∀ entry ∈ layout.nodes.zipIdx,
        IsIdle (8 * entry.2) (8 * layout.nodes.length) (strayLines entry.1.node) := by
  have hWritable := isWritable_of_mem_zipIdx hFits hCount
  have hPositions : layout.positions.length = layout.nodes.length := List.length_map _
  obtain ⟨hVertices, hTriangles⟩ := length_sceneMesh cubeSize layout.positions
  rw [hPositions] at hVertices hTriangles
  rw [read_eq_ok_iff]
  simp only [depicts_text_iff]
  constructor
  · rintro ⟨polygons, hDepicts, hRange, hFans⟩
    rw [hVertices] at hRange
    rw [hFans] at hTriangles
    exact isIdle_of_depictsBehind hWritable hDepicts hVertices hTriangles hRange
  · intro hIdle
    obtain ⟨polygons, hDepicts, hFans, hRange⟩ :=
      depictsBehind_of_isIdle hWritable hIdle (by rw [Nat.zero_add])
    refine ⟨polygons, ?_, ?_, ?_⟩
    · rw [vertices_sceneMesh]
      exact hDepicts
    · rw [hVertices]
      exact hRange
    · rw [triangles_sceneMesh, hFans]

/-- Texts without line feeds do not leave their comments. -/
theorem isQuiet_of_hasNoLineFeed {n : Node} (h : HasNoLineFeed n) : IsQuiet n := by
  intro line hLine
  obtain ⟨comment, hComment, hTail⟩ := List.mem_flatMap.mp hLine
  obtain ⟨rest, rfl, hRest⟩ := mem_commentLines hComment
  have hFeed : '\n' ∉ '#' :: ' ' :: rest := by simpa using hRest h
  rw [List.splitOn_eq_singleton hFeed] at hTail
  cases hTail

theorem IsQuiet.filter_strayLines {n : Node} (h : IsQuiet n) :
    (strayLines n).filter isStatement = [] :=
  List.filter_eq_nil_iff.mpr fun line hLine => Bool.eq_false_iff.mp (h line hLine)

/-- Lines that are no statements are idle. -/
theorem IsQuiet.isIdle {n : Node} (h : IsQuiet n) (seen count : Nat) :
    IsIdle seen count (strayLines n) := by
  refine ⟨[], ?_, fun polygon hPolygon => nomatch hPolygon⟩
  rw [← depictsBehind_filter_iff, h.filter_strayLines]
  exact depictsBehind_nil_iff.mpr ⟨rfl, rfl⟩

/-- The statements of a quiet scene are those that its positions tell. -/
theorem filter_textLines_of_isQuiet (hQuiet : ∀ placed ∈ layout.nodes, IsQuiet placed.node) :
    (textLines (text cubeSize layout)).filter isStatement =
      (layout.positions.zipIdx.flatMap fun entry =>
        geometryLines cubeSize (8 * entry.2) entry.1).filter isStatement := by
  rw [filter_textLines, Layout.positions, List.zipIdx_map, List.flatMap_map, List.filter_flatMap,
    List.filter_flatMap]
  refine List.flatMap_congr fun entry hEntry => ?_
  have hQuiet := hQuiet entry.1 (List.fst_mem_of_mem_zipIdx hEntry)
  rw [shownLines, List.filter_append, hQuiet.filter_strayLines, List.nil_append]
  rfl

theorem forall_fitsSingle_iff : (∀ placed ∈ layout.nodes, FitsSingle cubeSize placed) ↔
    ∀ center ∈ layout.positions, ∀ corner ∈ cornersAt cubeSize center, ∀ x ∈ corner.toList,
      (x.convert : Single).isFinite = true := by
  rw [Layout.positions, List.forall_mem_map]
  rfl

end

/-- **What the texts of nodes change in a scene.** As long as none of their lines is a vertex or a face,
scenes with the same positions are read alike. Otherwise a scene whose numbers fit is read as a quiet one
with the same positions exactly if the lines that leave its comments are idle. -/
theorem read_text_metadata {spacing spacing' : Spacing} {g g' : Graph}
    (hPositions : (Layout.ofGraph spacing g).positions = (Layout.ofGraph spacing' g').positions)
    (hQuiet : ∀ n ∈ g.nodes, IsQuiet n) (cubeSize : Double) :
    ((∀ n ∈ g'.nodes, IsQuiet n) →
      (read (text cubeSize (.ofGraph spacing g))).toOption =
        (read (text cubeSize (.ofGraph spacing' g'))).toOption) ∧
    ((∀ placed ∈ (Layout.ofGraph spacing g).nodes, FitsSingle cubeSize placed) →
      (Layout.ofGraph spacing g).nodes.length < 2 ^ 29 →
      ∃ mesh, read (text cubeSize (.ofGraph spacing g)) = .ok mesh ∧
        (read (text cubeSize (.ofGraph spacing' g')) = .ok mesh ↔
          ∀ entry ∈ (Layout.ofGraph spacing' g').nodes.zipIdx,
            IsIdle (8 * entry.2) (8 * (Layout.ofGraph spacing' g').nodes.length)
              (strayLines entry.1.node))) := by
  have hQuiet : ∀ placed ∈ (Layout.ofGraph spacing g).nodes, IsQuiet placed.node :=
    fun placed hPlaced => hQuiet placed.node (mem_nodes_of_mem_ofGraph hPlaced)
  constructor
  · intro hQuiet'
    have hQuiet' : ∀ placed ∈ (Layout.ofGraph spacing' g').nodes, IsQuiet placed.node :=
      fun placed hPlaced => hQuiet' placed.node (mem_nodes_of_mem_ofGraph hPlaced)
    apply toOption_read_of_statements
    rw [filter_textLines_of_isQuiet hQuiet, filter_textLines_of_isQuiet hQuiet', hPositions]
  · intro hFits hCount
    refine ⟨sceneMesh cubeSize (Layout.ofGraph spacing g).positions, ?_, ?_⟩
    · rw [read_text_iff hFits hCount]
      intro entry hEntry
      exact (hQuiet entry.1 (List.fst_mem_of_mem_zipIdx hEntry)).isIdle _ _
    · have hFits' := forall_fitsSingle_iff.mpr (hPositions ▸ forall_fitsSingle_iff.mp hFits)
      have hCount' : (Layout.ofGraph spacing' g').nodes.length < 2 ^ 29 := by
        have hLength := congrArg List.length hPositions
        rw [Layout.positions, Layout.positions, List.length_map, List.length_map] at hLength
        rwa [← hLength]
      rw [hPositions, read_text_iff hFits' hCount']

/-- A diagram of one node. -/
def alone (name : String) : Graph := Graph.empty.insert ⟨"A", name, none, name, none⟩

theorem nodes_alone (name : String) : (Layout.ofGraph .standard (alone name)).nodes =
    [⟨⟨"A", name, none, name, none⟩, Layout.position .standard 0 0 .neutral⟩] := rfl

theorem fitsSingle_alone (name : String) : ∀ placed ∈ (Layout.ofGraph .standard (alone name)).nodes,
    FitsSingle standardCubeSize placed := by
  rw [forall_fitsSingle_iff, Layout.positions, nodes_alone]
  show ∀ center ∈ [Layout.position .standard 0 0 .neutral], _
  decide +kernel

theorem isQuiet_alone : ∀ n ∈ (alone "a").nodes, IsQuiet n := by
  intro n hn
  obtain rfl := List.mem_singleton.mp hn
  exact isQuiet_of_hasNoLineFeed ⟨by decide, by decide, fun region hRegion => nomatch hRegion⟩

/-- A scene of one node denotes what its strays carry, and then its cube. -/
theorem depicts_text_alone {name : String} {strays : List Point} {polygons : List (List UInt32)}
    (h : Carries (strayLines ⟨"A", name, none, name, none⟩) strays polygons) :
    Depicts (textLines (text standardCubeSize (.ofGraph .standard (alone name))))
      (strays ++ cornersAt standardCubeSize (Layout.position .standard 0 0 .neutral))
      (polygons ++ cubePolygons 0) := by
  have hCount : (Layout.ofGraph .standard (alone name)).nodes.length < 2 ^ 29 := by
    rw [nodes_alone]
    show 1 < 2 ^ 29
    decide
  have hWritable := isWritable_of_mem_zipIdx (fitsSingle_alone name) hCount
  rw [depicts_text_iff]
  rw [nodes_alone] at hWritable ⊢
  rw [List.zipIdx_singleton, List.flatMap_singleton]
  refine (hWritable _ List.mem_cons_self).depictsBehind_iff.mpr ⟨strays, polygons, rfl, rfl, ?_⟩
  exact h.depictsBehind_iff.mpr ⟨rfl, rfl⟩

/-- A second line of a name is no statement, and a face of two corners is idle. -/
theorem read_text_metadata_edge :
    (∀ n ∈ (alone "a").nodes, IsQuiet n) ∧ (∀ n ∈ (alone "a\nb").nodes, IsQuiet n) ∧
    (Layout.ofGraph .standard (alone "a")).positions =
      (Layout.ofGraph .standard (alone "a\nb")).positions ∧
    (Layout.ofGraph .standard (alone "a")).positions =
      (Layout.ofGraph .standard (alone "a\nf 1 2")).positions ∧
    (∀ placed ∈ (Layout.ofGraph .standard (alone "a")).nodes, FitsSingle standardCubeSize placed) ∧
    (Layout.ofGraph .standard (alone "a")).nodes.length < 2 ^ 29 ∧
    (read (text standardCubeSize (.ofGraph .standard (alone "a")))).toOption =
      (read (text standardCubeSize (.ofGraph .standard (alone "a\nb")))).toOption ∧
    ∃ mesh, read (text standardCubeSize (.ofGraph .standard (alone "a"))) = .ok mesh ∧
      read (text standardCubeSize (.ofGraph .standard (alone "a\nf 1 2"))) = .ok mesh := by
  have hQuiet : ∀ n ∈ (alone "a\nb").nodes, IsQuiet n := by decide
  have hPositions : (Layout.ofGraph .standard (alone "a")).positions =
      (Layout.ofGraph .standard (alone "a\nb")).positions := rfl
  have hPositions' : (Layout.ofGraph .standard (alone "a")).positions =
      (Layout.ofGraph .standard (alone "a\nf 1 2")).positions := rfl
  have hCount : (Layout.ofGraph .standard (alone "a")).nodes.length < 2 ^ 29 := by decide
  have hSame := (read_text_metadata hPositions isQuiet_alone standardCubeSize).1 hQuiet
  obtain ⟨mesh, hRead, hIff⟩ :=
    (read_text_metadata hPositions' isQuiet_alone standardCubeSize).2 (fitsSingle_alone "a") hCount
  refine ⟨isQuiet_alone, hQuiet, hPositions, hPositions', fitsSingle_alone "a", hCount, hSame, mesh,
    hRead, hIff.mpr fun entry hEntry => ?_⟩
  rw [nodes_alone] at hEntry ⊢
  obtain rfl := List.mem_singleton.mp hEntry
  have hStrays : strayLines ⟨"A", "a\nf 1 2", none, "a\nf 1 2", none⟩ = [faceLine [1, 2]] := by
    decide
  have hEdge : ∀ n ∈ [1, 2], 0 < n ∧ n ≤ UInt32.size := by decide
  have hInside : ([0, 1] : List UInt32).all (·.toNat < 8) = true := by decide
  rw [hStrays]
  refine ⟨[[0, 1]], (carries_faceLine hEdge).depictsBehind_iff.mpr ⟨rfl, rfl⟩,
    fun polygon hPolygon => ?_⟩
  obtain rfl := List.mem_singleton.mp hPolygon
  exact ⟨by decide, fun index hIndex => of_decide_eq_true (List.all_eq_true.mp hInside index hIndex)⟩

/-- A vertex that is hidden in a name leaves its comment. -/
theorem read_text_hidden_vertex :
    (Layout.ofGraph .standard (alone "a")).positions =
      (Layout.ofGraph .standard (alone "a\nv 9 9 9")).positions ∧
    (∀ placed ∈ (Layout.ofGraph .standard (alone "a")).nodes, FitsSingle standardCubeSize placed) ∧
    (∀ placed ∈ (Layout.ofGraph .standard (alone "a\nv 9 9 9")).nodes,
      FitsSingle standardCubeSize placed) ∧
    ∃ mesh mesh', read (text standardCubeSize (.ofGraph .standard (alone "a"))) = .ok mesh ∧
      read (text standardCubeSize (.ofGraph .standard (alone "a\nv 9 9 9"))) = .ok mesh' ∧
      mesh.vertices.length = 8 ∧ mesh'.vertices.length = 9 := by
  have hPlain : read (text standardCubeSize (.ofGraph .standard (alone "a"))) =
      .ok (sceneMesh standardCubeSize (Layout.ofGraph .standard (alone "a")).positions) := by
    rw [read_text_iff (fitsSingle_alone "a") (by decide)]
    intro entry hEntry
    have hMem := mem_nodes_of_mem_ofGraph (List.fst_mem_of_mem_zipIdx hEntry)
    exact (isQuiet_alone _ hMem).isIdle _ _
  have hStrays : strayLines ⟨"A", "a\nv 9 9 9", none, "a\nv 9 9 9", none⟩ =
      [vertexLine ⟨9, 9, 9⟩] := by decide +kernel
  have hNine : ∀ x ∈ Vec3.toList (⟨9, 9, 9⟩ : Point), (x.convert : Single).isFinite = true := by
    decide +kernel
  have hCarries := carries_vertexLine hNine
  rw [← hStrays] at hCarries
  refine ⟨rfl, fitsSingle_alone "a", fitsSingle_alone "a\nv 9 9 9", _, ⟨_, _⟩, hPlain,
    read_eq_ok_iff.mpr ⟨_, depicts_text_alone hCarries, ?_, rfl⟩, rfl, rfl⟩
  intro polygon hPolygon index hIndex
  have hBase : 0 + 8 ≤ UInt32.size := by decide
  have hBelow := lt_of_mem_cubePolygons hBase polygon hPolygon index hIndex
  show index.toNat < 9
  omega

end Obj

end Diorama
