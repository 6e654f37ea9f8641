import Diorama.Proofs.Json.Tokens
import Diorama.Proofs.Obj.Cubes

/-!
# Blocks of an OBJ text

A reader of scenes as they are told block by block. A block ends with an empty line; it starts with the
comments on its node, among which only the first one is always there, and then come corners and faces.
The block of a node tells what is known of the node and the corners of its cube (`cube?_blockBody`), and
a text tells this of all nodes in their order (`cubes?_text`). The numbers are any, infinite ones
included.
-/

namespace Diorama.Obj

/-! ### The reader -/

/-- The parts of a list, each of which is ended by `sep`. -/
def ended? {α : Type} [DecidableEq α] (sep : α) (l : List α) : Option (List (List α)) :=
  if (l.splitOn sep).getLast? = some [] then some (l.splitOn sep).dropLast else none

/-- A cube as it is told by a block. -/
structure Cube where
  id : String
  kind : Option String
  name : Option String
  region : Option String
  corners : List Point
deriving DecidableEq, Repr

/-- What stands behind a marker if the first line starts with it, and the lines that are left. -/
def comment? (marker : String) : List (List Char) → Option String × List (List Char)
  | [] => (none, [])
  | line :: lines =>
    match Json.word? marker.toList line with
    | some text => (some (String.ofList text), lines)
    | none => (none, line :: lines)

def corner? (line : List Char) : Option Point :=
  match Text.words line with
  | ['v'] :: texts =>
    match texts.mapM Binary.ofText? with
    | some [x, y, z] => some ⟨x, y, z⟩
    | _ => none
  | _ => none

def isFace (line : List Char) : Bool := (Text.words line).head? = some ['f']

def cube? (lines : List (List Char)) : Option Cube := do
  let (id, lines) := comment? "# " lines
  let (kind, lines) := comment? "# type:" lines
  let (name, lines) := comment? "# name:" lines
  let (region, lines) := comment? "# subgraph:" lines
  let id ← id
  let corners ← (lines.takeWhile (!isFace ·)).mapM corner?
  if (lines.dropWhile (!isFace ·)).all isFace then return ⟨id, kind, name, region, corners⟩
  else none

def cubes? (text : String) : Option (List Cube) := do
  let lines ← ended? '\n' text.toList
  let blocks ← ended? [] lines
  blocks.mapM cube?

/-! ### Parts with an end -/

theorem ended?_flatMap {α : Type} [DecidableEq α] {sep : α} {parts : List (List α)}
    (h : ∀ part ∈ parts, sep ∉ part) : ended? sep (parts.flatMap (· ++ [sep])) = some parts := by
  rw [ended?, Text.splitOn_flatMap_concat h, List.getLast?_concat, if_pos rfl, List.dropLast_concat]

/-! ### Comments -/

/-- A comment that may be missing. -/
def commentOf (marker : String) (text : Option String) : List (List Char) :=
  text.toList.map fun text => (marker ++ text).toList

/-- Every line starts with one of these texts. -/
def StartWith (starts : List String) (lines : List (List Char)) : Prop :=
  ∀ line ∈ lines, ∃ start ∈ starts, start.toList <+: line

theorem StartWith.commentOf_append {starts : List String} {lines : List (List Char)}
    (h : StartWith starts lines) (marker : String) (text : Option String) :
    StartWith (marker :: starts) (commentOf marker text ++ lines) := by
  intro line hLine
  rcases List.mem_append.mp hLine with hLine | hLine
  · obtain ⟨text, -, rfl⟩ := List.mem_map.mp hLine
    exact ⟨marker, List.mem_cons_self, by rw [String.toList_append]; exact List.prefix_append _ _⟩
  · obtain ⟨start, hStart, hPrefix⟩ := h line hLine
    exact ⟨start, List.mem_cons_of_mem _ hStart, hPrefix⟩

/-- Neither text starts with the other one. -/
def Differ (marker other : String) : Prop :=
  ¬ marker.toList <+: other.toList ∧ ¬ other.toList <+: marker.toList

instance (marker other : String) : Decidable (Differ marker other) :=
  inferInstanceAs (Decidable (_ ∧ _))

theorem comment?_cons (marker text : String) (lines : List (List Char)) :
    comment? marker ((marker ++ text).toList :: lines) = (some text, lines) := by
  simp [comment?, Json.word?_append]

/-- A comment that may be missing is found before lines that start otherwise. -/
theorem comment?_append {starts : List String} {lines : List (List Char)}
    (hLines : StartWith starts lines) (marker : String)
    (hStarts : ∀ start ∈ starts, Differ marker start) (text : Option String) :
    comment? marker (commentOf marker text ++ lines) = (text, lines) := by
  cases text with
  | some text => exact comment?_cons marker text lines
  | none =>
    cases lines with
    | nil => rfl
    | cons line lines =>
      obtain ⟨start, hStart, hLine⟩ := hLines line List.mem_cons_self
      obtain ⟨hMarker, hOther⟩ := hStarts start hStart
      have hNot : ¬ marker.toList <+: line := fun h =>
        (List.prefix_or_prefix_of_prefix h hLine).elim hMarker hOther
      have hWord : Json.word? marker.toList line = none := by
        rw [Json.word?, if_neg (by rwa [List.isPrefixOf_iff_prefix])]
      show comment? marker (line :: lines) = _
      simp [comment?, hWord]

/-! ### Corners and faces -/

theorem ofText?_plain (x : Double) : Binary.ofText? (NumberStyle.plain.text x) = some x := by
  cases hFinite : x.isFinite with
  | true => exact Binary.ofText?_text hFinite
  | false =>
    cases x with
    | finite => cases hFinite
    | infinite negative => cases negative <;> decide
    | nan => decide

theorem corner?_vertexLine (p : Point) : corner? (vertexLine p) = some p := by
  rw [corner?, words_vertexLine]
  simp [Vec3.toList, ofText?_plain]

theorem isFace_vertexLine (p : Point) : isFace (vertexLine p) = false := by
  rw [isFace, words_vertexLine]
  rfl

theorem isFace_faceLine (corners : List Nat) : isFace (faceLine corners) = true := by
  rw [isFace, words_faceLine]
  rfl

/-- Corners and the faces behind them are told apart. -/
theorem takeWhile_append_faces {corners faces : List (List Char)}
    (hCorners : ∀ line ∈ corners, isFace line = false) (hFaces : ∀ line ∈ faces, isFace line = true) :
    (corners ++ faces).takeWhile (!isFace ·) = corners ∧
      (corners ++ faces).dropWhile (!isFace ·) = faces := by
  have hPos : ∀ line ∈ corners, (!isFace line) = true := by
    intro line hLine
    rw [hCorners line hLine]
    rfl
  rw [List.takeWhile_append_of_pos hPos, List.dropWhile_append_of_pos hPos]
  cases faces with
  | nil => simp
  | cons face faces => simp [hFaces face List.mem_cons_self]

/-! ### Blocks -/

/-- The name of a node, unless it is empty. -/
def shownName (n : Node) : Option String := if n.name = "" then none else some n.name

/-- What the block of a node tells. -/
def cube (cubeSize : Double) (p : PlacedNode) : Cube where
  id := p.node.id
  kind := p.node.kind.map NodeKind.keyword
  name := shownName p.node
  region := p.node.region
  corners := Mesh.unitCube.vertices.map fun corner => p.position.offset (corner.scale cubeSize)

def cornerLines (cubeSize : Double) (p : PlacedNode) : List (List Char) :=
  (cornersAt cubeSize p.position).map vertexLine

def faceLines (base : Nat) : List (List Char) :=
  cubeFaces.map fun face => faceLine (face.map (· + base))

/-- The block of a node without the line that ends it. -/
def blockBody (cubeSize : Double) (base : Nat) (p : PlacedNode) : List (List Char) :=
  commentLines p.node ++ (cornerLines cubeSize p ++ faceLines base)

theorem head?_faceLine (corners : List Nat) : (faceLine corners).head? = some 'f' := by
  cases corners <;> rfl

theorem startWith_geometry (cubeSize : Double) (base : Nat) (p : PlacedNode) :
    StartWith ["v", "f"] (cornerLines cubeSize p ++ faceLines base) := by
  intro line hLine
  rcases List.mem_append.mp hLine with hLine | hLine
  · obtain ⟨corner, -, rfl⟩ := List.mem_map.mp hLine
    exact ⟨"v", by simp, List.prefix_append ['v'] _⟩
  · obtain ⟨face, -, rfl⟩ := List.mem_map.mp hLine
    obtain ⟨others, hFace⟩ := List.head?_eq_some_iff.mp (head?_faceLine (face.map (· + base)))
    rw [hFace]
    exact ⟨"f", by simp, List.prefix_append ['f'] _⟩

/-- The comments on a node one below the other. -/
theorem commentLines_append (n : Node) (lines : List (List Char)) :
    commentLines n ++ lines = ("# " ++ n.id).toList ::
      (commentOf "# type:" (n.kind.map NodeKind.keyword) ++ (commentOf "# name:" (shownName n) ++
        (commentOf "# subgraph:" n.region ++ lines))) := by
  have hKind : (n.kind.toList.map fun kind => ("# type:" ++ kind.keyword).toList) =
      commentOf "# type:" (n.kind.map NodeKind.keyword) := by
    cases n.kind <;> rfl
  have hName : (if n.name = "" then [] else [("# name:" ++ n.name).toList]) =
      commentOf "# name:" (shownName n) := by
    rw [shownName]
    split_ifs <;> rfl
  rw [commentLines, hKind, hName, List.append_assoc, List.append_assoc, List.append_assoc]
  rfl

/-- **A block tells what is known of its node, and the corners of its cube.** -/
theorem cube?_blockBody (cubeSize : Double) (base : Nat) (p : PlacedNode) :
    cube? (blockBody cubeSize base p) = some (cube cubeSize p) := by
  have hGeometry := startWith_geometry cubeSize base p
  have hRegion := hGeometry.commentOf_append "# subgraph:" p.node.region
  have hName := hRegion.commentOf_append "# name:" (shownName p.node)
  have hCorners : ∀ line ∈ cornerLines cubeSize p, isFace line = false := by
    intro line hLine
    obtain ⟨corner, -, rfl⟩ := List.mem_map.mp hLine
    exact isFace_vertexLine corner
  have hFaces : ∀ line ∈ faceLines base, isFace line = true := by
    intro line hLine
    obtain ⟨face, -, rfl⟩ := List.mem_map.mp hLine
    exact isFace_faceLine _
  obtain ⟨hTake, hDrop⟩ := takeWhile_append_faces hCorners hFaces
  have hRead : (cornerLines cubeSize p).mapM corner? = some (cornersAt cubeSize p.position) := by
    rw [cornerLines, List.mapM_map]
    exact (mapM_eq_some (g := id) fun corner _ => corner?_vertexLine corner).trans
      (congrArg some (List.map_id _))
  rw [cube?, blockBody, commentLines_append, comment?_cons]
  simp only [comment?_append hName "# type:" (by decide),
    comment?_append hRegion "# name:" (by decide),
    comment?_append hGeometry "# subgraph:" (by decide), hTake, hDrop, hRead]
  simp only [Option.bind_eq_bind, Option.bind_some]
  rw [if_pos (List.all_eq_true.mpr hFaces)]
  rfl

/-! ### Texts -/

theorem nil_not_mem_blockBody (cubeSize : Double) (base : Nat) (p : PlacedNode) :
    [] ∉ blockBody cubeSize base p := by
  intro hNil
  rcases List.mem_append.mp hNil with hNil | hNil
  · obtain ⟨rest, hRest, -⟩ := mem_commentLines hNil
    cases hRest
  · obtain ⟨start, hStart, hPrefix⟩ := startWith_geometry cubeSize base p _ hNil
    have hSome : ∀ start ∈ ["v", "f"], start.toList ≠ [] := by decide
    exact hSome start hStart (List.prefix_nil.mp hPrefix)

/-- Every block is ended by an empty line. -/
theorem lines_eq_flatMap (cubeSize : Double) (layout : Layout) :
    lines cubeSize layout = (layout.nodes.zipIdx.map fun (p, index) =>
      blockBody cubeSize (cubeCorners.length * index) p).flatMap (· ++ [[]]) := by
  have hBlock (base : Nat) (p : PlacedNode) :
      blockLines cubeSize base p = blockBody cubeSize base p ++ [[]] := by
    rw [blockLines, blockBody, ← List.append_assoc]
    rfl
  simp only [lines, hBlock, List.flatMap_map]

/-- **The text of a layout tells every node and its cube in one block**, in their order. -/
theorem cubes?_text {cubeSize : Double} {layout : Layout}
    (hTexts : ∀ placed ∈ layout.nodes, HasNoLineFeed placed.node) :
    cubes? (text cubeSize layout) = some (layout.nodes.map (cube cubeSize)) := by
  have hLines : ended? '\n' (text cubeSize layout).toList = some (lines cubeSize layout) := by
    rw [text, String.toList_ofList]
    exact ended?_flatMap (lineFeed_not_mem_lines hTexts)
  have hBlocks : ended? [] (lines cubeSize layout) = some (layout.nodes.zipIdx.map
      fun (p, index) => blockBody cubeSize (cubeCorners.length * index) p) := by
    rw [lines_eq_flatMap]
    refine ended?_flatMap fun block hBlock => ?_
    obtain ⟨⟨p, index⟩, -, rfl⟩ := List.mem_map.mp hBlock
    exact nil_not_mem_blockBody _ _ _
  have hCubes : layout.nodes.map (cube cubeSize) =
      layout.nodes.zipIdx.map fun (p, _) => cube cubeSize p := by
    conv_lhs => rw [← List.zipIdx_map_fst 0 layout.nodes, List.map_map]
    rfl
  rw [cubes?, hLines, Option.bind_eq_bind, Option.bind_some, hBlocks, Option.bind_eq_bind,
    Option.bind_some, List.mapM_map, hCubes]
  exact mapM_eq_some fun (p, index) _ => cube?_blockBody _ _ p

end Diorama.Obj
