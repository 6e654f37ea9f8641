import Diorama.Proofs.Obj.Blocks
import Diorama.Proofs.Obj.Relocation

/-!
# Statements behind other lines

`DepictsBehind seen lines` tells what lines denote that stand below `seen` vertices. Lines one below
the other denote one after the other (`depictsBehind_append_iff`), and a line that is neither a vertex
nor a face denotes nothing. So two texts with the same statements are read alike, whatever lines stand
between these (`toOption_read_of_statements`).
-/

namespace Diorama.Obj

/-- The points and polygons that lines denote below `seen` vertices. -/
structure DepictsBehind (seen : Nat) (lines : List (List Char)) (points : List Point)
    (polygons : List (List UInt32)) : Prop where
  vertices : List.Forall₂ IsPoint (vertexTokens lines) points
  faces : List.Forall₂ (fun told => List.Forall₂ (IsCorner (seen + seenAt lines told.1)) told.2)
    (faceTokens lines) polygons

/-- A vertex or a face. -/
def isStatement (line : List Char) : Bool :=
  (arguments? 'v' line).isSome || (arguments? 'f' line).isSome

/-! ### Lines one below the other -/

section

variable {seen : Nat} {lines lines' : List (List Char)} {line : List Char}
  {points points' : List Point} {polygons polygons' : List (List UInt32)}

theorem depictsBehind_zero_iff :
    DepictsBehind 0 lines points polygons ↔ Depicts lines points polygons := by
  have hFaces : (fun told : Nat × List (List Char) =>
      List.Forall₂ (IsCorner (0 + seenAt lines told.1)) told.2) = IsPolygon lines := by
    funext told polygon
    rw [Nat.zero_add, IsPolygon]
  constructor
  · intro h
    exact ⟨h.vertices, hFaces ▸ h.faces⟩
  · intro h
    exact ⟨h.vertices, hFaces ▸ h.faces⟩

theorem depictsBehind_nil_iff :
    DepictsBehind seen [] points polygons ↔ points = [] ∧ polygons = [] := by
  constructor
  · intro h
    exact ⟨List.forall₂_nil_left_iff.mp h.vertices, List.forall₂_nil_left_iff.mp h.faces⟩
  · rintro ⟨rfl, rfl⟩
    exact ⟨.nil, .nil⟩

/-- The faces of the second lines, told by their own places. -/
theorem forall₂_faceTokens_append (hLength : (vertexTokens lines).length = points.length) :
    List.Forall₂ (fun told =>
        List.Forall₂ (IsCorner (seen + seenAt (lines ++ lines') told.1)) told.2)
      ((faceTokens lines').map fun told => (lines.length + told.1, told.2)) polygons' ↔
    List.Forall₂ (fun told =>
        List.Forall₂ (IsCorner (seen + points.length + seenAt lines' told.1)) told.2)
      (faceTokens lines') polygons' := by
  rw [List.forall₂_map_left_iff]
  simp only [seenAt_length_add, hLength, Nat.add_assoc]

theorem DepictsBehind.append (h : DepictsBehind seen lines points polygons)
    (h' : DepictsBehind (seen + points.length) lines' points' polygons') :
    DepictsBehind seen (lines ++ lines') (points ++ points') (polygons ++ polygons') := by
  constructor
  · rw [vertexTokens_append]
    exact List.rel_append h.vertices h'.vertices
  · rw [faceTokens_append]
    apply List.rel_append
    · refine forall₂_imp_of_mem h.faces fun told hTold polygon _ hPolygon => ?_
      rwa [seenAt_append (lt_length_of_mem_faceTokens hTold).le]
    · exact (forall₂_faceTokens_append h.vertices.length_eq).mpr h'.faces

/-- **Lines one below the other denote one after the other.** -/
theorem depictsBehind_append_iff {all : List Point} {allPolygons : List (List UInt32)} :
    DepictsBehind seen (lines ++ lines') all allPolygons ↔
      ∃ points points' polygons polygons', all = points ++ points' ∧
        allPolygons = polygons ++ polygons' ∧ DepictsBehind seen lines points polygons ∧
        DepictsBehind (seen + points.length) lines' points' polygons' := by
  constructor
  · intro h
    have hVertices := h.vertices
    have hFaces := h.faces
    rw [vertexTokens_append] at hVertices
    rw [faceTokens_append] at hFaces
    obtain ⟨points, points', hPoints, hPoints', rfl⟩ := exists_of_forall₂_append hVertices
    obtain ⟨polygons, polygons', hPolygons, hPolygons', rfl⟩ := exists_of_forall₂_append hFaces
    refine ⟨points, points', polygons, polygons', rfl, rfl, ⟨hPoints, ?_⟩, hPoints', ?_⟩
    · refine forall₂_imp_of_mem hPolygons fun told hTold polygon _ hPolygon => ?_
      rwa [seenAt_append (lt_length_of_mem_faceTokens hTold).le] at hPolygon
    · exact (forall₂_faceTokens_append hPoints.length_eq).mp hPolygons'
  · rintro ⟨points, points', polygons, polygons', rfl, rfl, h, h'⟩
    exact h.append h'

theorem depictsBehind_singleton_iff :
    DepictsBehind seen [line] points polygons ↔
      List.Forall₂ IsPoint (arguments? 'v' line).toList points ∧
      List.Forall₂ (List.Forall₂ (IsCorner seen)) (arguments? 'f' line).toList polygons := by
  have hFaces : faceTokens [line] = (arguments? 'f' line).toList.map fun tokens => (0, tokens) := by
    rw [← Option.toList_map]
    exact faceTokens_concat [] line
  have hIff : List.Forall₂ (fun told => List.Forall₂ (IsCorner (seen + seenAt [line] told.1)) told.2)
      (faceTokens [line]) polygons ↔
      List.Forall₂ (List.Forall₂ (IsCorner seen)) (arguments? 'f' line).toList polygons := by
    rw [hFaces, List.forall₂_map_left_iff]
    rfl
  rw [← vertexTokens_singleton, ← hIff]
  exact ⟨fun h => ⟨h.vertices, h.faces⟩, fun h => ⟨h.1, h.2⟩⟩

/-- Lines denote one mesh at most. -/
theorem DepictsBehind.unique (h : DepictsBehind seen lines points polygons)
    (h' : DepictsBehind seen lines points' polygons') : points = points' ∧ polygons = polygons' := by
  have hPoints : Relator.RightUnique IsPoint := fun _ _ _ hp hp' => hp.unique hp'
  have hCorners (k : Nat) : Relator.RightUnique (IsCorner (seen + seenAt lines k)) :=
    fun _ _ _ hi hi' => hi.unique hi'
  have hPolygons : Relator.RightUnique fun told : Nat × List (List Char) =>
      List.Forall₂ (IsCorner (seen + seenAt lines told.1)) told.2 :=
    fun told _ _ hp hp' => (hCorners told.1).forall₂ hp hp'
  exact ⟨hPoints.forall₂ h.vertices h'.vertices, hPolygons.forall₂ h.faces h'.faces⟩

/-- What was read of lines is what they denote below the vertices that were read before. -/
theorem depictsBehind_of_readLines {progress next : Progress} {number : Nat}
    (hRead : readLines progress lines number = .ok next) :
    ∃ points polygons, DepictsBehind progress.vertices.size lines points polygons ∧
      next.points = progress.points ++ points ∧ next.polygons = progress.polygons ++ polygons := by
  induction lines generalizing progress number with
  | nil =>
    obtain rfl := Except.ok.inj hRead
    exact ⟨[], [], depictsBehind_nil_iff.mpr ⟨rfl, rfl⟩, (List.append_nil _).symm,
      (List.append_nil _).symm⟩
  | cons line lines ih =>
    obtain ⟨middle, hLine, hRest⟩ := bind_eq_ok_iff.mp hRead
    rcases readLine_spec progress line number with
      ⟨-, points, polygons, hPoints, hPolygons, hNext⟩ | ⟨fault, -, hNext⟩
    · cases hNext.symm.trans hLine
      obtain ⟨points', polygons', hDepicts, hAll, hAllPolygons⟩ := ih hRest
      have hFirst := depictsBehind_singleton_iff.mpr ⟨hPoints, hPolygons⟩
      have hSize : (progress.add points number polygons).vertices.size =
          progress.vertices.size + points.length := by
        simp [Progress.add]
      rw [hSize] at hDepicts
      refine ⟨points ++ points', polygons ++ polygons', hFirst.append hDepicts, ?_, ?_⟩
      · rw [hAll, points_add, List.append_assoc]
      · rw [hAllPolygons, polygons_add, List.append_assoc]
    · cases hNext.symm.trans hLine

/-- Lines denote below any vertices what they carry, and nothing else. -/
theorem Carries.depictsBehind_iff {points' : List Point} {polygons' : List (List UInt32)}
    (h : Carries lines points polygons) :
    DepictsBehind seen lines points' polygons' ↔ points' = points ∧ polygons' = polygons := by
  have hDepicts : DepictsBehind seen lines points polygons := by
    let above : Progress := ⟨Array.replicate seen (Vec3.replicate 0), #[]⟩
    obtain ⟨next, hRead, hPoints, hPolygons⟩ := h above 1
    obtain ⟨told, toldPolygons, hDepicts, hTold, hToldPolygons⟩ := depictsBehind_of_readLines hRead
    rw [hPoints, List.append_cancel_left_eq] at hTold
    rw [hPolygons, List.append_cancel_left_eq] at hToldPolygons
    rw [hTold, hToldPolygons]
    simpa [above] using hDepicts
  constructor
  · intro h'
    exact h'.unique hDepicts
  · rintro ⟨rfl, rfl⟩
    exact hDepicts

/-! ### Lines without statements -/

theorem depictsBehind_of_not_isStatement (h : isStatement line = false) :
    DepictsBehind seen [line] points polygons ↔ points = [] ∧ polygons = [] := by
  rw [isStatement, Bool.or_eq_false_iff, Option.isSome_eq_false_iff, Option.isSome_eq_false_iff,
    Option.isNone_iff_eq_none, Option.isNone_iff_eq_none] at h
  rw [depictsBehind_singleton_iff, h.1, h.2]
  simp

/-- **Only statements denote something.** -/
theorem depictsBehind_filter_iff :
    DepictsBehind seen (lines.filter isStatement) points polygons ↔
      DepictsBehind seen lines points polygons := by
  induction lines generalizing seen points polygons with
  | nil => rw [List.filter_nil]
  | cons line lines ih =>
    rw [← List.singleton_append, List.filter_append, depictsBehind_append_iff,
      depictsBehind_append_iff]
    cases hLine : isStatement line with
    | true => simp only [List.filter_cons_of_pos hLine, List.filter_nil, ih]
    | false =>
      simp only [List.filter_cons_of_neg (Bool.eq_false_iff.mp hLine), List.filter_nil, ih,
        depictsBehind_nil_iff, depictsBehind_of_not_isStatement hLine]

end

/-! ### Written lines -/

theorem arguments?_of_words {keyword : Char} {line word : List Char} {words : List (List Char)}
    (h : Text.words line = word :: words) (hNe : word ≠ [keyword]) : arguments? keyword line = none := by
  rw [Option.eq_none_iff_forall_ne_some]
  intro tokens hTokens
  rw [arguments?_eq_some_iff, h] at hTokens
  exact hNe (List.cons.inj hTokens).1

theorem arguments?_vertexLine (p : Point) :
    arguments? 'v' (vertexLine p) = some (p.toList.map NumberStyle.plain.text) :=
  arguments?_eq_some_iff.mpr (words_vertexLine p)

theorem isStatement_comment (rest : List Char) : isStatement ('#' :: ' ' :: rest) = false := by
  rw [isStatement, arguments?_of_words (words_comment rest) (by decide),
    arguments?_of_words (words_comment rest) (by decide)]
  rfl

/-- The lines of a cube: its corners, its faces, and the empty line that ends it. -/
def geometryLines (cubeSize : Double) (base : Nat) (center : Point) : List (List Char) :=
  (cornersAt cubeSize center).map vertexLine ++ (faceLines base ++ [[]])

theorem blockLines_eq (cubeSize : Double) (base : Nat) (p : PlacedNode) :
    blockLines cubeSize base p = commentLines p.node ++ geometryLines cubeSize base p.position := by
  rw [blockLines, geometryLines, faceLines, List.append_assoc, List.append_assoc]

theorem vertexTokens_commentLines (n : Node) : vertexTokens (commentLines n) = [] := by
  rw [vertexTokens, List.filterMap_eq_nil_iff]
  intro line hLine
  obtain ⟨rest, rfl, -⟩ := mem_commentLines hLine
  exact arguments?_of_words (words_comment rest) (by decide)

theorem vertexTokens_faceLines (base : Nat) : vertexTokens (faceLines base) = [] := by
  rw [vertexTokens, List.filterMap_eq_nil_iff]
  intro line hLine
  obtain ⟨face, -, rfl⟩ := List.mem_map.mp hLine
  exact arguments?_of_words (words_faceLine _) (by decide)

theorem vertexTokens_geometryLines (cubeSize : Double) (base : Nat) (center : Point) :
    vertexTokens (geometryLines cubeSize base center) =
      (cornersAt cubeSize center).map fun corner => corner.toList.map NumberStyle.plain.text := by
  have hEnd : vertexTokens [[]] = [] := by decide
  rw [geometryLines, vertexTokens_append, vertexTokens_append, vertexTokens_faceLines, hEnd,
    List.append_nil, List.append_nil, vertexTokens, List.filterMap_map, ← List.filterMap_eq_map]
  exact congrArg (List.filterMap · _) (funext arguments?_vertexLine)

/-- **The vertices of a written layout are the corners of its cubes.** -/
theorem vertexTokens_lines (cubeSize : Double) (layout : Layout) :
    vertexTokens (lines cubeSize layout) =
      (layout.nodes.flatMap fun p => cornersAt cubeSize p.position).map fun corner =>
        corner.toList.map NumberStyle.plain.text := by
  have hBlock : ∀ base p, vertexTokens (blockLines cubeSize base p) =
      (cornersAt cubeSize p.position).map fun corner =>
        corner.toList.map NumberStyle.plain.text := by
    intro base p
    rw [blockLines_eq, vertexTokens_append, vertexTokens_commentLines, vertexTokens_geometryLines,
      List.nil_append]
  conv_rhs => rw [← List.zipIdx_map_fst 0 layout.nodes, List.flatMap_map, List.map_flatMap]
  rw [lines, vertexTokens, List.filterMap_flatMap]
  exact congrArg (List.flatMap · _) (funext fun p => hBlock _ _)

/-- **Texts with the same statements are read alike**, as the same mesh or both as none. -/
theorem toOption_read_of_statements {text text' : String}
    (h : (textLines text).filter isStatement = (textLines text').filter isStatement) :
    (read text).toOption = (read text').toOption := by
  have hDepicts : ∀ points polygons, Depicts (textLines text) points polygons ↔
      Depicts (textLines text') points polygons := by
    intro points polygons
    rw [← depictsBehind_zero_iff, ← depictsBehind_filter_iff, h, depictsBehind_filter_iff,
      depictsBehind_zero_iff]
  apply Option.ext
  intro mesh
  simp only [toOption_eq_some_iff, read_eq_ok_iff, hDepicts]

end Diorama.Obj
