import Diorama.Proofs.Geometry.Fans
import Diorama.Proofs.Obj.Lines
import Diorama.Proofs.Obj.Tokens

/-!
# What a text is read as

`Depicts lines points polygons` says which points and polygons lines denote, without saying how they
are gone through. Lines are gone through up to the first one that has a fault, and if there is none,
what was read is what they depict (`readLines_spec`). Then the faces are gone through up to the
first corner beyond the last vertex (`resolve_spec`). So a text is read as what its lines denote
(`read_eq_ok_iff`), and it is refused for its first fault, or for the first corner that is out of
range (`read_by_lines`).
-/

namespace Diorama.Obj

/-! ### Vertices and faces among lines -/

def textLines (text : String) : List (List Char) := text.toList.splitOn '\n'

/-- The tokens of the vertex lines. -/
def vertexTokens (lines : List (List Char)) : List (List (List Char)) :=
  lines.filterMap (arguments? 'v')

/-- The tokens of the face lines, each with the place of its line. -/
def faceTokens (lines : List (List Char)) : List (Nat × List (List Char)) :=
  lines.zipIdx.filterMap fun (line, k) => (arguments? 'f' line).map (k, ·)

/-- How many vertices stand above a line. -/
def seenAt (lines : List (List Char)) (k : Nat) : Nat := (vertexTokens (lines.take k)).length

/-- The vertices that the tokens of a face name. -/
def IsPolygon (lines : List (List Char)) (face : Nat × List (List Char)) (polygon : List UInt32) :
    Prop :=
  List.Forall₂ (IsCorner (seenAt lines face.1)) face.2 polygon

/-- The points that the vertex lines denote, and the polygons that the face lines denote. -/
structure Depicts (lines : List (List Char)) (points : List Point) (polygons : List (List UInt32)) :
    Prop where
  vertices : List.Forall₂ IsPoint (vertexTokens lines) points
  faces : List.Forall₂ (IsPolygon lines) (faceTokens lines) polygons

/-- A face as it was read: the number of its line, and its corners. -/
structure IsFaceOf (lines : List (List Char)) (told : Nat × List (List Char)) (face : Face) :
    Prop where
  line : face.line = told.1 + 1
  polygon : IsPolygon lines told face.indices

/-- What was read of lines. -/
structure Accounts (lines : List (List Char)) (progress : Progress) : Prop where
  vertices : List.Forall₂ IsPoint (vertexTokens lines) progress.points
  faces : List.Forall₂ (IsFaceOf lines) (faceTokens lines) progress.faces.toList

def IsSoundAt (lines : List (List Char)) (k : Nat) : Prop :=
  ∀ line ∈ lines[k]?, IsSound (seenAt lines k) line

/-- The vertices that the tokens name are among the first `count`. -/
def IsInRange (seen count : Nat) (tokens : List (List Char)) : Prop :=
  ∀ token ∈ tokens, ∀ index, IsCorner seen token index → index.toNat < count

/-- The corners of the face on this line, if there is one, are vertices of the lines. -/
def IsInRangeAt (lines : List (List Char)) (k : Nat) : Prop :=
  ∀ tokens, (k, tokens) ∈ faceTokens lines →
    IsInRange (seenAt lines k) (vertexTokens lines).length tokens

/-- This line has a fault, and no line above it has one. -/
structure IsFirstFault (lines : List (List Char)) (k : Nat) (fault : Fault) : Prop where
  fault : ∃ line ∈ lines[k]?, HasFault (seenAt lines k) line fault
  above : ∀ j < k, IsSoundAt lines j

/-- This is the first corner beyond the last vertex: the corners told before it on its line are in
range, and so are the faces above. -/
structure IsFirstOutside (lines : List (List Char)) (k : Nat) (index : UInt32) : Prop where
  corner : ∃ before token after, (k, before ++ token :: after) ∈ faceTokens lines ∧
    IsCorner (seenAt lines k) token index ∧
    IsInRange (seenAt lines k) (vertexTokens lines).length before
  outside : (vertexTokens lines).length ≤ index.toNat
  above : ∀ j < k, IsInRangeAt lines j

/-! ### One more line -/

section

variable {lines lines' : List (List Char)} {line : List Char} {k : Nat}

theorem vertexTokens_append (lines lines' : List (List Char)) :
    vertexTokens (lines ++ lines') = vertexTokens lines ++ vertexTokens lines' :=
  List.filterMap_append

theorem vertexTokens_singleton (line : List Char) :
    vertexTokens [line] = (arguments? 'v' line).toList := by
  rw [vertexTokens]
  cases h : arguments? 'v' line <;> simp [h]

theorem mem_faceTokens_iff {tokens : List (List Char)} :
    (k, tokens) ∈ faceTokens lines ↔ ∃ line ∈ lines[k]?, arguments? 'f' line = some tokens := by
  rw [faceTokens, List.mem_filterMap]
  constructor
  · rintro ⟨⟨line, i⟩, hLine, hTokens⟩
    obtain ⟨tokens, hFace, hPair⟩ := Option.map_eq_some_iff.mp hTokens
    cases hPair
    exact ⟨line, List.mk_mem_zipIdx_iff_getElem?.mp hLine, hFace⟩
  · rintro ⟨line, hLine, hFace⟩
    refine ⟨(line, k), List.mk_mem_zipIdx_iff_getElem?.mpr hLine, ?_⟩
    simp [hFace]

theorem lt_length_of_mem_faceTokens {tokens : List (List Char)}
    (h : (k, tokens) ∈ faceTokens lines) : k < lines.length := by
  obtain ⟨line, hLine, -⟩ := mem_faceTokens_iff.mp h
  exact (List.getElem?_eq_some_iff.mp hLine).1

theorem faceTokens_concat (lines : List (List Char)) (line : List Char) :
    faceTokens (lines ++ [line]) =
      faceTokens lines ++ ((arguments? 'f' line).map (lines.length, ·)).toList := by
  rw [faceTokens, List.zipIdx_append, List.filterMap_append, faceTokens, Nat.zero_add]
  cases h : arguments? 'f' line <;> simp [h]

theorem pairwise_faceTokens (lines : List (List Char)) :
    (faceTokens lines).Pairwise (·.1 < ·.1) := by
  induction lines using List.reverseRecOn with
  | nil => exact .nil
  | append_singleton lines line ih =>
    rw [faceTokens_concat, List.pairwise_append]
    refine ⟨ih, ?_, ?_⟩
    · cases arguments? 'f' line <;> simp
    · intro told hTold last hLast
      obtain ⟨tokens, -, rfl⟩ := Option.map_eq_some_iff.mp (Option.mem_toList.mp hLast)
      exact lt_length_of_mem_faceTokens hTold

/-- A face above another one comes before it. -/
theorem mem_of_lt_of_faceTokens_eq {before after : List (Nat × List (List Char))}
    {tokens others : List (List Char)} {j : Nat}
    (hSplit : faceTokens lines = before ++ (k, tokens) :: after)
    (hMem : (j, others) ∈ faceTokens lines) (hLt : j < k) : (j, others) ∈ before := by
  have hOrder := pairwise_faceTokens lines
  rw [hSplit] at hMem hOrder
  rcases List.mem_append.mp hMem with hMem | hMem
  · exact hMem
  · have hLater := (List.pairwise_cons.mp (List.pairwise_append.mp hOrder).2.1).1
    rcases List.mem_cons.mp hMem with hSame | hMem
    · cases hSame
      omega
    · have hAfter : k < j := hLater _ hMem
      omega

theorem seenAt_append (h : k ≤ lines.length) : seenAt (lines ++ lines') k = seenAt lines k := by
  rw [seenAt, List.take_append_of_le_length h, seenAt]

theorem seenAt_length (lines lines' : List (List Char)) :
    seenAt (lines ++ lines') lines.length = (vertexTokens lines).length := by
  rw [seenAt, List.take_left]

theorem isPolygon_append {face : Nat × List (List Char)} {polygon : List UInt32}
    (h : face.1 ≤ lines.length) :
    IsPolygon (lines ++ lines') face polygon ↔ IsPolygon lines face polygon := by
  rw [IsPolygon, seenAt_append h, IsPolygon]

theorem isSoundAt_append (h : k < lines.length) :
    IsSoundAt (lines ++ lines') k ↔ IsSoundAt lines k := by
  rw [IsSoundAt, List.getElem?_append_left h, seenAt_append h.le, IsSoundAt]

theorem isSoundAt_concat (hLines : ∀ k, IsSoundAt lines k)
    (hLine : IsSound (vertexTokens lines).length line) (k : Nat) :
    IsSoundAt (lines ++ [line]) k := by
  rcases lt_trichotomy k lines.length with hk | rfl | hk
  · exact (isSoundAt_append hk).mpr (hLines k)
  · intro last hLast
    rw [List.getElem?_concat_length, Option.mem_some_iff] at hLast
    rwa [seenAt_length, ← hLast]
  · intro last hLast
    have hLt := (List.getElem?_eq_some_iff.mp hLast).1
    rw [List.length_append, List.length_singleton] at hLt
    omega

theorem IsFirstFault.append {fault : Fault} (h : IsFirstFault lines k fault)
    (lines' : List (List Char)) : IsFirstFault (lines ++ lines') k fault := by
  obtain ⟨⟨line, hLine, hFault⟩, hAbove⟩ := h
  have hk : k < lines.length := (List.getElem?_eq_some_iff.mp hLine).1
  refine ⟨⟨line, ?_, ?_⟩, fun j hj => ?_⟩
  · rwa [List.getElem?_append_left hk]
  · rwa [seenAt_append hk.le]
  · exact (isSoundAt_append (hj.trans hk)).mpr (hAbove j hj)

end

theorem points_add (progress : Progress) (points : List Point) (number : Nat)
    (polygons : List (List UInt32)) :
    (progress.add points number polygons).points = progress.points ++ points := by
  simp [Progress.points, Progress.add]

theorem faces_add (progress : Progress) (points : List Point) (number : Nat)
    (polygons : List (List UInt32)) :
    (progress.add points number polygons).faces.toList =
      progress.faces.toList ++ polygons.map (Face.mk number) := by
  simp [Progress.add]

theorem polygons_add (progress : Progress) (points : List Point) (number : Nat)
    (polygons : List (List UInt32)) :
    (progress.add points number polygons).polygons = progress.polygons ++ polygons := by
  rw [Progress.polygons, faces_add, List.map_append, List.map_map]
  exact congrArg (progress.polygons ++ ·) (List.map_id _)

section

variable {lines : List (List Char)} {line : List Char} {progress : Progress}

theorem IsFaceOf.append {told : Nat × List (List Char)} {face : Face} (h : IsFaceOf lines told face)
    (hTold : told ∈ faceTokens lines) (lines' : List (List Char)) :
    IsFaceOf (lines ++ lines') told face :=
  ⟨h.line, (isPolygon_append (lt_length_of_mem_faceTokens hTold).le).mpr h.polygon⟩

theorem accounts_nil : Accounts [] ⟨#[], #[]⟩ := ⟨.nil, .nil⟩

theorem Accounts.size_vertices (h : Accounts lines progress) :
    progress.vertices.size = (vertexTokens lines).length := by
  rw [h.vertices.length_eq, Progress.points, Array.length_toList]

theorem Accounts.add (h : Accounts lines progress) {points : List Point}
    {polygons : List (List UInt32)}
    (hPoints : List.Forall₂ IsPoint (arguments? 'v' line).toList points)
    (hPolygons : List.Forall₂ (List.Forall₂ (IsCorner progress.vertices.size))
      (arguments? 'f' line).toList polygons) :
    Accounts (lines ++ [line]) (progress.add points (lines.length + 1) polygons) := by
  constructor
  · rw [vertexTokens_append, vertexTokens_singleton, points_add]
    exact List.rel_append h.vertices hPoints
  · rw [faceTokens_concat, faces_add, Option.toList_map]
    refine List.rel_append ?_ ?_
    · exact forall₂_imp_of_mem h.faces fun told hTold face _ hFace => hFace.append hTold [line]
    · rw [List.forall₂_map_left_iff, List.forall₂_map_right_iff]
      refine hPolygons.imp fun tokens polygon hPolygon => ⟨rfl, ?_⟩
      rwa [IsPolygon, seenAt_length, ← h.size_vertices]

/-! ### All lines -/

theorem readLines_concat (progress : Progress) (lines : List (List Char)) (line : List Char)
    (number : Nat) :
    readLines progress (lines ++ [line]) number =
      readLines progress lines number >>= (readLine · line (number + lines.length)) := by
  rw [readLines, List.zipIdx_append, List.foldlM_append]
  simp [readLines]

/-- **Lines are gone through up to the first fault.** If there is none, all that they denote was
read. -/
theorem readLines_spec (lines : List (List Char)) :
    (∃ progress, readLines ⟨#[], #[]⟩ lines 1 = .ok progress ∧ Accounts lines progress ∧
      ∀ k, IsSoundAt lines k) ∨
    ∃ k fault, readLines ⟨#[], #[]⟩ lines 1 = .error ⟨k + 1, fault⟩ ∧
      IsFirstFault lines k fault := by
  induction lines using List.reverseRecOn with
  | nil => exact .inl ⟨⟨#[], #[]⟩, rfl, accounts_nil, fun k line hLine => nomatch hLine⟩
  | append_singleton lines line ih =>
    rw [readLines_concat]
    rcases ih with ⟨progress, hRead, hAccounts, hSound⟩ | ⟨k, fault, hRead, hFirst⟩
    · have hSize := hAccounts.size_vertices
      rw [hRead, ok_bind, Nat.add_comm 1]
      rcases readLine_spec progress line (lines.length + 1) with
        ⟨hLine, points, polygons, hPoints, hPolygons, hNext⟩ | ⟨fault, hFault, hNext⟩
      · rw [hSize] at hLine
        exact .inl ⟨_, hNext, hAccounts.add hPoints hPolygons, isSoundAt_concat hSound hLine⟩
      · refine .inr ⟨lines.length, fault, hNext, ⟨line, by simp, ?_⟩, fun j hj => ?_⟩
        · rwa [seenAt_length, ← hSize]
        · exact (isSoundAt_append hj).mpr (hSound j)
    · rw [hRead]
      exact .inr ⟨k, fault, rfl, hFirst.append [line]⟩

/-! ### Corners against the number of vertices -/

theorem resolveFace_eq_error_iff {count : Nat} {face : Face} {fault : LineFault} :
    resolveFace count face = .error fault ↔
      ∃ before index after, face.indices = before ++ index :: after ∧
        (∀ i ∈ before, i.toNat < count) ∧ count ≤ index.toNat ∧
        fault = ⟨face.line, .indexOutOfRange (index.toNat + 1) count⟩ := by
  rw [resolveFace]
  constructor
  · intro h
    cases hFind : face.indices.find? (count ≤ ·.toNat) with
    | none => simp [hFind] at h
    | some index =>
      obtain ⟨hOutside, before, after, hSplit, hBefore⟩ := List.find?_eq_some_iff_append.mp hFind
      simp only [hFind, Except.error.injEq] at h
      refine ⟨before, index, after, hSplit, ?_, of_decide_eq_true hOutside, h.symm⟩
      simpa using hBefore
  · rintro ⟨before, index, after, hSplit, hBefore, hOutside, rfl⟩
    have hFind : face.indices.find? (count ≤ ·.toNat) = some index :=
      List.find?_eq_some_iff_append.mpr
        ⟨decide_eq_true hOutside, before, after, hSplit, by simpa using hBefore⟩
    rw [hFind]

theorem isInRange_iff {seen count : Nat} {tokens : List (List Char)} {polygon : List UInt32}
    (h : List.Forall₂ (IsCorner seen) tokens polygon) :
    IsInRange seen count tokens ↔ ∀ index ∈ polygon, index.toNat < count := by
  induction h with
  | nil => simp [IsInRange]
  | @cons token index tokens polygon hToken _ ih =>
    have hFirst : (∀ i, IsCorner seen token i → i.toNat < count) ↔ index.toNat < count := by
      constructor
      · intro hAll
        exact hAll index hToken
      · intro hIndex i hi
        rwa [hi.unique hToken]
    rw [IsInRange, List.forall_mem_cons, hFirst, ← IsInRange, ih, List.forall_mem_cons]

/-- **Faces are gone through up to the first corner that is out of range.** -/
theorem resolve_spec (h : Accounts lines progress) :
    (progress.faces.toList.mapM (resolveFace progress.vertices.size) =
        .ok (progress.polygons.map triangulate) ∧
      ∀ k, IsInRangeAt lines k) ∨
    ∃ k index, progress.faces.toList.mapM (resolveFace progress.vertices.size) =
        .error ⟨k + 1, .indexOutOfRange (index.toNat + 1) (vertexTokens lines).length⟩ ∧
      IsFirstOutside lines k index := by
  rw [h.size_vertices]
  cases hResolve : progress.faces.toList.mapM (resolveFace (vertexTokens lines).length) with
  | ok results =>
    left
    have hFaces := mapM_eq_ok_iff.mp hResolve
    simp only [resolveFace_eq_ok_iff] at hFaces
    have hRange := ((List.forall₂_and_left _ _).mp hFaces).1
    constructor
    · rw [← hResolve, Progress.polygons, List.map_map]
      exact mapM_eq_ok fun face hFace => resolveFace_eq_ok_iff.mpr ⟨hRange face hFace, rfl⟩
    · intro k tokens hTokens
      obtain ⟨face, hFace, hTold⟩ := exists_of_mem_forall₂ h.faces hTokens
      exact (isInRange_iff hTold.polygon).mpr (hRange face hFace)
  | error fault =>
    right
    obtain ⟨before, face, after, hSplit, hBefore, hFault⟩ := mapM_eq_error_iff.mp hResolve
    obtain ⟨inside, index, others, hIndices, hInside, hOutside, rfl⟩ :=
      resolveFace_eq_error_iff.mp hFault
    have hFaces := h.faces
    rw [hSplit] at hFaces
    obtain ⟨toldBefore, ⟨k, tokens⟩, toldAfter, hTold, hAbove, hFace⟩ :=
      exists_of_forall₂_append_cons hFaces
    have hPolygon := hFace.polygon
    rw [IsPolygon, hIndices] at hPolygon
    obtain ⟨tokensBefore, token, tokensAfter, rfl, hCorners, hCorner⟩ :=
      exists_of_forall₂_append_cons hPolygon
    rw [hFace.line]
    refine ⟨k, index, rfl, ⟨tokensBefore, token, tokensAfter, ?_, hCorner, ?_⟩, hOutside, ?_⟩
    · simp [hTold]
    · exact (isInRange_iff hCorners).mpr hInside
    · intro j hj others hOthers
      obtain ⟨above, hMem, hFaceAbove⟩ :=
        exists_of_mem_forall₂ hAbove (mem_of_lt_of_faceTokens_eq hTold hOthers hj)
      obtain ⟨triangles, hTriangles⟩ := hBefore above hMem
      exact (isInRange_iff hFaceAbove.polygon).mpr (resolveFace_eq_ok_iff.mp hTriangles).1

/-! ### Texts -/

theorem Accounts.depicts (h : Accounts lines progress) :
    Depicts lines progress.points progress.polygons := by
  refine ⟨h.vertices, ?_⟩
  rw [Progress.polygons, List.forall₂_map_right_iff]
  exact h.faces.imp fun _ _ hFace => hFace.polygon

theorem Depicts.isSoundAt {points : List Point} {polygons : List (List UInt32)}
    (h : Depicts lines points polygons) (k : Nat) : IsSoundAt lines k := by
  intro line hLine
  constructor
  · intro tokens hTokens
    have hMem : tokens ∈ vertexTokens lines :=
      List.mem_filterMap.mpr ⟨line, List.mem_of_getElem? hLine, hTokens⟩
    obtain ⟨p, -, hPoint⟩ := exists_of_mem_forall₂ h.vertices hMem
    exact ⟨p, hPoint⟩
  · intro tokens hTokens token hToken
    obtain ⟨polygon, -, hPolygon⟩ :=
      exists_of_mem_forall₂ h.faces (mem_faceTokens_iff.mpr ⟨line, hLine, hTokens⟩)
    obtain ⟨index, -, hCorner⟩ := exists_of_mem_forall₂ hPolygon hToken
    exact ⟨index, hCorner⟩

theorem Depicts.isInRangeAt {points : List Point} {polygons : List (List UInt32)}
    (h : Depicts lines points polygons)
    (hRange : ∀ polygon ∈ polygons, ∀ index ∈ polygon, index.toNat < points.length) (k : Nat) :
    IsInRangeAt lines k := by
  intro tokens hTokens
  obtain ⟨polygon, hMem, hPolygon⟩ := exists_of_mem_forall₂ h.faces hTokens
  rw [h.vertices.length_eq]
  exact (isInRange_iff hPolygon).mpr (hRange polygon hMem)

theorem Depicts.lt_length {points : List Point} {polygons : List (List UInt32)}
    (h : Depicts lines points polygons) (hRange : ∀ k, IsInRangeAt lines k) :
    ∀ polygon ∈ polygons, ∀ index ∈ polygon, index.toNat < points.length := by
  intro polygon hMem
  obtain ⟨told, hTold, hPolygon⟩ := exists_of_mem_forall₂ h.faces.flip hMem
  rw [← h.vertices.length_eq]
  exact (isInRange_iff hPolygon).mp (hRange told.1 told.2 hTold)

theorem IsPoint.unique {tokens : List (List Char)} {p p' : Point} (h : IsPoint tokens p)
    (h' : IsPoint tokens p') : p = p' :=
  Except.ok.inj ((vertex_eq_ok_iff.mpr h).symm.trans (vertex_eq_ok_iff.mpr h'))

theorem IsPolygon.unique {told : Nat × List (List Char)} {polygon polygon' : List UInt32}
    (h : IsPolygon lines told polygon) (h' : IsPolygon lines told polygon') :
    polygon = polygon' := by
  have hCorners : Relator.RightUnique (IsCorner (seenAt lines told.1)) :=
    fun _ _ _ hi hi' => hi.unique hi'
  exact hCorners.forall₂ h h'

/-- Lines depict one mesh at most. -/
theorem Depicts.unique {points points' : List Point} {polygons polygons' : List (List UInt32)}
    (h : Depicts lines points polygons) (h' : Depicts lines points' polygons') :
    points = points' ∧ polygons = polygons' := by
  have hPoints : Relator.RightUnique IsPoint := fun _ _ _ hp hp' => hp.unique hp'
  have hPolygons : Relator.RightUnique (IsPolygon lines) := fun _ _ _ hp hp' => hp.unique hp'
  exact ⟨hPoints.forall₂ h.vertices h'.vertices, hPolygons.forall₂ h.faces h'.faces⟩

end

theorem read_eq (text : String) :
    read text = readLines ⟨#[], #[]⟩ (textLines text) 1 >>= fun progress =>
      progress.faces.toList.mapM (resolveFace progress.vertices.size) >>= fun triangles =>
        .ok ⟨progress.points, triangles.flatten⟩ := rfl

theorem read_spec (text : String) :
    (∃ points polygons, Depicts (textLines text) points polygons ∧
      (∀ k, IsInRangeAt (textLines text) k) ∧
      read text = .ok ⟨points, polygons.flatMap triangulate⟩) ∨
    (∃ k fault, IsFirstFault (textLines text) k fault ∧ read text = .error ⟨k + 1, fault⟩) ∨
    (∀ k, IsSoundAt (textLines text) k) ∧ ∃ k index, IsFirstOutside (textLines text) k index ∧
      read text = .error ⟨k + 1,
        .indexOutOfRange (index.toNat + 1) (vertexTokens (textLines text)).length⟩ := by
  rw [read_eq]
  rcases readLines_spec (textLines text) with
    ⟨progress, hRead, hAccounts, hSound⟩ | ⟨k, fault, hRead, hFirst⟩
  · rw [hRead, ok_bind]
    rcases resolve_spec hAccounts with ⟨hResolve, hRange⟩ | ⟨k, index, hResolve, hFirst⟩
    · rw [hResolve, ok_bind]
      exact .inl ⟨_, _, hAccounts.depicts, hRange, rfl⟩
    · rw [hResolve]
      exact .inr (.inr ⟨hSound, k, index, hFirst, rfl⟩)
  · rw [hRead]
    exact .inr (.inl ⟨k, fault, hFirst, rfl⟩)

theorem IsFirstFault.not_isSoundAt {lines : List (List Char)} {k : Nat} {fault : Fault}
    (h : IsFirstFault lines k fault) : ¬ IsSoundAt lines k := by
  obtain ⟨line, hLine, hFault⟩ := h.fault
  intro hSound
  exact hFault.not_isSound (hSound line hLine)

theorem IsFirstOutside.not_isInRangeAt {lines : List (List Char)} {k : Nat} {index : UInt32}
    (h : IsFirstOutside lines k index) : ¬ IsInRangeAt lines k := by
  obtain ⟨before, token, after, hFace, hCorner, -⟩ := h.corner
  have hOutside := h.outside
  intro hRange
  have hInside := hRange _ hFace token (by simp) index hCorner
  omega

/-- An accepted mesh is what the lines depict, its polygons fanned into triangles. -/
theorem read_eq_ok_iff {text : String} {mesh : Mesh} :
    read text = .ok mesh ↔ ∃ polygons, Depicts (textLines text) mesh.vertices polygons ∧
      (∀ polygon ∈ polygons, ∀ index ∈ polygon, index.toNat < mesh.vertices.length) ∧
      mesh.triangles = polygons.flatMap triangulate := by
  constructor
  · intro h
    rcases read_spec text with ⟨points, polygons, hDepicts, hRange, hRead⟩ | ⟨k, fault, -, hRead⟩ |
      ⟨-, k, index, -, hRead⟩
    · cases hRead.symm.trans h
      exact ⟨polygons, hDepicts, hDepicts.lt_length hRange, rfl⟩
    · cases hRead.symm.trans h
    · cases hRead.symm.trans h
  · rintro ⟨polygons, hDepicts, hRange, hTriangles⟩
    rcases read_spec text with ⟨points, polygons', hDepicts', -, hRead⟩ | ⟨k, fault, hFirst, -⟩ |
      ⟨-, k, index, hFirst, -⟩
    · obtain ⟨rfl, rfl⟩ := hDepicts.unique hDepicts'
      rw [hRead, ← hTriangles]
    · exact absurd (hDepicts.isSoundAt k) hFirst.not_isSoundAt
    · exact absurd (hDepicts.isInRangeAt hRange k) hFirst.not_isInRangeAt

/-- **A text is read as what its lines denote.** It is accepted exactly if no line has a fault and
no corner is beyond the last vertex of the text; then the mesh has the points of the vertex lines,
and the fans of the faces. Otherwise it is refused for its first fault, and if it has none, for its
first corner that is out of range. -/
theorem read_by_lines (text : String) :
    ((∃ mesh, read text = .ok mesh) ↔
      (∀ k, IsSoundAt (textLines text) k) ∧ ∀ k, IsInRangeAt (textLines text) k) ∧
    (∀ mesh, read text = .ok mesh →
      List.Forall₂ IsPoint (vertexTokens (textLines text)) mesh.vertices ∧
      (∃ polygons fans,
        List.Forall₂ (IsPolygon (textLines text)) (faceTokens (textLines text)) polygons ∧
        List.Forall₂ IsFan polygons fans ∧ mesh.triangles = fans.flatten) ∧
      ∀ index ∈ mesh.indices, index.toNat < mesh.vertices.length) ∧
    ∀ fault, read text = .error fault →
      (∃ k, fault.line = k + 1 ∧ ¬ IsSoundAt (textLines text) k ∧
        IsFirstFault (textLines text) k fault.fault) ∨
      (∀ k, IsSoundAt (textLines text) k) ∧ ∃ k index, fault = ⟨k + 1,
          .indexOutOfRange (index.toNat + 1) (vertexTokens (textLines text)).length⟩ ∧
        ¬ IsInRangeAt (textLines text) k ∧ IsFirstOutside (textLines text) k index := by
  refine ⟨⟨?_, ?_⟩, ?_, ?_⟩
  · rintro ⟨mesh, hRead⟩
    obtain ⟨polygons, hDepicts, hRange, -⟩ := read_eq_ok_iff.mp hRead
    exact ⟨hDepicts.isSoundAt, hDepicts.isInRangeAt hRange⟩
  · rintro ⟨hSound, hRange⟩
    rcases read_spec text with ⟨points, polygons, -, -, hRead⟩ | ⟨k, fault, hFirst, -⟩ |
      ⟨-, k, index, hFirst, -⟩
    · exact ⟨_, hRead⟩
    · exact absurd (hSound k) hFirst.not_isSoundAt
    · exact absurd (hRange k) hFirst.not_isInRangeAt
  · intro mesh hRead
    obtain ⟨polygons, hDepicts, -, hTriangles⟩ := read_eq_ok_iff.mp hRead
    refine ⟨hDepicts.vertices, ⟨polygons, polygons.map triangulate, hDepicts.faces, ?_, ?_⟩,
      (read_eq_ok hRead).2⟩
    · rw [List.forall₂_map_right_iff, List.forall₂_same]
      exact fun polygon _ => isFan_triangulate polygon
    · rw [hTriangles, List.flatMap_def]
  · intro fault hRead
    rcases read_spec text with ⟨points, polygons, -, -, hOther⟩ | ⟨k, fault', hFirst, hOther⟩ |
      ⟨hSound, k, index, hFirst, hOther⟩
    · cases hOther.symm.trans hRead
    · cases hOther.symm.trans hRead
      exact .inl ⟨k, rfl, hFirst.not_isSoundAt, hFirst⟩
    · cases hOther.symm.trans hRead
      exact .inr ⟨hSound, k, index, rfl, hFirst.not_isInRangeAt, hFirst⟩

-- The second line names a vertex that the text does not have, but the third one has a fault.
example : read "v 0 0 0\nf 1 1 2\nf 1 0 1" = .error ⟨3, .zeroIndex⟩ := by decide +kernel

end Diorama.Obj
