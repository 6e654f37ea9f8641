import Diorama.Proofs.Obj.Account

/-!
# Texts that differ in their interleaving

A positive index does not depend on what stands above its line
(`isCorner_iff_of_isPositiveNumeral`). So lines whose indices are all positive depict what the
coordinates of their vertex lines and the indices of their face lines say, each for itself
(`depicts_iff`), and texts that agree in these are read alike, however their lines follow each other
(`read_interleaved`).
-/

namespace Diorama.Obj

/-- The coordinates of the vertex lines. -/
def coordinateTexts (lines : List (List Char)) : List (List (List Char)) :=
  (vertexTokens lines).map (List.take 3)

/-- The indices of the face lines. -/
def cornerTexts (lines : List (List Char)) : List (List (List Char)) :=
  (faceTokens lines).map fun told => told.2.map indexText

/-- What follows a leading plus. -/
def dropPlus (text : List Char) : List Char := if text.head? = some '+' then text.tail else text

/-- Digits, maybe behind a plus, that denote a number above zero, however large. -/
def IsPositiveNumeral (text : List Char) : Prop :=
  dropPlus text ≠ [] ∧ (dropPlus text).all Char.isDigit = true ∧ 0 < natOfDigits (dropPlus text)

instance (text : List Char) : Decidable (IsPositiveNumeral text) :=
  inferInstanceAs (Decidable (_ ∧ _ ∧ _))

/-! ### Positive indices -/

section

variable {text token : List Char} {index : UInt32} {seen : Nat}

theorem dropPlus_of_all_isDigit (h : text.all Char.isDigit = true) : dropPlus text = text := by
  refine if_neg fun hPlus => ?_
  obtain ⟨rest, rfl⟩ := List.head?_eq_some_iff.mp hPlus
  cases h

theorem IsPositiveNumeral.pos (h : IsPositiveNumeral text) {value : Int}
    (hInt : IsInt64 text value) : 0 < value := by
  obtain ⟨-, hDigits, hPos⟩ := h
  obtain ⟨digits, -, hAll, hSigned⟩ := hInt.numeral
  cases hSigned with
  | unsigned =>
    rw [dropPlus_of_all_isDigit hAll] at hPos
    exact Int.natCast_pos.mpr hPos
  | plus => exact Int.natCast_pos.mpr hPos
  | minus => cases hDigits

theorem indexText_indexText (token : List Char) :
    indexText (indexText token) = indexText token := by
  refine List.takeWhile_eq_self_iff.mpr fun c hc => ?_
  rw [indexText] at hc
  simpa using List.mem_takeWhile_imp hc

theorem isCorner_iff_of_isPositiveNumeral (h : IsPositiveNumeral (indexText token)) :
    IsCorner seen token index ↔ IsCorner 0 (indexText token) index := by
  rw [IsCorner, IsCorner, indexText_indexText]
  refine exists_congr fun value => and_congr_right fun hInt => ?_
  rw [vertexPlace, vertexPlace, if_pos (h.pos hInt), if_pos (h.pos hInt)]

theorem isPoint_take_iff {tokens : List (List Char)} {p : Point} :
    IsPoint (tokens.take 3) p ↔ IsPoint tokens p := by
  refine forall_congr' fun axis => ?_
  have hPlace : axis.place < 3 := by cases axis <;> decide
  rw [List.getElem?_take_of_lt hPlace]

end

section

variable {lines : List (List Char)}

theorem isPolygon_iff {told : Nat × List (List Char)} {polygon : List UInt32}
    (hPositive : ∀ corner ∈ told.2.map indexText, IsPositiveNumeral corner) :
    IsPolygon lines told polygon ↔
      List.Forall₂ (IsCorner 0) (told.2.map indexText) polygon := by
  rw [List.forall₂_map_left_iff]
  refine forall₂_congr_of_mem fun token hToken index _ => ?_
  exact isCorner_iff_of_isPositiveNumeral (hPositive _ (List.mem_map_of_mem hToken))

/-- What lines depict depends on their coordinates and their indices alone. -/
theorem depicts_iff (hPositive : ∀ corners ∈ cornerTexts lines, ∀ corner ∈ corners,
      IsPositiveNumeral corner) {points : List Point} {polygons : List (List UInt32)} :
    Depicts lines points polygons ↔
      List.Forall₂ IsPoint (coordinateTexts lines) points ∧
      List.Forall₂ (List.Forall₂ (IsCorner 0)) (cornerTexts lines) polygons := by
  have hVertices : List.Forall₂ IsPoint (vertexTokens lines) points ↔
      List.Forall₂ IsPoint (coordinateTexts lines) points := by
    rw [coordinateTexts, List.forall₂_map_left_iff]
    exact forall₂_congr_of_mem fun tokens _ p _ => isPoint_take_iff.symm
  have hFaces : List.Forall₂ (IsPolygon lines) (faceTokens lines) polygons ↔
      List.Forall₂ (List.Forall₂ (IsCorner 0)) (cornerTexts lines) polygons := by
    rw [cornerTexts, List.forall₂_map_left_iff]
    refine forall₂_congr_of_mem fun told hTold polygon _ => ?_
    exact isPolygon_iff (hPositive _ (List.mem_map_of_mem hTold))
  rw [← hVertices, ← hFaces]
  exact ⟨fun h => ⟨h.vertices, h.faces⟩, fun h => ⟨h.1, h.2⟩⟩

end

/-- **Only the coordinates and the indices count.** Texts with positive indices that agree in the
first three coordinates of each vertex line, and in the indices of each face line, are both refused
or read as the same mesh, whatever other lines they have and however their lines follow each other.
-/
theorem read_interleaved {text text' : String}
    (hVertices : coordinateTexts (textLines text) = coordinateTexts (textLines text'))
    (hFaces : cornerTexts (textLines text) = cornerTexts (textLines text'))
    (hPositive : ∀ corners ∈ cornerTexts (textLines text), ∀ corner ∈ corners,
      IsPositiveNumeral corner) :
    (read text).toOption = (read text').toOption := by
  have hDepicts : ∀ points polygons, Depicts (textLines text) points polygons ↔
      Depicts (textLines text') points polygons := by
    intro points polygons
    rw [depicts_iff hPositive, depicts_iff (hFaces ▸ hPositive), hVertices, hFaces]
  have hRead : ∀ mesh, read text = .ok mesh ↔ read text' = .ok mesh := by
    intro mesh
    simp only [read_eq_ok_iff, hDepicts]
  refine Option.ext fun mesh => ?_
  rw [toOption_eq_some_iff, toOption_eq_some_iff, hRead]

/-- A triangle, its vertices first. -/
def tidyText : String := "v 0 0 0\nv 1 0 0\nv 0 1 0\nf 1 2 3\n"

/-- The same triangle among other lines that end in carriage returns, its face first. -/
def untidyText : String :=
  "# moved\r\nf 1/4 2//7 3\r\nv 0 0 0 9\r\nvn 0 0 1\r\n\r\nv 1 0 0 0.5\r\no shape\r\n v 0 1 0\r\n"

theorem read_interleaved_untidyText :
    coordinateTexts (textLines tidyText) = coordinateTexts (textLines untidyText) ∧
      cornerTexts (textLines tidyText) = cornerTexts (textLines untidyText) ∧
      (∀ corners ∈ cornerTexts (textLines tidyText), ∀ corner ∈ corners, IsPositiveNumeral corner) ∧
      (∃ mesh, read tidyText = .ok mesh ∧ mesh.triangles = [⟨0, 1, 2⟩]) ∧
      (read tidyText).toOption = (read untidyText).toOption := by
  have hVertices : coordinateTexts (textLines tidyText) =
      coordinateTexts (textLines untidyText) := by
    decide +kernel
  have hFaces : cornerTexts (textLines tidyText) = cornerTexts (textLines untidyText) := by
    decide +kernel
  have hPositive : ∀ corners ∈ cornerTexts (textLines tidyText), ∀ corner ∈ corners,
      IsPositiveNumeral corner := by
    decide +kernel
  have hTidy : ((read tidyText).toOption.any fun mesh => mesh.triangles = [⟨0, 1, 2⟩]) = true := by
    decide +kernel
  obtain ⟨mesh, hMesh, hTriangles⟩ := exists_eq_ok_of_any hTidy
  exact ⟨hVertices, hFaces, hPositive, ⟨mesh, hMesh, of_decide_eq_true hTriangles⟩,
    read_interleaved hVertices hFaces hPositive⟩

end Diorama.Obj
