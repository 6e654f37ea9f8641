import Diorama.Obj.Reading
import Diorama.Obj.Text
import Diorama.Proofs.Number.ReadingBack
import Diorama.Proofs.Outcome
import Diorama.Proofs.Text.Lines

/-!
# What OBJ lines carry

`Carries lines points polygons` says that reading the lines adds these points and polygons to
whatever was read before. Comments carry nothing, a written point carries itself
(`carries_vertexLine`), and a written face carries its corners, counted from zero
(`carries_faceLine`); lines one after the other carry one after the other (`Carries.append`).
-/

namespace Diorama.Obj

open Text (IsWord isWord_singleton words_intercalate)

/-! ### Lines in a row -/

def Progress.points (progress : Progress) : List Point := progress.vertices.toList

def Progress.polygons (progress : Progress) : List (List UInt32) :=
  progress.faces.toList.map Face.indices

/-- Reads lines, the first of which has the given number. -/
def readLines (progress : Progress) (lines : List (List Char)) (number : Nat) :
    Except LineFault Progress :=
  (lines.zipIdx number).foldlM (fun progress (line, number) => readLine progress line number)
    progress

/-- Wherever the lines stand, they add these points and polygons. -/
def Carries (lines : List (List Char)) (points : List Point) (polygons : List (List UInt32)) :
    Prop :=
  ∀ progress number, ∃ progress', readLines progress lines number = .ok progress' ∧
    progress'.points = progress.points ++ points ∧
    progress'.polygons = progress.polygons ++ polygons

theorem carries_nil : Carries [] [] [] :=
  fun progress _ => ⟨progress, rfl, (List.append_nil _).symm, (List.append_nil _).symm⟩

theorem Carries.append {lines lines' : List (List Char)} {points points' : List Point}
    {polygons polygons' : List (List UInt32)} (h : Carries lines points polygons)
    (h' : Carries lines' points' polygons') :
    Carries (lines ++ lines') (points ++ points') (polygons ++ polygons') := by
  intro progress number
  obtain ⟨middle, hRead, hPoints, hPolygons⟩ := h progress number
  obtain ⟨last, hRead', hPoints', hPolygons'⟩ := h' middle (number + lines.length)
  refine ⟨last, ?_, ?_, ?_⟩
  · rw [readLines, List.zipIdx_append, List.foldlM_append]
    exact bind_eq_ok_iff.mpr ⟨middle, hRead, hRead'⟩
  · rw [hPoints', hPoints, List.append_assoc]
  · rw [hPolygons', hPolygons, List.append_assoc]

theorem carries_flatMap {α : Type} {items : List α} {lines : α → List (List Char)}
    {points : α → List Point} {polygons : α → List (List UInt32)}
    (h : ∀ a ∈ items, Carries (lines a) (points a) (polygons a)) :
    Carries (items.flatMap lines) (items.flatMap points) (items.flatMap polygons) := by
  induction items with
  | nil => exact carries_nil
  | cons a items ih =>
    rw [List.flatMap_cons, List.flatMap_cons, List.flatMap_cons]
    exact (h a List.mem_cons_self).append (ih fun b hb => h b (List.mem_cons_of_mem _ hb))

theorem flatMap_const_nil {α β : Type} (items : List α) : items.flatMap (fun _ => ([] : List β)) = [] :=
  List.flatMap_eq_nil_iff.mpr fun _ _ => rfl

/-- One line. -/
theorem carries_singleton {line : List Char} {points : List Point} {polygons : List (List UInt32)}
    (h : ∀ progress number, ∃ progress', readLine progress line number = .ok progress' ∧
      progress'.points = progress.points ++ points ∧
      progress'.polygons = progress.polygons ++ polygons) : Carries [line] points polygons := by
  intro progress number
  obtain ⟨progress', hRead, hAdded⟩ := h progress number
  exact ⟨progress', bind_eq_ok_iff.mpr ⟨progress', hRead, rfl⟩, hAdded⟩

/-! ### Lines that are passed over -/

theorem words_comment (rest : List Char) :
    Text.words ('#' :: ' ' :: rest) = ['#'] :: Text.words rest :=
  Text.words_append_blank (isWord_singleton rfl) rfl rest

theorem carries_comment (rest : List Char) : Carries ['#' :: ' ' :: rest] [] [] := by
  refine carries_singleton fun progress number => ⟨progress, ?_, ?_, ?_⟩
  · rw [readLine, words_comment]
    rfl
  · rw [List.append_nil]
  · rw [List.append_nil]

theorem carries_empty : Carries [[]] [] [] :=
  carries_singleton fun progress _ =>
    ⟨progress, rfl, (List.append_nil _).symm, (List.append_nil _).symm⟩

/-! ### Points -/

theorem isFinite_of_convert {x : Double} (h : (x.convert : Single).isFinite = true) :
    x.isFinite = true := by
  cases x with
  | finite => rfl
  | infinite => cases h
  | nan => cases h

theorem isWord_text (x : Double) : IsWord (NumberStyle.plain.text x) := by
  cases hFinite : x.isFinite with
  | true =>
    refine ⟨NumberStyle.text_plain_ne_nil hFinite, fun c hc => ?_⟩
    rcases NumberStyle.mem_text_plain hFinite hc with hDigit | rfl | rfl
    · exact isBlank_of_isDigit hDigit
    · decide
    · decide
  | false =>
    cases x with
    | finite => cases hFinite
    | infinite negative => cases negative <;> decide
    | nan => decide

theorem coordinate_text (axis : Axis) {x : Double} (h : (x.convert : Single).isFinite = true) :
    coordinate axis (some (NumberStyle.plain.text x)) = .ok x := by
  simp only [coordinate, Binary.ofText?_text (isFinite_of_convert h), h, if_true]

theorem vertex_text {p : Point} (h : ∀ x ∈ p.toList, (x.convert : Single).isFinite = true) :
    vertex (p.toList.map NumberStyle.plain.text) = .ok p := by
  have hx := coordinate_text .x (h p.x (by simp [Vec3.toList]))
  have hy := coordinate_text .y (h p.y (by simp [Vec3.toList]))
  have hz := coordinate_text .z (h p.z (by simp [Vec3.toList]))
  show (do
    let x ← coordinate .x (some (NumberStyle.plain.text p.x))
    let y ← coordinate .y (some (NumberStyle.plain.text p.y))
    let z ← coordinate .z (some (NumberStyle.plain.text p.z))
    return (⟨x, y, z⟩ : Point)) = _
  rw [hx, hy, hz]
  rfl

theorem isWord_of_mem_vertexLine (p : Point) :
    ∀ text ∈ ['v'] :: p.toList.map NumberStyle.plain.text, IsWord text := by
  intro text ht
  rcases List.mem_cons.mp ht with rfl | ht
  · exact isWord_singleton rfl
  · obtain ⟨x, -, rfl⟩ := List.mem_map.mp ht
    exact isWord_text x

theorem words_vertexLine (p : Point) :
    Text.words (vertexLine p) = ['v'] :: p.toList.map NumberStyle.plain.text :=
  words_intercalate (isWord_of_mem_vertexLine p)

/-- **A written point is read back.** -/
theorem carries_vertexLine {p : Point} (h : ∀ x ∈ p.toList, (x.convert : Single).isFinite = true) :
    Carries [vertexLine p] [p] [] := by
  refine carries_singleton fun progress number =>
    ⟨{ progress with vertices := progress.vertices.push p }, ?_, ?_, ?_⟩
  · rw [readLine, words_vertexLine]
    simp only [vertex_text h]
  · exact Array.toList_push
  · rw [List.append_nil]
    rfl

/-! ### Faces -/

theorem splitSign_of_all_isDigit {digits : List Char} (hNe : digits ≠ [])
    (hDigits : digits.all Char.isDigit = true) : splitSign digits = (false, digits) := by
  obtain ⟨c, rest, rfl⟩ := List.exists_cons_of_ne_nil hNe
  exact splitSign_signText (List.all_eq_true.mp hDigits c List.mem_cons_self) false

theorem int64?_toDigits {n : Nat} (hSmall : n < 0x8000000000000000) :
    int64? (Nat.toDigits 10 n) = some (n : Int) := by
  have hAll : (Nat.toDigits 10 n).all Char.isDigit = true :=
    List.all_eq_true.mpr fun _ => isDigit_of_mem_toDigits
  simp only [int64?, splitSign_of_all_isDigit Nat.toDigits_ne_nil hAll, natOfDigits_toDigits,
    Bool.false_eq_true, if_false]
  rw [if_pos]
  exact ⟨Nat.toDigits_ne_nil, hAll, by omega, by omega⟩

theorem faceIndex_toDigits (seen : Nat) {n : Nat} (hPos : 0 < n) (hSmall : n ≤ UInt32.size) :
    faceIndex seen (Nat.toDigits 10 n) = .ok (.ofNat (n - 1)) := by
  have hHead : (Nat.toDigits 10 n).takeWhile (· ≠ '/') = Nat.toDigits 10 n := by
    refine List.takeWhile_eq_self_iff.mpr fun c hc => ?_
    have hDigit := isDigit_of_mem_toDigits hc
    refine decide_eq_true ?_
    rintro rfl
    exact absurd hDigit (by decide)
  have hSize : UInt32.size = 4294967296 := rfl
  have hIndex : ((n : Int) - 1).toNat = n - 1 := by omega
  simp only [faceIndex, hHead, int64?_toDigits (show n < 0x8000000000000000 by omega)]
  rw [if_neg (by omega), if_neg (by omega), if_neg (by omega), if_neg (by omega), hIndex]

theorem isWord_of_mem_faceLine (corners : List Nat) :
    ∀ text ∈ ['f'] :: corners.map (Nat.toDigits 10), IsWord text := by
  intro text ht
  rcases List.mem_cons.mp ht with rfl | ht
  · exact isWord_singleton rfl
  · obtain ⟨n, -, rfl⟩ := List.mem_map.mp ht
    exact ⟨Nat.toDigits_ne_nil, fun _ hc => isBlank_of_isDigit (isDigit_of_mem_toDigits hc)⟩

theorem words_faceLine (corners : List Nat) :
    Text.words (faceLine corners) = ['f'] :: corners.map (Nat.toDigits 10) :=
  words_intercalate (isWord_of_mem_faceLine corners)

/-- **A written face is read back, its corners being counted from zero.** -/
theorem carries_faceLine {corners : List Nat} (h : ∀ n ∈ corners, 0 < n ∧ n ≤ UInt32.size) :
    Carries [faceLine corners] [] [corners.map fun n => .ofNat (n - 1)] := by
  refine carries_singleton fun progress number => ?_
  have hIndices : (corners.map (Nat.toDigits 10)).mapM (faceIndex progress.vertices.size) =
      .ok (corners.map fun n => .ofNat (n - 1)) := by
    rw [List.mapM_map]
    exact mapM_eq_ok fun n hn => faceIndex_toDigits _ (h n hn).1 (h n hn).2
  refine ⟨{ progress with
    faces := progress.faces.push ⟨number, corners.map fun n => .ofNat (n - 1)⟩ }, ?_, ?_, ?_⟩
  · rw [readLine, words_faceLine]
    simp only [hIndices]
  · rw [List.append_nil]
    rfl
  · simp [Progress.polygons]

/-! ### Line feeds -/

theorem lineFeed_not_mem_spaced {texts : List (List Char)} (h : ∀ text ∈ texts, IsWord text) :
    '\n' ∉ spaced texts := by
  intro hc
  rcases Text.mem_intercalate hc with hc | ⟨text, ht, hc⟩
  · exact absurd hc (by decide)
  · exact absurd ((h text ht).2 _ hc) (by decide)

theorem lineFeed_not_mem_vertexLine (p : Point) : '\n' ∉ vertexLine p :=
  lineFeed_not_mem_spaced (isWord_of_mem_vertexLine p)

theorem lineFeed_not_mem_faceLine (corners : List Nat) : '\n' ∉ faceLine corners :=
  lineFeed_not_mem_spaced (isWord_of_mem_faceLine corners)

end Diorama.Obj
