import Diorama.Proofs.Obj.Account
import Diorama.Proofs.Obj.RoundTrip

/-!
# Relative meshes below other ones

A negative index counts back from the vertices above its line. So it names the same vertex when its
text is put below another one, as many places later as the other text has vertices
(`IsCorner.shift`), and the lines together depict both meshes (`Depicts.append`). A text whose
indices are all negative can be put below any other one (`read_below`).
-/

namespace Diorama.Obj

/-- All indices of faces are negative. -/
def IsRelative (lines : List (List Char)) : Prop :=
  ∀ told ∈ faceTokens lines, ∀ token ∈ told.2, ∀ value ∈ int64? (indexText token), value < 0

instance (lines : List (List Char)) : Decidable (IsRelative lines) :=
  inferInstanceAs (Decidable (∀ told ∈ _, ∀ token ∈ _, ∀ value ∈ _, _))

/-! ### Two texts -/

theorem textLines_append (text text' : String) :
    textLines (text ++ "\n" ++ text') = textLines text ++ textLines text' := by
  rw [textLines, String.toList_append, String.toList_append, List.append_assoc]
  exact List.splitOn_append_cons_self _ _

theorem seenAt_length_add (lines lines' : List (List Char)) (k : Nat) :
    seenAt (lines ++ lines') (lines.length + k) =
      (vertexTokens lines).length + seenAt lines' k := by
  rw [seenAt, List.take_length_add_append, vertexTokens_append, List.length_append, seenAt]

theorem faceTokens_append (lines lines' : List (List Char)) :
    faceTokens (lines ++ lines') =
      faceTokens lines ++ (faceTokens lines').map fun told => (lines.length + told.1, told.2) := by
  induction lines' using List.reverseRecOn with
  | nil => simp [faceTokens]
  | append_singleton lines' line ih =>
    rw [← List.append_assoc, faceTokens_concat, ih, faceTokens_concat, List.map_append,
      List.append_assoc, List.length_append]
    cases arguments? 'f' line <;> rfl

/-! ### Corners moved by whole texts -/

/-- The place as many places later as `base` says. -/
def shiftIndex (base : Nat) (index : UInt32) : UInt32 := .ofNat (index.toNat + base)

theorem toNat_shiftIndex {base : Nat} {index : UInt32} (h : index.toNat + base < UInt32.size) :
    (shiftIndex base index).toNat = index.toNat + base :=
  UInt32.toNat_ofNat_of_lt' h

theorem triangulate_shift (base : Nat) (polygon : List UInt32) :
    triangulate (polygon.map (shiftIndex base)) = (triangulate polygon).map (Triangle.shift base) :=
  triangulate_map _ _

theorem IsCorner.shift {seen base : Nat} {token : List Char} {index : UInt32}
    (h : IsCorner seen token index) (hNegative : ∀ value ∈ int64? (indexText token), value < 0)
    (hSmall : index.toNat + base < UInt32.size) :
    IsCorner (base + seen) token (shiftIndex base index) := by
  obtain ⟨value, hInt, hNe, hPlace⟩ := h
  have hLt := hNegative value (int64?_eq_some_iff.mpr hInt)
  refine ⟨value, hInt, hNe, ?_⟩
  rw [toNat_shiftIndex hSmall]
  rw [vertexPlace, if_neg (by omega)] at hPlace ⊢
  omega

section

variable {lines lines' : List (List Char)} {points points' : List Point}
  {polygons polygons' : List (List UInt32)}

theorem IsPolygon.shift {told : Nat × List (List Char)} {polygon : List UInt32}
    (h : IsPolygon lines' told polygon)
    (hNegative : ∀ token ∈ told.2, ∀ value ∈ int64? (indexText token), value < 0)
    (hSmall : ∀ index ∈ polygon, index.toNat + (vertexTokens lines).length < UInt32.size) :
    IsPolygon (lines ++ lines') (lines.length + told.1, told.2)
      (polygon.map (shiftIndex (vertexTokens lines).length)) := by
  rw [IsPolygon, seenAt_length_add, List.forall₂_map_right_iff]
  refine forall₂_imp_of_mem h fun token hToken index hIndex hCorner => ?_
  exact hCorner.shift (hNegative token hToken) (hSmall index hIndex)

/-- **Two texts, one below the other, depict both meshes.** -/
theorem Depicts.append (h : Depicts lines points polygons) (h' : Depicts lines' points' polygons')
    (hRelative : IsRelative lines')
    (hSmall : ∀ polygon ∈ polygons', ∀ index ∈ polygon, index.toNat + points.length < UInt32.size) :
    Depicts (lines ++ lines') (points ++ points')
      (polygons ++ polygons'.map (List.map (shiftIndex points.length))) := by
  have hLength := h.vertices.length_eq
  constructor
  · rw [vertexTokens_append]
    exact List.rel_append h.vertices h'.vertices
  · rw [faceTokens_append]
    refine List.rel_append ?_ ?_
    · refine forall₂_imp_of_mem h.faces fun told hTold polygon _ hPolygon => ?_
      exact (isPolygon_append (lt_length_of_mem_faceTokens hTold).le).mpr hPolygon
    · rw [List.forall₂_map_left_iff, List.forall₂_map_right_iff, ← hLength]
      refine forall₂_imp_of_mem h'.faces fun told hTold polygon hMem hPolygon => ?_
      exact hPolygon.shift (hRelative told hTold) (hLength ▸ hSmall polygon hMem)

end

/-- **A mesh whose indices are all relative can be put below any other one.** The vertices of both
follow each other, and so do the triangles; those of the second text name their own vertices in the
new places. -/
theorem read_below {first second : String} {m m' : Mesh} (h : read first = .ok m)
    (h' : read second = .ok m') (hRelative : IsRelative (textLines second))
    (hCount : m.vertices.length + m'.vertices.length ≤ UInt32.size) :
    read (first ++ "\n" ++ second) = .ok ⟨m.vertices ++ m'.vertices,
        m.triangles ++ m'.triangles.map (Triangle.shift m.vertices.length)⟩ ∧
      ∀ t ∈ m'.triangles, (t.shift m.vertices.length).toList.map UInt32.toNat =
        t.toList.map (·.toNat + m.vertices.length) := by
  obtain ⟨polygons, hDepicts, hRange, hTriangles⟩ := read_eq_ok_iff.mp h
  obtain ⟨polygons', hDepicts', hRange', hTriangles'⟩ := read_eq_ok_iff.mp h'
  have hSmall : ∀ polygon ∈ polygons', ∀ index ∈ polygon,
      index.toNat + m.vertices.length < UInt32.size := by
    intro polygon hMem index hIndex
    have hLt := hRange' polygon hMem index hIndex
    omega
  constructor
  · rw [read_eq_ok_iff, textLines_append]
    refine ⟨_, hDepicts.append hDepicts' hRelative hSmall, ?_, ?_⟩
    · intro polygon hMem index hIndex
      rw [List.length_append]
      rcases List.mem_append.mp hMem with hMem | hMem
      · have hLt := hRange polygon hMem index hIndex
        omega
      · obtain ⟨own, hOwn, rfl⟩ := List.mem_map.mp hMem
        obtain ⟨place, hPlace, rfl⟩ := List.mem_map.mp hIndex
        have hLt := hRange' own hOwn place hPlace
        rw [toNat_shiftIndex (hSmall own hOwn place hPlace)]
        omega
    · rw [List.flatMap_append, hTriangles, hTriangles', List.flatMap_map, List.map_flatMap]
      simp only [triangulate_shift]
  · intro t ht
    have hMoved : ∀ index ∈ t.toList,
        (shiftIndex m.vertices.length index).toNat = index.toNat + m.vertices.length := by
      intro index hIndex
      have hLt := (read_eq_ok h').2 index (List.mem_flatMap.mpr ⟨t, ht, hIndex⟩)
      exact toNat_shiftIndex (by omega)
    calc (t.shift m.vertices.length).toList.map UInt32.toNat
        = (t.toList.map (shiftIndex m.vertices.length)).map UInt32.toNat := rfl
      _ = t.toList.map fun index => (shiftIndex m.vertices.length index).toNat := List.map_map
      _ = t.toList.map (·.toNat + m.vertices.length) := List.map_congr_left hMoved

/-- A triangle whose face stands above its last corner. -/
def absoluteText : String := "v 0 0 0\nf 1 2 3\nv 1 0 0\nv 0 1 0"

/-- A triangle told from its last corner back, and a point below it. -/
def relativeText : String := "v 0 0 1\nv 1 0 1\nv 0 1 1\nf -3 -2/7 -1\nv 5 5 5"

theorem read_below_relativeText :
    ∃ m m', read absoluteText = .ok m ∧ read relativeText = .ok m' ∧
      IsRelative (textLines relativeText) ∧
      m.vertices.length + m'.vertices.length ≤ UInt32.size ∧
      read (absoluteText ++ "\n" ++ relativeText) = .ok ⟨m.vertices ++ m'.vertices,
        [⟨0, 1, 2⟩, ⟨3, 4, 5⟩]⟩ := by
  have hFirst : ((read absoluteText).toOption.any fun m =>
      m.vertices.length = 3 ∧ m.triangles = [⟨0, 1, 2⟩]) = true := by decide +kernel
  have hSecond : ((read relativeText).toOption.any fun m =>
      m.vertices.length = 4 ∧ m.triangles = [⟨0, 1, 2⟩]) = true := by decide +kernel
  have hRelative : IsRelative (textLines relativeText) := by decide +kernel
  obtain ⟨m, h, hMesh⟩ := exists_eq_ok_of_any hFirst
  obtain ⟨m', h', hMesh'⟩ := exists_eq_ok_of_any hSecond
  obtain ⟨hLength, hTriangles⟩ := of_decide_eq_true hMesh
  obtain ⟨hLength', hTriangles'⟩ := of_decide_eq_true hMesh'
  have hCount : m.vertices.length + m'.vertices.length ≤ UInt32.size := by
    rw [hLength, hLength']
    decide
  have hRead := (read_below h h' hRelative hCount).1
  rw [hTriangles, hTriangles', hLength] at hRead
  exact ⟨m, m', h, h', hRelative, hCount, hRead⟩

end Diorama.Obj
