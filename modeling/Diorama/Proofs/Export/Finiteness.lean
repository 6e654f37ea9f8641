import Diorama.Proofs.Export.Agreement
import Diorama.Proofs.Number.Overflow

/-!
# Finite scenes

Settings are checked number by number (`Settings.validate_eq_ok_iff`), but a scene multiplies and adds
them. Its texts have finite numbers alone exactly if no multiple of a distance and no corner of a cube
reaches the limit of the format (`writesFinite_iff`). A row may be too far down although its distance is
accepted (`writes_infinite`).
-/

namespace Diorama

open Format (isRegular_double)

/-! ### Positions -/

/-- What the check of settings asks for. -/
structure Settings.IsAccepted (s : Settings) : Prop where
  column : s.spacing.column.isFinite = true
  row : s.spacing.row.isFinite = true
  depth : ∀ band, (Layout.depth s.spacing band).isFinite = true
  cubeSize : s.cubeSize.isFinite = true
  extent : Binary.less 0 s.cubeSize = true

theorem Settings.isFinite_numbers_iff (s : Settings) :
    (∀ entry ∈ s.numbers, entry.2.isFinite = true) ↔
      s.spacing.column.isFinite = true ∧ s.spacing.row.isFinite = true ∧
        (∀ band, (Layout.depth s.spacing band).isFinite = true) ∧ s.cubeSize.isFinite = true := by
  have hNeutral : (0 : Double).isFinite = true := by decide +kernel
  simp only [numbers, List.forall_mem_cons, List.not_mem_nil, IsEmpty.forall_iff, implies_true,
    and_true]
  constructor
  · rintro ⟨hColumn, hRow, hWorkload, hService, hSize⟩
    refine ⟨hColumn, hRow, fun band => ?_, hSize⟩
    cases band with
    | workload => exact hWorkload
    | service => exact hService
    | neutral => exact hNeutral
  · rintro ⟨hColumn, hRow, hDepth, hSize⟩
    exact ⟨hColumn, hRow, hDepth .workload, hDepth .service, hSize⟩

/-- **Settings are accepted one by one**: each number has to be finite, and the edge of a cube
positive. -/
theorem Settings.validate_eq_ok_iff {s : Settings} : s.validate = .ok () ↔ s.IsAccepted := by
  rw [validate]
  split
  · next key value hFind =>
    refine iff_of_false (fun h => ?_) fun h => ?_
    · cases h
    · have hFinite := s.isFinite_numbers_iff.mpr ⟨h.column, h.row, h.depth, h.cubeSize⟩
      have hValue : value.isFinite = true :=
        hFinite (key, value) (List.mem_of_find?_eq_some hFind)
      simpa [hValue] using List.find?_some hFind
  · next hFind =>
    have hFinite : ∀ entry ∈ s.numbers, entry.2.isFinite = true := by
      intro entry hEntry
      simpa using List.find?_eq_none.mp hFind entry hEntry
    obtain ⟨hColumn, hRow, hDepth, hSize⟩ := s.isFinite_numbers_iff.mp hFinite
    constructor
    · intro h
      refine ⟨hColumn, hRow, hDepth, hSize, ?_⟩
      by_contra hExtent
      rw [if_neg hExtent] at h
      cases h
    · exact fun h => if_pos h.extent

/-- So many distances are below the limit. -/
def FitsDouble (count : Nat) (distance : Double) : Prop :=
  count * Format.double.one < Format.double.limit ∧
    (Binary.ofNat count : Double).value.natAbs * distance.value.natAbs <
      Format.double.one * Format.double.limit

theorem isFinite_ofNat_mul_iff {distance : Double} (hFinite : distance.isFinite = true)
    (count : Nat) : (.ofNat count * distance : Double).isFinite = true ↔
      FitsDouble count distance := by
  rw [Binary.isFinite_mul_iff isRegular_double, Binary.isFinite_ofNat isRegular_double, FitsDouble]
  exact ⟨fun h => ⟨h.1, h.2.2⟩, fun h => ⟨h.1, hFinite, h.2⟩⟩

/-- The cell of a node is not too far away, and neither is its cube too large. -/
structure Layout.InRange (settings : Settings) (g : Graph) (p : PlacedNode) : Prop where
  column : FitsDouble (columnIndex g p.node) settings.spacing.column
  row : FitsDouble (rowIndex g p.node) settings.spacing.row
  cube : ∀ axis, (p.position.along axis).value.natAbs + (half * settings.cubeSize).value.natAbs <
    Format.double.limit

instance (count : Nat) (distance : Double) : Decidable (FitsDouble count distance) :=
  inferInstanceAs (Decidable (_ ∧ _))

instance (settings : Settings) (g : Graph) (p : PlacedNode) :
    Decidable (Layout.InRange settings g p) :=
  decidable_of_iff (FitsDouble (Layout.columnIndex g p.node) settings.spacing.column ∧
      FitsDouble (Layout.rowIndex g p.node) settings.spacing.row ∧
      ∀ axis ∈ [Obj.Axis.x, .y, .z], (p.position.along axis).value.natAbs +
        (half * settings.cubeSize).value.natAbs < Format.double.limit)
    ⟨fun h => ⟨h.1, h.2.1, fun axis => h.2.2 axis (by cases axis <;> decide)⟩,
      fun h => ⟨h.column, h.row, fun axis _ => h.cube axis⟩⟩

theorem isFinite_position_iff {settings : Settings} (hValid : settings.validate = .ok ())
    {g : Graph} {p : PlacedNode} (hp : p ∈ (Layout.ofGraph settings.spacing g).nodes) :
    (∀ axis, (p.position.along axis).isFinite = true) ↔
      FitsDouble (Layout.columnIndex g p.node) settings.spacing.column ∧
        FitsDouble (Layout.rowIndex g p.node) settings.spacing.row := by
  have hAccepted := Settings.validate_eq_ok_iff.mp hValid
  rw [← isFinite_ofNat_mul_iff hAccepted.column, ← isFinite_ofNat_mul_iff hAccepted.row,
    (Layout.mem_ofGraph hp).2]
  simp only [Layout.position, Vec3.along_map, Binary.isFinite_positiveZero]
  rw [Vec3.forall_along_iff (P := fun x : Double => x.isFinite = true), Binary.isFinite_neg]
  exact ⟨fun h => ⟨h.1, h.2.1⟩, fun h => ⟨h.1, h.2, hAccepted.depth _⟩⟩

/-! ### Corners -/

theorem forall_cornersAt_iff (P : Double → Prop) (cubeSize : Double) (center : Point) :
    (∀ corner ∈ Obj.cornersAt cubeSize center, ∀ x ∈ corner.toList, P x) ↔
      ∀ axis, P (center.along axis + -half * cubeSize) ∧
        P (center.along axis + half * cubeSize) := by
  obtain ⟨x, y, z⟩ := center
  rw [Vec3.forall_along_iff (P := fun c => P (c + -half * cubeSize) ∧ P (c + half * cubeSize))]
  simp only [Obj.cornersAt, cubeCorners, Point.offset, Point.scale, Vec3.zipWith, Vec3.map,
    Vec3.toList, List.flatMap_cons, List.flatMap_nil, List.append_nil, List.cons_append,
    List.nil_append, List.map_cons, List.map_nil, List.forall_mem_cons]
  generalize -half * cubeSize = low, half * cubeSize = high
  simp only [List.not_mem_nil, IsEmpty.forall_iff, implies_true, and_true]
  tauto

theorem natAbs_value_half : half.value.natAbs ≤ Format.double.one := by decide +kernel

/-- Half an edge of a cube is as finite as the edge. -/
theorem isFinite_half_mul {cubeSize : Double} (hFinite : cubeSize.isFinite = true) :
    (half * cubeSize).isFinite = true := by
  refine (Binary.isFinite_mul_iff isRegular_double _ _).mpr ⟨by decide +kernel, hFinite, ?_⟩
  calc half.value.natAbs * cubeSize.value.natAbs
      ≤ Format.double.one * cubeSize.value.natAbs := Nat.mul_le_mul_right _ natAbs_value_half
    _ < Format.double.one * Format.double.limit :=
      Nat.mul_lt_mul_of_pos_left (Binary.natAbs_value_lt isRegular_double _) Format.double.one_pos

/-- Steps of the same length to both sides. -/
theorem isFinite_add_neg_add_iff {x y : Double} (hFinite : y.isFinite = true) :
    (x + -y).isFinite = true ∧ (x + y).isFinite = true ↔
      x.isFinite = true ∧ x.value.natAbs + y.value.natAbs < Format.double.limit := by
  rw [Binary.isFinite_add_iff isRegular_double, Binary.isFinite_add_iff isRegular_double,
    Binary.isFinite_neg, Binary.value_neg]
  generalize x.value = v, y.value = w, Format.double.limit = limit
  constructor
  · rintro ⟨⟨hx, -, hBelow⟩, -, -, hAbove⟩
    exact ⟨hx, by omega⟩
  · rintro ⟨hx, hSum⟩
    exact ⟨⟨hx, hFinite, by omega⟩, hx, hFinite, by omega⟩

/-- **The corners of a cube are finite exactly if it is in range.** -/
theorem isFinite_cornersAt_iff {settings : Settings} (hValid : settings.validate = .ok ())
    {g : Graph} {p : PlacedNode} (hp : p ∈ (Layout.ofGraph settings.spacing g).nodes) :
    (∀ corner ∈ Obj.cornersAt settings.cubeSize p.position, ∀ x ∈ corner.toList,
      x.isFinite = true) ↔ Layout.InRange settings g p := by
  have hHalf := isFinite_half_mul (Settings.validate_eq_ok_iff.mp hValid).cubeSize
  simp only [forall_cornersAt_iff fun x => x.isFinite = true, Binary.neg_mul,
    isFinite_add_neg_add_iff hHalf, forall_and]
  rw [isFinite_position_iff hValid hp, and_assoc]
  exact ⟨fun h => ⟨h.1, h.2.1, h.2.2⟩, fun h => ⟨h.column, h.row, h.cube⟩⟩

/-! ### Lines of points -/

namespace Obj

/-- Neither an infinity nor the word for what is no number stands in the line. -/
def IsNumeric (line : List Char) : Prop := ¬ "inf".toList <:+: line ∧ ¬ "NaN".toList <:+: line

theorem isNumeric_vertexLine_iff (p : Point) :
    IsNumeric (vertexLine p) ↔ ∀ x ∈ p.toList, x.isFinite = true := by
  constructor
  · rintro ⟨hInf, hNan⟩ x hx
    have hInfix : NumberStyle.plain.text x <:+: vertexLine p :=
      Text.infix_intercalate (List.mem_cons_of_mem _ (List.mem_map_of_mem hx))
    cases x with
    | finite => rfl
    | infinite negative =>
      have hWord : "inf".toList <:+: NumberStyle.plain.text (.infinite negative : Double) := by
        cases negative <;> decide
      exact absurd (hWord.trans hInfix) hInf
    | nan => exact absurd hInfix hNan
  · intro hFinite
    have hChars : ∀ c ∈ vertexLine p, c ≠ 'n' ∧ c ≠ 'N' := by
      intro c hc
      rcases Text.mem_intercalate hc with rfl | ⟨text, hText, hc⟩
      · decide
      · rcases List.mem_cons.mp hText with rfl | hText
        · rw [List.mem_singleton.mp hc]
          decide
        · obtain ⟨x, hx, rfl⟩ := List.mem_map.mp hText
          rcases NumberStyle.mem_text_plain (hFinite x hx) hc with hDigit | rfl | rfl
          · refine ⟨?_, ?_⟩ <;> rintro rfl <;> exact absurd hDigit (by decide)
          · decide
          · decide
    exact ⟨fun h => (hChars 'n' (h.subset (by decide))).1 rfl,
      fun h => (hChars 'N' (h.subset (by decide))).2 rfl⟩

/-- The lines that start like points are those of the corners. -/
theorem mem_lines_iff {cubeSize : Double} {layout : Layout} {line : List Char}
    (hHead : line.head? = some 'v') : line ∈ lines cubeSize layout ↔
      ∃ p ∈ layout.nodes, ∃ corner ∈ cornersAt cubeSize p.position, vertexLine corner = line := by
  constructor
  · intro hLine
    obtain ⟨⟨p, index⟩, hPlaced, hBlock⟩ := List.mem_flatMap.mp hLine
    refine ⟨p, List.fst_mem_of_mem_zipIdx hPlaced, ?_⟩
    simp only [blockLines, List.mem_append] at hBlock
    rcases hBlock with ((hComment | hCorner) | hFace) | hEnd
    · obtain ⟨rest, rfl, -⟩ := mem_commentLines hComment
      cases hHead
    · exact List.mem_map.mp hCorner
    · obtain ⟨face, -, rfl⟩ := List.mem_map.mp hFace
      rw [head?_faceLine] at hHead
      cases hHead
    · rw [List.mem_singleton.mp hEnd] at hHead
      cases hHead
  · rintro ⟨p, hp, corner, hCorner, rfl⟩
    obtain ⟨index, hIndex⟩ := List.mem_iff_getElem?.mp hp
    refine List.mem_flatMap.mpr ⟨(p, index), List.mk_mem_zipIdx_iff_getElem?.mpr hIndex, ?_⟩
    simp only [blockLines, List.mem_append]
    exact .inl (.inl (.inr (List.mem_map_of_mem hCorner)))

theorem forall_vertexLines_iff {layout : Layout}
    (hTexts : ∀ p ∈ layout.nodes, HasNoLineFeed p.node) (cubeSize : Double) :
    (∀ line ∈ (text cubeSize layout).toList.splitOn '\n', line.head? = some 'v' → IsNumeric line) ↔
      ∀ p ∈ layout.nodes, ∀ corner ∈ cornersAt cubeSize p.position, ∀ x ∈ corner.toList,
        x.isFinite = true := by
  rw [text, String.toList_ofList, Text.splitOn_flatMap_concat (lineFeed_not_mem_lines hTexts)]
  constructor
  · intro h p hp corner hCorner
    rw [← isNumeric_vertexLine_iff]
    have hHead : (vertexLine corner).head? = some 'v' := rfl
    exact h _ (List.mem_append_left _ ((mem_lines_iff hHead).mpr ⟨p, hp, corner, hCorner, rfl⟩))
      hHead
  · intro h line hLine hHead
    rcases List.mem_append.mp hLine with hLine | hLine
    · obtain ⟨p, hp, corner, hCorner, rfl⟩ := (mem_lines_iff hHead).mp hLine
      exact (isNumeric_vertexLine_iff corner).mpr (h p hp corner hCorner)
    · rw [List.mem_singleton.mp hLine] at hHead
      cases hHead

end Obj

/-! ### Documents -/

theorem datum_double_ne_null_iff (x : Double) :
    (Json.Value.double x).datum ≠ .null ↔ x.isFinite = true := by
  rw [Json.Value.datum, Json.numberDatum]
  split_ifs with h
  · refine iff_of_true (fun hNull => ?_) h
    cases hNull
  · exact iff_of_false (fun hNe => hNe rfl) h

theorem forall_coordinates_iff (p : Point) :
    (∀ d ∈ p.toList.map fun x => (Json.Value.double x).datum, d ≠ .null) ↔
      ∀ x ∈ p.toList, x.isFinite = true := by
  rw [List.forall_mem_map]
  simp only [datum_double_ne_null_iff]

/-! ### Scenes -/

namespace Rendering

/-- All numbers that a source becomes are finite: its positions, the points of its OBJ text, and the
coordinates of its glTF and of its layout document. -/
structure WritesFinite (settings : Settings) (generatedAt : Option Nat) (source : String)
    (g : Graph) : Prop where
  positions : (Layout.ofGraph settings.spacing g).IsFinite
  obj : ∃ text, sourceText ⟨settings, generatedAt, .obj⟩ source = .ok text ∧
    ∀ line ∈ text.toList.splitOn '\n', line.head? = some 'v' → Obj.IsNumeric line
  gltf : g.nodes ≠ [] → ∃ text root nodes,
    sourceText ⟨settings, generatedAt, .gltf⟩ source = .ok text ∧ Json.read? text = some root ∧
      Gltf.drawnNodes? root = some nodes ∧ ∀ n ∈ nodes, ∀ d ∈ n.translation, d ≠ .null
  layout : ∃ text root entries,
    sourceText ⟨settings, generatedAt, .layout⟩ source = .ok text ∧ Json.read? text = some root ∧
      Layout.entries? root = some entries ∧ ∀ e ∈ entries, ∀ d ∈ e.position, d ≠ .null

/-- **All numbers of a scene are finite exactly if its cells and cubes are in range**, which is not
asked of settings that are accepted. -/
theorem writesFinite_iff {settings : Settings} (hValid : settings.validate = .ok ())
    {source : String} {g : Graph} (hRead : settings.readGraph source = .ok g)
    (generatedAt : Option Nat) : WritesFinite settings generatedAt source g ↔
      ∀ p ∈ (Layout.ofGraph settings.spacing g).nodes, Layout.InRange settings g p := by
  have hObj := sourceText_obj hRead generatedAt
  have hLines := Obj.forall_vertexLines_iff (hasNoLineFeed_of_readGraph hRead) settings.cubeSize
  constructor
  · intro hFinite p hp
    obtain ⟨text, hText, hNumeric⟩ := hFinite.obj
    rw [hObj, Except.ok.injEq] at hText
    subst hText
    exact (isFinite_cornersAt_iff hValid hp).mp (hLines.mp hNumeric p hp)
  · intro hRange
    have hPositions : (Layout.ofGraph settings.spacing g).IsFinite := by
      intro p hp
      rw [Vec3.forall_mem_toList_iff (P := fun x : Double => x.isFinite = true),
        isFinite_position_iff hValid hp]
      exact ⟨(hRange p hp).column, (hRange p hp).row⟩
    refine ⟨hPositions, ⟨_, hObj, ?_⟩, fun hSome => ?_, ?_⟩
    · exact hLines.mpr fun p hp => (isFinite_cornersAt_iff hValid hp).mpr (hRange p hp)
    · obtain ⟨packing, -, -, -, hText, -⟩ := sourceText_gltf hRead generatedAt hSome
      refine ⟨_, _, _, hText, Json.Value.read?_text _, Gltf.drawnNodes?_document packing _, ?_⟩
      intro n hn
      obtain ⟨p, hp, rfl⟩ := List.mem_map.mp hn
      exact (forall_coordinates_iff p.position).mpr (hPositions p hp)
    · refine ⟨_, _, _, sourceText_layout hRead generatedAt, Json.Value.read?_text _,
        Layout.entries?_record _ generatedAt, ?_⟩
      intro e he
      obtain ⟨p, hp, rfl⟩ := List.mem_map.mp he
      exact (forall_coordinates_iff p.position).mpr (hPositions p hp)

/-- Rows that are so far from each other that the third one is infinitely far down. -/
def farRows : Settings :=
  { Settings.standard with spacing := { Spacing.standard with row := .ofDecimal false ⟨1, 308⟩ } }

def twoRows : String := "A[a]\nB[b]"

def threeRows : String := "A[a]\nB[b]\nC[c]"

/-- Two of these rows are in range. -/
theorem writesFinite_two_rows : farRows.validate = .ok () ∧
    ∃ g, farRows.readGraph twoRows = .ok g ∧ WritesFinite farRows none twoRows g := by
  have hValid : farRows.validate = .ok () := by decide +kernel
  have hRead : ((farRows.readGraph twoRows).toOption.any fun g =>
      ∀ p ∈ (Layout.ofGraph farRows.spacing g).nodes, Layout.InRange farRows g p) = true := by
    decide +kernel
  obtain ⟨g, hRead, hRange⟩ := exists_eq_ok_of_any hRead
  exact ⟨hValid, g, hRead, (writesFinite_iff hValid hRead none).mpr (of_decide_eq_true hRange)⟩

/-- Three of them are not: the last one is infinitely far down, which is no number in the OBJ text and
`null` in the layout document. -/
theorem writes_infinite : farRows.validate = .ok () ∧
    ∃ g, farRows.readGraph threeRows = .ok g ∧
      (∃ p ∈ (Layout.ofGraph farRows.spacing g).nodes,
        p.node.id = "C" ∧ p.position.y = .infinite true) ∧
      (∃ text, sourceText ⟨farRows, none, .obj⟩ threeRows = .ok text ∧
        ∃ line ∈ text.toList.splitOn '\n', line.head? = some 'v' ∧ ¬ Obj.IsNumeric line) ∧
      ∃ text root entries, sourceText ⟨farRows, none, .layout⟩ threeRows = .ok text ∧
        Json.read? text = some root ∧ Layout.entries? root = some entries ∧
        ∃ e ∈ entries, .null ∈ e.position := by
  have hValid : farRows.validate = .ok () := by decide +kernel
  have hRead : ((farRows.readGraph threeRows).toOption.any fun g =>
      ∃ p ∈ (Layout.ofGraph farRows.spacing g).nodes,
        p.node.id = "C" ∧ p.position.y = .infinite true) = true := by
    decide +kernel
  obtain ⟨g, hRead, hLast⟩ := exists_eq_ok_of_any hRead
  obtain ⟨p, hp, hId, hDown⟩ := of_decide_eq_true hLast
  refine ⟨hValid, g, hRead, ⟨p, hp, hId, hDown⟩, ⟨_, sourceText_obj hRead none, ?_⟩,
    _, _, _, sourceText_layout hRead none, Json.Value.read?_text _,
    Layout.entries?_record _ none, Layout.entry p, List.mem_map_of_mem hp, ?_⟩
  · by_contra hNone
    simp only [not_exists, not_and, not_not] at hNone
    have hLines := Obj.forall_vertexLines_iff (hasNoLineFeed_of_readGraph hRead) farRows.cubeSize
    have hRange := (isFinite_cornersAt_iff hValid hp).mp (hLines.mp hNone p hp)
    have hFinite := (isFinite_position_iff hValid hp).mpr ⟨hRange.column, hRange.row⟩ .y
    rw [Vec3.along, hDown] at hFinite
    cases hFinite
  · refine List.mem_map.mpr ⟨p.position.y, by simp [Vec3.toList], ?_⟩
    rw [hDown]
    rfl

end Rendering

end Diorama
