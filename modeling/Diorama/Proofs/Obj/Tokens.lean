import Diorama.Proofs.List.Related
import Diorama.Proofs.Obj.Accepted
import Diorama.Proofs.Obj.Lines

/-!
# What the tokens of a line denote

`IsPoint` and `IsCorner` tell which point the tokens behind a `v` denote and which vertex a token
behind an `f` denotes, `VertexFault` and `CornerFault` what is wrong with tokens that denote none.
The readers of tokens keep to them (`vertex_eq_ok_iff`, `vertex_eq_error_iff`, `int64?_eq_some_iff`,
`faceIndex_eq_ok_iff`, `faceIndex_eq_error_iff`). So a line adds a point, a face or nothing, or it
is refused for its first fault (`readLine_spec`).
-/

namespace Diorama.Obj

/-! ### Lines -/

/-- What follows the keyword on a line that starts with it. -/
def arguments? (keyword : Char) (line : List Char) : Option (List (List Char)) :=
  match Text.words line with
  | [] => none
  | word :: tokens => if word = [keyword] then some tokens else none

theorem arguments?_eq_some_iff {keyword : Char} {line : List Char} {tokens : List (List Char)} :
    arguments? keyword line = some tokens ↔ Text.words line = [keyword] :: tokens := by
  rw [arguments?]
  cases Text.words line with
  | nil => simp
  | cons word others => simp [Option.ite_none_right_eq_some]

/-! ### Points -/

def Axis.place : Axis → Nat
  | .x => 0
  | .y => 1
  | .z => 2

/-- The token denotes a number that stays finite when it is packed. -/
def IsCoordinate (token : Option (List Char)) (x : Double) : Prop :=
  ∃ text ∈ token, Binary.ofText? text = some x ∧ (x.convert : Single).isFinite = true

/-- The first three tokens denote the coordinates of a point. -/
def IsPoint (tokens : List (List Char)) (p : Point) : Prop :=
  ∀ axis, IsCoordinate tokens[axis.place]? (p.along axis)

inductive CoordinateFault (axis : Axis) : Option (List Char) → Fault → Prop
  | missing : CoordinateFault axis none (.missingCoordinate axis)
  | invalid (text : List Char) : (Binary.ofText? text : Option Double) = none →
    CoordinateFault axis (some text) (.invalidCoordinate axis (String.ofList text))
  | unbounded (text : List Char) (x : Double) : Binary.ofText? text = some x →
    (x.convert : Single).isFinite = false →
    CoordinateFault axis (some text) (.unboundedCoordinate axis (String.ofList text))

/-- What is wrong with the first token that denotes no coordinate. -/
inductive VertexFault (tokens : List (List Char)) (fault : Fault) : Prop
  | coordinate (axis : Axis) :
    (∀ other : Axis, other.place < axis.place → ∃ x, IsCoordinate tokens[other.place]? x) →
    CoordinateFault axis tokens[axis.place]? fault → VertexFault tokens fault

section

variable {axis : Axis} {token : Option (List Char)} {x : Double} {fault : Fault}

theorem coordinate_eq_ok_iff : coordinate axis token = .ok x ↔ IsCoordinate token x := by
  rw [IsCoordinate]
  cases token with
  | none => simp [coordinate]
  | some text =>
    rw [coordinate]
    cases hValue : (Binary.ofText? text : Option Double) with
    | none => simp [hValue]
    | some value =>
      simp only [Option.mem_def, Option.some.injEq, exists_eq_left', hValue]
      split_ifs with hFinite
      · rw [Except.ok.injEq]
        constructor
        · rintro rfl
          exact ⟨rfl, hFinite⟩
        · exact fun h => h.1
      · constructor
        · intro h
          cases h
        · rintro ⟨rfl, h⟩
          exact absurd h hFinite

theorem coordinate_eq_error_iff :
    coordinate axis token = .error fault ↔ CoordinateFault axis token fault := by
  constructor
  · intro h
    cases token with
    | none =>
      cases h
      exact .missing
    | some text =>
      rw [coordinate] at h
      split at h
      · next hValue =>
        cases h
        exact .invalid text hValue
      · next value hValue =>
        split_ifs at h with hFinite
        cases h
        exact .unbounded text value hValue (by simpa using hFinite)
  · intro h
    cases h with
    | missing => rfl
    | invalid text hValue => rw [coordinate, hValue]
    | unbounded text x hValue hFinite =>
      rw [coordinate, hValue]
      exact if_neg (by simp [hFinite])

end

section

variable {tokens : List (List Char)} {fault : Fault}

theorem vertex_eq_ok_iff {p : Point} : vertex tokens = .ok p ↔ IsPoint tokens p := by
  simp only [vertex, bind_eq_ok_iff, pure_eq_ok_iff, coordinate_eq_ok_iff]
  constructor
  · rintro ⟨x, hx, y, hy, z, hz, rfl⟩
    rintro (_ | _ | _)
    · exact hx
    · exact hy
    · exact hz
  · intro h
    exact ⟨p.x, h .x, p.y, h .y, p.z, h .z, rfl⟩

theorem vertex_eq_error_iff : vertex tokens = .error fault ↔ VertexFault tokens fault := by
  simp only [vertex, bind_eq_error_iff, coordinate_eq_error_iff, coordinate_eq_ok_iff]
  constructor
  · rintro (hx | ⟨x, hx, hy | ⟨y, hy, hz | ⟨z, hz, h⟩⟩⟩)
    · refine .coordinate .x (fun other hOther => absurd hOther (Nat.not_lt_zero _)) hx
    · refine .coordinate .y (fun other hOther => ?_) hy
      cases other with
      | x => exact ⟨x, hx⟩
      | y | z => simp [Axis.place] at hOther
    · refine .coordinate .z (fun other hOther => ?_) hz
      cases other with
      | x => exact ⟨x, hx⟩
      | y => exact ⟨y, hy⟩
      | z => simp [Axis.place] at hOther
    · cases h
  · rintro ⟨axis, hBefore, hFault⟩
    cases axis with
    | x => exact .inl hFault
    | y =>
      obtain ⟨x, hx⟩ := hBefore .x (by decide)
      exact .inr ⟨x, hx, .inl hFault⟩
    | z =>
      obtain ⟨x, hx⟩ := hBefore .x (by decide)
      obtain ⟨y, hy⟩ := hBefore .y (by decide)
      exact .inr ⟨x, hx, .inr ⟨y, hy, .inl hFault⟩⟩

end

/-! ### Numbers of 64 bits -/

/-- The digits behind a sign or none, and the number that they denote with it. -/
inductive IsSigned (digits : List Char) : List Char → Int → Prop
  | unsigned : IsSigned digits digits (natOfDigits digits)
  | plus : IsSigned digits ('+' :: digits) (natOfDigits digits)
  | minus : IsSigned digits ('-' :: digits) (-natOfDigits digits)

/-- Digits, behind a sign or none, that denote a number of 64 bits. -/
structure IsInt64 (text : List Char) (value : Int) : Prop where
  numeral : ∃ digits, digits ≠ [] ∧ digits.all Char.isDigit = true ∧ IsSigned digits text value
  lower : -0x8000000000000000 ≤ value
  upper : value < 0x8000000000000000

theorem isSigned_splitSign (text : List Char) :
    IsSigned (splitSign text).2 text
      (if (splitSign text).1 then -(natOfDigits (splitSign text).2 : Int)
        else natOfDigits (splitSign text).2) := by
  fun_cases splitSign text with
  | case1 rest => exact .minus
  | case2 rest => exact .plus
  | case3 rest => exact .unsigned

theorem int64?_eq_some_iff {text : List Char} {value : Int} :
    int64? text = some value ↔ IsInt64 text value := by
  simp only [int64?, Option.ite_none_right_eq_some, Option.some.injEq]
  constructor
  · rintro ⟨⟨hNe, hDigits, hLower, hUpper⟩, rfl⟩
    exact ⟨⟨_, hNe, hDigits, isSigned_splitSign text⟩, hLower, hUpper⟩
  · rintro ⟨⟨digits, hNe, hDigits, hSigned⟩, hLower, hUpper⟩
    cases hSigned with
    | unsigned =>
      rw [splitSign_of_all_isDigit hNe hDigits]
      exact ⟨⟨hNe, hDigits, hLower, hUpper⟩, rfl⟩
    | plus => exact ⟨⟨hNe, hDigits, hLower, hUpper⟩, rfl⟩
    | minus => exact ⟨⟨hNe, hDigits, hLower, hUpper⟩, rfl⟩

theorem int64?_eq_none_iff {text : List Char} :
    int64? text = none ↔ ∀ value, ¬ IsInt64 text value := by
  simp only [Option.eq_none_iff_forall_ne_some, ne_eq, int64?_eq_some_iff]

/-! ### Corners of faces -/

/-- The part of a face token that counts. -/
def indexText (token : List Char) : List Char := token.takeWhile (· ≠ '/')

/-- The place of the vertex that a number names, counted from zero, `seen` vertices standing above.
-/
def vertexPlace (seen : Nat) (value : Int) : Int := if 0 < value then value - 1 else seen + value

/-- The token names this vertex. -/
def IsCorner (seen : Nat) (token : List Char) (index : UInt32) : Prop :=
  ∃ value, IsInt64 (indexText token) value ∧ value ≠ 0 ∧ vertexPlace seen value = index.toNat

inductive CornerFault (seen : Nat) (token : List Char) : Fault → Prop
  | invalid : (∀ value, ¬ IsInt64 (indexText token) value) →
    CornerFault seen token (.invalidIndex (String.ofList (indexText token)))
  | zero : IsInt64 (indexText token) 0 → CornerFault seen token .zeroIndex
  | beforeFirst (value : Int) : IsInt64 (indexText token) value → value ≠ 0 →
    vertexPlace seen value < 0 → CornerFault seen token (.indexBeforeFirst value)
  | tooLarge (value : Int) : IsInt64 (indexText token) value → value ≠ 0 →
    UInt32.size ≤ vertexPlace seen value → CornerFault seen token (.indexTooLarge value)

/-- What is wrong with the first token that names no vertex. -/
inductive FaceFault (seen : Nat) (tokens : List (List Char)) (fault : Fault) : Prop
  | corner (before : List (List Char)) (token : List Char) (after : List (List Char)) :
    tokens = before ++ token :: after → (∀ t ∈ before, ∃ index, IsCorner seen t index) →
    CornerFault seen token fault → FaceFault seen tokens fault

section

variable {seen : Nat} {token : List Char} {fault : Fault}

theorem vertexPlace_eq {value : Int} (h : value ≠ 0) :
    (if value < 0 then seen + value else value - 1) = vertexPlace seen value := by
  rw [vertexPlace]
  split_ifs <;> omega

theorem faceIndex_eq (seen : Nat) (token : List Char) :
    faceIndex seen token =
      match int64? (indexText token) with
      | none => .error (.invalidIndex (String.ofList (indexText token)))
      | some value =>
        if value = 0 then .error .zeroIndex
        else if vertexPlace seen value < 0 then .error (.indexBeforeFirst value)
        else if UInt32.size ≤ vertexPlace seen value then .error (.indexTooLarge value)
        else .ok (.ofNat (vertexPlace seen value).toNat) := by
  rw [faceIndex, ← indexText]
  cases int64? (indexText token) with
  | none => rfl
  | some value =>
    simp only
    refine if_ctx_congr Iff.rfl (fun _ => rfl) fun hZero => ?_
    rw [vertexPlace_eq hZero]

theorem faceIndex_eq_ok_iff {index : UInt32} :
    faceIndex seen token = .ok index ↔ IsCorner seen token index := by
  have hSize : UInt32.size = 4294967296 := rfl
  have hIndex := index.toNat_lt
  rw [faceIndex_eq]
  constructor
  · intro h
    cases hValue : int64? (indexText token) with
    | none =>
      rw [hValue] at h
      cases h
    | some value =>
      simp only [hValue] at h
      split_ifs at h with hZero hBefore hLarge
      cases h
      refine ⟨value, int64?_eq_some_iff.mp hValue, hZero, ?_⟩
      rw [UInt32.toNat_ofNat_of_lt' (by omega)]
      omega
  · rintro ⟨value, hInt, hZero, hPlace⟩
    simp only [int64?_eq_some_iff.mpr hInt, if_neg hZero, hPlace]
    rw [if_neg (by omega), if_neg (by omega)]
    simp

theorem faceIndex_eq_error_iff :
    faceIndex seen token = .error fault ↔ CornerFault seen token fault := by
  rw [faceIndex_eq]
  constructor
  · intro h
    cases hValue : int64? (indexText token) with
    | none =>
      rw [hValue] at h
      cases h
      exact .invalid (int64?_eq_none_iff.mp hValue)
    | some value =>
      have hInt := int64?_eq_some_iff.mp hValue
      simp only [hValue] at h
      split_ifs at h with hZero hBefore hLarge
      · cases h
        exact .zero (hZero ▸ hInt)
      · cases h
        exact .beforeFirst value hInt hZero hBefore
      · cases h
        exact .tooLarge value hInt hZero hLarge
  · intro h
    cases h with
    | invalid hNone => rw [int64?_eq_none_iff.mpr hNone]
    | zero hInt =>
      rw [int64?_eq_some_iff.mpr hInt]
      rfl
    | beforeFirst value hInt hZero hBefore =>
      simp only [int64?_eq_some_iff.mpr hInt, if_neg hZero, if_pos hBefore]
    | tooLarge value hInt hZero hLarge =>
      simp only [int64?_eq_some_iff.mpr hInt, if_neg hZero]
      rw [if_neg (by omega), if_pos hLarge]

end

theorem IsCorner.unique {seen : Nat} {token : List Char} {index index' : UInt32}
    (h : IsCorner seen token index) (h' : IsCorner seen token index') : index = index' :=
  Except.ok.inj ((faceIndex_eq_ok_iff.mpr h).symm.trans (faceIndex_eq_ok_iff.mpr h'))

section

variable {seen : Nat} {tokens : List (List Char)}

theorem mapM_faceIndex_eq_ok_iff {indices : List UInt32} :
    tokens.mapM (faceIndex seen) = .ok indices ↔ List.Forall₂ (IsCorner seen) tokens indices := by
  simp only [mapM_eq_ok_iff, faceIndex_eq_ok_iff]

theorem mapM_faceIndex_eq_error_iff {fault : Fault} :
    tokens.mapM (faceIndex seen) = .error fault ↔ FaceFault seen tokens fault := by
  simp only [mapM_eq_error_iff, faceIndex_eq_ok_iff, faceIndex_eq_error_iff]
  constructor
  · rintro ⟨before, token, after, hTokens, hBefore, hFault⟩
    exact .corner before token after hTokens hBefore hFault
  · rintro ⟨before, token, after, hTokens, hBefore, hFault⟩
    exact ⟨before, token, after, hTokens, hBefore, hFault⟩

end

/-! ### What a line adds -/

/-- What is wrong with a line above which `seen` vertices stand. -/
inductive HasFault (seen : Nat) (line : List Char) (fault : Fault) : Prop
  | vertex (tokens : List (List Char)) : arguments? 'v' line = some tokens →
    VertexFault tokens fault → HasFault seen line fault
  | face (tokens : List (List Char)) : arguments? 'f' line = some tokens →
    FaceFault seen tokens fault → HasFault seen line fault

/-- The tokens of a vertex line denote a point, and each token of a face line names a vertex. -/
structure IsSound (seen : Nat) (line : List Char) : Prop where
  vertex : ∀ tokens ∈ arguments? 'v' line, ∃ p, IsPoint tokens p
  face : ∀ tokens ∈ arguments? 'f' line, ∀ token ∈ tokens, ∃ index, IsCorner seen token index

theorem HasFault.not_isSound {seen : Nat} {line : List Char} {fault : Fault}
    (h : HasFault seen line fault) : ¬ IsSound seen line := by
  intro hSound
  cases h with
  | vertex tokens hTokens hFault =>
    obtain ⟨p, hPoint⟩ := hSound.vertex tokens hTokens
    have hRead := vertex_eq_ok_iff.mpr hPoint
    rw [vertex_eq_error_iff.mpr hFault] at hRead
    cases hRead
  | face tokens hTokens hFault =>
    obtain ⟨before, token, after, rfl, -, hFault⟩ := hFault
    obtain ⟨index, hIndex⟩ := hSound.face _ hTokens token (by simp)
    have hRead := faceIndex_eq_ok_iff.mpr hIndex
    rw [faceIndex_eq_error_iff.mpr hFault] at hRead
    cases hRead

/-- Points, and polygons from one line, put behind what was read. -/
def Progress.add (progress : Progress) (points : List Point) (number : Nat)
    (polygons : List (List UInt32)) : Progress :=
  ⟨progress.vertices ++ points.toArray, progress.faces ++ (polygons.map (Face.mk number)).toArray⟩

section

variable {progress next : Progress} {line : List Char} {number : Nat} {tokens : List (List Char)}

theorem arguments?_face_of_vertex (h : arguments? 'v' line = some tokens) :
    arguments? 'f' line = none := by
  rw [Option.eq_none_iff_forall_ne_some]
  intro others hOthers
  rw [arguments?_eq_some_iff, arguments?_eq_some_iff.mp h] at hOthers
  cases hOthers

theorem readLine_of_vertex (h : arguments? 'v' line = some tokens) :
    readLine progress line number =
      ((vertex tokens).map fun point => progress.add [point] number []).mapError
        (LineFault.mk number) := by
  rw [readLine, arguments?_eq_some_iff.mp h]
  simp only
  cases vertex tokens with
  | error fault => rfl
  | ok point => simp [Except.map, Except.mapError, Progress.add]

theorem readLine_of_face (h : arguments? 'f' line = some tokens) :
    readLine progress line number =
      ((tokens.mapM (faceIndex progress.vertices.size)).map fun polygon =>
        progress.add [] number [polygon]).mapError (LineFault.mk number) := by
  rw [readLine, arguments?_eq_some_iff.mp h]
  simp only
  cases tokens.mapM (faceIndex progress.vertices.size) with
  | error fault => rfl
  | ok polygon => simp [Except.map, Except.mapError, Progress.add]

theorem readLine_of_other (hVertex : arguments? 'v' line = none)
    (hFace : arguments? 'f' line = none) :
    readLine progress line number = .ok (progress.add [] number []) := by
  have hAdd : progress.add [] number [] = progress := by simp [Progress.add]
  rw [readLine, hAdd]
  split
  · next hWords =>
    rw [arguments?_eq_some_iff.mpr hWords] at hVertex
    cases hVertex
  · next hWords =>
    rw [arguments?_eq_some_iff.mpr hWords] at hFace
    cases hFace
  · rfl

/-- **A line is sound, and then it adds what its tokens denote, or it is refused for its first
fault.** -/
theorem readLine_spec (progress : Progress) (line : List Char) (number : Nat) :
    (IsSound progress.vertices.size line ∧ ∃ points polygons,
      List.Forall₂ IsPoint (arguments? 'v' line).toList points ∧
      List.Forall₂ (List.Forall₂ (IsCorner progress.vertices.size)) (arguments? 'f' line).toList
        polygons ∧
      readLine progress line number = .ok (progress.add points number polygons)) ∨
    ∃ fault, HasFault progress.vertices.size line fault ∧
      readLine progress line number = .error ⟨number, fault⟩ := by
  cases hVertex : arguments? 'v' line with
  | some tokens =>
    have hFace := arguments?_face_of_vertex hVertex
    rw [readLine_of_vertex hVertex, hFace]
    cases hRead : vertex tokens with
    | ok point =>
      have hPoint := vertex_eq_ok_iff.mp hRead
      refine .inl ⟨⟨?_, ?_⟩, [point], [], .cons hPoint .nil, .nil, rfl⟩
      · intro others hOthers
        rw [hVertex, Option.mem_some_iff] at hOthers
        exact ⟨point, hOthers ▸ hPoint⟩
      · simp [hFace]
    | error fault => exact .inr ⟨fault, .vertex tokens hVertex (vertex_eq_error_iff.mp hRead), rfl⟩
  | none =>
    cases hFace : arguments? 'f' line with
    | some tokens =>
      rw [readLine_of_face hFace]
      cases hRead : tokens.mapM (faceIndex progress.vertices.size) with
      | ok polygon =>
        have hCorners := mapM_faceIndex_eq_ok_iff.mp hRead
        refine .inl ⟨⟨by simp [hVertex], ?_⟩, [], [polygon], .nil, .cons hCorners .nil, rfl⟩
        intro others hOthers token hToken
        rw [hFace, Option.mem_some_iff] at hOthers
        subst hOthers
        obtain ⟨index, -, hCorner⟩ := exists_of_mem_forall₂ hCorners hToken
        exact ⟨index, hCorner⟩
      | error fault =>
        exact .inr ⟨fault, .face tokens hFace (mapM_faceIndex_eq_error_iff.mp hRead), rfl⟩
    | none =>
      exact .inl ⟨⟨by simp [hVertex], by simp [hFace]⟩, [], [], .nil, .nil,
        readLine_of_other hVertex hFace⟩

end

end Diorama.Obj
