import Diorama.Conversion.Basic
import Diorama.Proofs.Text.Lines
import Diorama.Proofs.Text.Search

/-!
# Diagrams converted from where they are embedded

A diagram in a fenced block or in a container is extracted as if it stood alone
(`extract_fencedDocument`, `extract_containerDocument`), as long as it does not hold the mark that
closes the block. So all that a conversion makes of it is the same (`documentText_embedded`).
-/

namespace Diorama.Embedded

/-- What may follow the language on the line of an opening fence. -/
def IsAttributes (attributes : String) : Prop :=
  (∀ c ∈ attributes.toList.head?, c = ' ' ∨ c = '\t') ∧ '\n' ∉ attributes.toList

def IsLineEnd (lineEnd : String) : Prop := lineEnd = "\n" ∨ lineEnd = "\r\n"

/-- A Markdown document with a diagram in a fenced block. -/
def fencedDocument (before attributes lineEnd source after : String) : String :=
  before ++ "```mermaid" ++ attributes ++ lineEnd ++ source ++ lineEnd ++ "```" ++ after

/-- A web page with a diagram in a container. -/
def containerDocument (before source after : String) : String :=
  before ++ "<div class=\"mermaid\">" ++ source ++ "</div>" ++ after

/-! ### Words of a document -/

theorem dropExact?_eq_some_iff {word text rest : List Char} :
    dropExact? word text = some rest ↔ text = word ++ rest := by
  have hMatch : dropExact? word text = some rest ↔
      ∃ matched, text = matched ++ rest ∧ matched.map id = word := Text.dropMatch?_eq_some_iff
  simp only [List.map_id] at hMatch
  rw [hMatch]
  constructor
  · rintro ⟨matched, rfl, rfl⟩
    rfl
  · rintro rfl
    exact ⟨word, rfl, rfl⟩

theorem isSome_dropExact?_iff {word text : List Char} :
    (dropExact? word text).isSome = true ↔ word <+: text := by
  have hMatch : (dropExact? word text).isSome = true ↔ word <+: text.map id :=
    Text.isSome_dropMatch?_iff
  rwa [List.map_id] at hMatch

theorem isSome_dropFolded?_iff {word text : List Char} :
    (dropFolded? word text).isSome = true ↔ word <+: text.map Text.fold :=
  Text.isSome_dropMatch?_iff

theorem dropFolded?_append {word text : List Char} (hWord : word.map Text.fold = word) :
    dropFolded? word (word ++ text) = some text :=
  Text.dropMatch?_eq_some_iff.mpr ⟨word, rfl, hWord⟩

/-! ### Fenced blocks -/

theorem prefix_of_afterFence? {text body : List Char} (h : afterFence? text = some body) :
    "```mermaid".toList <+: text := by
  obtain ⟨rest, hRest, -⟩ := Option.bind_eq_some_iff.mp h
  exact ⟨rest, (dropExact?_eq_some_iff.mp hRest).symm⟩

theorem afterFence?_opener {attributes lineEnd : String} (hAttributes : IsAttributes attributes)
    (hEnd : IsLineEnd lineEnd) (body : List Char) :
    afterFence? ("```mermaid".toList ++ (attributes.toList ++ (lineEnd.toList ++ body))) =
      some body := by
  obtain ⟨hHead, hLine⟩ := hAttributes
  rw [afterFence?, dropExact?_eq_some_iff.mpr rfl, Option.bind_eq_bind, Option.bind_some]
  cases hText : attributes.toList with
  | nil => rcases hEnd with rfl | rfl <;> rfl
  | cons c rest =>
    rw [hText] at hHead hLine
    have hc : c = ' ' ∨ c = '\t' := hHead c rfl
    have hRest : ∀ d ∈ rest, decide (d ≠ '\n') = true := by
      intro d hd
      refine decide_eq_true ?_
      rintro rfl
      exact hLine (List.mem_cons_of_mem c hd)
    simp only [List.cons_append, if_pos hc, List.dropWhile_append_of_pos hRest]
    rcases hEnd with rfl | rfl <;> rfl

theorem firstSome?_afterFence? {before : List Char} (hBefore : '\x60' ∉ before)
    (text : List Char) :
    Text.firstSome? afterFence? (before ++ text) = Text.firstSome? afterFence? text := by
  refine Text.firstSome?_append_of_forall_mem fun c hc t => ?_
  by_contra hSome
  obtain ⟨body, hBody⟩ := Option.ne_none_iff_exists'.mp hSome
  obtain ⟨rfl, -⟩ := List.cons_prefix_cons.mp (prefix_of_afterFence? hBody)
  exact hBefore hc

/-- No fence starts in a source without fences, nor in the line end behind it. -/
theorem closesFence_eq_false {source lineEnd : List Char} (hSource : ¬ "```".toList <:+: source)
    (hEnd : '\x60' ∉ lineEnd) (hLine : lineEnd ≠ []) {t rest : List Char} (hNe : t ≠ [])
    (ht : t <:+ source ++ lineEnd) : closesFence (t ++ rest) = false := by
  obtain ⟨c, tail, rfl⟩ := List.exists_cons_of_ne_nil hLine
  have hc : c ∉ "```".toList := by
    intro hMem
    have hEq : c = '\x60' := by simpa using hMem
    exact hEnd (hEq ▸ List.mem_cons_self)
  by_contra hCloses
  have hFence : "```".toList <+: t ++ rest :=
    isSome_dropExact?_iff.mp ((Bool.not_eq_false _).mp hCloses)
  rcases List.suffix_or_suffix_of_suffix ht (List.suffix_append source (c :: tail)) with
    hInEnd | ⟨t, rfl⟩
  · obtain ⟨d, t, rfl⟩ := List.exists_cons_of_ne_nil hNe
    obtain ⟨rfl, -⟩ := List.cons_prefix_cons.mp hFence
    exact hEnd (hInEnd.mem List.mem_cons_self)
  · rw [List.append_assoc, List.cons_append] at hFence
    have hSuffix := List.suffix_append_self_iff.mp ht
    exact hSource ((Text.prefix_of_append_cons hc hFence).isInfix.trans hSuffix.isInfix)

theorem isBlank_of_mem_lineEnd {lineEnd : String} (hEnd : IsLineEnd lineEnd) :
    ∀ c ∈ lineEnd.toList, Text.isBlank c = true := by
  rw [← List.all_eq_true]
  rcases hEnd with rfl | rfl <;> rfl

/-- **A diagram is found in its fenced block.** -/
theorem extract_fencedDocument {before attributes lineEnd source : String}
    (hSource : ¬ "```".toList <:+: source.toList) (hBefore : '\x60' ∉ before.toList)
    (hAttributes : IsAttributes attributes) (hEnd : IsLineEnd lineEnd) (after : String) :
    extract .fenced (fencedDocument before attributes lineEnd source after) =
      .ok (String.ofList (Text.trim source.toList)) := by
  have hOpener := afterFence?_opener hAttributes hEnd
    ((source.toList ++ lineEnd.toList) ++ ("```".toList ++ after.toList))
  have hFirst := (firstSome?_afterFence? hBefore _).trans (Text.firstSome?_of_eq_some hOpener)
  have hBody : Text.before? closesFence
      ((source.toList ++ lineEnd.toList) ++ ("```".toList ++ after.toList)) =
        some (source.toList ++ lineEnd.toList) := by
    refine Text.before?_append (fun t hNe ht => closesFence_eq_false hSource ?_ ?_ hNe ht) rfl
    · rcases hEnd with rfl | rfl <;> decide
    · rcases hEnd with rfl | rfl <;> decide
  have hDocument : (fencedDocument before attributes lineEnd source after).toList =
      before.toList ++ ("```mermaid".toList ++ (attributes.toList ++ (lineEnd.toList ++
        ((source.toList ++ lineEnd.toList) ++ ("```".toList ++ after.toList))))) := by
    simp only [fencedDocument, String.toList_append, List.append_assoc]
  rw [extract, hDocument]
  simp only [body?, hFirst, Option.bind_some, hBody]
  rw [Text.trim_append (isBlank_of_mem_lineEnd hEnd)]

/-! ### Containers -/

theorem prefix_of_afterContainerTag? {text body : List Char}
    (h : afterContainerTag? text = some body) : "<div".toList <+: text.map Text.fold := by
  obtain ⟨rest, hRest, -⟩ := Option.bind_eq_some_iff.mp h
  exact isSome_dropFolded?_iff.mp (Option.isSome_of_eq_some hRest)

theorem afterContainerTag?_opener (body : List Char) :
    afterContainerTag? ("<div class=\"mermaid\">".toList ++ body) = some body := by
  have hWord : dropFolded? "<div".toList ("<div class=\"mermaid\">".toList ++ body) =
      some (" class=\"mermaid\">".toList ++ body) :=
    dropFolded?_append (by decide : "<div".toList.map Text.fold = "<div".toList)
  rw [afterContainerTag?, hWord, Option.bind_eq_bind, Option.bind_some]
  have hName : namesClass " class=\"mermaid\"".toList = true := by decide
  exact if_pos hName

theorem firstSome?_afterContainerTag? {before : List Char} (hBefore : '<' ∉ before)
    (text : List Char) : Text.firstSome? afterContainerTag? (before ++ text) =
      Text.firstSome? afterContainerTag? text := by
  refine Text.firstSome?_append_of_forall_mem fun c hc t => ?_
  by_contra hSome
  obtain ⟨body, hBody⟩ := Option.ne_none_iff_exists'.mp hSome
  have hFold := (List.cons_prefix_cons.mp (prefix_of_afterContainerTag? hBody)).1
  obtain rfl := Text.eq_of_fold_eq (by decide) hFold.symm
  exact hBefore hc

/-- No closing tag starts in a source without closing tags. -/
theorem closesContainer_eq_false {source : List Char}
    (hSource : ¬ "</div>".toList <:+: source.map Char.toLower) {t rest : List Char}
    (hNe : t ≠ []) (ht : t <:+ source) :
    closesContainer (t ++ ("</div>".toList ++ rest)) = false := by
  by_contra hCloses
  have hTag : "</div>".toList <+: t.map Text.fold ++ '<' :: ("/div>".toList ++ rest).map Text.fold := by
    have hFolded := isSome_dropFolded?_iff.mp ((Bool.not_eq_false _).mp hCloses)
    rwa [List.map_append] at hFolded
  have hPrefix : "</div>".toList <+: t.map Text.fold :=
    Text.cons_prefix_of_append_cons (by decide) (by simpa using hNe) hTag
  have hLower := Text.prefix_map_toLower (by decide) (by decide) hPrefix
  exact hSource (hLower.isInfix.trans (ht.map Char.toLower).isInfix)

/-- **A diagram is found in its container.** -/
theorem extract_containerDocument {before source : String}
    (hSource : ¬ "</div>".toList <:+: source.toList.map Char.toLower)
    (hBefore : '<' ∉ before.toList) (after : String) :
    extract .container (containerDocument before source after) =
      .ok (String.ofList (Text.trim source.toList)) := by
  have hOpener := afterContainerTag?_opener (source.toList ++ ("</div>".toList ++ after.toList))
  have hFirst := (firstSome?_afterContainerTag? hBefore _).trans
    (Text.firstSome?_of_eq_some hOpener)
  have hBody : Text.before? closesContainer (source.toList ++ ("</div>".toList ++ after.toList)) =
      some source.toList :=
    Text.before?_append (fun t hNe ht => closesContainer_eq_false hSource hNe ht)
      (isSome_dropFolded?_iff.mpr ⟨after.toList.map Text.fold, by rw [List.map_append]; rfl⟩)
  have hDocument : (containerDocument before source after).toList =
      before.toList ++ ("<div class=\"mermaid\">".toList ++
        (source.toList ++ ("</div>".toList ++ after.toList))) := by
    simp only [containerDocument, String.toList_append, List.append_assoc]
  rw [extract, hDocument]
  simp only [body?, hFirst, Option.bind_some, hBody]

theorem extract_fenced_eq_error {document : String}
    (hDocument : ¬ "```mermaid".toList <:+: document.toList) :
    extract .fenced document = .error ⟨.fenced⟩ := by
  have hNone : Text.firstSome? afterFence? document.toList = none := by
    refine Text.firstSome?_eq_none fun t ht => ?_
    by_contra hSome
    obtain ⟨body, hBody⟩ := Option.ne_none_iff_exists'.mp hSome
    exact hDocument ((prefix_of_afterFence? hBody).isInfix.trans ht.isInfix)
  rw [extract]
  simp only [body?, hNone, Option.bind_none]

end Diorama.Embedded

namespace Diorama.Rendering

open Embedded

/-- What is extracted alike is converted alike. -/
theorem documentText_eq_raw {format : SourceFormat} {document source : String}
    (h : format.extract document = .ok (String.ofList (Text.trim source.toList)))
    (r : Rendering) : r.documentText format document = r.documentText .raw source := by
  rw [documentText, documentText, h]
  rfl

/-- **A diagram converts identically however it is embedded**: in a fenced block that it does not
close, in a container that it does not close, and also if the format has to be found out. -/
theorem documentText_embedded (r : Rendering) (source : String) :
    (¬ "```".toList <:+: source.toList → ∀ before attributes lineEnd after : String,
      '\x60' ∉ before.toList → IsAttributes attributes → IsLineEnd lineEnd →
      ∀ format, format = .markdown ∨ format = .auto →
        r.documentText format (fencedDocument before attributes lineEnd source after) =
          r.documentText .raw source) ∧
    (¬ "</div>".toList <:+: source.toList.map Char.toLower → ∀ before after : String,
      '<' ∉ before.toList →
      ∀ format, format = .html ∨
          format = .auto ∧ ¬ "```mermaid".toList <:+: (containerDocument before source after).toList →
        r.documentText format (containerDocument before source after) =
          r.documentText .raw source) := by
  constructor
  · intro hSource before attributes lineEnd after hBefore hAttributes hEnd format hFormat
    have hExtract := extract_fencedDocument hSource hBefore hAttributes hEnd after
    refine documentText_eq_raw ?_ r
    rcases hFormat with rfl | rfl
    · exact hExtract
    · rw [SourceFormat.extract, hExtract]
  · intro hSource before after hBefore format hFormat
    have hExtract := extract_containerDocument hSource hBefore after
    refine documentText_eq_raw ?_ r
    rcases hFormat with rfl | ⟨rfl, hFence⟩
    · exact hExtract
    · rw [SourceFormat.extract, extract_fenced_eq_error hFence]
      exact hExtract

/-- A source with a line that is no statement. It ends in two backticks and holds half a closing
tag. -/
def misleading : String := "A[one] --> B\noops </di``"

/-- How strictly a source is read does not matter, nor what follows its block. -/
theorem documentText_embedded_misleading :
    ¬ "```".toList <:+: misleading.toList ∧
      ¬ "</div>".toList <:+: misleading.toList.map Char.toLower ∧
      IsAttributes " title=\"Flow\"" ∧ IsLineEnd "\r\n" ∧
      ∃ r : Rendering, (r.documentText .raw misleading).isOk = false ∧
        r.documentText .markdown (fencedDocument "see <div class=mermaid>\n" " title=\"Flow\"" "\r\n"
          misleading "\n```mermaid\nB[two]\n```") = r.documentText .raw misleading ∧
        r.documentText .auto (containerDocument "# `A`\n" misleading "</DIV><div class=mermaid>") =
          r.documentText .raw misleading := by
  have hFence : ¬ "```".toList <:+: misleading.toList := by decide
  have hTag : ¬ "</div>".toList <:+: misleading.toList.map Char.toLower := by decide
  have hAttributes : IsAttributes " title=\"Flow\"" := ⟨fun _ hc => .inl (by cases hc; rfl), by decide⟩
  have hEnd : IsLineEnd "\r\n" := .inr rfl
  have hEmbedded := documentText_embedded ⟨{ Settings.standard with strict := true }, none, .layout⟩
    misleading
  refine ⟨hFence, hTag, hAttributes, hEnd, _, ?_,
    hEmbedded.1 hFence _ _ _ _ (by decide) hAttributes hEnd _ (.inl rfl),
    hEmbedded.2 hTag _ _ (by decide) _ (.inr ⟨rfl, by decide +kernel⟩)⟩
  decide +kernel

end Diorama.Rendering
