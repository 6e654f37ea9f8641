import Diorama.Proofs.Diagram.Parts
import Diorama.Proofs.Text.Search

/-!
# The grammar of lines

A line has one of eight forms. Some of them overlap, and then the first in this order counts: blank,
comment, region line, `end`, node, edge, header, unrecognized. `HasForm` holds these conditions, and every
text is read as a form that it has (`hasForm_ofTrimmed`), from which an equivalence for each of the forms
follows (`ofLine_grammar`).
-/

namespace Diorama.Statement

/-! ### Keywords -/

/-- The text starts with a keyword in any ASCII case, which a space, a tab or nothing follows. -/
def StartsWithKeyword (keyword : String) (text : List Char) : Prop :=
  ∃ matched rest, text = matched ++ rest ∧ Text.SameWord matched keyword.toList ∧
    ∀ c ∈ rest.head?, isGap c = true

def IsComment (text : List Char) : Prop := "%%".toList <+: text

instance : DecidablePred IsComment := fun text =>
  inferInstanceAs (Decidable ("%%".toList <+: text))

def OpensRegion (text : List Char) : Prop := StartsWithKeyword "subgraph" text

def ClosesRegion (text : List Char) : Prop := Text.SameWord text "end".toList

instance : DecidablePred ClosesRegion := fun text =>
  inferInstanceAs (Decidable (Text.SameWord text "end".toList))

def IsHeader (text : List Char) : Prop :=
  StartsWithKeyword "flowchart" text ∨ StartsWithKeyword "graph" text

/-- None of the forms that are recognised before nodes. -/
structure IsPlain (text : List Char) : Prop where
  ne_nil : text ≠ []
  not_isComment : ¬ IsComment text
  not_opensRegion : ¬ OpensRegion text
  not_closesRegion : ¬ ClosesRegion text

theorem isSome_afterKeyword?_iff {keyword : String} {text : List Char} :
    (afterKeyword? keyword text).isSome = true ↔ StartsWithKeyword keyword text := by
  rw [Option.isSome_iff_exists]
  simp only [afterKeyword?, Option.filter_eq_some_iff, Text.dropWord?_eq_some_iff, Option.all_eq_true]
  constructor
  · rintro ⟨rest, ⟨matched, hText, hWord⟩, hGap⟩
    exact ⟨matched, rest, hText, hWord, hGap⟩
  · rintro ⟨matched, rest, hText, hWord, hGap⟩
    exact ⟨rest, ⟨matched, hText, hWord⟩, hGap⟩

/-! ### The order of the forms -/

theorem openRegion?_of_opensRegion {text : List Char} (h : OpensRegion text) :
    ∃ identifier title, openRegion? text = some (.openRegion identifier title) := by
  obtain ⟨rest, hRest⟩ := Option.isSome_iff_exists.mp (isSome_afterKeyword?_iff.mpr h)
  rw [openRegion?, hRest, Option.map_some]
  simp only
  split_ifs
  · exact ⟨_, _, rfl⟩
  · exact ⟨_, _, rfl⟩

theorem openRegion?_eq_none {text : List Char} (h : ¬ OpensRegion text) :
    openRegion? text = none := by
  rw [openRegion?, Option.map_eq_none_iff, ← Option.not_isSome_iff_eq_none, isSome_afterKeyword?_iff]
  exact h

theorem closeRegion?_eq (text : List Char) :
    closeRegion? text = if ClosesRegion text then some .closeRegion else none := by
  have hWord : Text.dropWord? "end".toList text = some [] ↔ ClosesRegion text := by
    rw [Text.dropWord?_eq_some_iff]
    simp only [List.append_nil]
    constructor
    · rintro ⟨matched, rfl, hWord⟩
      exact hWord
    · exact fun h => ⟨text, rfl, h⟩
  rw [closeRegion?]
  exact if_congr hWord rfl rfl

theorem header?_eq_none_iff {text : List Char} : header? text = none ↔ ¬ IsHeader text := by
  rw [header?, Option.map_eq_none_iff, ← Option.not_isSome_iff_eq_none, Option.orElse_eq_orElse,
    Option.orElse_eq_or, Option.isSome_or, Bool.or_eq_true, isSome_afterKeyword?_iff,
    isSome_afterKeyword?_iff, IsHeader]

theorem header?_of_isHeader {text : List Char} (h : IsHeader text) :
    header? text = some .header := by
  cases hRead : header? text with
  | none => exact absurd h (header?_eq_none_iff.mp hRead)
  | some s =>
    obtain ⟨_, -, rfl⟩ := Option.map_eq_some_iff.mp hRead
    rfl

/-- The forms of a text, the parts of region lines left open. A form comes with what excludes the forms
before it. -/
inductive HasForm (text : List Char) : Statement → Prop
  | blank : text = [] → HasForm text .blank
  | comment : IsComment text → HasForm text .comment
  | openRegion (identifier : Option String) (title : Option RegionTitle) :
    OpensRegion text → HasForm text (.openRegion identifier title)
  | closeRegion : ClosesRegion text → HasForm text .closeRegion
  | node (p : NodeLine) : IsPlain text → p.text = text →
    HasForm text (.node (String.ofList p.id) p.label)
  | edge (p : EdgeLine) : IsPlain text → (∀ p : NodeLine, p.text ≠ text) → p.text = text →
    HasForm text (.edge (String.ofList p.source) (String.ofList p.target)
      (p.label.map BarLabel.label))
  | header : IsPlain text → (∀ p : NodeLine, p.text ≠ text) → (∀ p : EdgeLine, p.text ≠ text) →
    IsHeader text → HasForm text .header
  | unrecognized : IsPlain text → (∀ p : NodeLine, p.text ≠ text) →
    (∀ p : EdgeLine, p.text ≠ text) → ¬ IsHeader text → HasForm text .unrecognized

section

variable {text : List Char}

theorem ofTrimmed_of_isComment (h : IsComment text) : ofTrimmed text = .comment := by
  have hNe : text ≠ [] := by
    rintro rfl
    exact absurd h (by decide)
  rw [ofTrimmed, if_neg hNe]
  exact if_pos h

theorem ofTrimmed_of_not_isComment (hNe : text ≠ []) (h : ¬ IsComment text) :
    ofTrimmed text = (openRegion? text <|> closeRegion? text <|> node? text <|> edge? text <|>
      header? text).getD .unrecognized := by
  rw [ofTrimmed, if_neg hNe]
  exact if_neg h

/-- A text that starts with a letter is not blank and no comment. -/
theorem not_isComment_of_sameWord {matched word : List Char} {w : Char}
    (hWord : Text.SameWord matched (w :: word)) (hw : w.toLower ≠ '%') (rest : List Char) :
    matched ++ rest ≠ [] ∧ ¬ IsComment (matched ++ rest) := by
  cases matched with
  | nil => cases hWord
  | cons c matched =>
    have hc : c.toLower = w.toLower := (List.cons.inj hWord).1
    refine ⟨List.cons_ne_nil _ _, fun hComment => hw ?_⟩
    rw [← hc, ← (List.cons_prefix_cons.mp hComment).1]
    decide

theorem ofTrimmed_of_opensRegion (h : OpensRegion text) :
    ∃ identifier title, ofTrimmed text = .openRegion identifier title := by
  obtain ⟨identifier, title, hRead⟩ := openRegion?_of_opensRegion h
  obtain ⟨matched, rest, rfl, hWord, -⟩ := h
  obtain ⟨hNe, hComment⟩ := not_isComment_of_sameWord hWord (by decide) rest
  refine ⟨identifier, title, ?_⟩
  rw [ofTrimmed_of_not_isComment hNe hComment, hRead]
  rfl

theorem not_opensRegion_of_closesRegion (h : ClosesRegion text) : ¬ OpensRegion text := by
  rintro ⟨matched, rest, rfl, hWord, -⟩
  have hEnd := congrArg List.length h
  have hLength := congrArg List.length hWord
  simp only [List.length_map, List.length_append] at hEnd hLength
  have hLong : "end".toList.length < "subgraph".toList.length := by decide
  omega

theorem ofTrimmed_of_closesRegion (h : ClosesRegion text) : ofTrimmed text = .closeRegion := by
  obtain ⟨hNe, hComment⟩ := not_isComment_of_sameWord h (by decide) []
  rw [List.append_nil] at hNe hComment
  rw [ofTrimmed_of_not_isComment hNe hComment,
    openRegion?_eq_none (not_opensRegion_of_closesRegion h), closeRegion?_eq, if_pos h]
  rfl

theorem ofTrimmed_of_isPlain (h : IsPlain text) :
    ofTrimmed text = (node? text <|> edge? text <|> header? text).getD .unrecognized := by
  rw [ofTrimmed_of_not_isComment h.ne_nil h.not_isComment, openRegion?_eq_none h.not_opensRegion,
    closeRegion?_eq, if_neg h.not_closesRegion]
  rfl

theorem ofTrimmed_text_nodeLine {p : NodeLine} (h : IsPlain p.text) :
    ofTrimmed p.text = p.statement := by
  rw [ofTrimmed_of_isPlain h, p.node?_text]
  rfl

section

variable (h : IsPlain text) (hNode : ∀ p : NodeLine, p.text ≠ text)

include hNode

theorem node?_eq_none : node? text = none := by
  rw [Option.eq_none_iff_forall_ne_some]
  intro s hs
  obtain ⟨p, hText, -⟩ := node?_eq_some_iff.mp hs
  exact hNode p hText

include h

theorem ofTrimmed_of_forall_ne :
    ofTrimmed text = (edge? text <|> header? text).getD .unrecognized := by
  rw [ofTrimmed_of_isPlain h, node?_eq_none hNode]
  rfl

theorem ofTrimmed_text_edgeLine {p : EdgeLine} (hText : p.text = text) :
    ofTrimmed text = p.statement := by
  rw [ofTrimmed_of_forall_ne h hNode, ← hText, p.edge?_text]
  rfl

theorem ofTrimmed_of_forall_ne_ne (hEdge : ∀ p : EdgeLine, p.text ≠ text) :
    ofTrimmed text = (header? text).getD .unrecognized := by
  have hNone : edge? text = none := by
    rw [Option.eq_none_iff_forall_ne_some]
    intro s hs
    obtain ⟨p, hText, -⟩ := edge?_eq_some_iff.mp hs
    exact hEdge p hText
  rw [ofTrimmed_of_forall_ne h hNode, hNone]
  rfl

end

theorem hasForm_of_isPlain (h : IsPlain text) : HasForm text (ofTrimmed text) := by
  by_cases hNode : ∃ p : NodeLine, p.text = text
  · obtain ⟨p, rfl⟩ := hNode
    rw [ofTrimmed_text_nodeLine h]
    exact .node p h rfl
  rw [not_exists] at hNode
  by_cases hEdge : ∃ p : EdgeLine, p.text = text
  · obtain ⟨p, hText⟩ := hEdge
    rw [ofTrimmed_text_edgeLine h hNode hText]
    exact .edge p h hNode hText
  rw [not_exists] at hEdge
  rw [ofTrimmed_of_forall_ne_ne h hNode hEdge]
  by_cases hHeader : IsHeader text
  · rw [header?_of_isHeader hHeader]
    exact .header h hNode hEdge hHeader
  · rw [header?_eq_none_iff.mpr hHeader]
    exact .unrecognized h hNode hEdge hHeader

/-- **A text is read as one of the forms that it has.** -/
theorem hasForm_ofTrimmed (text : List Char) : HasForm text (ofTrimmed text) := by
  by_cases hNil : text = []
  · rw [ofTrimmed, if_pos hNil]
    exact .blank hNil
  by_cases hComment : IsComment text
  · rw [ofTrimmed_of_isComment hComment]
    exact .comment hComment
  by_cases hOpens : OpensRegion text
  · obtain ⟨identifier, title, hRead⟩ := ofTrimmed_of_opensRegion hOpens
    rw [hRead]
    exact .openRegion identifier title hOpens
  by_cases hCloses : ClosesRegion text
  · rw [ofTrimmed_of_closesRegion hCloses]
    exact .closeRegion hCloses
  exact hasForm_of_isPlain ⟨hNil, hComment, hOpens, hCloses⟩

theorem hasForm_of_eq {s : Statement} (h : ofTrimmed text = s) : HasForm text s := by
  rw [← h]
  exact hasForm_ofTrimmed text

theorem ofTrimmed_eq_blank_iff : ofTrimmed text = .blank ↔ text = [] := by
  constructor
  · intro h
    cases hasForm_of_eq h with
    | blank hNil => exact hNil
  · rintro rfl
    rfl

theorem ofTrimmed_eq_comment_iff : ofTrimmed text = .comment ↔ IsComment text := by
  refine ⟨fun h => ?_, ofTrimmed_of_isComment⟩
  cases hasForm_of_eq h with
  | comment hComment => exact hComment

theorem exists_ofTrimmed_eq_openRegion_iff :
    (∃ identifier title, ofTrimmed text = .openRegion identifier title) ↔ OpensRegion text := by
  refine ⟨?_, ofTrimmed_of_opensRegion⟩
  rintro ⟨identifier, title, h⟩
  cases hasForm_of_eq h with
  | openRegion _ _ hOpens => exact hOpens

theorem ofTrimmed_eq_closeRegion_iff : ofTrimmed text = .closeRegion ↔ ClosesRegion text := by
  refine ⟨fun h => ?_, ofTrimmed_of_closesRegion⟩
  cases hasForm_of_eq h with
  | closeRegion hCloses => exact hCloses

theorem ofTrimmed_eq_node_iff {id label : String} :
    ofTrimmed text = .node id label ↔
      IsPlain text ∧ ∃ p : NodeLine, p.text = text ∧ id = String.ofList p.id ∧
        label = String.ofList (Text.trim p.body) := by
  constructor
  · intro h
    cases hasForm_of_eq h with
    | node p hPlain hText => exact ⟨hPlain, p, hText, rfl, rfl⟩
  · rintro ⟨hPlain, p, rfl, rfl, rfl⟩
    exact ofTrimmed_text_nodeLine hPlain

theorem ofTrimmed_eq_edge_iff {source target : String} {label : Option String} :
    ofTrimmed text = .edge source target label ↔
      IsPlain text ∧ (∀ p : NodeLine, p.text ≠ text) ∧
        ∃ p : EdgeLine, p.text = text ∧ source = String.ofList p.source ∧
          target = String.ofList p.target ∧
          label = p.label.map fun l => String.ofList (Text.trim l.body) := by
  constructor
  · intro h
    cases hasForm_of_eq h with
    | edge p hPlain hNode hText => exact ⟨hPlain, hNode, p, hText, rfl, rfl, rfl⟩
  · rintro ⟨hPlain, hNode, p, hText, rfl, rfl, rfl⟩
    exact ofTrimmed_text_edgeLine hPlain hNode hText

theorem ofTrimmed_eq_header_iff :
    ofTrimmed text = .header ↔
      IsPlain text ∧ (∀ p : NodeLine, p.text ≠ text) ∧ (∀ p : EdgeLine, p.text ≠ text) ∧
        IsHeader text := by
  constructor
  · intro h
    cases hasForm_of_eq h with
    | header hPlain hNode hEdge hHeader => exact ⟨hPlain, hNode, hEdge, hHeader⟩
  · rintro ⟨hPlain, hNode, hEdge, hHeader⟩
    rw [ofTrimmed_of_forall_ne_ne hPlain hNode hEdge, header?_of_isHeader hHeader]
    rfl

theorem ofTrimmed_eq_unrecognized_iff :
    ofTrimmed text = .unrecognized ↔
      IsPlain text ∧ (∀ p : NodeLine, p.text ≠ text) ∧ (∀ p : EdgeLine, p.text ≠ text) ∧
        ¬ IsHeader text := by
  constructor
  · intro h
    cases hasForm_of_eq h with
    | unrecognized hPlain hNode hEdge hHeader => exact ⟨hPlain, hNode, hEdge, hHeader⟩
  · rintro ⟨hPlain, hNode, hEdge, hHeader⟩
    rw [ofTrimmed_of_forall_ne_ne hPlain hNode hEdge, header?_eq_none_iff.mpr hHeader]
    rfl

end

/-- **The grammar of lines.** Without its blanks at both ends, a line is blank, a comment, a region line
or an `end`, or else it declares a node if it has the parts of a node line, or else it tells an edge if
it has the parts of an edge line, or else it is a header or unrecognized. The parts are unique. -/
theorem ofLine_grammar (line : List Char) :
    (ofLine line = .blank ↔ Text.trim line = []) ∧
    (ofLine line = .comment ↔ IsComment (Text.trim line)) ∧
    ((∃ identifier title, ofLine line = .openRegion identifier title) ↔
      OpensRegion (Text.trim line)) ∧
    (ofLine line = .closeRegion ↔ ClosesRegion (Text.trim line)) ∧
    (∀ id label, ofLine line = .node id label ↔
      IsPlain (Text.trim line) ∧ ∃ p : NodeLine, p.text = Text.trim line ∧
        id = String.ofList p.id ∧ label = String.ofList (Text.trim p.body)) ∧
    (∀ source target label, ofLine line = .edge source target label ↔
      IsPlain (Text.trim line) ∧ (∀ p : NodeLine, p.text ≠ Text.trim line) ∧
        ∃ p : EdgeLine, p.text = Text.trim line ∧ source = String.ofList p.source ∧
          target = String.ofList p.target ∧
          label = p.label.map fun l => String.ofList (Text.trim l.body)) ∧
    (ofLine line = .header ↔
      IsPlain (Text.trim line) ∧ (∀ p : NodeLine, p.text ≠ Text.trim line) ∧
        (∀ p : EdgeLine, p.text ≠ Text.trim line) ∧ IsHeader (Text.trim line)) ∧
    (ofLine line = .unrecognized ↔
      IsPlain (Text.trim line) ∧ (∀ p : NodeLine, p.text ≠ Text.trim line) ∧
        (∀ p : EdgeLine, p.text ≠ Text.trim line) ∧ ¬ IsHeader (Text.trim line)) ∧
    NodeLine.text.Injective ∧ EdgeLine.text.Injective :=
  ⟨ofTrimmed_eq_blank_iff, ofTrimmed_eq_comment_iff, exists_ofTrimmed_eq_openRegion_iff,
    ofTrimmed_eq_closeRegion_iff, fun _ _ => ofTrimmed_eq_node_iff,
    fun _ _ _ => ofTrimmed_eq_edge_iff, ofTrimmed_eq_header_iff, ofTrimmed_eq_unrecognized_iff,
    NodeLine.text_injective, EdgeLine.text_injective⟩

/-- A keyword is an identifier where a label follows it. -/
example : ofLine "end [x) y".toList = .node "end" "x" := by decide +kernel

end Diorama.Statement
