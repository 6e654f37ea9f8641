import Diorama.Proofs.Document.Extraction

/-!
# Containers of another class

A page shows a diagram if one of its `div` tags has an attribute `class` whose value is `mermaid`. Which
attributes a tag has is told by a reader that goes through the tag as a browser does, one character at a
time (`Phase.step`, `attributesFrom`).

The container pattern reads no attributes: it looks for a mention of the class somewhere in a tag. At a
mention a tag has the attribute, or it only looks as if it had it (`MentionTag.IsLookalike`): its name goes
on behind `div`, no attribute starts at the mention, or the value does not end behind it. If no tag of a
page shows a diagram, what is extracted from the page is what a lookalike contains
(`extract_container_lookalike`).
-/

namespace Diorama.Embedded

/-! ### Attributes of a tag -/

structure Attribute where
  name : List Char
  value : List Char
deriving DecidableEq, Repr

/-- White space within a tag. -/
def tagSpaces : List Char := [' ', '\t', '\n', '\x0c', '\r']

/-- What ends the name of an attribute. -/
def nameEnds : List Char := tagSpaces ++ ['/', '=', '>']

/-- What ends a value without quotes. -/
def valueEnds : List Char := tagSpaces ++ ['>']

/-- How far a tag is read behind its own name. -/
inductive Phase where
  | between
  | inName (name : List Char)
  | afterName (name : List Char)
  | beforeValue (name : List Char)
  | inValue (name value : List Char)
  | inQuotes (quote : Char) (name value : List Char)
  | closed

/-- Reads one character: the phase behind it, and the attribute that ends with it. -/
def Phase.step (c : Char) : Phase → Phase × Option Attribute
  | .between =>
    if c ∈ tagSpaces ∨ c = '/' then (.between, none)
    else if c = '>' then (.closed, none)
    else (.inName [c], none)
  | .inName name =>
    if c ∈ tagSpaces then (.afterName name, none)
    else if c = '/' then (.between, some ⟨name, []⟩)
    else if c = '=' then (.beforeValue name, none)
    else if c = '>' then (.closed, some ⟨name, []⟩)
    else (.inName (name ++ [c]), none)
  | .afterName name =>
    if c ∈ tagSpaces then (.afterName name, none)
    else if c = '/' then (.between, some ⟨name, []⟩)
    else if c = '=' then (.beforeValue name, none)
    else if c = '>' then (.closed, some ⟨name, []⟩)
    else (.inName [c], some ⟨name, []⟩)
  | .beforeValue name =>
    if c ∈ tagSpaces then (.beforeValue name, none)
    else if IsQuote c then (.inQuotes c name [], none)
    else if c = '>' then (.closed, some ⟨name, []⟩)
    else (.inValue name [c], none)
  | .inValue name value =>
    if c ∈ tagSpaces then (.between, some ⟨name, value⟩)
    else if c = '>' then (.closed, some ⟨name, value⟩)
    else (.inValue name (value ++ [c]), none)
  | .inQuotes quote name value =>
    if c = quote then (.between, some ⟨name, value⟩)
    else (.inQuotes quote name (value ++ [c]), none)
  | .closed => (.closed, none)

/-- The phase behind a text. -/
def Phase.run (phase : Phase) (text : List Char) : Phase :=
  text.foldl (fun phase c => (phase.step c).1) phase

/-- The attributes that end in a text. -/
def attributesFrom : Phase → List Char → List Attribute
  | _, [] => []
  | phase, c :: text => (phase.step c).2.toList ++ attributesFrom (phase.step c).1 text

/-- A name may start here. -/
def Phase.AwaitsName : Phase → Prop
  | .between | .afterName _ => True
  | _ => False

/-- The attribute of a diagram, up to letter case. -/
def Attribute.IsDiagram (a : Attribute) : Prop :=
  a.name.map Text.fold = "class".toList ∧ a.value.map Text.fold = "mermaid".toList

instance (a : Attribute) : Decidable a.IsDiagram := inferInstanceAs (Decidable (_ ∧ _))

/-- The name of a tag does not go on in this text. -/
def EndsName : List Char → Prop
  | [] => False
  | c :: _ => c ∈ tagSpaces ∨ c = '/'

/-- What follows `<div` has the attribute of a diagram. -/
def ShowsDiagram (inner : List Char) : Prop :=
  EndsName inner ∧ ∃ a ∈ attributesFrom .between inner, a.IsDiagram

/-- Some `div` tag of a document has the attribute of a diagram. -/
def HasDiagramTag (document : List Char) : Prop :=
  ∃ text ∈ document.tails, ∃ inner ∈ dropFolded? "<div".toList text, ShowsDiagram inner

instance : (text : List Char) → Decidable (EndsName text)
  | [] => inferInstanceAs (Decidable False)
  | _ :: _ => inferInstanceAs (Decidable (_ ∨ _))

instance (inner : List Char) : Decidable (ShowsDiagram inner) := inferInstanceAs (Decidable (_ ∧ _))

instance (document : List Char) : Decidable (HasDiagramTag document) :=
  inferInstanceAs (Decidable (∃ text ∈ document.tails, ∃ inner ∈ dropFolded? _ text, ShowsDiagram inner))

/-! ### Lookalikes -/

/-- A container tag in its parts, around one of its mentions of the class of diagrams. -/
structure MentionTag where
  tagName : List Char
  before : List Char
  key : List Char
  quote : List Char
  word : List Char
  after : List Char
  tagName_div : tagName.map Text.fold = "<div".toList
  before_inTag : '>' ∉ before
  key_class : key.map Text.fold = "class".toList
  quote_text : IsQuoteText quote
  word_mermaid : word.map Text.fold = "mermaid".toList
  after_inTag : '>' ∉ after

/-- The mention. -/
def MentionTag.mention (t : MentionTag) : List Char := t.key ++ (['='] ++ (t.quote ++ t.word))

/-- What stands behind the name of the tag. -/
def MentionTag.inner (t : MentionTag) : List Char := t.before ++ (t.mention ++ (t.after ++ ['>']))

def MentionTag.text (t : MentionTag) : List Char := t.tagName ++ t.inner

/-- A value that starts with this quote, or without one, ends in front of this text. -/
def EndsValue : List Char → List Char → Prop
  | _, [] => False
  | [], c :: _ => c ∈ valueEnds
  | q :: _, c :: _ => c = q

/-- The mention is no attribute of a `div` tag with the class of diagrams as its value. -/
inductive MentionTag.IsLookalike (t : MentionTag) : Prop
  | otherTag (h : ¬ EndsName t.before)
  | otherAttribute (h : ¬ (Phase.between.run t.before).AwaitsName)
  | otherValue (h : ¬ EndsValue t.quote (t.after ++ ['>']))

theorem MentionTag.isMention (t : MentionTag) : IsMention t.mention := by
  refine isMention_iff.mpr ⟨t.key ++ ['='], t.quote, t.word, ?_, ?_, t.quote_text, t.word_mermaid⟩
  · rw [mention, List.append_assoc]
  · rw [List.map_append, t.key_class]
    rfl

theorem isContainerTag_iff {tag : List Char} : IsContainerTag tag ↔ ∃ t : MentionTag, tag = t.text := by
  constructor
  · rintro ⟨name, attributes, rfl, hName, hAttributes, hOccurs⟩
    obtain ⟨part, hPart, before, after, rfl⟩ := (occurs_isMention_append_iff hName).mp hOccurs
    obtain ⟨_, quote, word, rfl, hKey, hQuote, hWord⟩ := isMention_iff.mp hPart
    rw [show "class=".toList = "class".toList ++ ['='] from rfl, List.map_eq_append_iff] at hKey
    obtain ⟨key, equals, rfl, hKey, hEquals⟩ := hKey
    obtain ⟨c, rfl, hc⟩ := List.map_eq_singleton_iff.mp hEquals
    obtain rfl := Text.eq_of_fold_eq (by decide) hc
    simp only [List.mem_append, not_or] at hAttributes
    refine ⟨⟨name, before, key, quote, word, after, hName, hAttributes.1.1, hKey, hQuote, hWord,
      hAttributes.2⟩, ?_⟩
    simp only [MentionTag.text, MentionTag.inner, MentionTag.mention, List.append_assoc]
  · rintro ⟨t, rfl⟩
    refine ⟨t.tagName, t.before ++ (t.mention ++ t.after), ?_, t.tagName_div, ?_, ?_⟩
    · simp only [MentionTag.text, MentionTag.inner, List.append_assoc]
    · simp only [List.mem_append, not_or]
      exact ⟨t.before_inTag, not_mem_of_isMention t.isMention, t.after_inTag⟩
    · exact ⟨_, t.isMention, t.tagName ++ t.before, t.after, by simp only [List.append_assoc]⟩

/-! ### Reading a mention -/

variable {phase : Phase} {name value word text : List Char}

theorem attributesFrom_append (phase : Phase) (text rest : List Char) :
    attributesFrom phase (text ++ rest) =
      attributesFrom phase text ++ attributesFrom (phase.run text) rest := by
  induction text generalizing phase with
  | nil => rfl
  | cons c text ih =>
    rw [List.cons_append, attributesFrom, attributesFrom, ih, List.append_assoc]
    rfl

theorem mem_attributesFrom_of_run {a : Attribute} {rest : List Char}
    (h : a ∈ attributesFrom (phase.run text) rest) : a ∈ attributesFrom phase (text ++ rest) := by
  rw [attributesFrom_append]
  exact List.mem_append_right _ h

theorem not_mem_nameEnds_iff {c : Char} :
    c ∉ nameEnds ↔ c ∉ tagSpaces ∧ c ≠ '/' ∧ c ≠ '=' ∧ c ≠ '>' := by
  simp only [nameEnds, List.mem_append, List.mem_cons, List.not_mem_nil, or_false, not_or, ne_eq]

theorem mem_valueEnds_iff {c : Char} : c ∈ valueEnds ↔ c ∈ tagSpaces ∨ c = '>' := by
  simp only [valueEnds, List.mem_append, List.mem_singleton]

/-- A phase that keeps what it reads has kept all of a text behind it. -/
theorem run_of_step {keep : List Char → Phase} (read : List Char)
    (hStep : ∀ read, ∀ c ∈ word, ((keep read).step c).1 = keep (read ++ [c])) :
    (keep read).run word = keep (read ++ word) := by
  induction word generalizing read with
  | nil => rw [List.append_nil]; rfl
  | cons c word ih =>
    rw [Phase.run, List.foldl_cons, hStep read c List.mem_cons_self, ← Phase.run,
      ih _ fun read d hd => hStep read d (List.mem_cons_of_mem c hd), List.append_assoc]
    rfl

theorem run_inName (hWord : ∀ c ∈ word, c ∉ nameEnds) :
    (Phase.inName name).run word = .inName (name ++ word) := by
  refine run_of_step name fun read c hc => ?_
  have hEnds := not_mem_nameEnds_iff.mp (hWord c hc)
  simp [Phase.step, hEnds]

theorem run_inValue (hWord : ∀ c ∈ word, c ∉ valueEnds) :
    (Phase.inValue name value).run word = .inValue name (value ++ word) := by
  refine run_of_step value fun read c hc => ?_
  have hEnds := mt mem_valueEnds_iff.mpr (hWord c hc)
  rw [not_or] at hEnds
  simp [Phase.step, hEnds]

theorem run_inQuotes {quote : Char} (hWord : quote ∉ word) :
    (Phase.inQuotes quote name value).run word = .inQuotes quote name (value ++ word) := by
  refine run_of_step value fun read c hc => congrArg Prod.fst (if_neg ?_)
  rintro rfl
  exact hWord hc

/-- Where a name may start, a name is read. -/
theorem run_of_awaitsName (hPhase : phase.AwaitsName) (hNe : word ≠ [])
    (hWord : ∀ c ∈ word, c ∉ nameEnds) : phase.run word = .inName word := by
  obtain ⟨c, word, rfl⟩ := List.exists_cons_of_ne_nil hNe
  rw [List.forall_mem_cons] at hWord
  obtain ⟨hSpace, hSlash, hEquals, hEnd⟩ := not_mem_nameEnds_iff.mp hWord.1
  have hStep : (phase.step c).1 = .inName [c] := by
    cases phase with
    | between => simp [Phase.step, hSpace, hSlash, hEnd]
    | afterName name => simp [Phase.step, hSpace, hSlash, hEquals, hEnd]
    | _ => cases hPhase
  rw [Phase.run, List.foldl_cons, hStep, ← Phase.run, run_inName hWord.2]
  rfl

/-- In a value that starts with this quote, or without one. -/
def valuePhase (name quote value : List Char) : Phase :=
  match quote with
  | [] => .inValue name value
  | q :: _ => .inQuotes q name value

theorem run_beforeValue {quote : List Char} (hQuote : IsQuoteText quote) (hNe : word ≠ [])
    (hWord : ∀ c ∈ word, c ∉ valueEnds ∧ ¬ IsQuote c) :
    (Phase.beforeValue name).run (quote ++ word) = valuePhase name quote word := by
  rcases hQuote with rfl | ⟨q, rfl, hq⟩
  · obtain ⟨c, word, rfl⟩ := List.exists_cons_of_ne_nil hNe
    rw [List.forall_mem_cons, mem_valueEnds_iff, not_or] at hWord
    have hStep : ((Phase.beforeValue name).step c).1 = .inValue name [c] := by
      simp [Phase.step, hWord.1]
    rw [List.nil_append, Phase.run, List.foldl_cons, hStep, ← Phase.run,
      run_inValue fun d hd => (hWord.2 d hd).1]
    rfl
  · have hStep : ((Phase.beforeValue name).step q).1 = .inQuotes q name [] := by
      rcases hq with rfl | rfl <;> rfl
    rw [List.singleton_append, Phase.run, List.foldl_cons, hStep, ← Phase.run,
      run_inQuotes fun hMem => (hWord q hMem).2 hq]
    rfl

theorem mem_attributesFrom_value {quote : List Char} (hEnd : EndsValue quote text) :
    ⟨name, value⟩ ∈ attributesFrom (valuePhase name quote value) text := by
  cases text with
  | nil =>
    rw [EndsValue] at hEnd
    exact hEnd.elim
  | cons c text =>
    have hStep : ((valuePhase name quote value).step c).2 = some ⟨name, value⟩ := by
      cases quote with
      | nil =>
        rcases mem_valueEnds_iff.mp hEnd with hSpace | rfl
        · exact congrArg Prod.snd (if_pos hSpace)
        · rfl
      | cons q _ => exact congrArg Prod.snd (if_pos hEnd)
    rw [attributesFrom, hStep]
    exact List.mem_append_left _ List.mem_cons_self

/-- An attribute is read from its name up to the end of its value. -/
theorem mem_attributesFrom_of_awaitsName {quote : List Char} (hPhase : phase.AwaitsName)
    (hName : name ≠ []) (hNameEnds : ∀ c ∈ name, c ∉ nameEnds) (hQuote : IsQuoteText quote)
    (hValue : value ≠ []) (hValueEnds : ∀ c ∈ value, c ∉ valueEnds ∧ ¬ IsQuote c)
    (hEnd : EndsValue quote text) :
    ⟨name, value⟩ ∈ attributesFrom phase (name ++ (['='] ++ (quote ++ value ++ text))) := by
  refine mem_attributesFrom_of_run ?_
  rw [run_of_awaitsName hPhase hName hNameEnds]
  refine mem_attributesFrom_of_run ?_
  refine mem_attributesFrom_of_run ?_
  have hEquals : (Phase.inName name).run ['='] = .beforeValue name := rfl
  rw [hEquals, run_beforeValue hQuote hValue hValueEnds]
  exact mem_attributesFrom_value hEnd

/-! ### Lookalikes and diagrams -/

theorem EndsName.append (h : EndsName text) (more : List Char) : EndsName (text ++ more) := by
  cases text with
  | nil => exact h.elim
  | cons c text => exact h

theorem EndsValue.append {quote : List Char} (h : EndsValue quote text) (more : List Char) :
    EndsValue quote (text ++ more) := by
  cases text with
  | nil =>
    rw [EndsValue] at h
    exact h.elim
  | cons c text => cases quote <;> exact h

/-- Characters that are not folded into a word are none of a text that is folded to it. This is a test of
a list: there are too many characters to decide it character by character. -/
theorem not_mem_of_fold {ends letters : List Char} (hText : text.map Text.fold = letters)
    (hEnds : ends.all (fun c => Text.fold c ∉ letters) = true) : ∀ c ∈ text, c ∉ ends := by
  intro c hc hEnd
  exact not_mem_of_map_fold_eq hText (of_decide_eq_true (List.all_eq_true.mp hEnds c hEnd)) hc

/-- **A container tag has the attribute of a diagram at each mention at which it is no lookalike.** -/
theorem MentionTag.showsDiagram {t : MentionTag} (h : ¬ t.IsLookalike) (more : List Char) :
    ShowsDiagram (t.inner ++ more) := by
  have hName : EndsName t.before := by
    by_contra hName
    exact h (.otherTag hName)
  have hAwaits : (Phase.between.run t.before).AwaitsName := by
    by_contra hAwaits
    exact h (.otherAttribute hAwaits)
  have hEnd : EndsValue t.quote (t.after ++ ['>']) := by
    by_contra hEnd
    exact h (.otherValue hEnd)
  have hKey : ∀ c ∈ t.key, c ∉ nameEnds := not_mem_of_fold t.key_class (by decide)
  have hWord : ∀ c ∈ t.word, c ∉ valueEnds ∧ ¬ IsQuote c := by
    intro c hc
    refine ⟨not_mem_of_fold t.word_mermaid (by decide) c hc, fun hQuote => ?_⟩
    have hMem := List.mem_map_of_mem (f := Text.fold) hc
    rw [t.word_mermaid, fold_of_isQuote hQuote] at hMem
    rcases hQuote with rfl | rfl <;> exact absurd hMem (by decide)
  have hInner : t.inner ++ more = t.before ++
      (t.key ++ (['='] ++ (t.quote ++ t.word ++ (t.after ++ ['>'] ++ more)))) := by
    simp only [inner, mention, List.append_assoc]
  rw [hInner]
  refine ⟨hName.append _, ⟨t.key, t.word⟩, mem_attributesFrom_of_run ?_, t.key_class, t.word_mermaid⟩
  refine mem_attributesFrom_of_awaitsName hAwaits ?_ hKey t.quote_text ?_ hWord (hEnd.append more)
  · intro hNil
    simpa [hNil] using t.key_class
  · intro hNil
    simpa [hNil] using t.word_mermaid

/-- A tag in other letters, with a slash between its attributes. -/
example : HasDiagramTag "<p><div id=\"x\"/CLASS = 'Mermaid'>".toList := by decide +kernel

/-! ### What is extracted -/

section

variable {document : String}

/-- Nothing is found exactly if no container tag is closed. -/
theorem extract_container_eq_error_iff : extract .container document = .error ⟨.container⟩ ↔
    ∀ before tag rest : List Char, document.toList = before ++ tag ++ rest → IsContainerTag tag →
      ¬ Text.Occurs IsContainerEnd rest := by
  obtain ⟨taken, hTaken⟩ := Text.exists_takes IsContainerTag IsContainerEnd document.toList
  rw [extract_container_eq, ← takes_container_iff.mp hTaken]
  cases hTaken with
  | unopened hOpener =>
    refine iff_of_true rfl fun before tag rest hSplit hTag => ?_
    exact absurd ⟨tag, hTag, before, rest, hSplit.symm⟩ hOpener
  | unclosed hOpener hCloser =>
    refine iff_of_true rfl fun before tag rest hSplit hTag hOccurs => hCloser (hOccurs.mono ?_)
    exact (hOpener.suffix endsInOrder_isContainerTag hSplit hTag).isInfix
  | closed hOpener hCloser =>
    refine iff_of_false nofun fun hNone => ?_
    exact hNone _ _ _ hOpener.split hOpener.isKind hCloser.occurs

theorem extract_container_eq_ok_iff {text : String} : extract .container document = .ok text ↔
    ∃ before tag rest body stop after : List Char,
      Text.IsFirst IsContainerTag document.toList before tag rest ∧
      Text.IsFirst IsContainerEnd rest body stop after ∧ text = String.ofList (Text.trim body) := by
  rw [extract_container_eq, answer_eq_ok_iff]
  constructor
  · rintro ⟨body, hBody, rfl⟩
    cases takes_container_iff.mpr hBody.symm with
    | closed hOpener hCloser => exact ⟨_, _, _, body, _, _, hOpener, hCloser, rfl⟩
  · rintro ⟨_, _, _, body, _, _, hOpener, hCloser, rfl⟩
    exact ⟨body, (takes_container_iff.mp (.closed hOpener hCloser)).symm, rfl⟩

/-- On a page without a diagram every container tag is a lookalike. -/
theorem isLookalike_of_split {before rest : List Char} {t : MentionTag}
    (h : ¬ HasDiagramTag document.toList) (hSplit : document.toList = before ++ t.text ++ rest) :
    t.IsLookalike := by
  by_contra hNot
  refine h ⟨t.text ++ rest, ?_, t.inner ++ rest, ?_, t.showsDiagram hNot rest⟩
  · rw [List.mem_tails]
    exact ⟨before, by rw [hSplit, List.append_assoc]⟩
  · refine dropFolded?_eq_some_iff.mpr ⟨t.tagName, ?_, t.tagName_div⟩
    rw [MentionTag.text, List.append_assoc]

/-- **If no tag of a page shows a diagram, what is extracted is what a lookalike contains.** Nothing is
found exactly if no lookalike is closed. -/
theorem extract_container_lookalike (h : ¬ HasDiagramTag document.toList) :
    (extract .container document = .error ⟨.container⟩ ↔
      ∀ (before rest : List Char) (t : MentionTag), document.toList = before ++ t.text ++ rest →
        t.IsLookalike → ¬ Text.Occurs IsContainerEnd rest) ∧
    ∀ text, extract .container document = .ok text ↔
      ∃ (before rest body stop after : List Char) (t : MentionTag),
        Text.IsFirst IsContainerTag document.toList before t.text rest ∧ t.IsLookalike ∧
        Text.IsFirst IsContainerEnd rest body stop after ∧ text = String.ofList (Text.trim body) := by
  constructor
  · rw [extract_container_eq_error_iff]
    constructor
    · intro hNone before rest t hSplit _
      exact hNone before t.text rest hSplit (isContainerTag_iff.mpr ⟨t, rfl⟩)
    · intro hNone before tag rest hSplit hTag
      obtain ⟨t, rfl⟩ := isContainerTag_iff.mp hTag
      exact hNone before rest t hSplit (isLookalike_of_split h hSplit)
  · intro text
    rw [extract_container_eq_ok_iff]
    constructor
    · rintro ⟨before, tag, rest, body, stop, after, hOpener, hCloser, hText⟩
      obtain ⟨t, rfl⟩ := isContainerTag_iff.mp hOpener.isKind
      exact ⟨before, rest, body, stop, after, t, hOpener, isLookalike_of_split h hOpener.split,
        hCloser, hText⟩
    · rintro ⟨before, rest, body, stop, after, t, hOpener, -, hCloser, hText⟩
      exact ⟨before, t.text, rest, body, stop, after, hOpener, hCloser, hText⟩

end

/-- A page with three lookalikes, of which the last one is not closed. -/
def openLookalikes : String :=
  "<divider class=mermaid>A</divider><div data-class='mermaid'>B</span><div class=\"mermaid-legend\">C"

theorem extract_container_lookalike_openLookalikes : ¬ HasDiagramTag openLookalikes.toList ∧
    ∀ (before rest : List Char) (t : MentionTag), openLookalikes.toList = before ++ t.text ++ rest →
      t.IsLookalike → ¬ Text.Occurs IsContainerEnd rest := by
  have hNone : ¬ HasDiagramTag openLookalikes.toList := by decide +kernel
  exact ⟨hNone, (extract_container_lookalike hNone).1.mp (by decide +kernel)⟩

/-- A page whose only container is of another class. -/
def legendPage : String := "<div class=\"mermaid-legend\">A[a]</div>"

theorem extract_container_legendPage :
    ¬ HasDiagramTag legendPage.toList ∧ extract .container legendPage = .ok "A[a]" :=
  ⟨by decide +kernel, by decide +kernel⟩

end Diorama.Embedded
