import Diorama.Proofs.Document.Embedding
import Diorama.Proofs.List.Runs
import Diorama.Proofs.Text.Pattern

/-!
# What is extracted from a document

The two embedded forms by the texts that open and close them: the line of an opening fence and the next
three backticks (`extract_fenced_takes`), a container tag that names the class of diagrams and the next
closing tag (`extract_container_takes`). What is taken are the texts between the first opener and the
first closer behind it, whatever follows, and these are also the matches of the patterns `fencePattern`
and `containerPattern`.
-/

namespace Diorama.Embedded

open Text (Pattern)

/-- What is told about the text that is taken from a document. -/
def answer (form : Form) : Option (List Char) → Except NotFound String
  | some body => .ok (String.ofList (Text.trim body))
  | none => .error ⟨form⟩

theorem extract_fenced_eq (document : String) :
    extract .fenced document = answer .fenced (body? afterFence? closesFence document.toList) := by
  rw [extract]
  cases body? afterFence? closesFence document.toList <;> rfl

theorem extract_container_eq (document : String) : extract .container document =
    answer .container (body? afterContainerTag? closesContainer document.toList) := by
  rw [extract]
  cases body? afterContainerTag? closesContainer document.toList <;> rfl

/-! ### Openers and closers -/

/-- What ends the line of an opening fence: the line end itself, or a space or a tab and attributes up to
the line feed. -/
def EndsInfo (info : List Char) : Prop :=
  info = ['\n'] ∨ info = ['\r', '\n'] ∨
    ∃ c attributes, (c = ' ' ∨ c = '\t') ∧ '\n' ∉ attributes ∧ info = c :: (attributes ++ ['\n'])

/-- The line of a fence that opens a diagram. -/
def IsFenceLine (line : List Char) : Prop :=
  ∃ info, line = "```mermaid".toList ++ info ∧ EndsInfo info

def IsFence (part : List Char) : Prop := part = "```".toList

/-- The class of diagrams as it is mentioned: up to letter case, with one quote at most in front of it. -/
def IsMention (part : List Char) : Prop :=
  ∃ quote, (quote = "" ∨ quote = "\"" ∨ quote = "'") ∧
    part.map Text.fold = ("class=" ++ quote ++ "mermaid").toList

/-- What the extractor takes for the tag of a container: a text that starts like a `div` tag, runs up to
the next `>` and mentions the class of diagrams. -/
def IsContainerTag (tag : List Char) : Prop :=
  ∃ name attributes, tag = name ++ attributes ++ ['>'] ∧ name.map Text.fold = "<div".toList ∧
    '>' ∉ attributes ∧ Text.Occurs IsMention (name ++ attributes)

def IsContainerEnd (part : List Char) : Prop := part.map Text.fold = "</div>".toList

theorem endsInOrder_isFenceLine : Text.EndsInOrder IsFenceLine := by
  refine Text.endsInOrder_of_mark '\n' ?_
  rintro _ ⟨info, rfl, rfl | rfl | ⟨c, attributes, hc, hLine, rfl⟩⟩
  · exact ⟨"```mermaid".toList, rfl, by decide⟩
  · exact ⟨"```mermaid\r".toList, rfl, by decide⟩
  · refine ⟨"```mermaid".toList ++ c :: attributes, by simp, ?_⟩
    rw [List.mem_append, List.mem_cons, not_or, not_or]
    refine ⟨by decide, ?_, hLine⟩
    rintro rfl
    exact absurd hc (by decide)

theorem endsInOrder_isFence : Text.EndsInOrder IsFence :=
  Text.endsInOrder_of_length fun _ hPart => congrArg List.length hPart

theorem not_mem_of_map_fold_eq {text word : List Char} {c : Char} (h : text.map Text.fold = word)
    (hc : Text.fold c ∉ word) : c ∉ text := by
  rintro hMem
  exact hc (h ▸ List.mem_map_of_mem hMem)

theorem endsInOrder_isContainerTag : Text.EndsInOrder IsContainerTag := by
  refine Text.endsInOrder_of_mark '>' ?_
  rintro _ ⟨name, attributes, rfl, hName, hAttributes, -⟩
  refine ⟨name ++ attributes, rfl, ?_⟩
  rw [List.mem_append, not_or]
  exact ⟨not_mem_of_map_fold_eq hName (by decide), hAttributes⟩

theorem endsInOrder_isContainerEnd : Text.EndsInOrder IsContainerEnd := by
  refine Text.endsInOrder_of_length (n := 6) fun part hPart => ?_
  rw [← List.length_map (f := Text.fold), hPart]
  rfl

/-! ### Fences -/

theorem afterLineEnd?_eq_some_iff {text body : List Char} :
    afterLineEnd? text = some body ↔ text = '\n' :: body ∨ text = '\r' :: '\n' :: body := by
  unfold afterLineEnd?
  split
  · simp
  · simp
  · next hFeed hReturn =>
    refine ⟨nofun, ?_⟩
    rintro (rfl | rfl)
    · exact absurd rfl (hFeed body)
    · exact absurd rfl (hReturn body)

/-- What follows the line of a fence behind the language. -/
def afterInfo? : List Char → Option (List Char)
  | [] => none
  | c :: attributes =>
    if c = ' ' ∨ c = '\t' then afterLineEnd? (attributes.dropWhile (· ≠ '\n'))
    else afterLineEnd? (c :: attributes)

theorem afterFence?_eq (text : List Char) :
    afterFence? text = (dropExact? "```mermaid".toList text).bind afterInfo? := by
  rw [afterFence?]
  refine congrArg _ (funext fun rest => ?_)
  cases rest <;> rfl

theorem afterLineEnd?_dropWhile_eq_some_iff {text body : List Char} :
    afterLineEnd? (text.dropWhile (· ≠ '\n')) = some body ↔
      ∃ run, text = run ++ '\n' :: body ∧ '\n' ∉ run := by
  rw [afterLineEnd?_eq_some_iff]
  constructor
  · rintro (hDrop | hDrop)
    · refine ⟨text.takeWhile (· ≠ '\n'), ?_, fun hMem => by simpa using List.mem_takeWhile_imp hMem⟩
      rw [← hDrop, List.takeWhile_append_dropWhile]
    · have hHead := endsRun_dropWhile (p := (· ≠ '\n')) text '\r' (by rw [hDrop]; rfl)
      exact absurd hHead (by decide)
  · rintro ⟨run, rfl, hRun⟩
    refine .inl (dropWhile_append_of_endsRun (fun c hc => decide_eq_true ?_) (endsRun_cons (by decide)))
    rintro rfl
    exact hRun hc

theorem afterInfo?_eq_some_iff {text body : List Char} :
    afterInfo? text = some body ↔ ∃ info, text = info ++ body ∧ EndsInfo info := by
  cases text with
  | nil =>
    refine ⟨nofun, ?_⟩
    rintro ⟨info, hSplit, hInfo⟩
    obtain rfl := (List.append_eq_nil_iff.mp hSplit.symm).1
    rcases hInfo with hInfo | hInfo | ⟨_, _, _, _, hInfo⟩ <;> cases hInfo
  | cons c attributes =>
    rw [afterInfo?]
    split_ifs with hc
    · rw [afterLineEnd?_dropWhile_eq_some_iff]
      constructor
      · rintro ⟨run, rfl, hRun⟩
        exact ⟨c :: (run ++ ['\n']), by simp, .inr (.inr ⟨c, run, hc, hRun, rfl⟩)⟩
      · rintro ⟨info, hSplit, rfl | rfl | ⟨d, run, -, hRun, rfl⟩⟩
        · obtain ⟨rfl, -⟩ := List.cons_eq_cons.mp hSplit
          exact absurd hc (by decide)
        · obtain ⟨rfl, -⟩ := List.cons_eq_cons.mp hSplit
          exact absurd hc (by decide)
        · rw [List.cons_append, List.append_assoc] at hSplit
          exact ⟨run, (List.cons_eq_cons.mp hSplit).2, hRun⟩
    · rw [afterLineEnd?_eq_some_iff]
      constructor
      · rintro (hText | hText)
        · exact ⟨['\n'], hText, .inl rfl⟩
        · exact ⟨['\r', '\n'], hText, .inr (.inl rfl)⟩
      · rintro ⟨info, hSplit, rfl | rfl | ⟨d, run, hd, -, rfl⟩⟩
        · exact .inl hSplit
        · exact .inr hSplit
        · obtain ⟨rfl, -⟩ := List.cons_eq_cons.mp hSplit
          exact absurd hd hc

theorem reads_afterFence? : Text.Reads afterFence? IsFenceLine := by
  intro text body
  simp only [afterFence?_eq, Option.bind_eq_some_iff, dropExact?_eq_some_iff,
    afterInfo?_eq_some_iff]
  constructor
  · rintro ⟨_, rfl, info, rfl, hInfo⟩
    exact ⟨_, (List.append_assoc _ _ _).symm, info, rfl, hInfo⟩
  · rintro ⟨_, rfl, info, rfl, hInfo⟩
    exact ⟨_, List.append_assoc _ _ _, info, rfl, hInfo⟩

theorem detects_closesFence : Text.Detects closesFence IsFence := by
  intro text
  rw [closesFence, isSome_dropExact?_iff]
  constructor
  · rintro ⟨rest, rfl⟩
    exact ⟨_, rest, rfl, rfl⟩
  · rintro ⟨_, rest, rfl, rfl⟩
    exact ⟨rest, rfl⟩

/-! ### Containers -/

theorem dropFolded?_eq_some_iff {word text rest : List Char} : dropFolded? word text = some rest ↔
    ∃ matched, text = matched ++ rest ∧ matched.map Text.fold = word :=
  Text.dropMatch?_eq_some_iff

def IsQuote (c : Char) : Prop := c = '"' ∨ c = '\''

instance (c : Char) : Decidable (IsQuote c) := inferInstanceAs (Decidable (_ ∨ _))

/-- Drops one quote from the start of a text. -/
def afterQuote : List Char → List Char
  | [] => []
  | c :: text => if IsQuote c then text else c :: text

/-- What follows the class of diagrams where it is mentioned. -/
def mention? (text : List Char) : Option (List Char) :=
  (dropFolded? "class=".toList text).bind fun value =>
    dropFolded? "mermaid".toList (afterQuote value)

theorem namesClass_eq (tag : List Char) :
    namesClass tag = (Text.firstSome? mention? tag).isSome := by
  rw [namesClass]
  refine congrArg (fun f => (Text.firstSome? f tag).isSome) (funext fun text => ?_)
  refine congrArg _ (funext fun value => ?_)
  split
  · rfl
  · rfl
  · next hDouble hSingle =>
    cases value with
    | nil => rfl
    | cons c name =>
      have hc : ¬ IsQuote c := by
        rintro (rfl | rfl)
        · exact hDouble name rfl
        · exact hSingle name rfl
      rw [afterQuote, if_neg hc]

/-- A quote or nothing. -/
def IsQuoteText (quote : List Char) : Prop := quote = [] ∨ ∃ c, quote = [c] ∧ IsQuote c

theorem exists_eq_append_afterQuote (text : List Char) :
    ∃ quote, IsQuoteText quote ∧ text = quote ++ afterQuote text := by
  cases text with
  | nil => exact ⟨[], .inl rfl, rfl⟩
  | cons c text =>
    rw [afterQuote]
    split_ifs with hc
    · exact ⟨[c], .inr ⟨c, rfl, hc⟩, rfl⟩
    · exact ⟨[], .inl rfl, rfl⟩

theorem afterQuote_append {quote text : List Char} (hQuote : IsQuoteText quote)
    (hText : ∀ c ∈ text.head?, ¬ IsQuote c) : afterQuote (quote ++ text) = text := by
  rcases hQuote with rfl | ⟨c, rfl, hc⟩
  · cases text with
    | nil => rfl
    | cons d text => exact if_neg (hText d rfl)
  · exact if_pos hc

theorem fold_of_isQuote {c : Char} (hc : IsQuote c) : Text.fold c = c := by
  rcases hc with rfl | rfl <;> rfl

/-- A quote is folded to itself and nothing else is folded to it. -/
theorem isQuoteText_of_map_fold {quote : List Char} (h : IsQuoteText (quote.map Text.fold)) :
    IsQuoteText quote := by
  rcases h with h | ⟨c, h, hc⟩
  · exact .inl (List.map_eq_nil_iff.mp h)
  · obtain ⟨d, rfl, rfl⟩ := List.map_eq_singleton_iff.mp h
    refine .inr ⟨d, rfl, ?_⟩
    rcases hc with hc | hc
    · exact .inl (Text.eq_of_fold_eq (by decide) hc)
    · exact .inr (Text.eq_of_fold_eq (by decide) hc)

theorem isMention_iff {part : List Char} : IsMention part ↔ ∃ key quote word,
    part = key ++ (quote ++ word) ∧ key.map Text.fold = "class=".toList ∧ IsQuoteText quote ∧
      word.map Text.fold = "mermaid".toList := by
  constructor
  · rintro ⟨quote, hQuote, hMap⟩
    rw [String.toList_append, String.toList_append, List.append_assoc] at hMap
    obtain ⟨key, rest, rfl, hKey, hRest⟩ := List.map_eq_append_iff.mp hMap
    obtain ⟨mark, word, rfl, hMark, hWord⟩ := List.map_eq_append_iff.mp hRest
    refine ⟨key, mark, word, rfl, hKey, isQuoteText_of_map_fold ?_, hWord⟩
    rw [hMark]
    rcases hQuote with rfl | rfl | rfl
    · exact .inl rfl
    · exact .inr ⟨_, rfl, .inl rfl⟩
    · exact .inr ⟨_, rfl, .inr rfl⟩
  · rintro ⟨key, quote, word, rfl, hKey, hQuote, hWord⟩
    rw [IsMention]
    simp only [List.map_append, hKey, hWord, String.toList_append, List.append_assoc]
    rcases hQuote with rfl | ⟨c, rfl, rfl | rfl⟩
    · exact ⟨_, .inl rfl, rfl⟩
    · exact ⟨_, .inr (.inl rfl), rfl⟩
    · exact ⟨_, .inr (.inr rfl), rfl⟩

theorem isSome_mention?_iff (text : List Char) :
    (mention? text).isSome = true ↔ Text.Starts IsMention text := by
  constructor
  · intro hSome
    obtain ⟨rest, hRest⟩ := Option.isSome_iff_exists.mp hSome
    obtain ⟨value, hValue, hWord⟩ := Option.bind_eq_some_iff.mp hRest
    obtain ⟨key, rfl, hKey⟩ := dropFolded?_eq_some_iff.mp hValue
    obtain ⟨word, hSplit, hMap⟩ := dropFolded?_eq_some_iff.mp hWord
    obtain ⟨quote, hQuote, hAppend⟩ := exists_eq_append_afterQuote value
    refine ⟨key ++ (quote ++ word), rest, ?_, isMention_iff.mpr ⟨_, _, _, rfl, hKey, hQuote, hMap⟩⟩
    rw [hAppend, hSplit]
    simp only [List.append_assoc]
  · rintro ⟨part, rest, rfl, hPart⟩
    obtain ⟨key, quote, word, rfl, hKey, hQuote, hWord⟩ := isMention_iff.mp hPart
    have hHead : ∀ c ∈ (word ++ rest).head?, ¬ IsQuote c := by
      obtain ⟨c, tail, rfl, hc, -⟩ := List.map_eq_cons_iff.mp hWord
      rintro _ ⟨⟩ hQuote
      rw [fold_of_isQuote hQuote] at hc
      subst hc
      exact absurd hQuote (by decide)
    have hDrop : dropFolded? "class=".toList (key ++ (quote ++ word) ++ rest) =
        some (quote ++ (word ++ rest)) :=
      dropFolded?_eq_some_iff.mpr ⟨key, by simp only [List.append_assoc], hKey⟩
    rw [mention?, hDrop, Option.bind_some, afterQuote_append hQuote hHead,
      dropFolded?_eq_some_iff.mpr ⟨word, rfl, hWord⟩]
    rfl

theorem namesClass_iff {tag : List Char} :
    namesClass tag = true ↔ Text.Occurs IsMention tag := by
  rw [namesClass_eq]
  exact Text.isSome_firstSome?_iff isSome_mention?_iff

/-- Nothing of the name of a tag belongs to a mention. -/
theorem occurs_isMention_append_iff {name attributes : List Char}
    (hName : name.map Text.fold = "<div".toList) :
    Text.Occurs IsMention (name ++ attributes) ↔ Text.Occurs IsMention attributes := by
  constructor
  · intro h
    refine h.of_append fun part hPart => ?_
    obtain ⟨key, quote, word, rfl, hKey, -, -⟩ := isMention_iff.mp hPart
    obtain ⟨c, tail, rfl, hc, -⟩ := List.map_eq_cons_iff.mp hKey
    refine ⟨c, tail ++ (quote ++ word), rfl, not_mem_of_map_fold_eq hName ?_⟩
    rw [hc]
    decide
  · intro h
    exact h.mono (List.suffix_append _ _).isInfix

/-- What follows a tag behind its name. -/
def afterAttributes? (text : List Char) : Option (List Char) :=
  match text.dropWhile (· ≠ '>') with
  | _ :: body => if namesClass (text.takeWhile (· ≠ '>')) then some body else none
  | [] => none

theorem afterContainerTag?_eq (text : List Char) :
    afterContainerTag? text = (dropFolded? "<div".toList text).bind afterAttributes? := rfl

theorem afterAttributes?_eq_some_iff {text body : List Char} :
    afterAttributes? text = some body ↔ ∃ attributes, text = attributes ++ '>' :: body ∧
      '>' ∉ attributes ∧ Text.Occurs IsMention attributes := by
  rw [afterAttributes?]
  constructor
  · intro h
    split at h
    · next c rest hDrop =>
      split_ifs at h with hName
      cases h
      obtain rfl : c = '>' := by
        simpa using endsRun_dropWhile (p := (· ≠ '>')) text c (by rw [hDrop]; rfl)
      refine ⟨text.takeWhile (· ≠ '>'), ?_, ?_, namesClass_iff.mp hName⟩
      · rw [← hDrop, List.takeWhile_append_dropWhile]
      · intro hMem
        simpa using List.mem_takeWhile_imp hMem
    · cases h
  · rintro ⟨attributes, rfl, hAttributes, hMention⟩
    have hRun : ∀ c ∈ attributes, decide (c ≠ '>') = true := by
      intro c hc
      refine decide_eq_true ?_
      rintro rfl
      exact hAttributes hc
    have hEnd : EndsRun (· ≠ '>') ('>' :: body) := endsRun_cons (by decide)
    rw [dropWhile_append_of_endsRun hRun hEnd, takeWhile_append_of_endsRun hRun hEnd]
    exact if_pos (namesClass_iff.mpr hMention)

theorem reads_afterContainerTag? : Text.Reads afterContainerTag? IsContainerTag := by
  intro text body
  simp only [afterContainerTag?_eq, Option.bind_eq_some_iff, dropFolded?_eq_some_iff,
    afterAttributes?_eq_some_iff]
  constructor
  · rintro ⟨_, ⟨name, rfl, hName⟩, attributes, rfl, hAttributes, hMention⟩
    refine ⟨name ++ attributes ++ ['>'], by simp, name, attributes, rfl, hName, hAttributes, ?_⟩
    exact (occurs_isMention_append_iff hName).mpr hMention
  · rintro ⟨_, rfl, name, attributes, rfl, hName, hAttributes, hMention⟩
    refine ⟨attributes ++ '>' :: body, ⟨name, by simp, hName⟩, attributes, rfl, hAttributes, ?_⟩
    exact (occurs_isMention_append_iff hName).mp hMention

theorem detects_closesContainer : Text.Detects closesContainer IsContainerEnd := by
  intro text
  rw [closesContainer, Option.isSome_iff_exists]
  simp only [dropFolded?_eq_some_iff]
  exact ⟨fun ⟨rest, part, h⟩ => ⟨part, rest, h⟩, fun ⟨part, rest, h⟩ => ⟨rest, part, h⟩⟩

/-! ### Patterns -/

/-- The pattern ```` ```mermaid(?:[ \t][^\n]*)?\r?\n ````, where `.` is any character. -/
def fenceOpener : Pattern :=
  .andThen (.word (fun c d => c = d) "```mermaid".toList) <|
    .andThen (.optional (.andThen (.one fun c => c = ' ' ∨ c = '\t') (.many (· ≠ '\n') true))) <|
      .andThen (.optional (.one (· = '\r'))) (.one (· = '\n'))

def fenceCloser : Pattern := .word (fun c d => c = d) "```".toList

/-- The pattern `class=["\']?mermaid`, up to letter case. -/
def mentionPattern : Pattern :=
  .andThen (.word Text.foldsTo "class=".toList) <|
    .andThen (.optional (.one fun c => IsQuote c)) (.word Text.foldsTo "mermaid".toList)

/-- The pattern `<div[^>]*class=["\']?mermaid["\']?[^>]*>`, up to letter case. -/
def containerOpener : Pattern :=
  .andThen (.word Text.foldsTo "<div".toList) <|
    .andThen (.many (· ≠ '>') true) <| .andThen mentionPattern <|
      .andThen (.optional (.one fun c => IsQuote c)) <|
        .andThen (.many (· ≠ '>') true) (.one (· = '>'))

def containerCloser : Pattern := .word Text.foldsTo "</div>".toList

/-- The pattern of fenced blocks. -/
def fencePattern : Pattern := .block fenceOpener fenceCloser

/-- The pattern of containers. -/
def containerPattern : Pattern := .block containerOpener containerCloser

theorem denotes_exactWord_iff {word text : List Char} :
    (Pattern.word (fun c d => c = d) word).Denotes text ↔ text = word := by
  have hWord : (Pattern.word (fun c d => c = id d) word).Denotes text ↔ text.map id = word :=
    Pattern.denotes_word_iff
  rwa [List.map_id] at hWord

theorem denotes_foldedWord_iff {word text : List Char} :
    (Pattern.word Text.foldsTo word).Denotes text ↔ text.map Text.fold = word :=
  Pattern.denotes_word_iff

theorem denotes_fenceOpener : fenceOpener.Denotes = IsFenceLine := by
  funext line
  refine propext ⟨?_, ?_⟩
  · rintro ⟨word, _, rfl, hWord, info, _, rfl, hInfo, lineEnd, _, rfl, hEnd, c, rfl, hc⟩
    obtain rfl := denotes_exactWord_iff.mp hWord
    obtain rfl := of_decide_eq_true hc
    refine ⟨_, rfl, ?_⟩
    have hReturn : lineEnd = [] ∨ lineEnd = ['\r'] := by
      rcases hEnd with ⟨d, rfl, hd⟩ | hNone
      · exact .inr (by rw [of_decide_eq_true hd])
      · exact .inl hNone
    rcases hInfo with ⟨_, attributes, rfl, ⟨d, rfl, hd⟩, hLine⟩ | hNone
    · -- A carriage return in front of the line feed may be read as the last one of the attributes.
      refine .inr (.inr ⟨d, attributes ++ lineEnd, of_decide_eq_true hd, ?_, by simp⟩)
      rw [List.mem_append, not_or]
      refine ⟨fun hMem => by simpa using hLine _ hMem, ?_⟩
      rcases hReturn with rfl | rfl <;> decide
    · rw [show info = [] from hNone]
      rcases hReturn with rfl | rfl
      · exact .inl rfl
      · exact .inr (.inl rfl)
  · rintro ⟨info, rfl, hInfo⟩
    refine ⟨_, info, rfl, denotes_exactWord_iff.mpr rfl, ?_⟩
    rcases hInfo with rfl | rfl | ⟨c, attributes, hc, hLine, rfl⟩
    · exact ⟨[], _, rfl, .inr rfl, [], _, rfl, .inr rfl, '\n', rfl, rfl⟩
    · exact ⟨[], _, rfl, .inr rfl, ['\r'], _, rfl, .inl ⟨'\r', rfl, rfl⟩, '\n', rfl, rfl⟩
    · refine ⟨c :: attributes, ['\n'], rfl, .inl ⟨[c], attributes, rfl, ⟨c, rfl, decide_eq_true hc⟩, ?_⟩,
        [], _, rfl, .inr rfl, '\n', rfl, rfl⟩
      intro d hd
      refine decide_eq_true ?_
      rintro rfl
      exact hLine hd

theorem denotes_fenceCloser : fenceCloser.Denotes = IsFence :=
  funext fun _ => propext denotes_exactWord_iff

theorem denotes_optionalQuote_iff {quote : List Char} :
    (Pattern.optional (.one fun c => IsQuote c)).Denotes quote ↔ IsQuoteText quote := by
  rw [IsQuoteText, or_comm]
  refine or_congr (exists_congr fun c => and_congr_right fun _ => ?_) Iff.rfl
  exact decide_eq_true_iff

theorem denotes_mentionPattern_iff {part : List Char} :
    mentionPattern.Denotes part ↔ IsMention part := by
  rw [isMention_iff]
  constructor
  · rintro ⟨key, _, rfl, hKey, quote, word, rfl, hQuote, hWord⟩
    exact ⟨key, quote, word, rfl, denotes_foldedWord_iff.mp hKey,
      denotes_optionalQuote_iff.mp hQuote, denotes_foldedWord_iff.mp hWord⟩
  · rintro ⟨key, quote, word, rfl, hKey, hQuote, hWord⟩
    exact ⟨key, _, rfl, denotes_foldedWord_iff.mpr hKey, quote, word, rfl,
      denotes_optionalQuote_iff.mpr hQuote, denotes_foldedWord_iff.mpr hWord⟩

theorem denotes_inTag_iff {text : List Char} :
    (Pattern.many (· ≠ '>') true).Denotes text ↔ '>' ∉ text := by
  constructor
  · intro h hMem
    simpa using h _ hMem
  · intro h c hc
    refine decide_eq_true ?_
    rintro rfl
    exact h hc

theorem not_mem_of_isMention {part : List Char} (h : IsMention part) : '>' ∉ part := by
  obtain ⟨quote, rfl | rfl | rfl, hMap⟩ := h <;> exact not_mem_of_map_fold_eq hMap (by decide)

theorem not_mem_of_isQuoteText {quote : List Char} (h : IsQuoteText quote) : '>' ∉ quote := by
  rcases h with rfl | ⟨c, rfl, rfl | rfl⟩ <;> decide

theorem denotes_containerOpener : containerOpener.Denotes = IsContainerTag := by
  funext tag
  refine propext ⟨?_, ?_⟩
  · rintro ⟨name, _, rfl, hName, before, _, rfl, hBefore, part, _, rfl, hPart, quote, _, rfl, hQuote,
      after, _, rfl, hAfter, c, rfl, hc⟩
    obtain rfl := of_decide_eq_true hc
    have hMention := denotes_mentionPattern_iff.mp hPart
    refine ⟨name, before ++ (part ++ (quote ++ after)), by simp, denotes_foldedWord_iff.mp hName, ?_,
      part, hMention, name ++ before, quote ++ after, by simp⟩
    simp only [List.mem_append, not_or]
    exact ⟨denotes_inTag_iff.mp hBefore, not_mem_of_isMention hMention,
      not_mem_of_isQuoteText (denotes_optionalQuote_iff.mp hQuote), denotes_inTag_iff.mp hAfter⟩
  · rintro ⟨name, attributes, rfl, hName, hAttributes, hOccurs⟩
    obtain ⟨part, hMention, before, after, rfl⟩ := (occurs_isMention_append_iff hName).mp hOccurs
    simp only [List.mem_append, not_or] at hAttributes
    refine ⟨name, before ++ (part ++ (after ++ ['>'])), by simp, denotes_foldedWord_iff.mpr hName,
      before, _, rfl, denotes_inTag_iff.mpr hAttributes.1.1, part, _, rfl,
      denotes_mentionPattern_iff.mpr hMention, [], _, rfl, .inr rfl, after, _, rfl,
      denotes_inTag_iff.mpr hAttributes.2, '>', rfl, rfl⟩

theorem denotes_containerCloser : containerCloser.Denotes = IsContainerEnd :=
  funext fun _ => propext denotes_foldedWord_iff

theorem isPlain_fenceOpener : fenceOpener.IsPlain :=
  ⟨Pattern.isPlain_word _ _, ⟨⟨trivial, trivial⟩, trivial⟩, ⟨trivial, trivial⟩, trivial⟩

theorem isPlain_containerOpener : containerOpener.IsPlain :=
  ⟨Pattern.isPlain_word _ _, trivial,
    ⟨Pattern.isPlain_word _ _, ⟨trivial, trivial⟩, Pattern.isPlain_word _ _⟩,
    ⟨trivial, trivial⟩, trivial, trivial⟩

/-! ### What is taken -/

section

variable {read? : List Char → Option (List Char)} {starts : List Char → Bool}
  {opener closer : List Char → Prop} {text : List Char}

theorem body?_eq_of_takes (hRead : Text.Reads read? opener) (hStarts : Text.Detects starts closer)
    {taken : Option (List Char)} (h : Text.Takes opener closer text taken) :
    body? read? starts text = taken := by
  rw [body?]
  cases h with
  | unopened h => rw [Text.firstSome?_of_not_occurs (fun _ => hRead.eq_none) h, Option.bind_none]
  | unclosed hFirst h => rw [hRead.firstSome?_eq hFirst, Option.bind_some, hStarts.before?_eq_none h]
  | closed hFirst hStop => rw [hRead.firstSome?_eq hFirst, Option.bind_some, hStarts.before?_eq hStop]

/-- **The body of the first block is all that can be taken.** -/
theorem takes_iff (hRead : Text.Reads read? opener) (hStarts : Text.Detects starts closer)
    {taken : Option (List Char)} :
    Text.Takes opener closer text taken ↔ taken = body? read? starts text := by
  constructor
  · intro h
    exact (body?_eq_of_takes hRead hStarts h).symm
  · rintro rfl
    obtain ⟨taken, h⟩ := Text.exists_takes opener closer text
    rwa [body?_eq_of_takes hRead hStarts h]

/-- A pattern for the same openers and closers captures the same body. -/
theorem capture?_eq_body? {first last : Pattern} (hRead : Text.Reads read? first.Denotes)
    (hStarts : Text.Detects starts last.Denotes) (hOrder : Text.EndsInOrder first.Denotes)
    (hFirst : first.IsPlain) (hLast : last.IsPlain) :
    (Pattern.block first last).capture? text = body? read? starts text := by
  obtain ⟨taken, h⟩ := Text.exists_takes first.Denotes last.Denotes text
  rw [Pattern.capture?_block hOrder hFirst hLast h, body?_eq_of_takes hRead hStarts h]

/-- What was taken from a text is taken from it if it goes on. -/
theorem body?_append (hRead : Text.Reads read? opener) (hStarts : Text.Detects starts closer)
    (hOpener : Text.EndsInOrder opener) (hCloser : Text.EndsInOrder closer) {body : List Char}
    (h : body? read? starts text = some body) (more : List Char) :
    body? read? starts (text ++ more) = some body := by
  have hTakes := (takes_iff hRead hStarts).mpr h.symm
  exact body?_eq_of_takes hRead hStarts (hTakes.append hOpener hCloser more)

end

theorem capture?_fencePattern (text : List Char) :
    fencePattern.capture? text = body? afterFence? closesFence text := by
  refine capture?_eq_body? ?_ ?_ ?_ isPlain_fenceOpener (Pattern.isPlain_word _ _)
  · rw [denotes_fenceOpener]
    exact reads_afterFence?
  · rw [denotes_fenceCloser]
    exact detects_closesFence
  · rw [denotes_fenceOpener]
    exact endsInOrder_isFenceLine

theorem capture?_containerPattern (text : List Char) :
    containerPattern.capture? text = body? afterContainerTag? closesContainer text := by
  refine capture?_eq_body? ?_ ?_ ?_ isPlain_containerOpener (Pattern.isPlain_word _ _)
  · rw [denotes_containerOpener]
    exact reads_afterContainerTag?
  · rw [denotes_containerCloser]
    exact detects_closesContainer
  · rw [denotes_containerOpener]
    exact endsInOrder_isContainerTag

theorem takes_fenced_iff {text : List Char} {taken : Option (List Char)} :
    Text.Takes IsFenceLine IsFence text taken ↔ taken = body? afterFence? closesFence text :=
  takes_iff reads_afterFence? detects_closesFence

theorem takes_container_iff {text : List Char} {taken : Option (List Char)} :
    Text.Takes IsContainerTag IsContainerEnd text taken ↔
      taken = body? afterContainerTag? closesContainer text :=
  takes_iff reads_afterContainerTag? detects_closesContainer

theorem answer_eq_ok_iff {form : Form} {taken : Option (List Char)} {text : String} :
    answer form taken = .ok text ↔ ∃ body, taken = some body ∧ text = String.ofList (Text.trim body) := by
  cases taken with
  | none => exact ⟨nofun, nofun⟩
  | some body =>
    rw [answer, Except.ok.injEq]
    exact ⟨fun h => ⟨body, rfl, h.symm⟩, fun ⟨_, hBody, h⟩ => by cases hBody; exact h.symm⟩

/-- **A fenced diagram stands between the line of the first opening fence and the next three backticks.**
This is also what the pattern of fenced blocks captures. What is extracted holds no fence, and stays the
same if the document goes on. -/
theorem extract_fenced_takes (document : String) : ∃ taken,
    (∀ other, Text.Takes IsFenceLine IsFence document.toList other ↔ other = taken) ∧
    fencePattern.capture? document.toList = taken ∧
    extract .fenced document = answer .fenced taken ∧
    ∀ text, extract .fenced document = .ok text →
      ¬ "```".toList <:+: text.toList ∧
        ∀ more : String, extract .fenced (document ++ more) = .ok text := by
  refine ⟨_, fun _ => takes_fenced_iff, capture?_fencePattern document.toList,
    extract_fenced_eq document, ?_⟩
  intro text hText
  rw [extract_fenced_eq] at hText
  obtain ⟨body, hBody, rfl⟩ := answer_eq_ok_iff.mp hText
  constructor
  · cases takes_fenced_iff.mpr hBody.symm with
    | closed _ hStop =>
      have hTrim : (String.ofList (Text.trim body)).toList = Text.trim body := String.toList_ofList
      rw [hTrim]
      intro hInfix
      exact hStop.not_infix rfl (by decide) (hInfix.trans (Text.trim_infix body))
  · intro more
    rw [extract_fenced_eq, String.toList_append, body?_append reads_afterFence? detects_closesFence
      endsInOrder_isFenceLine endsInOrder_isFence hBody]
    rfl

/-- A document with a fence of another language, and with four backticks, attributes that look like an
opener and a body with backticks in front of the next fence, which opens a block itself. -/
def nestedFences : String :=
  "```mermaidjs\nX\n````mermaid a```mermaid\r\nA[`` `]\n```mermaid\nB\n```"

theorem extract_fenced_takes_nestedFences : extract .fenced nestedFences = .ok "A[`` `]" ∧
    ¬ "```".toList <:+: "A[`` `]".toList ∧
    ∀ more : String, extract .fenced (nestedFences ++ more) = .ok "A[`` `]" := by
  have hText : extract .fenced nestedFences = .ok "A[`` `]" := by decide +kernel
  obtain ⟨_, -, -, -, hExtract⟩ := extract_fenced_takes nestedFences
  exact ⟨hText, hExtract _ hText⟩

/-- **The diagram of a container stands between the first tag that mentions the class of diagrams and the
next closing tag.** This is also what the pattern of containers captures, and it stays the same if the
document goes on. -/
theorem extract_container_takes (document : String) : ∃ taken,
    (∀ other, Text.Takes IsContainerTag IsContainerEnd document.toList other ↔ other = taken) ∧
    containerPattern.capture? document.toList = taken ∧
    extract .container document = answer .container taken ∧
    ∀ text, extract .container document = .ok text →
      ∀ more : String, extract .container (document ++ more) = .ok text := by
  refine ⟨_, fun _ => takes_container_iff, capture?_containerPattern document.toList,
    extract_container_eq document, ?_⟩
  intro text hText more
  rw [extract_container_eq] at hText
  obtain ⟨body, hBody, rfl⟩ := answer_eq_ok_iff.mp hText
  rw [extract_container_eq, String.toList_append, body?_append reads_afterContainerTag?
    detects_closesContainer endsInOrder_isContainerTag endsInOrder_isContainerEnd hBody]
  rfl

/-- A page with a tag that mentions no class, and with a tag over two lines that does so in another
attribute, in letters of which some are no ASCII letters. -/
def spreadTag : String :=
  "<div id=1>\n<dIVider\ndata-CLAſS='MERMAID-x'\ntitle=\"</div\">\nA --> B\n</DIV></div>"

theorem extract_container_takes_spreadTag : extract .container spreadTag = .ok "A --> B" ∧
    ∀ more : String, extract .container (spreadTag ++ more) = .ok "A --> B" := by
  have hText : extract .container spreadTag = .ok "A --> B" := by decide +kernel
  obtain ⟨_, -, -, -, hExtract⟩ := extract_container_takes spreadTag
  exact ⟨hText, hExtract _ hText⟩

end Diorama.Embedded
