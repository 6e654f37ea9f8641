import Diorama.Proofs.Diagram.Grammar
import Diorama.Proofs.Diagram.Untitled

/-!
# Region lines

What stands behind the keyword of a region line is read from left to right. `HasIdentifier` says
which identifier it starts with, `HasTitle` which title follows, and `IsRegionName` which of these
texts names the region. Each of them leaves one answer (`hasIdentifier_iff`, `hasTitle_iff`,
`isRegionName_iff`). So every line with the keyword opens one region, whatever follows, and a name
that is not blank is recorded (`ofLine_of_keyword`).
-/

namespace Diorama

namespace Statement

/-! ### Identifiers -/

/-- An identifier stands alone: only these may follow it. -/
def EndsIdentifier (rest : List Char) : Prop :=
  ∀ c ∈ rest.head?, isGap c = true ∨ c = '"' ∨ c = '['

/-- The identifier that a text starts with, and the text behind it. -/
inductive HasIdentifier (text : List Char) : Option String → List Char → Prop
  | word (word rest : List Char) : text = word ++ rest → IsIdentifier word →
    EndsRun isWordChar rest → EndsIdentifier rest →
    HasIdentifier text (some (String.ofList word)) rest
  | none : (∀ word rest, text = word ++ rest → IsIdentifier word → EndsRun isWordChar rest →
    ¬ EndsIdentifier rest) → HasIdentifier text none text

/-- The identifier and the rest as they are read. -/
def identifierAndRest (text : List Char) : Option String × List Char :=
  if text.takeWhile isWordChar ≠ [] ∧ endsIdentifier (text.dropWhile isWordChar) then
    (some (String.ofList (text.takeWhile isWordChar)), text.dropWhile isWordChar)
  else (none, text)

theorem endsIdentifier_iff {rest : List Char} :
    endsIdentifier rest = true ↔ EndsIdentifier rest := by
  rw [endsIdentifier, EndsIdentifier, Option.all_eq_true]
  refine forall₂_congr fun c _ => ?_
  simp [or_assoc]

theorem hasIdentifier_identifierAndRest (text : List Char) :
    HasIdentifier text (identifierAndRest text).1 (identifierAndRest text).2 := by
  rw [identifierAndRest]
  split_ifs with h
  · obtain ⟨hWord, hEnds⟩ := h
    exact .word _ _ List.takeWhile_append_dropWhile.symm (isRun_takeWhile hWord)
      (endsRun_dropWhile text) (endsIdentifier_iff.mp hEnds)
  · refine .none fun word rest hText hWord hRest hEnds => h ?_
    rw [hText, takeWhile_append_of_endsRun hWord.2 hRest, dropWhile_append_of_endsRun hWord.2 hRest]
    exact ⟨hWord.1, endsIdentifier_iff.mpr hEnds⟩

/-- A text starts with one identifier or with none. -/
theorem HasIdentifier.unique {text rest rest' : List Char} {identifier identifier' : Option String}
    (h : HasIdentifier text identifier rest) (h' : HasIdentifier text identifier' rest') :
    identifier = identifier' ∧ rest = rest' := by
  cases h with
  | word word _ hText hWord hRest hEnds =>
    cases h' with
    | word word' _ hText' hWord' hRest' _ =>
      obtain ⟨rfl, rfl⟩ := eq_of_append_eq_append hWord.2 hRest hWord'.2 hRest'
        (hText.symm.trans hText')
      exact ⟨rfl, rfl⟩
    | none hNone => exact absurd hEnds (hNone _ _ hText hWord hRest)
  | none hNone =>
    cases h' with
    | word word' _ hText hWord hRest hEnds => exact absurd hEnds (hNone _ _ hText hWord hRest)
    | none _ => exact ⟨rfl, rfl⟩

theorem hasIdentifier_iff {text rest : List Char} {identifier : Option String} :
    HasIdentifier text identifier rest ↔
      identifier = (identifierAndRest text).1 ∧ rest = (identifierAndRest text).2 := by
  constructor
  · intro h
    exact h.unique (hasIdentifier_identifierAndRest text)
  · rintro ⟨rfl, rfl⟩
    exact hasIdentifier_identifierAndRest text

/-! ### Titles -/

/-- The text starts with `body` in quotation marks. -/
def StartsQuoted (text body : List Char) : Prop :=
  IsRun (· ≠ '"') body ∧ ∃ rest, text = '"' :: (body ++ '"' :: rest)

/-- The text starts with `body` in quotation marks and brackets around them. -/
def StartsBracketed (text body : List Char) : Prop :=
  IsRun (· ≠ '"') body ∧ ∃ rest, text = '[' :: '"' :: (body ++ '"' :: ']' :: rest)

/-- The title that a text gives. -/
inductive HasTitle (text : List Char) : Option RegionTitle → Prop
  | bracketed (body : List Char) : StartsBracketed text body →
    HasTitle text (some (.bracketed (String.ofList body)))
  | quoted (body : List Char) : (∀ other, ¬ StartsBracketed text other) → StartsQuoted text body →
    HasTitle text (some (.quoted (String.ofList body)))
  | remainder : (∀ other, ¬ StartsBracketed text other) → (∀ other, ¬ StartsQuoted text other) →
    text ≠ [] → HasTitle text (some (.remainder (String.ofList text)))
  | none : text = [] → HasTitle text none

section

variable {text : List Char}

theorem quotedBody?_eq_some_iff {rest : List Char} {shown : String} :
    quotedBody? text = some (shown, rest) ↔
      ∃ body, IsRun (· ≠ '"') body ∧ text = body ++ '"' :: rest ∧ shown = String.ofList body := by
  constructor
  · intro h
    unfold quotedBody? at h
    split at h
    · next c inner d after hTake hDrop =>
      cases h
      have hRun : IsRun (· ≠ '"') (text.takeWhile (· ≠ '"')) :=
        isRun_takeWhile (by rw [hTake]; exact List.cons_ne_nil c inner)
      have hMark : d = '"' := by
        have hEnd := endsRun_dropWhile (p := (· ≠ '"')) text
        rw [hDrop] at hEnd
        simpa using hEnd d rfl
      subst hMark
      refine ⟨_, hRun, ?_, by rw [hTake]⟩
      rw [← hDrop, List.takeWhile_append_dropWhile]
    · cases h
  · rintro ⟨body, hRun, rfl, rfl⟩
    have hEnd : EndsRun (· ≠ '"') ('"' :: rest) := endsRun_cons (by decide)
    obtain ⟨c, inner, rfl⟩ := List.exists_cons_of_ne_nil hRun.1
    rw [quotedBody?, takeWhile_append_of_endsRun hRun.2 hEnd,
      dropWhile_append_of_endsRun hRun.2 hEnd]

theorem bracketedTitle?_eq_some_iff {title : RegionTitle} :
    bracketedTitle? text = some title ↔
      ∃ body, StartsBracketed text body ∧ title = .bracketed (String.ofList body) := by
  constructor
  · intro h
    unfold bracketedTitle? at h
    split at h
    · split at h
      · next shown rest hBody =>
        cases h
        obtain ⟨body, hRun, rfl, rfl⟩ := quotedBody?_eq_some_iff.mp hBody
        exact ⟨body, ⟨hRun, rest, rfl⟩, rfl⟩
      · cases h
    · cases h
  · rintro ⟨body, ⟨hRun, rest, rfl⟩, rfl⟩
    have hBody : quotedBody? (body ++ '"' :: ']' :: rest) =
        some (String.ofList body, ']' :: rest) :=
      quotedBody?_eq_some_iff.mpr ⟨body, hRun, rfl, rfl⟩
    simp only [bracketedTitle?, hBody]

theorem quotedTitle?_eq_some_iff {title : RegionTitle} :
    quotedTitle? text = some title ↔
      ∃ body, StartsQuoted text body ∧ title = .quoted (String.ofList body) := by
  constructor
  · intro h
    unfold quotedTitle? at h
    split at h
    · obtain ⟨⟨shown, rest⟩, hBody, rfl⟩ := Option.map_eq_some_iff.mp h
      obtain ⟨body, hRun, rfl, rfl⟩ := quotedBody?_eq_some_iff.mp hBody
      exact ⟨body, ⟨hRun, rest, rfl⟩, rfl⟩
    · cases h
  · rintro ⟨body, ⟨hRun, rest, rfl⟩, rfl⟩
    have hBody : quotedBody? (body ++ '"' :: rest) = some (String.ofList body, rest) :=
      quotedBody?_eq_some_iff.mpr ⟨body, hRun, rfl, rfl⟩
    rw [quotedTitle?, hBody, Option.map_some]

theorem bracketedTitle?_eq_none_iff :
    bracketedTitle? text = none ↔ ∀ body, ¬ StartsBracketed text body := by
  rw [Option.eq_none_iff_forall_ne_some]
  constructor
  · intro h body hBody
    exact h _ (bracketedTitle?_eq_some_iff.mpr ⟨body, hBody, rfl⟩)
  · intro h title hTitle
    obtain ⟨body, hBody, -⟩ := bracketedTitle?_eq_some_iff.mp hTitle
    exact h body hBody

theorem quotedTitle?_eq_none_iff :
    quotedTitle? text = none ↔ ∀ body, ¬ StartsQuoted text body := by
  rw [Option.eq_none_iff_forall_ne_some]
  constructor
  · intro h body hBody
    exact h _ (quotedTitle?_eq_some_iff.mpr ⟨body, hBody, rfl⟩)
  · intro h title hTitle
    obtain ⟨body, hBody, -⟩ := quotedTitle?_eq_some_iff.mp hTitle
    exact h body hBody

theorem remainderTitle?_of_ne_nil (h : text ≠ []) :
    remainderTitle? text = some (.remainder (String.ofList text)) := by
  unfold remainderTitle?
  split
  · exact absurd rfl h
  · rfl

theorem regionTitle?_of_bracketed {title : RegionTitle} (h : bracketedTitle? text = some title) :
    regionTitle? text = some title := by
  rw [regionTitle?, h]
  rfl

theorem regionTitle?_of_not_bracketed (h : bracketedTitle? text = none) :
    regionTitle? text = (quotedTitle? text <|> remainderTitle? text) := by
  rw [regionTitle?, h]
  rfl

theorem hasTitle_regionTitle? (text : List Char) : HasTitle text (regionTitle? text) := by
  cases hBracketed : bracketedTitle? text with
  | some title =>
    obtain ⟨body, hBody, rfl⟩ := bracketedTitle?_eq_some_iff.mp hBracketed
    rw [regionTitle?_of_bracketed hBracketed]
    exact .bracketed body hBody
  | none =>
    rw [regionTitle?_of_not_bracketed hBracketed]
    have hNotBracketed := bracketedTitle?_eq_none_iff.mp hBracketed
    cases hQuoted : quotedTitle? text with
    | some title =>
      obtain ⟨body, hBody, rfl⟩ := quotedTitle?_eq_some_iff.mp hQuoted
      exact .quoted body hNotBracketed hBody
    | none =>
      show HasTitle text (remainderTitle? text)
      by_cases hNil : text = []
      · rw [hNil]
        exact .none rfl
      · rw [remainderTitle?_of_ne_nil hNil]
        exact .remainder hNotBracketed (quotedTitle?_eq_none_iff.mp hQuoted) hNil

/-- **A text gives the title that is read, and no other one.** -/
theorem hasTitle_iff {title : Option RegionTitle} :
    HasTitle text title ↔ title = regionTitle? text := by
  constructor
  · intro h
    cases h with
    | bracketed body hBody =>
      rw [regionTitle?_of_bracketed (bracketedTitle?_eq_some_iff.mpr ⟨body, hBody, rfl⟩)]
    | quoted body hNotBracketed hBody =>
      rw [regionTitle?_of_not_bracketed (bracketedTitle?_eq_none_iff.mpr hNotBracketed),
        quotedTitle?_eq_some_iff.mpr ⟨body, hBody, rfl⟩]
      rfl
    | remainder hNotBracketed hNotQuoted hNe =>
      rw [regionTitle?_of_not_bracketed (bracketedTitle?_eq_none_iff.mpr hNotBracketed),
        quotedTitle?_eq_none_iff.mpr hNotQuoted, remainderTitle?_of_ne_nil hNe]
      rfl
    | none hNil =>
      rw [hNil]
      rfl
  · rintro rfl
    exact hasTitle_regionTitle? text

end

end Statement

/-! ### Names -/

/-- The title in quotation marks. -/
def RegionTitle.quotation? : RegionTitle → Option String
  | .quoted text | .bracketed text => some text
  | .remainder _ => none

def RegionTitle.remainder? : RegionTitle → Option String
  | .remainder text => some text
  | .quoted _ | .bracketed _ => none

/-- The texts of a region line that may name its region, the one that comes first in front. -/
def namingTexts (identifier : Option String) (title : Option RegionTitle) : List String :=
  (title.bind RegionTitle.quotation?).toList ++ identifier.toList ++
    (title.bind RegionTitle.remainder?).toList

/-- The region is named by the first text that is not blank, or else numbered. -/
inductive IsRegionName (texts : List String) (recorded : Nat) : String → Prop
  | given (before : List String) (text : String) (after : List String) :
    texts = before ++ text :: after → (∀ t ∈ before, IsBlank t) → ¬ IsBlank text →
    IsRegionName texts recorded (String.ofList (Text.trim text.toList))
  | numbered : (∀ t ∈ texts, IsBlank t) → IsRegionName texts recorded ("sub" ++ toString recorded)

theorem regionName_eq (identifier : Option String) (title : Option RegionTitle) (recorded : Nat) :
    regionName identifier title recorded =
      (((namingTexts identifier title).find? fun t => Text.trim t.toList ≠ []).map fun t =>
        String.ofList (Text.trim t.toList)).getD ("sub" ++ toString recorded) := by
  have hElim : ∀ texts : List String,
      ((texts.map fun t => Text.trim t.toList).find? (· ≠ [])).elim
        ("sub" ++ toString recorded) String.ofList =
      ((texts.find? fun t => Text.trim t.toList ≠ []).map fun t =>
        String.ofList (Text.trim t.toList)).getD ("sub" ++ toString recorded) := by
    intro texts
    have hMap : (texts.map fun t => Text.trim t.toList).find? (· ≠ []) =
        (texts.find? fun t => Text.trim t.toList ≠ []).map fun t => Text.trim t.toList :=
      List.find?_map
    rw [hMap]
    cases texts.find? fun t => Text.trim t.toList ≠ [] <;> rfl
  rw [← hElim]
  rcases title with - | (text | text | text) <;> cases identifier <;> rw [regionName] <;> split
  all_goals
    next hFind => exact (congrArg (Option.elim · _ String.ofList) hFind).symm

theorem trim_ne_nil_iff {t : String} : Text.trim t.toList ≠ [] ↔ ¬ IsBlank t :=
  not_congr Text.trim_eq_nil_iff

/-- **A region has one name.** -/
theorem isRegionName_iff {identifier : Option String} {title : Option RegionTitle} {recorded : Nat}
    {name : String} : IsRegionName (namingTexts identifier title) recorded name ↔
      name = regionName identifier title recorded := by
  rw [regionName_eq]
  constructor
  · intro h
    cases h with
    | given before text after hTexts hBefore hText =>
      have hFind : (namingTexts identifier title).find? (fun t => Text.trim t.toList ≠ []) =
          some text := by
        refine List.find?_eq_some_iff_append.mpr ⟨?_, before, after, hTexts, fun t ht => ?_⟩
        · exact decide_eq_true (trim_ne_nil_iff.mpr hText)
        · simpa using Text.trim_eq_nil_iff.mpr (hBefore t ht)
      rw [hFind]
      rfl
    | numbered hTexts =>
      have hFind : (namingTexts identifier title).find?
          (fun t => Text.trim t.toList ≠ []) = none := by
        refine List.find?_eq_none.mpr fun t ht => ?_
        simpa using Text.trim_eq_nil_iff.mpr (hTexts t ht)
      rw [hFind]
      rfl
  · rintro rfl
    cases hFind : (namingTexts identifier title).find? fun t => Text.trim t.toList ≠ [] with
    | some text =>
      obtain ⟨hText, before, after, hTexts, hBefore⟩ := List.find?_eq_some_iff_append.mp hFind
      refine .given before text after hTexts (fun t ht => ?_) ?_
      · have hTrim := hBefore t ht
        simp only [ne_eq, decide_not, Bool.not_not, decide_eq_true_eq] at hTrim
        exact Text.trim_eq_nil_iff.mp hTrim
      · exact trim_ne_nil_iff.mp (of_decide_eq_true hText)
    | none =>
      refine .numbered fun t ht => ?_
      have hTrim := List.find?_eq_none.mp hFind t ht
      simp only [ne_eq, decide_not, Bool.not_eq_true', decide_eq_false_iff_not, not_not] at hTrim
      exact Text.trim_eq_nil_iff.mp hTrim

/-- A region has a name that can be seen. -/
theorem not_isBlank_of_isRegionName {texts : List String} {recorded : Nat} {name : String}
    (h : IsRegionName texts recorded name) : ¬ IsBlank name := by
  cases h with
  | given before text after _ _ hText =>
    rw [← trim_ne_nil_iff, String.toList_ofList, Text.trim_trim]
    exact trim_ne_nil_iff.mpr hText
  | numbered _ =>
    intro hBlank
    rw [IsBlank, String.toList_append, List.all_append] at hBlank
    cases hBlank

/-! ### Lines -/

namespace Statement

variable {line keyword rest : List Char}

theorem openRegion?_of_afterKeyword? {text : List Char}
    (h : afterKeyword? "subgraph" text = some rest) :
    openRegion? text = some (.openRegion (identifierAndRest (rest.dropWhile isGap)).1
      (regionTitle? ((identifierAndRest (rest.dropWhile isGap)).2.dropWhile isGap))) := by
  rw [openRegion?, h, Option.map_some, identifierAndRest]
  simp only
  split_ifs
  · rfl
  · rw [List.dropWhile_idempotent]

theorem ofLine_eq_openRegion (hLine : Text.trim line = keyword ++ rest)
    (hKeyword : Text.SameWord keyword "subgraph".toList)
    (hRest : ∀ c ∈ rest.head?, isGap c = true) :
    ofLine line = .openRegion (identifierAndRest (rest.dropWhile isGap)).1
      (regionTitle? ((identifierAndRest (rest.dropWhile isGap)).2.dropWhile isGap)) := by
  have hAfter : afterKeyword? "subgraph" (keyword ++ rest) = some rest := by
    rw [afterKeyword?, Option.filter_eq_some_iff, Option.all_eq_true]
    exact ⟨Text.dropWord?_eq_some_iff.mpr ⟨keyword, rfl, hKeyword⟩, hRest⟩
  obtain ⟨hNe, hComment⟩ := not_isComment_of_sameWord hKeyword (by decide) rest
  rw [ofLine, hLine, ofTrimmed_of_not_isComment hNe hComment, openRegion?_of_afterKeyword? hAfter]
  rfl

/-- **A line with the keyword opens a region, whatever follows.** What follows has one identifier or
none and gives one title or none, and the region that is recorded and opened has one name, which is
not blank. -/
theorem ofLine_of_keyword (hLine : Text.trim line = keyword ++ rest)
    (hKeyword : Text.SameWord keyword "subgraph".toList)
    (hRest : ∀ c ∈ rest.head?, isGap c = true) :
    ∃ identifier after title, ofLine line = .openRegion identifier title ∧
      (∀ i a, HasIdentifier (rest.dropWhile isGap) i a ↔ i = identifier ∧ a = after) ∧
      (∀ t, HasTitle (after.dropWhile isGap) t ↔ t = title) ∧
      ∀ (r : Reading) (span : Span), ∃ name,
        (∀ n, IsRegionName (namingTexts identifier title) r.graph.regions.length n ↔ n = name) ∧
        ¬ IsBlank name ∧
        r.step ⟨span, Text.trim line⟩ = { r with
          graph := r.graph.recordRegion name
          openRegions := ⟨name, span⟩ :: r.openRegions } ∧
        (r.graph.recordRegion name).regions =
          if name ∈ r.graph.regions then r.graph.regions else r.graph.regions ++ [name] := by
  have hRead := ofLine_eq_openRegion hLine hKeyword hRest
  refine ⟨_, _, _, hRead, fun _ _ => hasIdentifier_iff, fun _ => hasTitle_iff, fun r span => ?_⟩
  refine ⟨_, fun _ => isRegionName_iff, not_isBlank_of_isRegionName (isRegionName_iff.mpr rfl), ?_,
    r.graph.regions_recordRegion _⟩
  have hTrimmed : ofLine (Text.trim line) = ofLine line := by rw [ofLine, Text.trim_trim, ofLine]
  rw [Reading.step, hTrimmed, hRead, Reading.apply]

/-- A region line that looks like a node and like an edge, with a blank title. -/
def crookedRegion : List Char := "\u00a0SubGraph \tcore[\" \"] --> B[x]\r".toList

theorem ofLine_of_keyword_crooked :
    Text.trim crookedRegion = "SubGraph".toList ++ " \tcore[\" \"] --> B[x]".toList ∧
      Text.SameWord "SubGraph".toList "subgraph".toList ∧
      ofLine crookedRegion = .openRegion (some "core") (some (.bracketed " ")) ∧
      ∀ (r : Reading) (span : Span),
        (r.step ⟨span, Text.trim crookedRegion⟩).openRegions = ⟨"core", span⟩ :: r.openRegions := by
  have hLine : Text.trim crookedRegion =
      "SubGraph".toList ++ " \tcore[\" \"] --> B[x]".toList := by decide +kernel
  have hKeyword : Text.SameWord "SubGraph".toList "subgraph".toList := by decide +kernel
  have hGap : ∀ c ∈ " \tcore[\" \"] --> B[x]".toList.head?, isGap c = true := by
    have hHead : " \tcore[\" \"] --> B[x]".toList.head? = some ' ' := by decide +kernel
    intro c hc
    rw [hHead, Option.mem_some_iff] at hc
    rw [← hc]
    rfl
  have hRead : ofLine crookedRegion = .openRegion (some "core") (some (.bracketed " ")) := by
    decide +kernel
  obtain ⟨identifier, after, title, hOpens, -, -, hStep⟩ :=
    ofLine_of_keyword hLine hKeyword hGap
  rw [hRead] at hOpens
  cases hOpens
  refine ⟨hLine, hKeyword, hRead, fun r span => ?_⟩
  obtain ⟨name, hName, -, hReading, -⟩ := hStep r span
  have hCore : IsRegionName (namingTexts (some "core") (some (.bracketed " ")))
      r.graph.regions.length "core" :=
    .given [" "] "core" [] rfl (by decide) (by decide)
  rw [hReading, (hName "core").mp hCore]

end Statement

end Diorama
