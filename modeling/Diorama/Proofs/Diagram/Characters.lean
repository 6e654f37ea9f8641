import Diorama.Proofs.Diagram.Parts
import Diorama.Proofs.Diagram.Sources

/-!
# Where the texts of a diagram come from

Every text in a statement consists of characters of its line (`subset_of_mem_texts`). Since a line
has no line feed, no text of a node that was read has one (`hasNoLineFeed_of_ofSource`).
-/

namespace Diorama

open Reading

/-! ### Readers of one line -/

theorem Text.suffix_of_dropMatch? {same : Char → Char → Bool} {word text rest : List Char}
    (h : dropMatch? same word text = some rest) : rest <:+ text := by
  induction word generalizing text with
  | nil =>
    cases h
    exact List.suffix_rfl
  | cons w word ih =>
    cases text with
    | nil => cases h
    | cons c text =>
      rw [dropMatch?] at h
      split_ifs at h
      exact (ih h).trans (List.suffix_cons c text)

theorem eq_some_of_orElse {α : Type} {x y : Option α} {a : α} (h : (x <|> y) = some a) :
    x = some a ∨ y = some a := by
  cases x with
  | none => exact .inr h
  | some _ => exact .inl h

def RegionTitle.text : RegionTitle → String
  | .quoted text => text
  | .bracketed text => text
  | .remainder text => text

namespace Statement

/-- Everything that a statement has taken from its line. -/
def texts : Statement → List String
  | .openRegion identifier title => identifier.toList ++ (title.map RegionTitle.text).toList
  | .node id label => [id, label]
  | .edge source target label => source :: target :: label.toList
  | .closeRegion | .blank | .comment | .header | .unrecognized => []

variable {text rest : List Char}

theorem toList_ofList_subset {l text : List Char} (h : l ⊆ text) :
    (String.ofList l).toList ⊆ text := by
  rwa [String.toList_ofList]

theorem subset_of_afterKeyword? {keyword : String} (h : afterKeyword? keyword text = some rest) :
    rest ⊆ text :=
  (Text.suffix_of_dropMatch? (Option.filter_eq_some_iff.mp h).1).subset

theorem subset_of_quotedBody? {body : String} (h : quotedBody? text = some (body, rest)) :
    body.toList ⊆ text := by
  unfold quotedBody? at h
  split at h
  · next c tail d rest' hTake hDrop =>
    cases h
    refine toList_ofList_subset ?_
    rw [← hTake]
    exact (List.takeWhile_sublist _).subset
  · cases h

/-! ### Region lines -/

theorem subset_of_bracketedTitle? {title : RegionTitle} (h : bracketedTitle? text = some title) :
    title.text.toList ⊆ text := by
  unfold bracketedTitle? at h
  split at h
  · next inner =>
    split at h
    · next body _ hBody =>
      cases h
      exact List.Subset.trans (subset_of_quotedBody? hBody)
        (List.subset_cons_of_subset _ (List.subset_cons_self _ _))
    · cases h
  · cases h

theorem subset_of_quotedTitle? {title : RegionTitle} (h : quotedTitle? text = some title) :
    title.text.toList ⊆ text := by
  unfold quotedTitle? at h
  split at h
  · next inner =>
    obtain ⟨⟨body, rest⟩, hBody, rfl⟩ := Option.map_eq_some_iff.mp h
    exact List.Subset.trans (subset_of_quotedBody? hBody) (List.subset_cons_self _ _)
  · cases h

theorem subset_of_remainderTitle? {title : RegionTitle} (h : remainderTitle? text = some title) :
    title.text.toList ⊆ text := by
  unfold remainderTitle? at h
  split at h
  · cases h
  · cases h
    exact toList_ofList_subset (List.Subset.refl _)

theorem subset_of_regionTitle? {title : RegionTitle} (h : regionTitle? text = some title) :
    title.text.toList ⊆ text := by
  rcases eq_some_of_orElse h with h | h
  · exact subset_of_bracketedTitle? h
  · rcases eq_some_of_orElse h with h | h
    · exact subset_of_quotedTitle? h
    · exact subset_of_remainderTitle? h

theorem subset_of_openRegion? {s : Statement} (h : openRegion? text = some s) :
    ∀ t ∈ s.texts, t.toList ⊆ text := by
  obtain ⟨rest, hRest, rfl⟩ := Option.map_eq_some_iff.mp h
  have hText := subset_of_afterKeyword? hRest
  have hGap : rest.dropWhile isGap ⊆ text :=
    List.Subset.trans (List.dropWhile_suffix _).subset hText
  intro t ht
  simp only at ht
  split at ht
  · rcases List.mem_cons.mp ht with rfl | ht
    · exact toList_ofList_subset
        (List.Subset.trans (List.takeWhile_sublist _).subset hGap)
    · obtain ⟨title, hTitle, rfl⟩ := Option.map_eq_some_iff.mp (Option.mem_toList.mp ht)
      refine List.Subset.trans (subset_of_regionTitle? hTitle) ?_
      refine List.Subset.trans (List.dropWhile_suffix _).subset ?_
      exact List.Subset.trans (List.dropWhile_suffix _).subset hGap
  · obtain ⟨title, hTitle, rfl⟩ := Option.map_eq_some_iff.mp (Option.mem_toList.mp ht)
    exact List.Subset.trans (subset_of_regionTitle? hTitle) hGap

/-! ### Other lines -/

theorem texts_of_closeRegion? {s : Statement} (h : closeRegion? text = some s) : s.texts = [] := by
  unfold closeRegion? at h
  split_ifs at h
  cases h
  rfl

theorem subset_of_node? {s : Statement} (h : node? text = some s) :
    ∀ t ∈ s.texts, t.toList ⊆ text := by
  obtain ⟨p, rfl, rfl⟩ := node?_eq_some_iff.mp h
  have hId : p.id ⊆ p.text := fun c hc => by simp [NodeLine.text, hc]
  have hBody : p.body ⊆ p.text := fun c hc => by simp [NodeLine.text, hc]
  intro t ht
  rcases List.mem_cons.mp ht with rfl | ht
  · exact toList_ofList_subset hId
  · rw [List.mem_singleton.mp ht]
    exact toList_ofList_subset fun c hc => hBody (Text.mem_of_mem_trim hc)

theorem subset_of_edge? {s : Statement} (h : edge? text = some s) :
    ∀ t ∈ s.texts, t.toList ⊆ text := by
  obtain ⟨p, rfl, rfl⟩ := edge?_eq_some_iff.mp h
  have hSource : p.source ⊆ p.text := fun c hc => by simp [EdgeLine.text, hc]
  have hTarget : p.target ⊆ p.text := fun c hc => by simp [EdgeLine.text, hc]
  intro t ht
  rcases List.mem_cons.mp ht with rfl | ht
  · exact toList_ofList_subset hSource
  · rcases List.mem_cons.mp ht with rfl | ht
    · exact toList_ofList_subset hTarget
    · obtain ⟨bar, hBar, rfl⟩ := Option.map_eq_some_iff.mp (Option.mem_toList.mp ht)
      have hBody : bar.body ⊆ p.text := fun c hc => by simp [EdgeLine.text, hBar, BarLabel.text, hc]
      exact toList_ofList_subset fun c hc => hBody (Text.mem_of_mem_trim hc)

theorem texts_of_header? {s : Statement} (h : header? text = some s) : s.texts = [] := by
  obtain ⟨rest, -, rfl⟩ := Option.map_eq_some_iff.mp h
  rfl

/-- **Every text in a statement consists of characters of its line.** -/
theorem subset_of_mem_texts {line : List Char} {t : String} (ht : t ∈ (ofLine line).texts) :
    t.toList ⊆ line := by
  have hTrim : Text.trim line ⊆ line := fun _ => Text.mem_of_mem_trim
  refine List.Subset.trans ?_ hTrim
  revert ht
  unfold ofLine ofTrimmed
  split_ifs
  · exact nofun
  · exact nofun
  · cases hStatement : openRegion? (Text.trim line) <|> closeRegion? (Text.trim line) <|>
        node? (Text.trim line) <|> edge? (Text.trim line) <|> header? (Text.trim line) with
    | none => exact nofun
    | some s =>
      intro ht
      rcases eq_some_of_orElse hStatement with h | h
      · exact subset_of_openRegion? h t ht
      rcases eq_some_of_orElse h with h | h
      · rw [Option.getD_some, texts_of_closeRegion? h] at ht
        cases ht
      rcases eq_some_of_orElse h with h | h
      · exact subset_of_node? h t ht
      rcases eq_some_of_orElse h with h | h
      · exact subset_of_edge? h t ht
      · rw [Option.getD_some, texts_of_header? h] at ht
        cases ht

/-! ### Texts of nodes -/

theorem lineFeed_not_mem_texts {source : String} {k : Nat} {s : Statement}
    (hAt : (statements source)[k]? = some s) {t : String} (ht : t ∈ s.texts) :
    '\n' ∉ t.toList := by
  obtain ⟨line, hLine, rfl⟩ := List.mem_map.mp (List.mem_of_getElem? hAt)
  exact fun hc => Text.not_mem_of_mem_splitOn hLine (subset_of_mem_texts ht hc)

end Statement

/-- A name is the whole label, or what a keyword leaves of it. -/
theorem splitKind_eq_or (label : String) :
    splitKind label = (none, label) ∨
      ∃ kind text, text <:+ label.toList ∧ Text.trim text ≠ [] ∧
        splitKind label = (some kind, String.ofList (Text.trim text)) := by
  unfold splitKind
  simp only
  cases hFound : List.findSome? _ NodeKind.all with
  | none => exact .inl rfl
  | some result =>
    right
    obtain ⟨kind, -, hNamed⟩ := List.exists_of_findSome?_eq_some hFound
    obtain ⟨rest, hRest, hNamed⟩ := Option.bind_eq_some_iff.mp hNamed
    obtain ⟨hName, hResult⟩ := Option.ite_none_left_eq_some.mp hNamed
    refine ⟨kind, if rest.head? = some ':' then rest.tail else rest, ?_, hName,
      (Option.some.inj hResult).symm⟩
    split_ifs
    · exact (List.tail_suffix rest).trans (Text.suffix_of_dropMatch? hRest)
    · exact Text.suffix_of_dropMatch? hRest

theorem subset_of_splitKind (label : String) : (splitKind label).2.toList ⊆ label.toList := by
  rcases splitKind_eq_or label with hSplit | ⟨kind, text, hText, -, hSplit⟩
  · rw [hSplit]
    exact List.Subset.refl _
  · rw [hSplit]
    exact Statement.toList_ofList_subset fun c hc => hText.subset (Text.mem_of_mem_trim hc)

/-- A name of a region is a text of its line without surrounding blanks, if it is not synthetic. -/
theorem regionName_eq_or (identifier : Option String) (title : Option RegionTitle)
    (recorded : Nat) :
    (∃ t ∈ (Statement.openRegion identifier title).texts, Text.trim t.toList ≠ [] ∧
      regionName identifier title recorded = String.ofList (Text.trim t.toList)) ∨
    regionName identifier title recorded = "sub" ++ toString recorded := by
  unfold regionName
  simp only
  split
  · next name hName =>
    left
    obtain ⟨t, ht, rfl⟩ := List.mem_map.mp (List.mem_of_find?_eq_some hName)
    obtain ⟨candidate, hCandidate, rfl⟩ := List.mem_filterMap.mp ht
    refine ⟨t, ?_, by simpa using List.find?_some hName, rfl⟩
    rcases title with - | (text | text | text) <;>
      simpa [Statement.texts, RegionTitle.text, eq_comm, or_comm] using hCandidate
  · exact .inr rfl

theorem lineFeed_not_mem_regionName {identifier : Option String} {title : Option RegionTitle}
    (h : ∀ t ∈ (Statement.openRegion identifier title).texts, '\n' ∉ t.toList) (recorded : Nat) :
    '\n' ∉ (regionName identifier title recorded).toList := by
  rcases regionName_eq_or identifier title recorded with ⟨t, ht, -, hName⟩ | hName
  · rw [hName, String.toList_ofList]
    exact fun hc => h t ht (Text.mem_of_mem_trim hc)
  · rw [hName, String.toList_append, List.mem_append, not_or]
    refine ⟨by decide, fun hc => ?_⟩
    rw [Nat.toString_eq_ofList_toDigits, String.toList_ofList] at hc
    exact absurd (Nat.isDigit_of_mem_toDigits (by decide) (by decide) hc) (by decide)

/-- No comment about a node can break its line. -/
structure HasNoLineFeed (n : Node) : Prop where
  id : '\n' ∉ n.id.toList
  name : '\n' ∉ n.name.toList
  region : ∀ region ∈ n.region, '\n' ∉ region.toList

theorem lineFeed_not_mem_regionAt {source : String} {k : Nat} {region : String}
    (h : Statement.regionAt (statements source) k = some region) : '\n' ∉ region.toList := by
  obtain ⟨i, -, hTitle⟩ := Option.bind_eq_some_iff.mp h
  obtain ⟨s, hAt, hTitle⟩ := Option.bind_eq_some_iff.mp hTitle
  cases s with
  | openRegion identifier title =>
    cases hTitle
    exact lineFeed_not_mem_regionName (fun t => Statement.lineFeed_not_mem_texts hAt) _
  | _ => cases hTitle

/-- **No text of a node that was read has a line feed.** -/
theorem hasNoLineFeed_of_ofSource {strict : Bool} {source : String} {g : Graph}
    (hRead : Graph.ofSource strict source = .ok g) {n : Node} (hn : n ∈ g.nodes) :
    HasNoLineFeed n := by
  obtain ⟨k, label, hLast, hNode⟩ := (Graph.describes_of_ofSource hRead).node n hn
  have hTexts := fun t => Statement.lineFeed_not_mem_texts (t := t) hLast.1
  have hLabel := hTexts label (by simp [Statement.texts])
  exact {
    id := hTexts n.id (by simp [Statement.texts])
    name := by
      rw [hNode]
      exact fun hc => hLabel (subset_of_splitKind label hc)
    region := by
      rw [hNode]
      exact fun region hRegion => lineFeed_not_mem_regionAt hRegion }

end Diorama
