import Diorama.Proofs.Diagram.Spans
import Diorama.Proofs.Text.Search

/-!
# Kinds told by labels

A label tells a kind if it starts with the keyword of that kind, in any case, and a name follows it.
No keyword starts another one, so that a label starts with at most one of them (`StartsWith.unique`);
the order in which the keywords are tried does not matter (`splitNames_congr`), nor does the case of the
letters in front of the name. Keywords are ASCII: bytes that agree with one of them up to case are whole
characters (`sameBytes_take_iff`), so a label may be split at its bytes as well (`nameAtByte?_eq`).
-/

namespace Diorama

/-! ### Names behind keywords -/

/-- A text without the colon at its start, if there is one. -/
def Text.afterColon (text : List Char) : List Char :=
  if text.head? = some ':' then text.tail else text

/-- The name that what stands behind a keyword tells. -/
def nameIn? (rest : List Char) : Option String :=
  let name := Text.trim (Text.afterColon rest)
  if name = [] then none else some (String.ofList name)

def nameOf? (kind : NodeKind) (label : String) : Option String :=
  (Text.dropWord? kind.keyword.toList label.toList).bind nameIn?

/-- Splits a label by the first of these kinds whose keyword is followed by a name. -/
def splitNames (name? : NodeKind → String → Option String) (kinds : List NodeKind) (label : String) :
    Option NodeKind × String :=
  (kinds.findSome? fun kind => (name? kind label).map fun name => (some kind, name)).getD (none, label)

/-- A label starts with the keyword of a kind, and `rest` is left of it. -/
def StartsWith (kind : NodeKind) (label : String) (rest : List Char) : Prop :=
  ∃ word, label.toList = word ++ rest ∧ Text.SameWord word kind.keyword.toList

/-- A label starts with the keyword of a kind, and a name follows it. -/
def Names (kind : NodeKind) (label name : String) : Prop :=
  ∃ rest, StartsWith kind label rest ∧ (Text.afterColon rest).all Text.isBlank = false ∧
    name = String.ofList (Text.trim (Text.afterColon rest))

theorem splitKind_eq (label : String) : splitKind label = splitNames nameOf? NodeKind.all label := by
  rw [splitKind, splitNames]
  refine congrArg (fun f => (NodeKind.all.findSome? f).getD (none, label)) (funext fun kind => ?_)
  rw [nameOf?, Option.map_bind]
  refine congrArg (Option.bind _) (funext fun rest => ?_)
  simp only [Function.comp_apply, nameIn?, Text.afterColon]
  split_ifs <;> rfl

theorem nameIn?_eq_some_iff {rest : List Char} {name : String} :
    nameIn? rest = some name ↔ (Text.afterColon rest).all Text.isBlank = false ∧
      name = String.ofList (Text.trim (Text.afterColon rest)) := by
  rw [nameIn?, Option.ite_none_left_eq_some, Text.trim_eq_nil_iff, Bool.not_eq_true,
    Option.some_inj, eq_comm (a := name)]

theorem nameOf?_eq_some_iff {kind : NodeKind} {label name : String} :
    nameOf? kind label = some name ↔ Names kind label name := by
  simp only [nameOf?, Option.bind_eq_some_iff, Text.dropWord?_eq_some_iff, nameIn?_eq_some_iff]
  rfl

/-! ### One keyword at most -/

/-- No keyword starts with another one, whatever their case. -/
theorem eq_of_keyword_isPrefix : ∀ kind ∈ NodeKind.all, ∀ kind' ∈ NodeKind.all,
    kind.keyword.toList.map Char.toLower <+: kind'.keyword.toList.map Char.toLower → kind = kind' := by
  decide

theorem NodeKind.mem_all (kind : NodeKind) : kind ∈ NodeKind.all := by
  cases kind <;> decide

theorem StartsWith.map_toLower {kind : NodeKind} {label : String} {rest : List Char}
    (h : StartsWith kind label rest) :
    kind.keyword.toList.map Char.toLower <+: label.toList.map Char.toLower := by
  obtain ⟨word, hLabel, hWord⟩ := h
  rw [hLabel, List.map_append, hWord]
  exact List.prefix_append _ _

/-- **A label starts with one keyword at most.** -/
theorem StartsWith.unique {kind kind' : NodeKind} {label : String} {rest rest' : List Char}
    (h : StartsWith kind label rest) (h' : StartsWith kind' label rest') :
    kind = kind' ∧ rest = rest' := by
  have hKind : kind = kind' := by
    rcases List.prefix_or_prefix_of_prefix h.map_toLower h'.map_toLower with hPrefix | hPrefix
    · exact eq_of_keyword_isPrefix kind kind.mem_all kind' kind'.mem_all hPrefix
    · exact (eq_of_keyword_isPrefix kind' kind'.mem_all kind kind.mem_all hPrefix).symm
  subst hKind
  refine ⟨rfl, ?_⟩
  obtain ⟨word, hLabel, hWord⟩ := h
  obtain ⟨word', hLabel', hWord'⟩ := h'
  have hLength : word.length = word'.length := by
    simpa using congrArg List.length (hWord.trans hWord'.symm)
  exact (List.append_inj (hLabel.symm.trans hLabel') hLength).2

theorem Names.unique {kind kind' : NodeKind} {label name name' : String}
    (h : Names kind label name) (h' : Names kind' label name') : kind = kind' ∧ name = name' := by
  obtain ⟨rest, hStart, -, rfl⟩ := h
  obtain ⟨rest', hStart', -, rfl⟩ := h'
  obtain ⟨rfl, rfl⟩ := hStart.unique hStart'
  exact ⟨rfl, rfl⟩

/-! ### Splitting by keywords -/

/-- A label is split by one of the kinds, or by none. -/
theorem splitNames_eq_or (name? : NodeKind → String → Option String) (kinds : List NodeKind)
    (label : String) :
    (∃ kind ∈ kinds, ∃ name, name? kind label = some name ∧
      splitNames name? kinds label = (some kind, name)) ∨
    ((∀ kind ∈ kinds, name? kind label = none) ∧ splitNames name? kinds label = (none, label)) := by
  rw [splitNames]
  cases hFound : kinds.findSome? _ with
  | some result =>
    obtain ⟨kind, hKind, hResult⟩ := List.exists_of_findSome?_eq_some hFound
    obtain ⟨name, hName, rfl⟩ := Option.map_eq_some_iff.mp hResult
    exact .inl ⟨kind, hKind, name, hName, rfl⟩
  | none =>
    refine .inr ⟨fun kind hKind => ?_, rfl⟩
    exact Option.map_eq_none_iff.mp (List.findSome?_eq_none_iff.mp hFound kind hKind)

/-- **Whatever the order of the kinds, a label is split by the one whose keyword it starts with.** -/
theorem splitNames_eq_some_iff {kinds : List NodeKind} (hKinds : ∀ kind, kind ∈ kinds)
    {label name : String} {kind : NodeKind} :
    splitNames nameOf? kinds label = (some kind, name) ↔ Names kind label name := by
  rcases splitNames_eq_or nameOf? kinds label with ⟨first, -, told, hTold, hSplit⟩ | ⟨hNone, hSplit⟩
  · rw [hSplit, Prod.mk.injEq, Option.some_inj]
    have hFirst := nameOf?_eq_some_iff.mp hTold
    constructor
    · rintro ⟨rfl, rfl⟩
      exact hFirst
    · exact hFirst.unique
  · rw [hSplit, ← nameOf?_eq_some_iff, hNone kind (hKinds kind)]
    simp

theorem splitNames_eq_none {kinds : List NodeKind} {label : String}
    (h : ∀ kind name, ¬ Names kind label name) : splitNames nameOf? kinds label = (none, label) := by
  rcases splitNames_eq_or nameOf? kinds label with ⟨kind, -, name, hName, -⟩ | ⟨-, hSplit⟩
  · exact absurd (nameOf?_eq_some_iff.mp hName) (h kind name)
  · exact hSplit

theorem splitKind_eq_some_iff {label name : String} {kind : NodeKind} :
    splitKind label = (some kind, name) ↔ Names kind label name := by
  rw [splitKind_eq, splitNames_eq_some_iff NodeKind.mem_all]

theorem splitKind_eq_none {label : String} (h : ∀ kind name, ¬ Names kind label name) :
    splitKind label = (none, label) := by
  rw [splitKind_eq, splitNames_eq_none h]

theorem splitNames_of_perm {kinds : List NodeKind} (h : kinds.Perm NodeKind.all) (label : String) :
    splitNames nameOf? kinds label = splitKind label := by
  have hKinds : ∀ kind, kind ∈ kinds := fun kind => h.mem_iff.mpr kind.mem_all
  by_cases hNames : ∃ kind name, Names kind label name
  · obtain ⟨kind, name, hNames⟩ := hNames
    rw [(splitNames_eq_some_iff hKinds).mpr hNames, splitKind_eq_some_iff.mpr hNames]
  · simp only [not_exists] at hNames
    rw [splitNames_eq_none hNames, splitKind_eq_none hNames]

/-- **Labels that differ in the word in front only tell the same.** -/
theorem splitKind_of_startsWith {kind : NodeKind} {label label' : String} {rest : List Char}
    (h : StartsWith kind label rest) (h' : StartsWith kind label' rest) :
    (splitKind label').1 = (splitKind label).1 ∧
      ((splitKind label).1.isSome → splitKind label' = splitKind label) := by
  have hNames : ∀ other name, Names other label name ↔ Names other label' name := by
    intro other name
    constructor
    · rintro ⟨left, hStart, hName⟩
      obtain ⟨rfl, rfl⟩ := h.unique hStart
      exact ⟨_, h', hName⟩
    · rintro ⟨left, hStart, hName⟩
      obtain ⟨rfl, rfl⟩ := h'.unique hStart
      exact ⟨_, h, hName⟩
  by_cases hTold : ∃ other name, Names other label name
  · obtain ⟨other, name, hTold⟩ := hTold
    rw [splitKind_eq_some_iff.mpr hTold, splitKind_eq_some_iff.mpr ((hNames other name).mp hTold)]
    exact ⟨rfl, fun _ => rfl⟩
  · simp only [not_exists] at hTold
    rw [splitKind_eq_none hTold,
      splitKind_eq_none fun other name h => hTold other name ((hNames other name).mpr h)]
    exact ⟨rfl, fun h => nomatch h⟩

/-! ### Keywords in bytes -/

def bytesOf (text : String) : List UInt8 := text.toByteArray.data.toList

/-- A byte, but a small letter for a capital one of ASCII. -/
def lowerByte (b : UInt8) : UInt8 := if 65 ≤ b ∧ b ≤ 90 then b + 32 else b

/-- Bytes are the same up to ASCII case. -/
def SameBytes (bytes bytes' : List UInt8) : Prop := bytes.map lowerByte = bytes'.map lowerByte

instance (bytes bytes' : List UInt8) : Decidable (SameBytes bytes bytes') :=
  inferInstanceAs (Decidable (_ = _))

instance (source : String) (offset : Nat) : Decidable (IsBoundary source offset) :=
  inferInstanceAs (Decidable (String.Pos.Raw.IsValid _ _))

/-- The name behind a keyword, if the label is split at the byte where the keyword ends: no character may
be split there, and what is in front of it must be the keyword. -/
def nameAtByte? (kind : NodeKind) (label : String) : Option String :=
  if hCut : IsBoundary label kind.keyword.utf8ByteSize then
    let cut := label.pos ⟨kind.keyword.utf8ByteSize⟩ hCut
    if SameBytes (bytesOf (label.sliceTo cut).copy) (bytesOf kind.keyword) then
      nameIn? (label.sliceFrom cut).copy.toList
    else none
  else none

theorem bytesOf_eq (text : String) : bytesOf text = text.toList.flatMap String.utf8EncodeChar := by
  rw [bytesOf, ← String.ofList_toList (s := text), String.toByteArray_ofList, List.utf8Encode]
  simp

theorem utf8Size_of_lt {c : Char} (hc : c.toNat < 128) : c.utf8Size = 1 :=
  Char.utf8Size_eq_one_iff.mpr (UInt32.le_iff_toNat_le.mpr (Nat.le_of_lt_succ hc))

/-- A character of ASCII is a byte. -/
theorem utf8EncodeChar_of_lt {c : Char} (hc : c.toNat < 128) :
    String.utf8EncodeChar c = [UInt8.ofNat c.toNat] :=
  String.utf8EncodeChar_eq_singleton (utf8Size_of_lt hc)

/-- Any other character starts with a byte that is not in ASCII. -/
theorem exists_utf8EncodeChar_of_le {c : Char} (hc : 128 ≤ c.toNat) :
    ∃ b bytes, 128 ≤ UInt8.toNat b ∧ String.utf8EncodeChar c = b :: bytes := by
  have hVal : ¬ c.val.toNat ≤ 127 := by
    exact Nat.not_le.mpr hc
  rw [String.utf8EncodeChar]
  simp only [if_neg hVal]
  split_ifs
  · exact ⟨_, _, by rw [UInt8.toNat_ofNat']; omega, rfl⟩
  · exact ⟨_, _, by rw [UInt8.toNat_ofNat']; omega, rfl⟩
  · exact ⟨_, _, by rw [UInt8.toNat_ofNat']; omega, rfl⟩

theorem lowerByte_of_le {b : UInt8} (hb : 128 ≤ b.toNat) : lowerByte b = b := by
  rw [lowerByte, if_neg]
  rintro ⟨-, hCapital⟩
  have hCapital : b.toNat ≤ 90 := UInt8.le_iff_toNat_le.mp hCapital
  omega

/-- In ASCII, letters are made small as bytes as they are as characters. -/
theorem toNat_lowerByte_of_lt {c : Char} (hc : c.toNat < 128) :
    (lowerByte (UInt8.ofNat c.toNat)).toNat = c.toLower.toNat ∧ c.toLower.toNat < 128 := by
  have hAll : ∀ n < 128, (lowerByte (UInt8.ofNat n)).toNat = (Char.ofNat n).toLower.toNat ∧
      (Char.ofNat n).toLower.toNat < 128 := by decide
  have h := hAll c.toNat hc
  rwa [Char.ofNat_toNat] at h

theorem lowerByte_eq_iff {c d : Char} (hc : c.toNat < 128) (hd : d.toNat < 128) :
    lowerByte (UInt8.ofNat c.toNat) = lowerByte (UInt8.ofNat d.toNat) ↔ c.toLower = d.toLower := by
  rw [← UInt8.toNat_inj, (toNat_lowerByte_of_lt hc).1, (toNat_lowerByte_of_lt hd).1, Char.toNat_inj]

theorem toLower_of_le {c : Char} (hc : 128 ≤ c.toNat) : c.toLower = c := by
  refine dif_neg ?_
  rintro ⟨-, hCapital⟩
  have hCapital : c.toNat ≤ 90 := UInt32.le_iff_toNat_le.mp hCapital
  omega

/-- A character and one of ASCII are the same letter only if both are in ASCII. -/
theorem lt_of_sameLetter {c w : Char} (hw : w.toNat < 128) (h : c.toLower = w.toLower) :
    c.toNat < 128 := by
  by_contra hc
  have hc : 128 ≤ c.toNat := Nat.le_of_not_lt hc
  have hLow := (toNat_lowerByte_of_lt hw).2
  rw [← h, toLower_of_le hc] at hLow
  omega

/-- **Bytes agree with a word of ASCII exactly if they are characters that do.** -/
theorem sameBytes_take_iff {word : List Char} (hWord : ∀ w ∈ word, w.toNat < 128)
    (text : List Char) :
    SameBytes ((text.flatMap String.utf8EncodeChar).take word.length)
        (word.flatMap String.utf8EncodeChar) ↔
      (Text.dropWord? word text).isSome := by
  induction word generalizing text with
  | nil => simp [SameBytes, Text.dropWord?, Text.dropMatch?]
  | cons w word ih =>
    have hw := hWord w List.mem_cons_self
    have ih := ih fun v hv => hWord v (List.mem_cons_of_mem _ hv)
    rw [List.flatMap_cons, utf8EncodeChar_of_lt hw, List.singleton_append]
    cases text with
    | nil => simp [SameBytes, Text.dropWord?, Text.dropMatch?]
    | cons c text =>
      rw [List.flatMap_cons, List.length_cons, Text.dropWord?, Text.dropMatch?]
      simp only [Text.sameLetter, decide_eq_true_eq, @eq_comm _ w.toLower]
      by_cases hc : c.toNat < 128
      · rw [utf8EncodeChar_of_lt hc, List.singleton_append, List.take_succ_cons, SameBytes,
          List.map_cons, List.map_cons, List.cons.injEq, lowerByte_eq_iff hc hw]
        by_cases hSame : c.toLower = w.toLower
        · rw [if_pos hSame, and_iff_right hSame]
          exact ih text
        · rw [if_neg hSame]
          simp [hSame]
      · -- The first byte of such a character is not in ASCII, and neither is a letter of its own.
        have hc : 128 ≤ c.toNat := Nat.le_of_not_lt hc
        obtain ⟨b, bytes, hb, hEncode⟩ := exists_utf8EncodeChar_of_le hc
        rw [hEncode, List.cons_append, List.take_succ_cons, SameBytes, List.map_cons, List.map_cons,
          List.cons.injEq, lowerByte_of_le hb,
          if_neg fun h => Nat.not_lt.mpr hc (lt_of_sameLetter hw h)]
        constructor
        · rintro ⟨rfl, -⟩
          have hLow := toNat_lowerByte_of_lt hw
          omega
        · intro h
          cases h

/-! ### Labels split at their bytes -/

theorem keyword_ascii (kind : NodeKind) : ∀ c ∈ kind.keyword.toList, c.toNat < 128 := by
  have hAll : kind.keyword.toList.all (·.toNat < 128) = true := by
    cases kind <;> decide
  exact fun c hc => of_decide_eq_true (List.all_eq_true.mp hAll c hc)

theorem length_keyword (kind : NodeKind) :
    kind.keyword.toList.length = kind.keyword.utf8ByteSize := by
  cases kind <;> decide

theorem isSome_dropWord?_iff {kind : NodeKind} {label : String} :
    (Text.dropWord? kind.keyword.toList label.toList).isSome ↔ ∃ rest, StartsWith kind label rest := by
  simp only [Option.isSome_iff_exists, Text.dropWord?_eq_some_iff]
  rfl

/-- The bytes of a label tell the keyword it starts with. -/
theorem sameBytes_keyword_iff {kind : NodeKind} {label : String} :
    SameBytes ((bytesOf label).take kind.keyword.utf8ByteSize) (bytesOf kind.keyword) ↔
      ∃ rest, StartsWith kind label rest := by
  rw [← isSome_dropWord?_iff, ← sameBytes_take_iff (keyword_ascii kind),
    length_keyword kind, ← bytesOf_eq, ← bytesOf_eq]

theorem byteLength_of_ascii {text : List Char} (h : ∀ c ∈ text, c.toNat < 128) :
    Text.byteLength text = text.length := by
  induction text with
  | nil => rfl
  | cons c text ih =>
    have hSize : c.utf8Size = 1 := utf8Size_of_lt (h c List.mem_cons_self)
    have ih := ih fun d hd => h d (List.mem_cons_of_mem _ hd)
    show c.utf8Size + Text.byteLength text = _
    rw [hSize, ih, List.length_cons, Nat.add_comm]

/-- A word that is a keyword up to case has as many bytes. -/
theorem utf8ByteSize_of_sameWord {kind : NodeKind} {word : List Char}
    (h : Text.SameWord word kind.keyword.toList) :
    (String.ofList word).utf8ByteSize = kind.keyword.utf8ByteSize := by
  have hAscii : ∀ c ∈ word, c.toNat < 128 := by
    intro c hc
    have hLower : c.toLower ∈ kind.keyword.toList.map Char.toLower :=
      h ▸ List.mem_map_of_mem hc
    obtain ⟨w, hw, hSame⟩ := List.mem_map.mp hLower
    exact lt_of_sameLetter (keyword_ascii kind w hw) hSame.symm
  have hLength : word.length = kind.keyword.toList.length := by
    simpa using congrArg List.length h
  rw [← Text.byteLength_eq, byteLength_of_ascii hAscii, hLength, length_keyword kind]

/-- **No keyword ends within a character.** -/
theorem StartsWith.isBoundary {kind : NodeKind} {label : String} {rest : List Char}
    (h : StartsWith kind label rest) : IsBoundary label kind.keyword.utf8ByteSize := by
  obtain ⟨word, hLabel, hWord⟩ := h
  have hText : label = String.ofList word ++ String.ofList rest := by
    rw [← String.ofList_append, ← hLabel, String.ofList_toList]
  rw [hText, ← utf8ByteSize_of_sameWord hWord]
  exact isBoundary_append _ _

theorem take_bytesOf_append {head : String} {n : Nat} (hHead : head.utf8ByteSize = n)
    (tail : String) : (bytesOf (head ++ tail)).take n = bytesOf head := by
  have hLength : (bytesOf head).length = n := hHead
  rw [bytesOf_eq (head ++ tail), String.toList_append, List.flatMap_append, ← bytesOf_eq,
    List.take_left' hLength]

/-- A label that is split between two characters. -/
theorem nameAtByte?_append {kind : NodeKind} {head : String}
    (hHead : head.utf8ByteSize = kind.keyword.utf8ByteSize) (tail : String) :
    nameAtByte? kind (head ++ tail) =
      if SameBytes (bytesOf head) (bytesOf kind.keyword) then nameIn? tail.toList else none := by
  have hCut : IsBoundary (head ++ tail) kind.keyword.utf8ByteSize := hHead ▸ isBoundary_append _ _
  let cut := (head ++ tail).pos ⟨kind.keyword.utf8ByteSize⟩ hCut
  have hParts : cut.Splits head tail := ⟨rfl, congrArg String.Pos.Raw.mk hHead.symm⟩
  obtain ⟨hFirst, hSecond⟩ := cut.splits.eq hParts
  rw [nameAtByte?, dif_pos hCut]
  simp only [cut] at hFirst hSecond
  simp only [hFirst, hSecond]

/-- **Splitting a label at its bytes finds the same name.** -/
theorem nameAtByte?_eq (kind : NodeKind) (label : String) :
    nameAtByte? kind label = nameOf? kind label := by
  rw [nameOf?]
  cases hRest : Text.dropWord? kind.keyword.toList label.toList with
  | some rest =>
    have hStart : StartsWith kind label rest := Text.dropWord?_eq_some_iff.mp hRest
    have hBytes := sameBytes_keyword_iff.mpr ⟨rest, hStart⟩
    obtain ⟨word, hLabel, hWord⟩ := hStart
    have hText : label = String.ofList word ++ String.ofList rest := by
      rw [← String.ofList_append, ← hLabel, String.ofList_toList]
    have hHead := utf8ByteSize_of_sameWord hWord
    rw [hText, take_bytesOf_append hHead] at hBytes
    rw [hText, nameAtByte?_append hHead, if_pos hBytes, String.toList_ofList]
    rfl
  | none =>
    show _ = none
    have hNot : ¬ ∃ rest, StartsWith kind label rest := by
      rw [← isSome_dropWord?_iff, hRest]
      simp
    by_cases hCut : IsBoundary label kind.keyword.utf8ByteSize
    · obtain ⟨head, tail, rfl, hHead⟩ := String.Pos.Raw.isValid_iff_exists_append.mp hCut
      have hHead : head.utf8ByteSize = kind.keyword.utf8ByteSize :=
        (congrArg String.Pos.Raw.byteIdx hHead).symm
      rw [nameAtByte?_append hHead, if_neg]
      rw [← take_bytesOf_append hHead tail, sameBytes_keyword_iff]
      exact hNot
    · rw [nameAtByte?, dif_neg hCut]

/-- **What a label tells.** It is split into a kind and a name exactly if it starts with the keyword of the
kind and a name follows it; any other label is a name without kind. It starts with one keyword at most, so
that the order in which they are tried does not matter, and the case of the letters of the keyword changes
neither the kind nor the name. Bytes that agree with a keyword end where a character ends, and splitting a
label at its bytes gives the same. -/
theorem splitKind_keyword (label : String) :
    (∀ kind name, splitKind label = (some kind, name) ↔ Names kind label name) ∧
    ((∀ kind name, ¬ Names kind label name) → splitKind label = (none, label)) ∧
    (∀ kind kind' rest rest', StartsWith kind label rest → StartsWith kind' label rest' →
      kind = kind' ∧ rest = rest') ∧
    (∀ kinds : List NodeKind, kinds.Perm NodeKind.all →
      splitNames nameOf? kinds label = splitKind label) ∧
    (∀ (kind : NodeKind) (word word' rest : List Char), label.toList = word ++ rest →
      Text.SameWord word kind.keyword.toList → Text.SameWord word' word →
      (splitKind (String.ofList (word' ++ rest))).1 = (splitKind label).1 ∧
      ((splitKind label).1.isSome → splitKind (String.ofList (word' ++ rest)) = splitKind label)) ∧
    (∀ kind : NodeKind, SameBytes ((bytesOf label).take kind.keyword.utf8ByteSize)
        (bytesOf kind.keyword) →
      (∃ rest, StartsWith kind label rest) ∧ IsBoundary label kind.keyword.utf8ByteSize) ∧
    splitNames nameAtByte? NodeKind.all label = splitKind label := by
  refine ⟨fun kind name => splitKind_eq_some_iff, splitKind_eq_none,
    fun kind kind' rest rest' h h' => h.unique h', fun kinds h => splitNames_of_perm h label,
    ?_, ?_, ?_⟩
  · intro kind word word' rest hLabel hWord hWord'
    have hStart : StartsWith kind label rest := ⟨word, hLabel, hWord⟩
    apply splitKind_of_startsWith hStart
    exact ⟨word', String.toList_ofList, hWord'.trans hWord⟩
  · intro kind hBytes
    obtain ⟨rest, hStart⟩ := sameBytes_keyword_iff.mp hBytes
    exact ⟨⟨rest, hStart⟩, hStart.isBoundary⟩
  · rw [splitKind_eq]
    exact congrArg (splitNames · NodeKind.all label)
      (funext fun kind => funext fun label => nameAtByte?_eq kind label)

/-- One colon is taken away, and the other one starts the name; a colon alone is no name. -/
theorem splitKind_keyword_colons :
    (Names .service "sErViCe:: é" ": é" ∧
      splitKind "sErViCe:: é" = (some .service, ": é") ∧
      splitKind "SERVICE:: é" = (some .service, ": é") ∧
      splitNames nameOf? NodeKind.all.reverse "sErViCe:: é" = (some .service, ": é") ∧
      IsBoundary "sErViCe:: é" 7) ∧
    (∀ kind name, ¬ Names kind "poD:" name) ∧ splitKind "poD:" = (none, "poD:") := by
  have hStart : StartsWith .service "sErViCe:: é" ":: é".toList :=
    ⟨"sErViCe".toList, by decide, by decide⟩
  have hNames : Names .service "sErViCe:: é" ": é" := ⟨_, hStart, by decide, by decide⟩
  have hPod : StartsWith .pod "poD:" [':'] := ⟨"poD".toList, by decide, by decide⟩
  have hBlank : ∀ kind name, ¬ Names kind "poD:" name := by
    rintro kind name ⟨rest, hRest, hName, -⟩
    obtain ⟨-, rfl⟩ := hPod.unique hRest
    cases hName
  obtain ⟨hSplit, -, -, hOrder, hCase, hBytes, -⟩ := splitKind_keyword "sErViCe:: é"
  have hService := (hSplit .service ": é").mpr hNames
  have hUpper := (hCase .service "sErViCe".toList "SERVICE".toList ":: é".toList (by decide)
    (by decide) (by decide)).2
  refine ⟨⟨hNames, hService, ?_, ?_, (hBytes .service (by decide)).2⟩, hBlank,
    (splitKind_keyword "poD:").2.1 hBlank⟩
  · rw [hService] at hUpper
    exact hUpper rfl
  · rw [hOrder _ (List.reverse_perm _), hService]

end Diorama
