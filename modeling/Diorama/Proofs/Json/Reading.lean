import Diorama.Proofs.Json.Tokens
import Diorama.Proofs.Number.ReadingBack
import Diorama.Proofs.Outcome

/-!
# JSON documents read back

The text of a document is read as what the document says (`read?_text`), with its items and members in
their order. What is said by a number is found in it again (`natural?_datum`, `binary?_datum_single`,
`binary?_datum_double`).
-/

namespace Diorama.Json

/-! ### Documents as data -/

/-- A number, or nothing if it is not finite. -/
def numberDatum {F : Format} (style : NumberStyle) (x : Binary F) : Datum :=
  if x.isFinite then .number (style.text x) else .null

namespace Value

mutual

/-- What a document says. -/
def datum : Value → Datum
  | .null => .null
  | .natural n => .number (Nat.toDigits 10 n)
  | .double x => numberDatum doubleStyle x
  | .single x => numberDatum singleStyle x
  | .string s => .string s
  | .array items => .array (itemData items)
  | .object members => .object (memberData members)

def itemData : List Value → List Datum
  | [] => []
  | item :: items => item.datum :: itemData items

def memberData : List (String × Value) → List (String × Datum)
  | [] => []
  | (name, value) :: members => (name, value.datum) :: memberData members

end

end Value

/-! ### Values -/

/-- A character that a value may start with; it ends neither an array nor a run of blanks. -/
def StartsValue (text : List Char) : Prop :=
  ∃ c tail, text = c :: tail ∧ isSpace c = false ∧ c ≠ ']'

theorem skipSpace_of_startsValue {text : List Char} (h : StartsValue text) (rest : List Char) :
    skipSpace (text ++ rest) = text ++ rest := by
  obtain ⟨c, tail, rfl, hSpace, -⟩ := h
  exact skipSpace_cons hSpace _

theorem head?_ne_of_startsValue {text : List Char} (h : StartsValue text) (rest : List Char) :
    (text ++ rest).head? ≠ some ']' := by
  obtain ⟨c, tail, rfl, -, hBracket⟩ := h
  exact fun hHead => hBracket (Option.some.inj hHead)

/-- A number starts neither with a bracket nor with a quotation mark or a blank. -/
theorem ne_of_startsNumber {c : Char} (h : startsNumber c = true) :
    c ≠ '"' ∧ c ≠ '[' ∧ c ≠ '\x7b' ∧ isSpace c = false ∧ c ≠ ']' := by
  rcases (Bool.or_eq_true _ _).mp h with hDigit | hMinus
  · obtain ⟨n, hn, rfl⟩ := exists_digitChar hDigit
    revert n
    decide
  · obtain rfl := of_decide_eq_true hMinus
    decide

theorem value?_number {text rest : List Char} {c : Char} {tail : List Char}
    (hText : text = c :: tail) (hc : startsNumber c = true)
    (hNumber : number? (text ++ rest) = some (text, rest)) (bound : Nat) :
    value? (bound + 1) (text ++ rest) = some (.number text, rest) := by
  obtain ⟨hQuote, hBracket, hBrace, -⟩ := ne_of_startsNumber hc
  subst hText
  rw [List.cons_append] at hNumber ⊢
  rw [value?, if_neg hQuote, if_neg hBracket, if_neg hBrace, if_pos hc, hNumber]
  rfl

theorem value?_null (bound : Nat) (rest : List Char) :
    value? (bound + 1) ("null".toList ++ rest) = some (.null, rest) := by
  have hName : name? ("null".toList ++ rest) = some (.null, rest) := by
    rw [name?, word?_append]
    rfl
  exact hName

/-- A style whose numbers are those of JSON documents. -/
structure IsJsonStyle (style : NumberStyle) : Prop where
  hasZerosEnd : style.HasZerosEnd
  infinity_eq : ∀ negative, style.infinity negative = "null"
  nan_eq : style.nan = "null"

theorem isJsonStyle_double : IsJsonStyle doubleStyle := ⟨⟨1, rfl⟩, fun _ => rfl, rfl⟩

theorem isJsonStyle_single : IsJsonStyle singleStyle := ⟨⟨1, rfl⟩, fun _ => rfl, rfl⟩

section

variable {F : Format} {style : NumberStyle}

/-- The text of a number is that of a numeral, or it is `null`. -/
theorem text_eq_of_isJsonStyle (hRoom : F.HasRoom) (hStyle : IsJsonStyle style) (x : Binary F) :
    (x.isFinite = true ∧ ∃ negative, ∃ n : Numeral, n.IsProper ∧
      style.text x = NumberStyle.signText negative ++ n.text) ∨
    (x.isFinite = false ∧ style.text x = "null".toList) := by
  cases x with
  | finite negative m hBounded =>
    obtain ⟨n, hProper, -, hText, -⟩ :=
      NumberStyle.exists_numeral_bodyText hRoom hStyle.hasZerosEnd hBounded
    exact .inl ⟨rfl, negative, n, hProper, by rw [NumberStyle.text_finite, hText]⟩
  | infinite negative => exact .inr ⟨rfl, congrArg String.toList (hStyle.infinity_eq negative)⟩
  | nan => exact .inr ⟨rfl, congrArg String.toList hStyle.nan_eq⟩

theorem startsValue_text (hRoom : F.HasRoom) (hStyle : IsJsonStyle style) (x : Binary F) :
    StartsValue (style.text x) := by
  rcases text_eq_of_isJsonStyle hRoom hStyle x with ⟨-, negative, n, hProper, hText⟩ | ⟨-, hText⟩
  · obtain ⟨c, tail, hHead, hc⟩ := exists_startsNumber hProper negative
    obtain ⟨-, -, -, hSpace, hBracket⟩ := ne_of_startsNumber hc
    exact ⟨c, tail, hText.trans hHead, hSpace, hBracket⟩
  · exact ⟨'n', "ull".toList, hText, rfl, by decide⟩

theorem value?_text (hRoom : F.HasRoom) (hStyle : IsJsonStyle style) (x : Binary F) {bound : Nat}
    (hBound : 0 < bound) {rest : List Char} (hRest : EndsValue rest) :
    value? bound (style.text x ++ rest) = some (numberDatum style x, rest) := by
  obtain ⟨bound, rfl⟩ := Nat.exists_eq_succ_of_ne_zero hBound.ne'
  rw [numberDatum]
  rcases text_eq_of_isJsonStyle hRoom hStyle x with
    ⟨hFinite, negative, n, hProper, hText⟩ | ⟨hFinite, hText⟩
  · obtain ⟨c, tail, hHead, hc⟩ := exists_startsNumber hProper negative
    rw [if_pos hFinite, hText]
    exact value?_number hHead hc (number?_append hProper hRest negative) bound
  · rw [if_neg (by simp [hFinite]), hText]
    exact value?_null bound rest

end

theorem isProper_natural (n : Nat) : Numeral.IsProper ⟨Nat.toDigits 10 n, [], none⟩ := by
  refine ⟨fun _ => isDigit_of_mem_toDigits, fun c hc => (nomatch hc), Nat.toDigits_ne_nil,
    fun h => ?_, fun p hp => (nomatch hp)⟩
  rcases Nat.eq_zero_or_pos n with rfl | hn
  · rfl
  · exact absurd h (head?_toDigits_ne hn)

theorem text_natural (n : Nat) :
    NumberStyle.signText false ++ Numeral.text ⟨Nat.toDigits 10 n, [], none⟩ =
      Nat.toDigits 10 n := by
  simp [NumberStyle.signText, Numeral.text, Numeral.fractionText, Numeral.powerText]

/-! ### One step of the readers -/

section

variable {bound : Nat} {text rest after more : List Char} {item : Datum}

theorem items?_last (hItem : value? bound (skipSpace text) = some (item, rest))
    (hEnd : skipSpace rest = ']' :: after) : items? (bound + 1) text = some ([item], after) := by
  simp [items?, hItem, hEnd]

theorem items?_more (hItem : value? bound (skipSpace text) = some (item, rest))
    (hComma : skipSpace rest = ',' :: more) {items : List Datum}
    (hMore : items? bound more = some (items, after)) :
    items? (bound + 1) text = some (item :: items, after) := by
  simp [items?, hItem, hComma, word?_singleton, hMore]

variable {name : String} {named valued : List Char}

theorem members?_last (hName : string? bound (skipSpace text) = some (name, named))
    (hColon : skipSpace named = ':' :: valued)
    (hValue : value? bound (skipSpace valued) = some (item, rest))
    (hEnd : skipSpace rest = '\x7d' :: after) :
    members? (bound + 1) text = some ([(name, item)], after) := by
  simp [members?, hName, hColon, word?_singleton, hValue, hEnd]

theorem members?_more (hName : string? bound (skipSpace text) = some (name, named))
    (hColon : skipSpace named = ':' :: valued)
    (hValue : value? bound (skipSpace valued) = some (item, rest))
    (hComma : skipSpace rest = ',' :: more) {members : List (String × Datum)}
    (hMore : members? bound more = some (members, after)) :
    members? (bound + 1) text = some ((name, item) :: members, after) := by
  simp [members?, hName, hColon, word?_singleton, hValue, hComma, hMore]

end

namespace Value

theorem startsValue_textAt (level : Nat) (v : Value) : StartsValue (textAt level v) := by
  cases v with
  | null => exact ⟨'n', "ull".toList, rfl, rfl, by decide⟩
  | natural n =>
    obtain ⟨c, tail, hHead, hc⟩ := exists_startsNumber (isProper_natural n) false
    rw [text_natural] at hHead
    obtain ⟨-, -, -, hSpace, hBracket⟩ := ne_of_startsNumber hc
    exact ⟨c, tail, hHead, hSpace, hBracket⟩
  | double x => exact startsValue_text Format.hasRoom_double isJsonStyle_double x
  | single x => exact startsValue_text Format.hasRoom_single isJsonStyle_single x
  | string s => exact ⟨'"', _, rfl, rfl, by decide⟩
  | array items => cases items <;> exact ⟨'[', _, rfl, rfl, by decide⟩
  | object members => cases members <;> exact ⟨'\x7b', _, rfl, rfl, by decide⟩

/-- What stands between the brackets of an array before its last line. -/
def itemsText (level : Nat) : List Value → List Char
  | [] => []
  | item :: items => newLine (level + 1) ++ (textAt (level + 1) item ++ moreItems level items)

/-- What stands between the braces of an object before its last line. -/
def membersText (level : Nat) : List (String × Value) → List Char
  | [] => []
  | (name, value) :: members =>
    newLine (level + 1) ++ (stringText name ++ ':' :: ' ' ::
      (textAt (level + 1) value ++ moreFields level members))

theorem textAt_array (level : Nat) (items : List Value) (hNe : items ≠ []) :
    textAt level (.array items) = '[' :: (itemsText level items ++ (newLine level ++ [']'])) := by
  cases items with
  | nil => exact absurd rfl hNe
  | cons item items => simp [textAt, itemsText]

theorem textAt_object (level : Nat) (members : List (String × Value)) (hNe : members ≠ []) :
    textAt level (.object members) =
      '\x7b' :: (membersText level members ++ (newLine level ++ ['\x7d'])) := by
  cases members with
  | nil => exact absurd rfl hNe
  | cons member members => simp [textAt, membersText]

theorem moreItems_eq (level : Nat) (items : List Value) :
    moreItems level items = if items = [] then [] else ',' :: itemsText level items := by
  cases items with
  | nil => rfl
  | cons item items => simp [moreItems, itemsText]

theorem moreFields_eq (level : Nat) (members : List (String × Value)) :
    moreFields level members = if members = [] then [] else ',' :: membersText level members := by
  cases members with
  | nil => rfl
  | cons member members => simp [moreFields, membersText]

theorem length_newLine (level : Nat) : (newLine level).length = 2 * level + 1 := by
  rw [newLine, List.length_cons, List.length_replicate]

theorem endsValue_moreItems (level : Nat) (items : List Value) (rest : List Char) :
    EndsValue (moreItems level items ++ (newLine level ++ rest)) := by
  cases items with
  | nil => exact endsValue_newLine level rest
  | cons item items => exact fun c hc => .inl (Option.some.inj hc).symm

theorem endsValue_moreFields (level : Nat) (members : List (String × Value)) (rest : List Char) :
    EndsValue (moreFields level members ++ (newLine level ++ rest)) := by
  cases members with
  | nil => exact endsValue_newLine level rest
  | cons member members => exact fun c hc => .inl (Option.some.inj hc).symm

theorem head?_skipSpace_itemsText (level : Nat) {items : List Value} (hNe : items ≠ [])
    (rest : List Char) : (skipSpace (itemsText level items ++ rest)).head? ≠ some ']' := by
  cases items with
  | nil => exact absurd rfl hNe
  | cons item items =>
    have hStart := startsValue_textAt (level + 1) item
    rw [itemsText, List.append_assoc, skipSpace_newLine, List.append_assoc,
      skipSpace_of_startsValue hStart]
    exact head?_ne_of_startsValue hStart _

theorem head?_skipSpace_membersText (level : Nat) {members : List (String × Value)}
    (hNe : members ≠ []) (rest : List Char) :
    (skipSpace (membersText level members ++ rest)).head? ≠ some '\x7d' := by
  cases members with
  | nil => exact absurd rfl hNe
  | cons member members =>
    rw [membersText, List.append_assoc, skipSpace_newLine]
    exact fun h => nomatch h

/-! The reader of a value, of items and of members call each other as the writer does; a bound on the
length of the text is a bound on the depth of their calls. -/

mutual

/-- **A written value is read as what it says**, whatever follows it. -/
theorem value?_textAt (level : Nat) (v : Value) (bound : Nat)
    (hBound : (textAt level v).length ≤ bound) {rest : List Char} (hRest : EndsValue rest) :
    value? bound (textAt level v ++ rest) = some (v.datum, rest) := by
  have hPos : 0 < bound := by
    obtain ⟨c, tail, hHead, -⟩ := startsValue_textAt level v
    rw [hHead, List.length_cons] at hBound
    omega
  obtain ⟨bound, rfl⟩ := Nat.exists_eq_succ_of_ne_zero hPos.ne'
  match v with
  | .null => exact value?_null bound rest
  | .natural n =>
    have hProper := isProper_natural n
    have hNumber := number?_append hProper hRest false
    obtain ⟨c, tail, hHead, hc⟩ := exists_startsNumber hProper false
    rw [text_natural] at hNumber hHead
    exact value?_number hHead hc hNumber bound
  | .double x => exact value?_text Format.hasRoom_double isJsonStyle_double x hPos hRest
  | .single x => exact value?_text Format.hasRoom_single isJsonStyle_single x hPos hRest
  | .string s =>
    have hString : string? bound (stringText s ++ rest) = some (s, rest) :=
      string?_stringText hBound rest
    show (string? bound (stringText s ++ rest)).map _ = _
    rw [hString]
    rfl
  | .array items =>
    by_cases hNil : items = []
    · subst hNil
      rfl
    · have hItems := items?_itemsText level items hNil bound
      rw [textAt_array level items hNil] at hBound ⊢
      rw [List.length_cons, List.length_append, List.length_append, length_newLine] at hBound
      rw [List.cons_append, List.append_assoc, List.append_assoc, List.singleton_append]
      show (if (skipSpace _).head? = some ']' then _ else (items? bound _).map _) = _
      rw [if_neg (head?_skipSpace_itemsText level hNil _), hItems (by omega) rest]
      rfl
  | .object members =>
    by_cases hNil : members = []
    · subst hNil
      rfl
    · have hMembers := members?_membersText level members hNil bound
      rw [textAt_object level members hNil] at hBound ⊢
      rw [List.length_cons, List.length_append, List.length_append, length_newLine] at hBound
      rw [List.cons_append, List.append_assoc, List.append_assoc, List.singleton_append]
      show (if (skipSpace _).head? = some '\x7d' then _ else (members? bound _).map _) = _
      rw [if_neg (head?_skipSpace_membersText level hNil _), hMembers (by omega) rest]
      rfl

theorem items?_itemsText (level : Nat) (items : List Value) (hNe : items ≠ []) (bound : Nat)
    (hBound : (itemsText level items).length < bound) (rest : List Char) :
    Json.items? bound (itemsText level items ++ (newLine level ++ ']' :: rest)) =
      some (itemData items, rest) := by
  obtain ⟨bound, rfl⟩ := Nat.exists_eq_succ_of_ne_zero (Nat.ne_zero_of_lt hBound)
  match items with
  | [] => exact absurd rfl hNe
  | item :: items =>
    have hMore (hNe : items ≠ []) := items?_itemsText level items hNe bound
    have hStart := startsValue_textAt (level + 1) item
    rw [itemsText, List.length_append, List.length_append, length_newLine] at hBound
    have hItem := value?_textAt (level + 1) item bound (by omega)
      (endsValue_moreItems level items (']' :: rest))
    rw [← skipSpace_of_startsValue hStart, ← skipSpace_newLine (level + 1)] at hItem
    rw [itemsText, List.append_assoc, List.append_assoc]
    by_cases hNil : items = []
    · subst hNil
      refine items?_last hItem ?_
      rw [moreItems, List.nil_append, skipSpace_newLine]
      exact skipSpace_cons rfl _
    · rw [moreItems_eq, if_neg hNil, List.length_cons] at hBound
      refine items?_more hItem ?_ (hMore hNil (by omega) rest)
      rw [moreItems_eq, if_neg hNil]
      exact skipSpace_cons rfl _

theorem members?_membersText (level : Nat) (members : List (String × Value)) (hNe : members ≠ [])
    (bound : Nat) (hBound : (membersText level members).length < bound) (rest : List Char) :
    members? bound (membersText level members ++ (newLine level ++ '\x7d' :: rest)) =
      some (memberData members, rest) := by
  obtain ⟨bound, rfl⟩ := Nat.exists_eq_succ_of_ne_zero (Nat.ne_zero_of_lt hBound)
  match members with
  | [] => exact absurd rfl hNe
  | (name, value) :: members =>
    have hMore (hNe : members ≠ []) := members?_membersText level members hNe bound
    have hStart := startsValue_textAt (level + 1) value
    rw [membersText, List.length_append, List.length_append, List.length_cons, List.length_cons,
      List.length_append, length_newLine] at hBound
    have hName (rest : List Char) : string? bound (skipSpace (newLine (level + 1) ++
        (stringText name ++ rest))) = some (name, rest) := by
      rw [skipSpace_newLine]
      exact string?_stringText (by omega) rest
    have hValue := value?_textAt (level + 1) value bound (by omega)
      (endsValue_moreFields level members ('\x7d' :: rest))
    rw [← skipSpace_of_startsValue hStart, ← skipSpace_blank] at hValue
    rw [membersText, List.append_assoc, List.append_assoc, List.cons_append, List.cons_append,
      List.append_assoc]
    by_cases hNil : members = []
    · subst hNil
      refine members?_last (hName _) (skipSpace_cons rfl _) hValue ?_
      rw [moreFields, List.nil_append, skipSpace_newLine]
      exact skipSpace_cons rfl _
    · rw [moreFields_eq, if_neg hNil, List.length_cons] at hBound
      refine members?_more (hName _) (skipSpace_cons rfl _) hValue ?_ (hMore hNil (by omega) rest)
      rw [moreFields_eq, if_neg hNil]
      exact skipSpace_cons rfl _

end

/-- **The text of a document is read as what the document says.** -/
theorem read?_text (v : Value) : read? v.text = some v.datum := by
  have hStart := startsValue_textAt 0 v
  have hValue := value?_textAt 0 v _ le_rfl endsValue_nil
  have hSkip := skipSpace_of_startsValue hStart []
  rw [List.append_nil] at hValue hSkip
  rw [read?, text, String.toList_ofList, String.length_ofList, hSkip, hValue]
  rfl

/-! ### Parts of a document -/

theorem itemData_eq_map (items : List Value) : itemData items = items.map datum := by
  induction items with
  | nil => rfl
  | cons item items ih => rw [itemData, ih, List.map_cons]

theorem item?_datum (items : List Value) (index : Nat) :
    (array items).datum.item? index = items[index]?.map datum := by
  rw [datum, Datum.item?, itemData_eq_map, List.getElem?_map]

theorem items?_datum (items : List Value) : (array items).datum.items? = some (items.map datum) := by
  rw [datum, Datum.items?, itemData_eq_map]

theorem member?_datum (members : List (String × Value)) (name : String) :
    (object members).datum.member? name = (members.lookup name).map datum := by
  rw [datum, Datum.member?]
  induction members with
  | nil => rfl
  | cons member members ih =>
    rw [memberData, List.lookup_cons, List.lookup_cons, ih]
    split <;> rfl

theorem memberData_eq_map (members : List (String × Value)) :
    memberData members = members.map (Prod.map id datum) := by
  induction members with
  | nil => rfl
  | cons member members ih => rw [memberData, ih, List.map_cons, Prod.map, id]

theorem values?_datum (members : List (String × Value)) (names : List String) :
    (object members).datum.values? names =
      if members.map Prod.fst = names then some (members.map (datum ∘ Prod.snd)) else none := by
  rw [datum, Datum.values?, memberData_eq_map, List.map_map, List.map_map]
  rfl

section

variable {α β : Type} {write : β → Value} {read : Datum → Option α} {f : β → α}

theorem list?_datum {l : List β} (h : ∀ b ∈ l, read (write b).datum = some (f b)) :
    (array (l.map write)).datum.list? read = some (l.map f) := by
  rw [Datum.list?, items?_datum, Option.bind_some, List.map_map, List.mapM_map]
  exact mapM_eq_some h

theorem list?_datum_self {write : α → Value} {l : List α}
    (h : ∀ a ∈ l, read (write a).datum = some a) :
    (array (l.map write)).datum.list? read = some l := by
  rw [list?_datum h, List.map_id']

theorem optional?_datum (hNull : read .null = none) (h : ∀ b, read (write b).datum = some (f b))
    (b : Option β) : (ofOption write b).datum.optional? read = some (b.map f) := by
  cases b with
  | none => rfl
  | some b =>
    have hRead := h b
    rw [ofOption]
    cases hDatum : (write b).datum with
    | null =>
      rw [hDatum, hNull] at hRead
      cases hRead
    | _ =>
      rw [hDatum] at hRead
      rw [Datum.optional?, hRead]
      · rfl
      · exact nofun

end

theorem string?_datum (s : String) : (string s).datum.string? = some s := rfl

theorem optional?_text_datum {β : Type} (text : β → String) (b : Option β) :
    (ofOption (fun b => string (text b)) b).datum.optional? Datum.string? = some (b.map text) :=
  optional?_datum rfl (fun b => string?_datum (text b)) b

/-- A text that may be absent is read as absent or as this text, be it empty. -/
theorem optional?_string_datum (s : Option String) :
    (ofOption string s).datum.optional? Datum.string? = some s := by
  rw [optional?_datum rfl string?_datum, Option.map_id']

theorem natural?_datum (n : Nat) : (natural n).datum.natural? = some n := by
  have hAll : (Nat.toDigits 10 n).all Char.isDigit = true :=
    List.all_eq_true.mpr fun _ => isDigit_of_mem_toDigits
  rw [datum, Datum.natural?, if_pos hAll, natOfDigits_toDigits]

theorem binary?_numberDatum {F : Format} (hRoom : F.HasRoom) {style : NumberStyle}
    (hStyle : IsJsonStyle style) {x : Binary F} (hFinite : x.isFinite = true) :
    (numberDatum style x).binary? = some x := by
  rw [numberDatum, if_pos hFinite]
  exact Binary.ofText?_text_of_hasZerosEnd hRoom hStyle.hasZerosEnd hFinite

theorem binary?_datum_single {x : Single} (hFinite : x.isFinite = true) :
    (single x).datum.binary? = some x :=
  binary?_numberDatum Format.hasRoom_single isJsonStyle_single hFinite

theorem binary?_datum_double {x : Double} (hFinite : x.isFinite = true) :
    (double x).datum.binary? = some x :=
  binary?_numberDatum Format.hasRoom_double isJsonStyle_double hFinite

end Value

end Diorama.Json
