import Mathlib.Data.List.Nodup
import Mathlib.Data.List.Perm.Subperm
import Diorama.Proofs.Files.Ways

/-!
# Replacing files

`Store.write` makes a new file beside the old one, fills it, and lets it take the place; if it cannot,
the new file is taken away again, be it half full. `write_eq` says that all this amounts to one step:
the store is as it was before, or the place of the path holds the contents and nothing else has
changed.

Two facts carry it. A path never looks at an entry of a name that is not spoken of, so the prepared
file is not in its own way (`placeOf_congr`); and there is always a name that is free
(`exists_preparedName`).

`Replaces` lists what a successful write means for those who read: the path leads to the contents, and
whatever does not look at the place of the path still reads the same (`replaces_put`).
-/

namespace Diorama.Store

/-! ### What stands at a place -/

theorem lookup_replace (entries : List (Place × StoreEntry)) (place other : Place)
    (entry : StoreEntry) :
    (entries.map fun (p, e) => if p = place then (p, entry) else (p, e)).lookup other =
      if other = place then (entries.lookup place).map fun _ => entry
      else entries.lookup other := by
  induction entries with
  | nil => simp
  | cons head rest ih =>
    obtain ⟨p, e⟩ := head
    by_cases hp : p = place
    · subst hp
      by_cases ho : other = p
      · subst ho; simp
      · simp [List.lookup_cons, beq_false_of_ne ho, ho, ih]
    · by_cases ho : other = p
      · subst ho; simp [hp]
      · have hPlace : place ≠ p := fun he => hp he.symm
        simp [List.lookup_cons, beq_false_of_ne ho, beq_false_of_ne hPlace, hp, ih]

theorem lookup_entries_put (s : Store) (place other : Place) (entry : StoreEntry) :
    (s.put place entry).entries.lookup other =
      if other = place then some entry else s.entries.lookup other := by
  rw [put]
  dsimp only
  split
  · next hSome =>
    rw [lookup_replace]
    obtain ⟨e, he⟩ := Option.isSome_iff_exists.mp hSome
    rw [he, Option.map_some]
  · next hNone =>
    rw [List.lookup_append]
    by_cases ho : other = place
    · subst ho
      rw [Option.not_isSome_iff_eq_none.mp hNone]
      simp
    · simp [List.lookup_cons, beq_false_of_ne ho, ho]

theorem lookup_filter_ne {α : Type} (l : List (Place × α)) (place other : Place) :
    (l.filter fun (p, _) => p ≠ place).lookup other =
      if other = place then none else l.lookup other := by
  induction l with
  | nil => simp
  | cons head rest ih =>
    obtain ⟨p, a⟩ := head
    by_cases hp : p = place
    · subst hp
      rw [List.filter_cons_of_neg (by simp), ih]
      split_ifs with ho
      · rfl
      · rw [List.lookup_cons, beq_false_of_ne ho]
    · rw [List.filter_cons_of_pos (by simpa using hp), List.lookup_cons, List.lookup_cons, ih]
      by_cases ho : other = p
      · subst ho; simp [hp]
      · simp [beq_false_of_ne ho]

theorem lookup_eq_none_iff_forall_ne {α : Type} {l : List (Place × α)} {place : Place} :
    l.lookup place = none ↔ ∀ x ∈ l, x.1 ≠ place := by
  rw [List.lookup_eq_none_iff]
  refine forall₂_congr fun x _ => ?_
  rw [bne_iff_ne, ne_comm]

/-- Nothing is taken away from where nothing is. -/
theorem filter_ne_eq_self {α : Type} {l : List (Place × α)} {place : Place}
    (h : l.lookup place = none) : l.filter (fun (p, _) => p ≠ place) = l :=
  List.filter_eq_self.mpr fun x hx => decide_eq_true (lookup_eq_none_iff_forall_ne.mp h x hx)

/-- Nothing is replaced where nothing is. -/
theorem map_replace_eq_self {entries : List (Place × StoreEntry)} {place : Place}
    (h : entries.lookup place = none) (entry : StoreEntry) :
    (entries.map fun (p, e) => if p = place then (p, entry) else (p, e)) = entries := by
  conv_rhs => rw [← List.map_id entries]
  exact List.map_congr_left fun x hx => if_neg (lookup_eq_none_iff_forall_ne.mp h x hx)

theorem lookup_links_put (s : Store) (place other : Place) (entry : StoreEntry) :
    (s.put place entry).links.lookup other =
      if other = place then none else s.links.lookup other :=
  lookup_filter_ne s.links place other

@[simp] theorem refusals_put (s : Store) (place : Place) (entry : StoreEntry) :
    (s.put place entry).refusals = s.refusals := rfl

@[simp] theorem workingDirectory_put (s : Store) (place : Place) (entry : StoreEntry) :
    (s.put place entry).workingDirectory = s.workingDirectory := rfl

theorem standing?_put {place : Place} (hPlace : place ≠ []) (s : Store) (entry : StoreEntry) :
    (s.put place entry).standing? place = some (.entry entry) := by
  rw [standing?, if_neg hPlace, lookup_links_put, if_pos rfl, lookup_entries_put, if_pos rfl]
  rfl

theorem standing?_put_of_ne (s : Store) (entry : StoreEntry) {place other : Place}
    (h : other ≠ place) : (s.put place entry).standing? other = s.standing? other := by
  rw [standing?, standing?, lookup_links_put, if_neg h, lookup_entries_put, if_neg h]

/-- The root is no file. -/
theorem ne_nil_of_not_isDirectory {s : Store} {place : Place} (h : ¬ s.isDirectory place = true) :
    place ≠ [] := by
  rintro rfl
  exact h (isDirectory_iff.mpr rfl)

theorem standing?_eq_none_iff {s : Store} {place : Place} (hPlace : place ≠ []) :
    s.standing? place = none ↔ s.links.lookup place = none ∧ s.entries.lookup place = none := by
  rw [standing?, if_neg hPlace]
  cases s.links.lookup place with
  | none => simp
  | some path => simp

/-- A file that was made and filled can be taken away without a trace. -/
theorem remove_put_put {s : Store} {place : Place} (hPlace : place ≠ [])
    (h : s.standing? place = none) (first second : StoreEntry) :
    ((s.put place first).put place second).remove place = s := by
  obtain ⟨hLinks, hEntries⟩ := (standing?_eq_none_iff hPlace).mp h
  have hMade : s.put place first = { s with entries := s.entries ++ [(place, first)] } := by
    rw [put, hEntries, if_neg (by simp), filter_ne_eq_self hLinks]
  have hFilled : (s.put place first).put place second =
      { s with entries := s.entries ++ [(place, second)] } := by
    rw [hMade, put, if_pos (by rw [List.lookup_append, hEntries]; simp), filter_ne_eq_self hLinks,
      List.map_append, map_replace_eq_self hEntries]
    simp
  rw [hFilled, remove, List.filter_append, filter_ne_eq_self hLinks, filter_ne_eq_self hEntries]
  simp

/-! ### Names for prepared files -/

theorem preparedName_injective : Function.Injective preparedName := by
  intro m n h
  have hText : (toString (100000 + m)).toList = (toString (100000 + n)).toList := by
    have := congrArg String.toList h
    simpa [preparedName] using this
  have hDigits : Nat.toDigits 10 (100000 + m) = Nat.toDigits 10 (100000 + n) := by
    simpa [Nat.toString_eq_ofList_toDigits] using hText
  have := congrArg (Nat.ofDigitChars 10 · 0) hDigits
  simp only [Nat.ofDigitChars_ten_toDigits] at this
  omega

/-- The names of all entries and links. -/
def takenNames (s : Store) : List String :=
  (s.entries.map Prod.fst ++ s.links.map Prod.fst).filterMap List.getLast?

theorem length_takenNames_le (s : Store) : s.takenNames.length ≤ s.entries.length + s.links.length := by
  have hAll := List.length_filterMap_le List.getLast?
    (s.entries.map Prod.fst ++ s.links.map Prod.fst)
  rwa [List.length_append, List.length_map, List.length_map] at hAll

theorem standing?_concat_eq_none {s : Store} {name : String} (h : name ∉ s.takenNames)
    (directory : Place) : s.standing? (directory ++ [name]) = none := by
  have hFree : ∀ place ∈ s.entries.map Prod.fst ++ s.links.map Prod.fst,
      place ≠ directory ++ [name] := by
    rintro _ hMem rfl
    exact h (List.mem_filterMap.mpr ⟨_, hMem, by simp⟩)
  rw [standing?_eq_none_iff (by simp), lookup_eq_none_iff_forall_ne, lookup_eq_none_iff_forall_ne]
  exact ⟨fun x hx => hFree x.1 (List.mem_append_right _ (List.mem_map_of_mem hx)),
    fun x hx => hFree x.1 (List.mem_append_left _ (List.mem_map_of_mem hx))⟩

/-- There are more names to try than names that are taken or spoken of, so one of them is free. -/
theorem exists_preparedName (s : Store) (directory : Place) (path : String) :
    ∃ name, s.preparedName? directory path = some name := by
  rw [← Option.isSome_iff_exists]
  by_contra hNone
  rw [Option.not_isSome_iff_eq_none, preparedName?, List.find?_eq_none] at hNone
  have hTaken : (List.range (s.tries path)).map preparedName ⊆
      s.takenNames ++ s.spokenNames path := by
    intro name hName
    by_contra hFree
    rw [List.mem_append, not_or] at hFree
    refine hNone name hName ?_
    simp [standing?_concat_eq_none hFree.1 directory, hFree.2]
  have hDistinct : ((List.range (s.tries path)).map preparedName).Nodup :=
    List.Nodup.map preparedName_injective List.nodup_range
  have hCount := (List.Nodup.subperm hDistinct hTaken).length_le
  have hLess := s.length_takenNames_le
  simp only [tries, List.length_map, List.length_range, List.length_append] at hCount
  omega

theorem preparedName?_spec {s : Store} {directory : Place} {path name : String}
    (h : s.preparedName? directory path = some name) :
    s.standing? (directory ++ [name]) = none ∧ name ∉ s.spokenNames path := by
  have := List.find?_some h
  simpa using this

/-! ### Names that are spoken of -/

theorem start_subset_spokenNames (s : Store) (path : String) : s.start path ⊆ s.spokenNames path := by
  rw [start, startOf]
  split
  · exact List.nil_subset _
  · rw [spokenNames, List.append_assoc]
    exact List.subset_append_left _ _

theorem pieces_subset_spokenNames (s : Store) (path : String) :
    Path.pieces path ⊆ s.spokenNames path := by
  rw [spokenNames]
  exact List.subset_append_of_subset_left _ (List.subset_append_right _ _)

theorem trail_subset_spokenNames {s : Store} {place : Place} {link : String}
    (h : s.linkAt? place = some link) (path : String) : Path.trail link ⊆ s.spokenNames path := by
  rw [linkAt?_eq_some_iff, standing?] at h
  split at h
  · cases h
  split at h
  · next hLink =>
    cases h
    obtain ⟨before, behind, hLinks, -⟩ := List.lookup_eq_some_iff.mp hLink
    have hMem : (place, link) ∈ s.links := by
      rw [hLinks]
      exact List.mem_append_right _ List.mem_cons_self
    rw [spokenNames]
    exact List.subset_append_of_subset_right _
      fun name hName => List.mem_flatMap.mpr ⟨_, hMem, hName⟩
  · obtain ⟨_, _, hOther⟩ := Option.map_eq_some_iff.mp h
    cases hOther

theorem OnWayAbove.subset_spokenNames {s : Store} {path : String} {seen : Place}
    (h : s.OnWayAbove path seen) : seen ⊆ s.spokenNames path :=
  Sees.subset h (start_subset_spokenNames s path)
    (List.Subset.trans (List.dropLast_sublist _).subset (pieces_subset_spokenNames s path))
    fun _ _ hLink => trail_subset_spokenNames hLink path

theorem placeIn_congr {s t : Store} {path name : String} {directory : Place}
    (hRefusals : t.refusals = s.refusals)
    (h : ∀ place, place ⊆ name :: directory → t.standing? place = s.standing? place) :
    t.placeIn path directory name = s.placeIn path directory name := by
  unfold placeIn
  cases hChild : child directory name with
  | error fault => rfl
  | ok place => simp only [isDirectory_congr (h place (subset_of_child hChild)), hRefusals]

/-- The place of a path depends on places of spoken names only. -/
theorem placeOf_congr {s t : Store} {path : String} (hRefusals : t.refusals = s.refusals)
    (hWorking : t.workingDirectory = s.workingDirectory)
    (h : ∀ place, place ⊆ s.spokenNames path → t.standing? place = s.standing? place) :
    t.placeOf path = s.placeOf path := by
  have hAbove : ∀ seen, s.OnWayAbove path seen → t.standing? seen = s.standing? seen :=
    fun seen hSeen => h seen hSeen.subset_spokenNames
  have hFollow : t.follow maxLinks (s.start path) (Path.pieces path).dropLast =
      s.follow maxLinks (s.start path) (Path.pieces path).dropLast := follow_congr hRefusals hAbove
  rw [placeOf, placeOf, start, hWorking, ← start, hFollow]
  cases hDirectory : s.follow maxLinks (s.start path) (Path.pieces path).dropLast with
  | error fault => rfl
  | ok directory =>
    have hEnd : s.OnWayAbove path directory := sees_of_follow hDirectory
    rw [ok_bind, ok_bind, enter_congr (hAbove directory hEnd) hRefusals]
    cases hLast : (Path.pieces path).getLast? with
    | none => rfl
    | some name =>
      have hName := pieces_subset_spokenNames s path (List.mem_of_getLast? hLast)
      have hSpoken := List.cons_subset.mpr ⟨hName, hEnd.subset_spokenNames⟩
      simp only [placeIn_congr hRefusals fun place hPlace => h place (List.Subset.trans hPlace hSpoken)]

/-! ### Writing -/

/-- The place that the contents take, if nothing stands in their way. -/
def placeFor (s : Store) (path : String) (contents : ByteArray) : Except FileFault Place := do
  let _ ← s.enterParent path
  match s.refusals.filling contents with
  | some (_, fault) => throw fault
  | none => s.placeOf path

theorem placeFor_ok_iff {s : Store} {path : String} {contents : ByteArray} {place : Place} :
    s.placeFor path contents = .ok place ↔ ∃ directory, s.enterParent path = .ok directory ∧
      s.refusals.filling contents = none ∧ s.placeOf path = .ok place := by
  rw [placeFor, bind_eq_ok_iff]
  refine exists_congr fun directory => and_congr_right fun _ => ?_
  cases s.refusals.filling contents with
  | none => simp
  | some refused => simp [throw_ne_ok]

/-- **Writing is one step.** What happens by way of the prepared file leaves the store as it was, or
with the contents at the place of the path. -/
theorem write_eq (s : Store) (path : String) (contents : ByteArray) :
    s.write path contents =
      match s.placeFor path contents with
      | .error fault => (.error fault, s)
      | .ok place => (.ok (), s.put place (.file contents)) := by
  rw [write, placeFor]
  cases hParent : s.enterParent path with
  | error fault => rfl
  | ok directory =>
    obtain ⟨name, hName⟩ := exists_preparedName s directory path
    obtain ⟨hFree, hUnspoken⟩ := preparedName?_spec hName
    -- the prepared file stands where the path never looks
    have hElsewhere : ∀ place, place ⊆ s.spokenNames path → place ≠ directory ++ [name] := by
      rintro _ hSpoken rfl
      exact hUnspoken (hSpoken (by simp))
    have hPlaceOf : placeOf ((s.put (directory ++ [name]) (.file .empty)).put (directory ++ [name])
        (.file contents)) path = s.placeOf path := by
      refine placeOf_congr ?_ ?_ fun place hSpoken => ?_
      · rw [refusals_put, refusals_put]
      · rw [workingDirectory_put, workingDirectory_put]
      · rw [standing?_put_of_ne _ _ (hElsewhere place hSpoken),
          standing?_put_of_ne _ _ (hElsewhere place hSpoken)]
    simp only [hName, hPlaceOf, remove_put_put (List.concat_ne_nil name directory) hFree]
    cases s.refusals.filling contents with
    | some refused => rfl
    | none => cases s.placeOf path <;> rfl

/-- A write that fails leaves the store as it was. -/
theorem eq_of_write_error {s after : Store} {path : String} {contents : ByteArray}
    {fault : FileFault} (h : s.write path contents = (.error fault, after)) : after = s := by
  rw [write_eq] at h
  split at h
  · exact (congrArg Prod.snd h).symm
  · cases h

theorem write_ok_iff {s after : Store} {path : String} {contents : ByteArray} :
    s.write path contents = (.ok (), after) ↔ ∃ place,
      s.placeFor path contents = .ok place ∧ after = s.put place (.file contents) := by
  rw [write_eq]
  cases s.placeFor path contents with
  | error fault => simp
  | ok place => simp [eq_comm]

/-! ### The last step of a path -/

/-- The way to the place of a path: its directory, from which the last step is one name. -/
structure LastStep (s : Store) (path : String) (directory : Place) (name : String) (place : Place) :
    Prop where
  check : checkPath path = .ok ()
  above : s.follow maxLinks (s.start path) (Path.pieces path).dropLast = .ok directory
  enter : s.enter directory = .ok ()
  last : (Path.pieces path).getLast? = some name
  child : Store.child directory name = .ok place
  bare : Path.endsInSlash path = false

theorem placeIn_ok {s : Store} {path name : String} {directory : Place} {place : Place}
    (h : s.placeIn path directory name = .ok place) :
    child directory name = .ok place ∧ Path.endsInSlash path = false ∧
      ¬ s.isDirectory place = true := by
  unfold placeIn at h
  split at h
  · cases h
  split at h
  · cases h
  · next hChild =>
    split_ifs at h with hSlash hDirectory
    split at h
    · cases h
      exact ⟨hChild, by simpa using hSlash, hDirectory⟩
    · cases h

theorem lastStep_of_placeOf {s : Store} {path : String} {place : Place}
    (h : s.placeOf path = .ok place) :
    (∃ directory name, s.LastStep path directory name place) ∧ ¬ s.isDirectory place = true := by
  obtain ⟨_, hCheck, h⟩ := bind_eq_ok_iff.mp h
  obtain ⟨directory, hAbove, h⟩ := bind_eq_ok_iff.mp h
  obtain ⟨_, hEnter, h⟩ := bind_eq_ok_iff.mp h
  split at h
  · cases h
  · next name hLast =>
    obtain ⟨hChild, hBare, hPlace⟩ := placeIn_ok h
    exact ⟨⟨directory, name, hCheck, hAbove, hEnter, hLast, hChild, hBare⟩, hPlace⟩

theorem ne_empty_of_mem_pieces {path name : String} (h : name ∈ Path.pieces path) : name ≠ "" := by
  obtain ⟨piece, hPiece, rfl⟩ := List.mem_map.mp h
  have hNil : piece ≠ [] := by simpa using (List.mem_filter.mp hPiece).2
  intro hEmpty
  exact hNil (by simpa using congrArg String.toList hEmpty)

namespace LastStep

variable {s t : Store} {path name : String} {directory place : Place}

/-- A path leads to its place, unless a link stands there. -/
theorem resolve (h : s.LastStep path directory name place) (hLink : s.linkAt? place = none) :
    s.resolve path = .ok place := by
  have hPieces : Path.trail path = (Path.pieces path).dropLast ++ [name] := by
    obtain ⟨front, hFront⟩ := List.getLast?_eq_some_iff.mp h.last
    rw [Path.trail, h.bare, hFront, List.dropLast_concat]
    exact List.append_nil _
  have hStep : s.step directory name = .ok place := by
    rw [step_of_ne_empty (ne_empty_of_mem_pieces (List.mem_of_getLast? h.last)), h.enter, ok_bind,
      h.child]
  rw [Store.resolve, h.check, ok_bind, hPieces]
  exact follow_concat h.above hStep hLink

/-- What stands above its place decides on the last step of a path. -/
theorem congr (h : s.LastStep path directory name place) (hRefusals : t.refusals = s.refusals)
    (hWorking : t.workingDirectory = s.workingDirectory)
    (hStanding : ∀ seen, s.OnWayAbove path seen → t.standing? seen = s.standing? seen) :
    t.LastStep path directory name place where
  check := h.check
  above := by
    rw [start, hWorking, ← start, follow_congr hRefusals hStanding]
    exact h.above
  enter := by
    rw [enter_congr (hStanding directory (sees_of_follow h.above)) hRefusals]
    exact h.enter
  last := h.last
  child := h.child
  bare := h.bare

/-- Above its place a path sees directories and links. -/
theorem not_onWayAbove (h : s.LastStep path directory name place)
    (hPlace : ¬ s.isDirectory place = true) (hLink : s.linkAt? place = none) :
    ¬ s.OnWayAbove path place := by
  intro hSees
  rcases hSees.eq_or_isDirectory_or_link h.above with rfl | hDirectory | hSome
  · exact hPlace (isDirectory_of_enter h.enter)
  · exact hPlace hDirectory
  · exact hSome hLink

end LastStep

/-! ### Reading what was written -/

/-- The store `after` is `s` with these contents at the place of a path. A link that stood there is
replaced as a file is, and what it leads to stays. -/
structure Replaces (s : Store) (path : String) (place : Place) (contents : ByteArray)
    (after : Store) : Prop where
  placeOf : s.placeOf path = .ok place
  standing : after.standing? place = some (.entry (.file contents))
  others : ∀ other, other ≠ place → after.standing? other = s.standing? other
  workingDirectory : after.workingDirectory = s.workingDirectory
  refusals : after.refusals = s.refusals
  /-- The path leads to the contents, unless it went through a link that has been replaced. -/
  resolve : ¬ s.OnWayAbove path place → after.resolve path = .ok place
  /-- What does not look at the place is as it was. -/
  unseen : ∀ other, ¬ s.OnWay other place →
    after.resolve other = s.resolve other ∧ after.read other = s.read other
  /-- If there was no link, the path leads where it led, and all other files read the same. -/
  plain : s.linkAt? place = none → s.resolve path = .ok place ∧ after.resolve path = .ok place ∧
    ∀ other held, s.read other = .ok held → s.resolve other ≠ .ok place → after.read other = .ok held

/-- A place that is no directory and no link is seen only by what leads to it. -/
theorem not_onWay_of_read {s : Store} {place : Place} {path : String} {held : ByteArray}
    (hPlace : ¬ s.isDirectory place = true) (hLink : s.linkAt? place = none)
    (h : s.read path = .ok held) (hElsewhere : s.resolve path ≠ .ok place) :
    ¬ s.OnWay path place := by
  intro hSees
  obtain ⟨last, hResolve, _⟩ := bind_eq_ok_iff.mp h
  rcases hSees.eq_or_isDirectory_or_link hResolve with rfl | hDirectory | hSome
  · exact hElsewhere hResolve
  · exact hPlace hDirectory
  · exact hSome hLink

theorem replaces_put {s : Store} {path : String} {place : Place} (h : s.placeOf path = .ok place)
    (contents : ByteArray) : s.Replaces path place contents (s.put place (.file contents)) := by
  obtain ⟨⟨directory, name, hLast⟩, hPlace⟩ := lastStep_of_placeOf h
  have hRefusals := refusals_put s place (.file contents)
  have hWorking := workingDirectory_put s place (.file contents)
  have hStanding : (s.put place (.file contents)).standing? place = some (.entry (.file contents)) :=
    standing?_put (ne_nil_of_not_isDirectory hPlace) s _
  have hOthers : ∀ other, other ≠ place →
      (s.put place (.file contents)).standing? other = s.standing? other :=
    fun other hOther => standing?_put_of_ne s _ hOther
  have hResolve : ¬ s.OnWayAbove path place →
      (s.put place (.file contents)).resolve path = .ok place := by
    intro hAbove
    have hAfter := hLast.congr hRefusals hWorking fun seen hSees =>
      hOthers seen (by rintro rfl; exact hAbove hSees)
    exact hAfter.resolve (by rw [linkAt?, hStanding])
  have hUnseen : ∀ other, ¬ s.OnWay other place →
      (s.put place (.file contents)).resolve other = s.resolve other ∧
        (s.put place (.file contents)).read other = s.read other := by
    intro other hOther
    have hSeen : ∀ seen, s.OnWay other seen →
        (s.put place (.file contents)).standing? seen = s.standing? seen :=
      fun seen hSees => hOthers seen (by rintro rfl; exact hOther hSees)
    exact ⟨resolve_congr hRefusals hWorking hSeen, read_congr hRefusals hWorking hSeen⟩
  refine ⟨h, hStanding, hOthers, hWorking, hRefusals, hResolve, hUnseen, fun hLink => ?_⟩
  refine ⟨hLast.resolve hLink, hResolve (hLast.not_onWayAbove hPlace hLink), ?_⟩
  intro other held hRead hElsewhere
  rw [(hUnseen other (not_onWay_of_read hPlace hLink hRead hElsewhere)).2]
  exact hRead

end Diorama.Store
