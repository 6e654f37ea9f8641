import Diorama.Files.Store
import Diorama.Proofs.Outcome

/-!
# What a path looks at

Following steps looks at the places that they start from, at the links that stand for other paths, and
at the place it ends at. `Sees` says which places these are, with one constructor for each reason.

Nothing else counts: where two stores agree on what a path sees, the path leads to the same place and
reads the same (`resolve_congr`, `read_congr`). The places that are seen are made of names that the
path, the working directory and the links speak of (`Sees.subset`), and before its end a path sees only
directories and links (`Sees.eq_or_isDirectory_or_link`).
-/

namespace Diorama.Store

variable {s t : Store} {links : Nat} {place next seen : Place} {name path : String}
  {names : List String}

theorem isDirectory_iff : s.isDirectory place = true ↔ s.standing? place = some (.entry .directory) := by
  unfold isDirectory
  split <;> simp_all

theorem linkAt?_eq_some_iff : s.linkAt? place = some path ↔ s.standing? place = some (.link path) := by
  unfold linkAt?
  split <;> simp_all

/-! ### Steps -/

theorem expectDirectory_ok_iff : s.expectDirectory place = .ok () ↔ s.isDirectory place = true := by
  rw [isDirectory_iff, expectDirectory]
  split <;> simp_all

theorem isDirectory_of_enter (h : s.enter place = .ok ()) : s.isDirectory place = true := by
  obtain ⟨_, hExpect, _⟩ := bind_eq_ok_iff.mp h
  exact expectDirectory_ok_iff.mp hExpect

theorem step_of_ne_empty (hName : name ≠ "") (s : Store) (place : Place) :
    s.step place name = (do s.enter place; child place name) := by
  rw [step, if_neg hName]

/-- A step starts from a directory. -/
theorem isDirectory_of_step (h : s.step place name = .ok next) : s.isDirectory place = true := by
  unfold step at h
  split at h
  · obtain ⟨_, hExpect, _⟩ := bind_eq_ok_iff.mp h
    exact expectDirectory_ok_iff.mp hExpect
  · obtain ⟨_, hEnter, _⟩ := bind_eq_ok_iff.mp h
    exact isDirectory_of_enter hEnter

/-- A step leads along the names of the place it starts from and its own. -/
theorem subset_of_child (h : child place name = .ok next) : next ⊆ name :: place := by
  unfold child at h
  split_ifs at h with hLong hHere hUp
  · cases h
    exact List.subset_cons_self _ _
  · cases h
    exact fun n hn => List.mem_cons_of_mem _ ((List.dropLast_sublist place).subset hn)
  · cases h
    simp

theorem subset_of_step (h : s.step place name = .ok next) : next ⊆ name :: place := by
  unfold step at h
  split at h
  · obtain ⟨_, _, h⟩ := bind_eq_ok_iff.mp h
    cases h
    exact List.subset_cons_self _ _
  · obtain ⟨_, _, h⟩ := bind_eq_ok_iff.mp h
    exact subset_of_child h

/-- Stores that agree at a place and in what they refuse agree on what can be done from there. -/
theorem enter_congr (hStanding : t.standing? place = s.standing? place)
    (hRefusals : t.refusals = s.refusals) : t.enter place = s.enter place := by
  simp only [enter, expectDirectory, hStanding, hRefusals]

theorem step_congr (hStanding : t.standing? place = s.standing? place)
    (hRefusals : t.refusals = s.refusals) (name : String) :
    t.step place name = s.step place name := by
  simp only [step, enter_congr hStanding hRefusals, expectDirectory, hStanding]

theorem isDirectory_congr (hStanding : t.standing? place = s.standing? place) :
    t.isDirectory place = s.isDirectory place := by
  rw [isDirectory, isDirectory, hStanding]

theorem linkAt?_congr (hStanding : t.standing? place = s.standing? place) :
    t.linkAt? place = s.linkAt? place := by
  rw [linkAt?, linkAt?, hStanding]

/-! ### Following -/

@[simp] theorem follow_nil (s : Store) (links : Nat) (place : Place) :
    s.follow links place [] = .ok place := by
  cases links <;> rfl

theorem follow_cons (s : Store) (links : Nat) (place : Place) (name : String)
    (names : List String) :
    s.follow links place (name :: names) = (do
      let next ← s.step place name
      match s.linkAt? next, links with
      | none, links => s.follow links next names
      | some _, 0 => .error .filesystemLoop
      | some path, links + 1 => s.follow links (startOf place path) (Path.trail path ++ names)) := by
  cases links with
  | zero =>
    rw [follow, walk]
    refine congrArg _ (funext fun next => ?_)
    cases s.linkAt? next <;> rfl
  | succ links =>
    rw [follow, walk]
    refine congrArg _ (funext fun next => ?_)
    cases s.linkAt? next <;> rfl

/-- The place `seen` is looked at when steps are taken from a place, through so many links at most. -/
inductive Sees (s : Store) : Nat → Place → List String → Place → Prop
  | here {links : Nat} {place : Place} {names : List String} : Sees s links place names place
  | step {links : Nat} {place next seen : Place} {name : String} {names : List String} :
      s.step place name = .ok next → s.linkAt? next = none → Sees s links next names seen →
      Sees s links place (name :: names) seen
  | link {links : Nat} {place next : Place} {name path : String} {names : List String} :
      s.step place name = .ok next → s.linkAt? next = some path →
      Sees s links place (name :: names) next
  | through {links : Nat} {place next seen : Place} {name path : String} {names : List String} :
      s.step place name = .ok next → s.linkAt? next = some path →
      Sees s links (startOf place path) (Path.trail path ++ names) seen →
      Sees s (links + 1) place (name :: names) seen

/-- Following goes on with fewer steps, or with any steps and fewer links. -/
theorem follow_induction {motive : Nat → List String → Prop} (nil : ∀ links, motive links [])
    (cons : ∀ links name names, motive links names →
      (∀ fewer < links, ∀ other, motive fewer other) → motive links (name :: names))
    (links : Nat) (names : List String) : motive links names := by
  induction links using Nat.strongRecOn generalizing names with
  | _ links ihLinks =>
    induction names with
    | nil => exact nil links
    | cons name names ihNames => exact cons links name names ihNames ihLinks

/-- **Only what is seen counts.** -/
theorem follow_congr (hRefusals : t.refusals = s.refusals)
    (h : ∀ seen, s.Sees links place names seen → t.standing? seen = s.standing? seen) :
    t.follow links place names = s.follow links place names := by
  induction links, names using follow_induction generalizing place with
  | nil links => rw [follow_nil, follow_nil]
  | cons links name names ihNames ihLinks =>
    rw [follow_cons, follow_cons, step_congr (h place .here) hRefusals]
    cases hStep : s.step place name with
    | error fault => rfl
    | ok next =>
      rw [ok_bind, ok_bind]
      cases hLink : s.linkAt? next with
      | none =>
        rw [linkAt?_congr (h next (.step hStep hLink .here)), hLink]
        exact ihNames fun seen hSeen => h seen (.step hStep hLink hSeen)
      | some path =>
        rw [linkAt?_congr (h next (.link hStep hLink)), hLink]
        cases links with
        | zero => rfl
        | succ links =>
          exact ihLinks links (Nat.lt_succ_self links) _ fun seen hSeen =>
            h seen (.through hStep hLink hSeen)

/-- The end is seen. -/
theorem sees_of_follow (h : s.follow links place names = .ok next) :
    s.Sees links place names next := by
  induction links, names using follow_induction generalizing place with
  | nil links =>
    rw [follow_nil] at h
    cases h
    exact .here
  | cons links name names ihNames ihLinks =>
    rw [follow_cons] at h
    obtain ⟨middle, hStep, h⟩ := bind_eq_ok_iff.mp h
    cases hLink : s.linkAt? middle with
    | none =>
      rw [hLink] at h
      exact .step hStep hLink (ihNames h)
    | some path =>
      rw [hLink] at h
      cases links with
      | zero => cases h
      | succ links => exact .through hStep hLink (ihLinks links (Nat.lt_succ_self links) _ h)

/-- One more step behind steps that lead to a place. -/
theorem follow_concat {directory : Place} (h : s.follow links place names = .ok directory)
    (hStep : s.step directory name = .ok next) (hLink : s.linkAt? next = none) :
    s.follow links place (names ++ [name]) = .ok next := by
  induction links, names using follow_induction generalizing place with
  | nil links =>
    rw [follow_nil] at h
    cases h
    rw [List.nil_append, follow_cons, hStep, ok_bind, hLink]
    exact follow_nil s links next
  | cons links first names ihNames ihLinks =>
    rw [follow_cons] at h
    obtain ⟨middle, hFirst, h⟩ := bind_eq_ok_iff.mp h
    rw [List.cons_append, follow_cons, hFirst, ok_bind]
    cases hMiddle : s.linkAt? middle with
    | none =>
      rw [hMiddle] at h
      exact ihNames h
    | some path =>
      rw [hMiddle] at h
      cases links with
      | zero => cases h
      | succ links =>
        dsimp only
        rw [← List.append_assoc]
        exact ihLinks links (Nat.lt_succ_self links) _ h

/-- Before the end only directories and links are seen. -/
theorem Sees.eq_or_isDirectory_or_link (hSees : s.Sees links place names seen) {last : Place}
    (h : s.follow links place names = .ok last) :
    seen = last ∨ s.isDirectory seen = true ∨ s.linkAt? seen ≠ none := by
  induction hSees with
  | @here _ _ names =>
    cases names with
    | nil =>
      rw [follow_nil] at h
      cases h
      exact .inl rfl
    | cons name names =>
      rw [follow_cons] at h
      obtain ⟨_, hStep, _⟩ := bind_eq_ok_iff.mp h
      exact .inr (.inl (isDirectory_of_step hStep))
  | step hStep hLink _ ih =>
    rw [follow_cons, hStep, ok_bind, hLink] at h
    exact ih h
  | link _ hLink =>
    refine .inr (.inr ?_)
    rw [hLink]
    exact Option.some_ne_none _
  | through hStep hLink _ ih =>
    rw [follow_cons, hStep, ok_bind, hLink] at h
    exact ih h

/-- What is seen is made of names that are spoken of. -/
theorem Sees.subset {spoken : List String} (hSees : s.Sees links place names seen)
    (hPlace : place ⊆ spoken) (hNames : names ⊆ spoken)
    (hLinks : ∀ place path, s.linkAt? place = some path → Path.trail path ⊆ spoken) :
    seen ⊆ spoken := by
  induction hSees with
  | here => exact hPlace
  | step hStep _ _ ih =>
    obtain ⟨hName, hRest⟩ := List.cons_subset.mp hNames
    exact ih (List.Subset.trans (subset_of_step hStep) (List.cons_subset.mpr ⟨hName, hPlace⟩)) hRest
  | link hStep _ =>
    obtain ⟨hName, _⟩ := List.cons_subset.mp hNames
    exact List.Subset.trans (subset_of_step hStep) (List.cons_subset.mpr ⟨hName, hPlace⟩)
  | through hStep hLink _ ih =>
    obtain ⟨_, hRest⟩ := List.cons_subset.mp hNames
    refine ih ?_ (List.append_subset.mpr ⟨hLinks _ _ hLink, hRest⟩)
    unfold startOf
    split
    · exact List.nil_subset _
    · exact hPlace

/-! ### Paths -/

/-- A place that is looked at on the way to what a path leads to. -/
def OnWay (s : Store) (path : String) (seen : Place) : Prop :=
  s.Sees maxLinks (s.start path) (Path.trail path) seen

/-- A place that is looked at on the way to the directory of a path. -/
def OnWayAbove (s : Store) (path : String) (seen : Place) : Prop :=
  s.Sees maxLinks (s.start path) (Path.pieces path).dropLast seen

theorem resolve_congr (hRefusals : t.refusals = s.refusals)
    (hWorking : t.workingDirectory = s.workingDirectory)
    (h : ∀ seen, s.OnWay path seen → t.standing? seen = s.standing? seen) :
    t.resolve path = s.resolve path := by
  rw [resolve, resolve, start, hWorking, ← start, follow_congr hRefusals h]

theorem onWay_of_resolve (h : s.resolve path = .ok place) : s.OnWay path place := by
  obtain ⟨_, _, h⟩ := bind_eq_ok_iff.mp h
  exact sees_of_follow h

theorem read_congr (hRefusals : t.refusals = s.refusals)
    (hWorking : t.workingDirectory = s.workingDirectory)
    (h : ∀ seen, s.OnWay path seen → t.standing? seen = s.standing? seen) :
    t.read path = s.read path := by
  rw [read, read, resolve_congr hRefusals hWorking h]
  cases hResolve : s.resolve path with
  | error fault => rfl
  | ok place =>
    rw [ok_bind, ok_bind, fileAt, fileAt, h place (onWay_of_resolve hResolve), hRefusals]

/-- On the way to what can be read there are directories, links and its own place. -/
theorem OnWay.eq_or_isDirectory_or_link (hSees : s.OnWay path seen) {last : Place}
    (h : s.resolve path = .ok last) :
    seen = last ∨ s.isDirectory seen = true ∨ s.linkAt? seen ≠ none := by
  obtain ⟨_, _, h⟩ := bind_eq_ok_iff.mp h
  exact Sees.eq_or_isDirectory_or_link hSees h

end Diorama.Store
