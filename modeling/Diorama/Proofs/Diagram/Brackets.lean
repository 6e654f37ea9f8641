import Mathlib.Data.List.Basic
import Mathlib.Data.List.Range
import Diorama.Diagram.Statement

/-!
# Lines that open and close regions

The lines of a diagram are matched like brackets: `Balanced` is the grammar of the texts in which every
region is closed and every `end` closes one, and `Matches l i j` says that line `j` closes the region
that line `i` opens, the lines in between being balanced. Both are decidable by counting
(`balanced_iff_depthAfter?`).

`openLines l` are the lines that open a region which no line of `l` closes. What one more line does to
them is all that a reader has to know of the matching: a line that opens a region is added
(`openLines_concat_of_opens`), an `end` takes the last one away (`openLines_concat_of_closes`), and
any other line leaves them alone (`openLines_concat_of_plain`). An `end` closes something exactly if
there is a line to take away (`exists_matches_iff`).
-/

namespace Diorama.Statement

def opens : Statement → Bool
  | .openRegion .. => true
  | _ => false

def closes : Statement → Bool
  | .closeRegion => true
  | _ => false

theorem closes_eq_false_of_opens {s : Statement} (h : s.opens = true) : s.closes = false := by
  cases s <;> simp_all [opens, closes]

theorem opens_eq_false_of_closes {s : Statement} (h : s.closes = true) : s.opens = false := by
  cases s <;> simp_all [opens, closes]

/-! ### Balanced lines -/

/-- Every region is closed, and every `end` closes one. -/
inductive Balanced : List Statement → Prop
  | nil : Balanced []
  | line {s : Statement} {rest : List Statement} : s.opens = false → s.closes = false →
      Balanced rest → Balanced (s :: rest)
  | region {s e : Statement} {inner rest : List Statement} : s.opens = true → e.closes = true →
      Balanced inner → Balanced rest → Balanced (s :: (inner ++ e :: rest))

/-- The number of open regions after some lines, `none` if an `end` has nothing to close. -/
def depthAfter? : Nat → List Statement → Option Nat
  | depth, [] => some depth
  | depth, s :: rest =>
    if s.opens then depthAfter? (depth + 1) rest
    else if s.closes then
      if depth = 0 then none else depthAfter? (depth - 1) rest
    else depthAfter? depth rest

theorem depthAfter?_append_of_balanced {l : List Statement} (h : Balanced l) (depth : Nat)
    (rest : List Statement) : depthAfter? depth (l ++ rest) = depthAfter? depth rest := by
  induction h generalizing depth rest with
  | nil => rfl
  | line hOpens hCloses _ ih =>
    rw [List.cons_append, depthAfter?, if_neg (by simp [hOpens]), if_neg (by simp [hCloses]), ih]
  | @region s e inner after hOpens hCloses _ _ ihInner ihRest =>
    have hNot := opens_eq_false_of_closes hCloses
    rw [List.cons_append, List.append_assoc, List.cons_append, depthAfter?, if_pos hOpens, ihInner,
      depthAfter?, if_neg (by simp [hNot]), if_pos hCloses, if_neg (Nat.succ_ne_zero depth),
      Nat.add_sub_cancel]
    exact ihRest depth rest

/-- The lines close `count` regions that they do not open, and are balanced otherwise. -/
def Closes : Nat → List Statement → Prop
  | 0, l => Balanced l
  | count + 1, l => ∃ inner e rest, l = inner ++ e :: rest ∧ e.closes = true ∧ Balanced inner ∧
      Closes count rest

theorem closes_cons_of_plain {s : Statement} (hOpens : s.opens = false)
    (hCloses : s.closes = false) {count : Nat} {l : List Statement} (h : Closes count l) :
    Closes count (s :: l) := by
  cases count with
  | zero => exact .line hOpens hCloses h
  | succ count =>
    obtain ⟨inner, e, rest, rfl, he, hInner, hRest⟩ := h
    exact ⟨s :: inner, e, rest, rfl, he, .line hOpens hCloses hInner, hRest⟩

theorem closes_cons_of_opens {s : Statement} (hOpens : s.opens = true) {count : Nat}
    {l : List Statement} (h : Closes (count + 1) l) : Closes count (s :: l) := by
  obtain ⟨inner, e, rest, rfl, he, hInner, hRest⟩ := h
  cases count with
  | zero => exact .region hOpens he hInner hRest
  | succ count =>
    obtain ⟨inner', e', rest', rfl, he', hInner', hRest'⟩ := hRest
    exact ⟨s :: (inner ++ e :: inner'), e', rest', by simp, he', .region hOpens he hInner hInner',
      hRest'⟩

theorem closes_of_depthAfter? {l : List Statement} {depth : Nat}
    (h : depthAfter? depth l = some 0) : Closes depth l := by
  induction l generalizing depth with
  | nil =>
    cases h
    exact .nil
  | cons s rest ih =>
    rw [depthAfter?] at h
    split_ifs at h with hOpens hCloses hZero
    · exact closes_cons_of_opens hOpens (ih h)
    · obtain ⟨outer, rfl⟩ : ∃ outer, depth = outer + 1 := ⟨depth - 1, by omega⟩
      exact ⟨[], s, rest, rfl, hCloses, .nil, ih h⟩
    · exact closes_cons_of_plain (by simpa using hOpens) (by simpa using hCloses) (ih h)

theorem balanced_iff_depthAfter? {l : List Statement} :
    Balanced l ↔ depthAfter? 0 l = some 0 := by
  constructor
  · intro h
    have := depthAfter?_append_of_balanced h 0 []
    rwa [List.append_nil] at this
  · exact closes_of_depthAfter?

instance : DecidablePred Balanced := fun _ => decidable_of_iff _ balanced_iff_depthAfter?.symm

/-- A region that balanced lines open is closed by them. -/
theorem Balanced.exists_close {l : List Statement} (h : Balanced l) {before after : List Statement}
    {s : Statement} (hSplit : l = before ++ s :: after) (hOpens : s.opens = true) :
    ∃ inner e rest, after = inner ++ e :: rest ∧ e.closes = true ∧ Balanced inner := by
  induction h generalizing before after with
  | nil => simp at hSplit
  | @line t rest hPlain _ _ ih =>
    cases before with
    | nil =>
      rw [List.nil_append, List.cons.injEq] at hSplit
      rw [hSplit.1, hOpens] at hPlain
      cases hPlain
    | cons _ before =>
      rw [List.cons_append, List.cons.injEq] at hSplit
      exact ih hSplit.2
  | @region t e inner rest _ hCloses hInner _ ihInner ihRest =>
    have hNe : s ≠ e := by
      rintro rfl
      rw [closes_eq_false_of_opens hOpens] at hCloses
      cases hCloses
    cases before with
    | nil =>
      rw [List.nil_append, List.cons.injEq] at hSplit
      exact ⟨inner, e, rest, hSplit.2.symm, hCloses, hInner⟩
    | cons _ before =>
      rw [List.cons_append, List.cons.injEq] at hSplit
      rcases List.append_eq_append_iff.mp hSplit.2 with ⟨gap, hBefore, hRest⟩ | ⟨gap, hInner', hAfter⟩
      · cases gap with
        | nil =>
          rw [List.nil_append, List.cons.injEq] at hRest
          exact absurd hRest.1.symm hNe
        | cons _ gap =>
          rw [List.cons_append, List.cons.injEq] at hRest
          exact ihRest hRest.2
      · cases gap with
        | nil =>
          rw [List.nil_append, List.cons.injEq] at hAfter
          exact absurd hAfter.1 hNe
        | cons _ gap =>
          rw [List.cons_append, List.cons.injEq] at hAfter
          rw [← hAfter.1] at hInner'
          obtain ⟨inner₂, e₂, rest₂, rfl, hCloses₂, hBalanced⟩ := ihInner hInner'
          exact ⟨inner₂, e₂, rest₂ ++ e :: rest, by simp [hAfter.2], hCloses₂, hBalanced⟩

/-- Lines that close all regions they open are balanced, up to the first `end` too many. -/
theorem balanced_or_exists_close (l : List Statement)
    (h : ∀ before s after, l = before ++ s :: after → s.opens = true →
      ∃ inner e rest, after = inner ++ e :: rest ∧ e.closes = true ∧ Balanced inner) :
    Balanced l ∨ ∃ inner e rest, l = inner ++ e :: rest ∧ e.closes = true ∧ Balanced inner := by
  induction hLength : l.length using Nat.strong_induction_on generalizing l with
  | _ n ih =>
    cases l with
    | nil => exact .inl .nil
    | cons s rest =>
      cases hOpens : s.opens with
      | true =>
        obtain ⟨inner, e, rest', rfl, hCloses, hInner⟩ := h [] s rest rfl hOpens
        have hRest := ih rest'.length (by subst hLength; simp; omega) rest'
          (fun before t after hSplit => h (s :: (inner ++ e :: before)) t after (by simp [hSplit]))
          rfl
        rcases hRest with hRest | ⟨inner', e', rest'', rfl, hCloses', hInner'⟩
        · exact .inl (.region hOpens hCloses hInner hRest)
        · exact .inr ⟨s :: (inner ++ e :: inner'), e', rest'', by simp, hCloses',
            .region hOpens hCloses hInner hInner'⟩
      | false =>
        cases hCloses : s.closes with
        | true => exact .inr ⟨[], s, rest, rfl, hCloses, .nil⟩
        | false =>
          have hRest := ih rest.length (by subst hLength; simp) rest
            (fun before t after hSplit => h (s :: before) t after (by simp [hSplit])) rfl
          rcases hRest with hRest | ⟨inner, e, rest', rfl, hCloses', hInner⟩
          · exact .inl (.line hOpens hCloses hRest)
          · exact .inr ⟨s :: inner, e, rest', rfl, hCloses', .line hOpens hCloses hInner⟩

theorem Balanced.not_closes {inner rest : List Statement} {e : Statement}
    (h : Balanced (inner ++ e :: rest)) (hInner : Balanced inner) : e.closes = false := by
  rw [balanced_iff_depthAfter?, depthAfter?_append_of_balanced hInner, depthAfter?] at h
  split_ifs at h with hOpens hCloses hZero
  · exact closes_eq_false_of_opens hOpens
  · exact absurd rfl hZero
  · exact (Bool.not_eq_true _).mp hCloses

/-! ### Matching lines -/

/-- Line `j` closes the region that line `i` opens. -/
def Matches (l : List Statement) (i j : Nat) : Prop :=
  i < j ∧ l[i]?.any opens = true ∧ l[j]?.any closes = true ∧ Balanced ((l.take j).drop (i + 1))

instance (l : List Statement) (i j : Nat) : Decidable (Matches l i j) :=
  inferInstanceAs (Decidable (_ ∧ _))

theorem matches_iff {l : List Statement} {i j : Nat} :
    Matches l i j ↔ l[i]?.any opens = true ∧ ∃ inner e rest, l.drop (i + 1) = inner ++ e :: rest ∧
      e.closes = true ∧ Balanced inner ∧ j = i + 1 + inner.length := by
  constructor
  · rintro ⟨hLt, hOpens, hCloses, hInner⟩
    obtain ⟨e, hAt, he⟩ := (Option.any_eq_true _ _).mp hCloses
    obtain ⟨hj, hGet⟩ := List.getElem?_eq_some_iff.mp hAt
    refine ⟨hOpens, _, e, l.drop (j + 1), ?_, he, hInner, ?_⟩
    · rw [← hGet, ← List.drop_eq_getElem_cons hj, ← List.drop_append_of_le_length,
        List.take_append_drop]
      rw [List.length_take]
      omega
    · rw [List.length_drop, List.length_take]
      omega
  · rintro ⟨hOpens, inner, e, rest, hDrop, hCloses, hInner, rfl⟩
    refine ⟨by omega, hOpens, ?_, ?_⟩
    · rw [← List.getElem?_drop, hDrop]
      simpa using hCloses
    · rw [List.drop_take, hDrop]
      simpa using hInner

/-- Whether two lines match is decided by the lines up to them. -/
theorem matches_append {l rest : List Statement} {i j : Nat} (hLt : j < l.length) :
    Matches (l ++ rest) i j ↔ Matches l i j := by
  unfold Matches
  refine and_congr_right fun hij => ?_
  rw [List.getElem?_append_left hLt, List.getElem?_append_left (by omega),
    List.take_append_of_le_length hLt.le]

theorem lt_length_of_matches {l : List Statement} {i j : Nat} (h : Matches l i j) :
    j < l.length := by
  obtain ⟨-, -, hCloses, -⟩ := h
  by_contra hGe
  rw [List.getElem?_eq_none (by omega)] at hCloses
  cases hCloses

/-! ### Lines that stay open -/

/-- The lines that open a region which no line closes. -/
def openLines (l : List Statement) : List Nat :=
  (List.range l.length).filter fun i => l[i]?.any opens ∧ ∀ j < l.length, ¬ Matches l i j

theorem mem_openLines {l : List Statement} {i : Nat} :
    i ∈ openLines l ↔ l[i]?.any opens = true ∧ ∀ j, ¬ Matches l i j := by
  simp only [openLines, List.mem_filter, List.mem_range, decide_eq_true_eq]
  constructor
  · rintro ⟨-, hOpens, hMatch⟩
    exact ⟨hOpens, fun j h => hMatch j (lt_length_of_matches h) h⟩
  · rintro ⟨hOpens, hMatch⟩
    refine ⟨?_, hOpens, fun j _ => hMatch j⟩
    by_contra hGe
    rw [List.getElem?_eq_none (by omega)] at hOpens
    cases hOpens

theorem pairwise_openLines (l : List Statement) : (openLines l).Pairwise (· < ·) :=
  List.pairwise_lt_range.filter _

theorem le_of_mem_of_getLast? {l : List Nat} (hSorted : l.Pairwise (· < ·)) {i k : Nat}
    (hLast : l.getLast? = some i) (hk : k ∈ l) : k ≤ i := by
  obtain ⟨init, rfl⟩ := List.getLast?_eq_some_iff.mp hLast
  rw [List.pairwise_append] at hSorted
  rw [List.mem_append, List.mem_singleton] at hk
  rcases hk with hk | rfl
  · exact (hSorted.2.2 k hk i (List.mem_singleton_self i)).le
  · exact le_rfl

/-- A region that is opened within balanced lines is closed. -/
theorem exists_matches_of_balanced {l : List Statement} {i m : Nat} (hLt : i < m)
    (hBalanced : Balanced (l.drop (i + 1))) (hOpens : l[m]?.any opens = true) :
    ∃ j, Matches l m j := by
  obtain ⟨s, hAt, hs⟩ := (Option.any_eq_true _ _).mp hOpens
  obtain ⟨hLength, hGet⟩ := List.getElem?_eq_some_iff.mp hAt
  have hSplit : l.drop (i + 1) = (l.drop (i + 1)).take (m - (i + 1)) ++ s :: l.drop (m + 1) := by
    rw [← hGet, ← List.drop_eq_getElem_cons hLength]
    conv_lhs => rw [← List.take_append_drop (m - (i + 1)) (l.drop (i + 1))]
    rw [List.drop_drop, Nat.add_sub_cancel' hLt]
  obtain ⟨inner, e, rest, hDrop, hCloses, hInner⟩ := hBalanced.exists_close hSplit hs
  exact ⟨_, matches_iff.mpr ⟨hOpens, inner, e, rest, hDrop, hCloses, hInner, rfl⟩⟩

/-- A region that is opened after all open lines is closed. -/
theorem exists_close_of_forall_le {l : List Statement} {m : Nat}
    (hLe : ∀ k ∈ openLines l, k ≤ m) {before after : List Statement} {s : Statement}
    (hSplit : l.drop (m + 1) = before ++ s :: after) (hOpens : s.opens = true) :
    ∃ inner e rest, after = inner ++ e :: rest ∧ e.closes = true ∧ Balanced inner := by
  have hAt : l[m + 1 + before.length]? = some s := by
    rw [← List.getElem?_drop, hSplit]
    simp
  have hDrop : l.drop (m + 1 + before.length + 1) = after := by
    have hRest := congrArg (List.drop (before.length + 1)) hSplit
    rw [List.drop_drop] at hRest
    rw [show m + 1 + before.length + 1 = m + 1 + (before.length + 1) by omega, hRest]
    simp
  by_contra hNone
  have hOpen : m + 1 + before.length ∈ openLines l := by
    refine mem_openLines.mpr ⟨?_, ?_⟩
    · rw [hAt]
      exact hOpens
    · intro j h
      obtain ⟨-, inner, e, rest, hDrop', hCloses, hInner, -⟩ := matches_iff.mp h
      exact hNone ⟨inner, e, rest, by rw [← hDrop, hDrop'], hCloses, hInner⟩
  have := hLe _ hOpen
  omega

/-- The innermost open region is the one that only balanced lines follow. -/
theorem balanced_drop_iff {l : List Statement} {i : Nat} (hi : i ∈ openLines l) :
    Balanced (l.drop (i + 1)) ↔ (openLines l).getLast? = some i := by
  obtain ⟨m, hLast⟩ : ∃ m, (openLines l).getLast? = some m :=
    Option.isSome_iff_exists.mp (List.getLast?_isSome.mpr (List.ne_nil_of_mem hi))
  obtain ⟨hOpens, hMatch⟩ := mem_openLines.mp (List.mem_of_getLast? hLast)
  have hLe : ∀ k ∈ openLines l, k ≤ m := by
    intro k hk
    exact le_of_mem_of_getLast? (pairwise_openLines l) hLast hk
  constructor
  · intro hBalanced
    rcases (hLe i hi).eq_or_lt with rfl | hLt
    · exact hLast
    · obtain ⟨j, h⟩ := exists_matches_of_balanced hLt hBalanced hOpens
      exact absurd h (hMatch j)
  · intro hLast'
    obtain rfl : m = i := Option.some.inj (hLast.symm.trans hLast')
    have hClosed : ∀ before s after, l.drop (m + 1) = before ++ s :: after → s.opens = true →
        ∃ inner e rest, after = inner ++ e :: rest ∧ e.closes = true ∧ Balanced inner := by
      intro before s after hSplit hs
      exact exists_close_of_forall_le hLe hSplit hs
    rcases balanced_or_exists_close _ hClosed with h | ⟨inner, e, rest, hDrop, hCloses, hInner⟩
    · exact h
    · exact absurd (matches_iff.mpr ⟨hOpens, inner, e, rest, hDrop, hCloses, hInner, rfl⟩)
        (hMatch _)

theorem matches_concat {l : List Statement} {s : Statement} {i : Nat} (hi : i < l.length) :
    Matches (l ++ [s]) i l.length ↔
      l[i]?.any opens = true ∧ s.closes = true ∧ Balanced (l.drop (i + 1)) := by
  rw [Matches, List.getElem?_append_left hi, List.getElem?_concat_length, List.take_left']
  · simp [hi]
  · rfl

theorem openLines_concat (l : List Statement) (s : Statement) :
    openLines (l ++ [s]) =
      (openLines l).filter (fun i => ¬ (s.closes = true ∧ Balanced (l.drop (i + 1)))) ++
        if s.opens then [l.length] else [] := by
  have hOld : ∀ i ∈ List.range l.length,
      decide ((l ++ [s])[i]?.any opens ∧ ∀ j < l.length + 1, ¬ Matches (l ++ [s]) i j) =
        (decide (¬ (s.closes = true ∧ Balanced (l.drop (i + 1)))) &&
          decide (l[i]?.any opens ∧ ∀ j < l.length, ¬ Matches l i j)) := by
    intro i hi
    rw [List.mem_range] at hi
    rw [← Bool.decide_and, decide_eq_decide, List.getElem?_append_left hi]
    have hLast := matches_concat (s := s) hi
    constructor
    · rintro ⟨hOpens, hMatch⟩
      refine ⟨fun h => hMatch _ (by omega) (hLast.mpr ⟨hOpens, h⟩), hOpens, fun j hj h => ?_⟩
      exact hMatch j (by omega) ((matches_append hj).mpr h)
    · rintro ⟨hNot, hOpens, hMatch⟩
      refine ⟨hOpens, fun j hj h => ?_⟩
      rcases Nat.lt_succ_iff_lt_or_eq.mp hj with hj | rfl
      · exact hMatch j hj ((matches_append hj).mp h)
      · exact hNot (hLast.mp h).2
  have hNew : decide ((l ++ [s])[l.length]?.any opens ∧
      ∀ j < l.length + 1, ¬ Matches (l ++ [s]) l.length j) = s.opens := by
    rw [List.getElem?_concat_length, Option.any_some, Bool.decide_and, Bool.decide_eq_true,
      decide_eq_true, Bool.and_true]
    intro j hj h
    have := h.1
    omega
  rw [openLines, openLines, List.length_append, List.length_singleton, List.range_succ,
    List.filter_append, List.filter_congr hOld, ← List.filter_filter, List.filter_singleton, hNew, cond_eq_ite]

theorem openLines_concat_of_opens {l : List Statement} {s : Statement} (hOpens : s.opens = true) :
    openLines (l ++ [s]) = openLines l ++ [l.length] := by
  rw [openLines_concat, if_pos hOpens, List.filter_eq_self.mpr]
  intro i _
  simp [closes_eq_false_of_opens hOpens]

theorem openLines_concat_of_plain {l : List Statement} {s : Statement} (hOpens : s.opens = false)
    (hCloses : s.closes = false) : openLines (l ++ [s]) = openLines l := by
  rw [openLines_concat, if_neg (by simp [hOpens]), List.append_nil, List.filter_eq_self.mpr]
  intro i _
  simp [hCloses]

/-- An `end` closes the innermost open region. -/
theorem openLines_concat_of_closes {l : List Statement} {s : Statement}
    (hCloses : s.closes = true) : openLines (l ++ [s]) = (openLines l).dropLast := by
  have hOpens := opens_eq_false_of_closes hCloses
  rw [openLines_concat, if_neg (by simp [hOpens]), List.append_nil]
  have hKeep : ∀ i ∈ openLines l, decide (¬ (s.closes = true ∧ Balanced (l.drop (i + 1)))) =
      decide ((openLines l).getLast? ≠ some i) := by
    intro i hi
    rw [decide_eq_decide, ne_eq, ← balanced_drop_iff hi]
    simp [hCloses]
  rw [List.filter_congr hKeep]
  have hSorted := pairwise_openLines l
  rcases List.eq_nil_or_concat (openLines l) with hNil | ⟨init, m, hConcat⟩
  · rw [hNil]
    rfl
  · rw [hConcat] at hSorted ⊢
    rw [List.concat_eq_append, List.pairwise_append] at hSorted
    rw [List.concat_eq_append, List.dropLast_concat, List.getLast?_concat, List.filter_append,
      List.filter_eq_self.mpr, List.filter_singleton]
    · simp
    · intro i hi
      have := hSorted.2.2 i hi m (List.mem_singleton_self m)
      simp only [ne_eq, Option.some.injEq, decide_not, Bool.not_eq_true', decide_eq_false_iff_not]
      omega

/-- **An `end` closes a region exactly if one is open.** -/
theorem exists_matches_iff {l : List Statement} {k : Nat} (hCloses : l[k]?.any closes = true) :
    (∃ i, Matches l i k) ↔ openLines (l.take k) ≠ [] := by
  constructor
  · rintro ⟨i, h⟩
    have hi : i ∈ openLines (l.take k) := by
      refine mem_openLines.mpr ⟨?_, fun j hj => ?_⟩
      · rw [List.getElem?_take_of_lt h.1]
        exact h.2.1
      · obtain ⟨-, inner, e, rest, hDrop, he, hInner, -⟩ := matches_iff.mp hj
        have hBalanced := h.2.2.2
        rw [hDrop] at hBalanced
        rw [hBalanced.not_closes hInner] at he
        cases he
    exact List.ne_nil_of_mem hi
  · intro hNe
    have hi := List.getLast_mem hNe
    have hOpens := (mem_openLines.mp hi).1
    have hBalanced := (balanced_drop_iff hi).mpr (List.getLast?_eq_some_getLast hNe)
    have hLt : (openLines (l.take k)).getLast hNe < k := by
      by_contra hGe
      rw [List.getElem?_eq_none (by rw [List.length_take]; omega)] at hOpens
      cases hOpens
    rw [List.getElem?_take_of_lt hLt] at hOpens
    exact ⟨_, hLt, hOpens, hCloses, hBalanced⟩

end Diorama.Statement
