import Mathlib.Data.List.Forall2

/-! # Outcomes of partial operations -/

namespace Diorama

variable {ε φ α β : Type}

theorem bind_eq_ok_iff {x : Except ε α} {f : α → Except ε β} {b : β} :
    x >>= f = .ok b ↔ ∃ a, x = .ok a ∧ f a = .ok b := by
  cases x <;> simp [bind, Except.bind]

theorem bind_eq_error_iff {x : Except ε α} {f : α → Except ε β} {fault : ε} :
    x >>= f = .error fault ↔ x = .error fault ∨ ∃ a, x = .ok a ∧ f a = .error fault := by
  cases x <;> simp [bind, Except.bind]

theorem ok_bind (a : α) (f : α → Except ε β) : (Except.ok a >>= f) = f a := rfl

theorem throw_ne_ok {fault : ε} {a : α} : (throw fault : Except ε α) ≠ .ok a := by
  simp [throw, throwThe, MonadExceptOf.throw]

theorem pure_eq_ok_iff {a b : α} : (pure a : Except ε α) = .ok b ↔ a = b := by
  simp [pure, Except.pure]

theorem mapError_eq_ok_iff {f : ε → φ} {x : Except ε α} {a : α} :
    x.mapError f = .ok a ↔ x = .ok a := by
  cases x with
  | error _ => exact ⟨nofun, nofun⟩
  | ok b =>
    constructor
    · intro h
      cases h
      rfl
    · intro h
      cases h
      rfl

theorem mapError_eq_error_iff {f : ε → φ} {x : Except ε α} {fault : φ} :
    x.mapError f = .error fault ↔ ∃ cause, x = .error cause ∧ f cause = fault := by
  cases x with
  | error cause =>
    constructor
    · intro h
      cases h
      exact ⟨cause, rfl, rfl⟩
    · rintro ⟨_, hCause, rfl⟩
      cases hCause
      rfl
  | ok _ =>
    constructor
    · intro h
      cases h
    · rintro ⟨_, hCause, -⟩
      cases hCause

theorem toOption_eq_some_iff {x : Except ε α} {a : α} : x.toOption = some a ↔ x = .ok a := by
  cases x <;> simp [Except.toOption]

theorem exists_eq_ok_of_map {x : Except ε α} {f : α → β} {b : β}
    (h : x.toOption.map f = some b) : ∃ a, x = .ok a ∧ f a = b := by
  cases x with
  | error _ => cases h
  | ok a => exact ⟨a, rfl, Option.some.inj h⟩

theorem exists_eq_ok_of_any {x : Except ε α} {p : α → Bool}
    (h : x.toOption.any p = true) : ∃ a, x = .ok a ∧ p a = true := by
  cases x with
  | error _ => cases h
  | ok a => exact ⟨a, rfl, h⟩

/-- A list is gone through to its end if nothing in it fails. -/
theorem mapM_eq_ok {f : α → Except ε β} {g : α → β} {l : List α}
    (h : ∀ a ∈ l, f a = .ok (g a)) : l.mapM f = .ok (l.map g) := by
  induction l with
  | nil => rfl
  | cons a l ih =>
    rw [List.mapM_cons, h a List.mem_cons_self, ih fun b hb => h b (List.mem_cons_of_mem _ hb)]
    rfl

theorem mapM_eq_some {f : α → Option β} {g : α → β} {l : List α}
    (h : ∀ a ∈ l, f a = some (g a)) : l.mapM f = some (l.map g) := by
  induction l with
  | nil => rfl
  | cons a l ih =>
    rw [List.mapM_cons, h a List.mem_cons_self, ih fun b hb => h b (List.mem_cons_of_mem _ hb)]
    rfl

/-- What is found in the results comes from something in the list. -/
theorem exists_of_mem_mapM {f : α → Except ε β} {l : List α} {results : List β}
    (h : l.mapM f = .ok results) {b : β} (hb : b ∈ results) : ∃ a ∈ l, f a = .ok b := by
  induction l generalizing results with
  | nil =>
    obtain rfl := pure_eq_ok_iff.mp h
    cases hb
  | cons a l ih =>
    rw [List.mapM_cons, bind_eq_ok_iff] at h
    obtain ⟨first, hFirst, h⟩ := h
    obtain ⟨others, hOthers, h⟩ := bind_eq_ok_iff.mp h
    obtain rfl := pure_eq_ok_iff.mp h
    rcases List.mem_cons.mp hb with rfl | hb
    · exact ⟨a, List.mem_cons_self, hFirst⟩
    · obtain ⟨a', ha', hResult⟩ := ih hOthers hb
      exact ⟨a', List.mem_cons_of_mem _ ha', hResult⟩

theorem mapM_eq_ok_iff {f : α → Except ε β} {l : List α} {results : List β} :
    l.mapM f = .ok results ↔ List.Forall₂ (fun a b => f a = .ok b) l results := by
  induction l generalizing results with
  | nil =>
    rw [List.mapM_nil, pure_eq_ok_iff, List.forall₂_nil_left_iff]
    exact eq_comm
  | cons a l ih =>
    rw [List.mapM_cons, bind_eq_ok_iff, List.forall₂_cons_left_iff]
    constructor
    · rintro ⟨b, hFirst, h⟩
      obtain ⟨others, hOthers, h⟩ := bind_eq_ok_iff.mp h
      exact ⟨b, others, hFirst, ih.mp hOthers, (pure_eq_ok_iff.mp h).symm⟩
    · rintro ⟨b, others, hFirst, hOthers, rfl⟩
      exact ⟨b, hFirst, bind_eq_ok_iff.mpr ⟨others, ih.mpr hOthers, rfl⟩⟩

/-- A list is gone through up to the first item that fails. -/
theorem mapM_eq_error_iff {f : α → Except ε β} {l : List α} {fault : ε} :
    l.mapM f = .error fault ↔ ∃ before a after, l = before ++ a :: after ∧
      (∀ b ∈ before, ∃ result, f b = .ok result) ∧ f a = .error fault := by
  induction l with
  | nil => simp [pure, Except.pure]
  | cons a l ih =>
    rw [List.mapM_cons, bind_eq_error_iff]
    constructor
    · rintro (h | ⟨b, hFirst, h⟩)
      · exact ⟨[], a, l, rfl, fun _ hb => absurd hb List.not_mem_nil, h⟩
      · rcases bind_eq_error_iff.mp h with h | ⟨others, -, h⟩
        · obtain ⟨before, a', after, rfl, hBefore, hFault⟩ := ih.mp h
          refine ⟨a :: before, a', after, rfl, fun c hc => ?_, hFault⟩
          rcases List.mem_cons.mp hc with rfl | hc
          · exact ⟨b, hFirst⟩
          · exact hBefore c hc
        · cases h
    · rintro ⟨before, a', after, hSplit, hBefore, hFault⟩
      cases before with
      | nil =>
        obtain ⟨rfl, rfl⟩ := List.cons.inj hSplit
        exact .inl hFault
      | cons first before =>
        obtain ⟨rfl, rfl⟩ := List.cons.inj hSplit
        obtain ⟨b, hFirst⟩ := hBefore a List.mem_cons_self
        refine .inr ⟨b, hFirst, bind_eq_error_iff.mpr (.inl (ih.mpr ?_))⟩
        exact ⟨before, a', after, rfl, fun c hc => hBefore c (List.mem_cons_of_mem _ hc), hFault⟩

/-- What every step keeps is kept by a run that succeeds. -/
theorem foldlM_ok_induction {f : β → α → Except ε β} {P : β → Prop}
    (hStep : ∀ b a b', P b → f b a = .ok b' → P b') {l : List α} {b b' : β} (hb : P b)
    (h : l.foldlM f b = .ok b') : P b' := by
  induction l generalizing b with
  | nil =>
    obtain rfl := pure_eq_ok_iff.mp h
    exact hb
  | cons a l ih =>
    obtain ⟨next, hNext, h⟩ := bind_eq_ok_iff.mp h
    exact ih (hStep b a next hb hNext) h

end Diorama
