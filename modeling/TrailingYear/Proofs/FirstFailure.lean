import Mathlib.Data.List.Forall2

/-! # The first failure of a list

A list is worked through from the left, and the first element that fails decides. -/

namespace TrailingYear

variable {ε α β : Type}

theorem bind_eq_ok_iff {x : Except ε α} {f : α → Except ε β} {b : β} :
    x >>= f = .ok b ↔ ∃ a, x = .ok a ∧ f a = .ok b := by
  cases x <;> simp [bind, Except.bind]

theorem bind_eq_error_iff {x : Except ε α} {f : α → Except ε β} {e : ε} :
    x >>= f = .error e ↔ x = .error e ∨ ∃ a, x = .ok a ∧ f a = .error e := by
  cases x <;> simp [bind, Except.bind]

theorem check_eq_ok_iff {p : α → Prop} [DecidablePred p] {f : α → ε} {x : Except ε α} {a : α} :
    (x >>= fun a => if p a then .ok a else .error (f a)) = .ok a ↔ x = .ok a ∧ p a := by
  rw [bind_eq_ok_iff]
  constructor
  · rintro ⟨b, hb, ha⟩
    split at ha
    next hp =>
      cases ha
      exact ⟨hb, hp⟩
    next => cases ha
  · rintro ⟨ha, hp⟩
    exact ⟨a, ha, if_pos hp⟩

theorem mapError_eq_ok_iff {ε' : Type} {g : ε → ε'} {x : Except ε α} {a : α} :
    x.mapError g = .ok a ↔ x = .ok a := by
  cases x <;> simp [Except.mapError]

theorem map_eq_ok_iff {f : α → β} {x : Except ε α} {b : β} :
    x.map f = .ok b ↔ ∃ a, x = .ok a ∧ f a = b := by
  cases x <;> simp [Except.map]

theorem map_eq_error_iff {f : α → β} {x : Except ε α} {e : ε} :
    x.map f = .error e ↔ x = .error e := by
  cases x <;> simp [Except.map]

theorem mapM_eq_ok_iff {f : α → Except ε β} {xs : List α} {ys : List β} :
    xs.mapM f = .ok ys ↔ List.Forall₂ (fun x y => f x = .ok y) xs ys := by
  induction xs generalizing ys with
  | nil => cases ys <;> simp [pure, Except.pure]
  | cons x xs ih =>
    rw [List.mapM_cons]
    cases hx : f x with
    | error e => cases ys <;> simp [bind, Except.bind, hx]
    | ok y =>
      cases hxs : xs.mapM f with
      | error e =>
        have hn : ∀ zs, ¬ List.Forall₂ (fun x y => f x = .ok y) xs zs := by
          intro zs hz
          have := ih.mpr hz
          rw [hxs] at this
          cases this
        cases ys <;> simp [bind, Except.bind, hx, hn]
      | ok zs =>
        rw [hxs] at ih
        cases ys <;> simp [bind, Except.bind, pure, Except.pure, hx, ← ih]

theorem mapM_eq_error_iff {f : α → Except ε β} {xs : List α} {e : ε} :
    xs.mapM f = .error e ↔ ∃ before x after, xs = before ++ x :: after ∧
      (∀ z ∈ before, ∃ y, f z = .ok y) ∧ f x = .error e := by
  induction xs with
  | nil => simp [pure, Except.pure]
  | cons x xs ih =>
    rw [List.mapM_cons]
    cases hx : f x with
    | error e' =>
      constructor
      · intro h
        cases h
        exact ⟨[], x, xs, rfl, by simp, hx⟩
      · rintro ⟨before, z, after, hl, hok, hz⟩
        cases before with
        | nil =>
          cases hl
          rw [hx] at hz
          cases hz
          rfl
        | cons w before =>
          cases hl
          obtain ⟨y, hy⟩ := hok x (List.mem_cons_self ..)
          rw [hx] at hy
          cases hy
    | ok y =>
      have hstep :
          ((do let r ← Except.ok y; let rs ← xs.mapM f; pure (r :: rs)) : Except ε (List β)) =
          .error e ↔ xs.mapM f = .error e := by
        cases xs.mapM f <;> simp [bind, Except.bind, pure, Except.pure]
      rw [hstep, ih]
      constructor
      · rintro ⟨before, z, after, rfl, hok, hz⟩
        refine ⟨x :: before, z, after, rfl, ?_, hz⟩
        intro w hw
        rcases List.mem_cons.mp hw with rfl | hw
        · exact ⟨y, hx⟩
        · exact hok w hw
      · rintro ⟨before, z, after, hl, hok, hz⟩
        cases before with
        | nil =>
          cases hl
          rw [hx] at hz
          cases hz
        | cons w before =>
          cases hl
          exact ⟨before, z, after, rfl, fun v hv => hok v (List.mem_cons_of_mem _ hv), hz⟩

theorem ok_of_mapM {f : α → Except ε β} {xs : List α} {ys : List β} (h : xs.mapM f = .ok ys) :
    ∀ x ∈ xs, ∃ y, f x = .ok y := by
  have hall := mapM_eq_ok_iff.mp h
  clear h
  induction hall with
  | nil => simp
  | @cons x y _ _ hxy _ ih => exact List.forall_mem_cons.mpr ⟨⟨y, hxy⟩, ih⟩

/-- Where every element passes, so does the list. -/
theorem mapM_ok {f : α → Except ε β} {P : α → β → Prop} (xs : List α)
    (h : ∀ x ∈ xs, ∃ y, f x = .ok y ∧ P x y) :
    ∃ ys, xs.mapM f = .ok ys ∧ List.Forall₂ P xs ys := by
  induction xs with
  | nil => exact ⟨[], rfl, .nil⟩
  | cons x xs ih =>
    obtain ⟨y, hy, hp⟩ := h x (List.mem_cons_self ..)
    obtain ⟨ys, hys, hps⟩ := ih fun z hz => h z (List.mem_cons_of_mem _ hz)
    refine ⟨y :: ys, ?_, .cons hp hps⟩
    rw [List.mapM_cons, hy, hys]
    rfl

theorem mapM_map {γ : Type} (f : α → Except ε β) (g : β → γ) (xs : List α) :
    (xs.mapM f).map (List.map g) = xs.mapM fun x => (f x).map g := by
  induction xs with
  | nil => rfl
  | cons x xs ih =>
    rw [List.mapM_cons, List.mapM_cons, ← ih]
    cases f x with
    | error e => rfl
    | ok y => cases xs.mapM f <;> rfl

/-- A fold fails at the first step that does, with what was held there. -/
theorem foldlM_eq_error_iff {f : β → α → Except ε β} {xs : List α} {b : β} {e : ε} :
    xs.foldlM f b = .error e ↔ ∃ before x after c, xs = before ++ x :: after ∧
      before.foldlM f b = .ok c ∧ f c x = .error e := by
  constructor
  · intro h
    induction xs generalizing b with
    | nil => cases h
    | cons x xs ih =>
      rw [List.foldlM_cons] at h
      cases hx : f b x with
      | error e' =>
        rw [hx] at h
        cases h
        exact ⟨[], x, xs, b, rfl, rfl, hx⟩
      | ok c =>
        rw [hx] at h
        obtain ⟨before, y, after, d, rfl, hbefore, hy⟩ := ih h
        refine ⟨x :: before, y, after, d, rfl, ?_, hy⟩
        rw [List.foldlM_cons, hx]
        exact hbefore
  · rintro ⟨before, x, after, c, rfl, hbefore, hx⟩
    rw [List.foldlM_append, hbefore]
    change (x :: after).foldlM f c = .error e
    rw [List.foldlM_cons, hx]
    rfl

/-- Whatever is on the right comes from the left. -/
theorem exists_of_mem_right {R : α → β → Prop} {xs : List α} {ys : List β}
    (h : List.Forall₂ R xs ys) {y : β} (hy : y ∈ ys) : ∃ x, R x y := by
  induction h with
  | nil => cases hy
  | cons hxy _ ih =>
    cases hy with
    | head => exact ⟨_, hxy⟩
    | tail _ hy => exact ih hy

end TrailingYear
