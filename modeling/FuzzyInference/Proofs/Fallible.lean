import Mathlib.Data.List.Forall2

/-! Computations that may fail: what their parts must have done for the whole to succeed, and whose
error is the error of the whole. -/

namespace FuzzyInference

variable {ε β γ : Type}

theorem bind_eq_ok {x : Except ε β} {f : β → Except ε γ} {c : γ} :
    x >>= f = .ok c ↔ ∃ b, x = .ok b ∧ f b = .ok c := by
  cases x with
  | error e => simp [bind, Except.bind]
  | ok b => simp [bind, Except.bind]

theorem bind_eq_error {x : Except ε β} {f : β → Except ε γ} {e : ε} :
    x >>= f = .error e ↔ x = .error e ∨ ∃ b, x = .ok b ∧ f b = .error e := by
  cases x with
  | error e' => simp [bind, Except.bind]
  | ok b => simp [bind, Except.bind]

theorem map_eq_ok {x : Except ε β} {f : β → γ} {c : γ} :
    x.map f = .ok c ↔ ∃ b, x = .ok b ∧ f b = c := by
  cases x <;> simp [Except.map]

theorem mapError_eq_ok {x : Except ε β} {f : ε → γ} {b : β} :
    x.mapError f = .ok b ↔ x = .ok b := by
  cases x with
  | error e =>
      constructor
      · intro h
        cases h
      · intro h
        cases h
  | ok c =>
      change Except.ok c = .ok b ↔ _
      rw [Except.ok.injEq, Except.ok.injEq]

theorem mapError_eq_error {x : Except ε β} {f : ε → γ} {e : γ} :
    x.mapError f = .error e ↔ ∃ d, x = .error d ∧ f d = e := by
  cases x with
  | error d =>
      change Except.error (f d) = .error e ↔ _
      simp
  | ok b =>
      change Except.ok b = .error e ↔ _
      simp

/-- What holds at the start and is kept by every step that succeeds holds at the end. -/
theorem foldlM_preserves {f : β → γ → Except ε β} {p : β → Prop} {steps : List γ}
    (hstep : ∀ b x b', p b → f b x = .ok b' → p b') {start goal : β} (hstart : p start)
    (h : steps.foldlM f start = .ok goal) : p goal := by
  induction steps generalizing start with
  | nil =>
      cases h
      exact hstart
  | cons x steps ih =>
      rw [List.foldlM_cons, bind_eq_ok] at h
      obtain ⟨b, hb, h⟩ := h
      exact ih (hstep _ _ _ hstart hb) h

theorem foldlM_congr {f g : β → γ → Except ε β} {steps : List γ}
    (h : ∀ x ∈ steps, ∀ b, f b x = g b x) {start : β} :
    steps.foldlM f start = steps.foldlM g start := by
  induction steps generalizing start with
  | nil => rfl
  | cons x steps ih =>
      rw [List.forall_mem_cons] at h
      simp only [List.foldlM_cons, h.1, ih h.2]

/-! ## Lists of results -/

theorem mapM_eq_ok_iff {f : β → Except ε γ} {xs : List β} {ys : List γ} :
    xs.mapM f = .ok ys ↔ List.Forall₂ (fun x y => f x = .ok y) xs ys := by
  induction xs generalizing ys with
  | nil =>
      rw [List.mapM_nil, List.forall₂_nil_left_iff]
      change Except.ok [] = .ok ys ↔ _
      rw [Except.ok.injEq, eq_comm]
  | cons x xs ih =>
      rw [List.mapM_cons, bind_eq_ok, List.forall₂_cons_left_iff]
      constructor
      · rintro ⟨y, hy, h⟩
        obtain ⟨ys', hys, h⟩ := bind_eq_ok.mp h
        cases h
        exact ⟨y, ys', hy, ih.mp hys, rfl⟩
      · rintro ⟨y, ys', hy, hys, rfl⟩
        exact ⟨y, hy, bind_eq_ok.mpr ⟨ys', ih.mpr hys, rfl⟩⟩

theorem exists_forall₂_iff {R : β → γ → Prop} {xs : List β} :
    (∃ ys, List.Forall₂ R xs ys) ↔ ∀ x ∈ xs, ∃ y, R x y := by
  induction xs with
  | nil => simp
  | cons x xs ih =>
      simp only [List.forall₂_cons_left_iff, List.forall_mem_cons, ← ih]
      constructor
      · rintro ⟨_, y, ys, hy, hys, rfl⟩
        exact ⟨⟨y, hy⟩, ys, hys⟩
      · rintro ⟨⟨y, hy⟩, ys, hys⟩
        exact ⟨_, y, ys, hy, hys, rfl⟩

/-! ## Two computations -/

/-- Both succeed with related results, or both fail with related errors. -/
inductive Agree {ε' γ : Type} (E : ε → ε' → Prop) (R : β → γ → Prop) :
    Except ε β → Except ε' γ → Prop where
  | ok {b c} : R b c → Agree E R (.ok b) (.ok c)
  | error {e e'} : E e e' → Agree E R (.error e) (.error e')

/-- Computations agree if their first parts do and the rests agree on related results. -/
theorem Agree.bind {ε' β' γ' : Type} {E : ε → ε' → Prop} {R : β → γ → Prop} {S : β' → γ' → Prop}
    {x : Except ε β} {y : Except ε' γ} {f : β → Except ε β'} {g : γ → Except ε' γ'}
    (h : Agree E R x y) (hfg : ∀ b c, R b c → Agree E S (f b) (g c)) :
    Agree E S (x >>= f) (y >>= g) := by
  cases h with
  | ok hr => exact hfg _ _ hr
  | error he => exact .error he

theorem Agree.bind_eq {ε' β' γ' : Type} {E : ε → ε' → Prop} {S : β' → γ' → Prop}
    {x : Except ε β} {y : Except ε' β} {f : β → Except ε β'} {g : β → Except ε' γ'}
    (h : Agree E Eq x y) (hfg : ∀ b, Agree E S (f b) (g b)) : Agree E S (x >>= f) (y >>= g) := by
  refine h.bind ?_
  rintro b _ rfl
  exact hfg b

/-! ## Failures -/

/-- The error of a computation, if it failed. -/
def failure? : Except ε β → Option ε
  | .error e => some e
  | .ok _ => none

@[simp] theorem failure?_ok (b : β) : failure? (.ok b : Except ε β) = none := rfl

@[simp] theorem failure?_error (e : ε) : failure? (.error e : Except ε β) = some e := rfl

theorem failure?_eq_none_iff {x : Except ε β} : failure? x = none ↔ ∃ b, x = .ok b := by
  cases x <;> simp

theorem failure?_eq_some_iff {x : Except ε β} {e : ε} : failure? x = some e ↔ x = .error e := by
  cases x <;> simp

theorem toOption_eq_some_iff {x : Except ε β} {b : β} : x.toOption = some b ↔ x = .ok b := by
  cases x <;> simp [Except.toOption]

/-- The first part fails, or else the second one as it does whatever the first one gives. -/
theorem failure?_bind {x : Except ε β} {f : β → Except ε γ} {o : Option ε}
    (hf : ∀ b, x = .ok b → failure? (f b) = o) : failure? (x >>= f) = (failure? x).or o := by
  cases x with
  | error e => rfl
  | ok b => exact hf b rfl

@[simp] theorem failure?_map {x : Except ε β} {f : β → γ} : failure? (x.map f) = failure? x := by
  cases x <;> rfl

/-- A fold fails as the first of its steps that fails, if what came before has no say in that. -/
theorem failure?_foldlM {f : β → γ → Except ε β} {g : γ → Option ε}
    (hf : ∀ b x, failure? (f b x) = g x) (steps : List γ) (start : β) :
    failure? (steps.foldlM f start) = steps.findSome? g := by
  induction steps generalizing start with
  | nil => rfl
  | cons x steps ih =>
      rw [List.foldlM_cons, failure?_bind fun b _ => ih b, hf, List.findSome?_cons]
      cases g x <;> rfl

/-- Where what came before has no say in failure and steps that do not fail are plain, so is the
whole fold. -/
theorem foldlM_eq_ok_iff {f : β → γ → Except ε β} {g : γ → Option ε} {plain : β → γ → β}
    (hf : ∀ b x, failure? (f b x) = g x) (hplain : ∀ {x}, g x = none → ∀ b, f b x = .ok (plain b x))
    {steps : List γ} {start goal : β} : steps.foldlM f start = .ok goal ↔
      (∀ x ∈ steps, g x = none) ∧ goal = steps.foldl plain start := by
  induction steps generalizing start with
  | nil =>
      rw [List.foldlM_nil, List.foldl_nil]
      change Except.ok start = .ok goal ↔ _
      simp [eq_comm]
  | cons x steps ih =>
      rw [List.foldlM_cons, bind_eq_ok, List.forall_mem_cons, List.foldl_cons, and_assoc]
      constructor
      · rintro ⟨b, hx, hrest⟩
        have hnone : g x = none := by rw [← hf start x, hx, failure?_ok]
        rw [hplain hnone, Except.ok.injEq] at hx
        exact ⟨hnone, ih.mp (hx ▸ hrest)⟩
      · rintro ⟨hnone, hrest⟩
        exact ⟨_, hplain hnone start, ih.mpr hrest⟩

end FuzzyInference
