import Mathlib.Data.List.Basic

/-! # Computations that may fail

What a sequence of fallible steps did when it succeeded and when it failed. -/

namespace Irena.Library.Outcome

variable {ε ε' α β σ : Type}

/-- Fails with `e` unless `c` holds. -/
def ensure (c : Prop) [Decidable c] (e : ε) : Except ε Unit := if c then .ok () else .error e

@[simp] theorem ensure_eq_ok {c : Prop} [Decidable c] {e : ε} {u : Unit} :
    ensure c e = .ok u ↔ c := by
  unfold ensure
  split <;> simp_all

@[simp] theorem ensure_eq_error {c : Prop} [Decidable c] {e e' : ε} :
    ensure c e = .error e' ↔ ¬ c ∧ e = e' := by
  unfold ensure
  split <;> simp_all

theorem ensure_of {c : Prop} [Decidable c] {e : ε} (h : c) : ensure c e = .ok () := if_pos h

theorem ensure_of_not {c : Prop} [Decidable c] {e : ε} (h : ¬ c) : ensure c e = .error e := if_neg h

@[simp] theorem bind_eq_ok {x : Except ε α} {f : α → Except ε β} {b : β} :
    (x >>= f) = .ok b ↔ ∃ a, x = .ok a ∧ f a = .ok b := by
  cases x <;> simp [bind, Except.bind]

@[simp] theorem bind_eq_error {x : Except ε α} {f : α → Except ε β} {e : ε} :
    (x >>= f) = .error e ↔ x = .error e ∨ ∃ a, x = .ok a ∧ f a = .error e := by
  cases x <;> simp [bind, Except.bind]

/-- An outcome that is there, and what it is. -/
theorem eq_ok_of_toOption {x : Except ε α} (h : x.toOption.isSome = true) :
    x = .ok (x.toOption.get h) := by
  cases x with
  | error e => cases h
  | ok a => rfl

@[simp] theorem map_eq_ok {x : Except ε α} {f : α → β} {b : β} :
    f <$> x = .ok b ↔ ∃ a, x = .ok a ∧ f a = b := by
  cases x <;> simp [Functor.map, Except.map]

@[simp] theorem map_eq_error {x : Except ε α} {f : α → β} {e : ε} :
    f <$> x = .error e ↔ x = .error e := by
  cases x <;> simp [Functor.map, Except.map]

@[simp] theorem ok_bind (a : α) (f : α → Except ε β) : (Except.ok a >>= f) = f a := rfl

@[simp] theorem error_bind (e : ε) (f : α → Except ε β) : (Except.error e >>= f) = .error e := rfl

@[simp] theorem pure_eq_ok (a : α) : (pure a : Except ε α) = .ok a := rfl

@[simp] theorem throw_eq_error (e : ε) : (throw e : Except ε α) = .error e := rfl

/-- The value of an option, or an error in its place. -/
def orError (o : Option α) (e : ε) : Except ε α :=
  match o with
  | some a => .ok a
  | none => .error e

@[simp] theorem orError_eq_ok {o : Option α} {e : ε} {a : α} : orError o e = .ok a ↔ o = some a := by
  cases o <;> simp [orError]

@[simp] theorem orError_eq_error {o : Option α} {e e' : ε} :
    orError o e = .error e' ↔ o = none ∧ e = e' := by
  cases o <;> simp [orError]

@[simp] theorem orError_some (a : α) (e : ε) : orError (some a) e = .ok a := rfl

/-- The same computation with its error renamed. -/
def mapErr (f : ε → ε') : Except ε α → Except ε' α
  | .ok a => .ok a
  | .error e => .error (f e)

@[simp] theorem mapErr_eq_ok {f : ε → ε'} {x : Except ε α} {a : α} :
    mapErr f x = .ok a ↔ x = .ok a := by
  cases x <;> simp [mapErr]

@[simp] theorem mapErr_eq_error {f : ε → ε'} {x : Except ε α} {e : ε'} :
    mapErr f x = .error e ↔ ∃ e₀, x = .error e₀ ∧ f e₀ = e := by
  cases x <;> simp [mapErr]

@[simp] theorem mapErr_ok (f : ε → ε') (a : α) : mapErr f (.ok a) = .ok a := rfl

/-- A map none of whose steps fails. -/
theorem mapM_of_forall {f : α → Except ε β} {g : α → β} {xs : List α}
    (h : ∀ x ∈ xs, f x = .ok (g x)) : xs.mapM f = .ok (xs.map g) := by
  induction xs with
  | nil => rfl
  | cons x xs ih =>
    have htail := ih fun y hy => h y (List.mem_cons_of_mem _ hy)
    rw [List.mapM_cons, h x (List.mem_cons_self ..), ok_bind, htail]
    rfl

theorem mapM_isOk {f : α → Except ε β} {xs : List α} (h : ∀ x ∈ xs, ∃ y, f x = .ok y) :
    ∃ ys, xs.mapM f = .ok ys := by
  induction xs with
  | nil => exact ⟨[], rfl⟩
  | cons x xs ih =>
    obtain ⟨y, hy⟩ := h x (List.mem_cons_self ..)
    obtain ⟨ys, hys⟩ := ih fun z hz => h z (List.mem_cons_of_mem _ hz)
    exact ⟨y :: ys, by rw [List.mapM_cons, hy, ok_bind, hys]; rfl⟩

/-- What every step carries over, the whole map carries over. -/
theorem map_eq_of_mapM {γ : Type} {f : α → Except ε β} {p : β → γ} {q : α → γ} {xs : List α}
    {ys : List β} (hstep : ∀ x ∈ xs, ∀ y, f x = .ok y → p y = q x) (h : xs.mapM f = .ok ys) :
    ys.map p = xs.map q := by
  induction xs generalizing ys with
  | nil =>
    obtain rfl := Except.ok.inj h
    rfl
  | cons x xs ih =>
    simp only [List.mapM_cons, bind_eq_ok, pure_eq_ok, Except.ok.injEq] at h
    obtain ⟨y, hy, rest, hrest, rfl⟩ := h
    rw [List.map_cons, List.map_cons, hstep x (List.mem_cons_self ..) y hy,
      ih (fun z hz => hstep z (List.mem_cons_of_mem _ hz)) hrest]

variable {step : σ → α → Except ε σ}

/-- A fold that fails on a list fails alike on every longer one. -/
theorem foldlM_append_error {s : σ} {xs ys : List α} {e : ε}
    (h : xs.foldlM step s = .error e) : (xs ++ ys).foldlM step s = .error e := by
  rw [List.foldlM_append, h]
  rfl

theorem foldlM_append_ok {s t : σ} {xs ys : List α} (h : xs.foldlM step s = .ok t) :
    (xs ++ ys).foldlM step s = ys.foldlM step t := by
  rw [List.foldlM_append, h]
  rfl

/-- Where a fold fails, one element is to blame and everything before it succeeds. -/
theorem exists_of_foldlM_error {s : σ} {xs : List α} {e : ε} (h : xs.foldlM step s = .error e) :
    ∃ pre x post t, xs = pre ++ x :: post ∧ pre.foldlM step s = .ok t ∧ step t x = .error e := by
  induction xs generalizing s with
  | nil => cases h
  | cons x xs ih =>
    rw [List.foldlM_cons] at h
    cases hx : step s x with
    | error e' =>
      rw [hx] at h
      exact ⟨[], x, xs, s, rfl, rfl, hx.trans h⟩
    | ok t =>
      rw [hx] at h
      obtain ⟨pre, y, post, u, rfl, hpre, hy⟩ := ih h
      refine ⟨x :: pre, y, post, u, rfl, ?_, hy⟩
      rw [List.foldlM_cons, hx]
      exact hpre

end Irena.Library.Outcome
