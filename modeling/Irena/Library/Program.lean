import Irena.Library.Outcome

/-! # Programs over a shared state

A program reaches a shared state through atomic accesses and ends with a result or an error. It is
run alone, or among others who move the state between its accesses. -/

namespace Irena.Library

/-- An access changes the state by `effect` and goes on with what it saw there before. -/
inductive Program (σ ε α : Type) where
  | done (result : Except ε α)
  | access (effect : σ → σ) (next : σ → Program σ ε α)

namespace Program

variable {σ ε ε' α β : Type}

protected def bind (p : Program σ ε α) (f : α → Program σ ε β) : Program σ ε β :=
  match p with
  | done (.ok a) => f a
  | done (.error e) => done (.error e)
  | access effect next => access effect fun s => Program.bind (next s) f

instance : Monad (Program σ ε) where
  pure a := done (.ok a)
  bind := Program.bind

def fail (e : ε) : Program σ ε α := done (.error e)

/-- A step that touches no shared state. -/
def lift (x : Except ε α) : Program σ ε α := done x

/-- One atomic look at the state. -/
def read (f : σ → Except ε α) : Program σ ε α := access id fun s => done (f s)

/-- One atomic change of the state. -/
def modify (f : σ → Except ε α × σ) : Program σ ε α := access (fun s => (f s).2) fun s => done (f s).1

/-- The same program with its error renamed. -/
def mapError (f : ε → ε') : Program σ ε α → Program σ ε' α
  | done x => done (Outcome.mapErr f x)
  | access effect next => access effect fun s => mapError f (next s)

/-- The same program with its outcome as its result, so that what follows can go on from it. -/
def attempt : Program σ ε α → Program σ ε' (Except ε α)
  | done x => done (.ok x)
  | access effect next => access effect fun s => attempt (next s)

def run : Program σ ε α → σ → Except ε α × σ
  | done x, s => (x, s)
  | access effect next, s => run (next s) (effect s)

@[simp] theorem run_done (x : Except ε α) (s : σ) : (done x : Program σ ε α).run s = (x, s) := rfl

@[simp] theorem run_pure (a : α) (s : σ) : (pure a : Program σ ε α).run s = (.ok a, s) := rfl

@[simp] theorem run_fail (e : ε) (s : σ) : (fail e : Program σ ε α).run s = (.error e, s) := rfl

@[simp] theorem run_lift (x : Except ε α) (s : σ) : (lift x : Program σ ε α).run s = (x, s) := rfl

@[simp] theorem run_read (f : σ → Except ε α) (s : σ) : (read f).run s = (f s, s) := rfl

@[simp] theorem run_modify (f : σ → Except ε α × σ) (s : σ) : (modify f).run s = f s := rfl

theorem run_bind (p : Program σ ε α) (f : α → Program σ ε β) (s : σ) :
    (p >>= f).run s =
      match p.run s with
      | (.ok a, s') => (f a).run s'
      | (.error e, s') => (.error e, s') := by
  induction p generalizing s with
  | done x => cases x <;> rfl
  | access effect next ih => exact ih s (effect s)

@[simp] theorem run_mapError (f : ε → ε') (p : Program σ ε α) (s : σ) :
    (p.mapError f).run s = (Outcome.mapErr f (p.run s).1, (p.run s).2) := by
  induction p generalizing s with
  | done x => rfl
  | access effect next ih => exact ih s (effect s)

@[simp] theorem run_attempt (p : Program σ ε α) (s : σ) :
    (p.attempt : Program σ ε' (Except ε α)).run s = (.ok (p.run s).1, (p.run s).2) := by
  induction p generalizing s with
  | done x => rfl
  | access effect next ih => exact ih s (effect s)

/-- What a successful sequence did. -/
theorem run_bind_ok {p : Program σ ε α} {f : α → Program σ ε β} {s t : σ} {b : β} :
    (p >>= f).run s = (.ok b, t) ↔
      ∃ a u, p.run s = (.ok a, u) ∧ (f a).run u = (.ok b, t) := by
  rw [run_bind]
  rcases p.run s with ⟨x | a, u⟩ <;> simp

/-- Where a failed sequence failed. -/
theorem run_bind_error {p : Program σ ε α} {f : α → Program σ ε β} {s t : σ} {e : ε} :
    (p >>= f).run s = (.error e, t) ↔
      p.run s = (.error e, t) ∨ ∃ a u, p.run s = (.ok a, u) ∧ (f a).run u = (.error e, t) := by
  rw [run_bind]
  rcases p.run s with ⟨x | a, u⟩ <;> simp

theorem run_bind_of_ok {p : Program σ ε α} {f : α → Program σ ε β} {s u : σ} {a : α}
    (h : p.run s = (.ok a, u)) : (p >>= f).run s = (f a).run u := by
  rw [run_bind, h]

theorem run_bind_of_error {p : Program σ ε α} {f : α → Program σ ε β} {s u : σ} {e : ε}
    (h : p.run s = (.error e, u)) : (p >>= f).run s = (.error e, u) := by
  rw [run_bind, h]

/-- A run during which others may move the state before each access. -/
inductive RunsAmong (others : σ → σ → Prop) : Program σ ε α → σ → Except ε α → σ → Prop
  | done (x : Except ε α) (s : σ) : RunsAmong others (.done x) s x s
  | access {effect : σ → σ} {next : σ → Program σ ε α} {s u t : σ} {x : Except ε α}
      (h : others s u) (hrest : RunsAmong others (next u) (effect u) x t) :
      RunsAmong others (.access effect next) s x t

section Among

variable {others : σ → σ → Prop} {s t : σ}

/-- A run alone is one among others who do nothing. -/
theorem RunsAmong.of_run (hrefl : ∀ s, others s s) {p : Program σ ε α} {x : Except ε α}
    (h : p.run s = (x, t)) : RunsAmong others p s x t := by
  induction p generalizing s with
  | done y =>
    obtain ⟨rfl, rfl⟩ := Prod.mk.inj h
    exact .done y s
  | access effect next ih => exact .access (hrefl s) (ih s h)

/-- A run among others who may do more is a run among them. -/
theorem RunsAmong.mono {others' : σ → σ → Prop} (hmono : ∀ s t, others s t → others' s t)
    {p : Program σ ε α} {x : Except ε α} (h : RunsAmong others p s x t) :
    RunsAmong others' p s x t := by
  induction h with
  | done x s => exact .done x s
  | access hothers _ ih => exact .access (hmono _ _ hothers) ih

theorem RunsAmong.bind {p : Program σ ε α} {f : α → Program σ ε β} {a : α} {u : σ}
    {x : Except ε β} (h : RunsAmong others p s (.ok a) u) (hf : RunsAmong others (f a) u x t) :
    RunsAmong others (p >>= f) s x t := by
  induction p generalizing s with
  | done y =>
    cases h
    exact hf
  | access effect next ih =>
    cases h with
    | access hothers hrest => exact .access hothers (ih _ hrest)

theorem RunsAmong.bind_ok {p : Program σ ε α} {f : α → Program σ ε β} {b : β}
    (h : RunsAmong others (p >>= f) s (.ok b) t) :
    ∃ a u, RunsAmong others p s (.ok a) u ∧ RunsAmong others (f a) u (.ok b) t := by
  induction p generalizing s with
  | done x =>
    cases x with
    | ok a => exact ⟨a, s, .done _ s, h⟩
    | error e => cases h
  | access effect next ih =>
    cases h with
    | access hothers hrest =>
      obtain ⟨a, u, hp, hf⟩ := ih _ hrest
      exact ⟨a, u, .access hothers hp, hf⟩

theorem RunsAmong.lift {x y : Except ε α} (h : RunsAmong others (Program.lift x) s y t) :
    y = x ∧ t = s := by
  cases h
  exact ⟨rfl, rfl⟩

theorem RunsAmong.pure_ok {a b : α}
    (h : RunsAmong others (pure a : Program σ ε α) s (.ok b) t) : b = a ∧ t = s := by
  cases h
  exact ⟨rfl, rfl⟩

theorem RunsAmong.read {f : σ → Except ε α} {x : Except ε α}
    (h : RunsAmong others (Program.read f) s x t) : others s t ∧ x = f t := by
  cases h with
  | access hothers hrest =>
    cases hrest
    exact ⟨hothers, rfl⟩

theorem RunsAmong.modify {f : σ → Except ε α × σ} {x : Except ε α}
    (h : RunsAmong others (Program.modify f) s x t) : ∃ u, others s u ∧ f u = (x, t) := by
  cases h with
  | @access _ _ _ u _ _ hothers hrest =>
    cases hrest
    exact ⟨u, hothers, rfl⟩

theorem RunsAmong.mapError_ok {f : ε → ε'} {p : Program σ ε α} {a : α}
    (h : RunsAmong others (p.mapError f) s (.ok a) t) : RunsAmong others p s (.ok a) t := by
  induction p generalizing s with
  | done x =>
    cases x with
    | ok b =>
      cases h
      exact .done _ _
    | error e => cases h
  | access effect next ih =>
    cases h with
    | access hothers hrest => exact .access hothers (ih _ hrest)

theorem RunsAmong.attempt {p : Program σ ε α} {x : Except ε' (Except ε α)}
    (h : RunsAmong others p.attempt s x t) : ∃ y, x = .ok y ∧ RunsAmong others p s y t := by
  induction p generalizing s with
  | done y =>
    cases h
    exact ⟨y, rfl, .done y _⟩
  | access effect next ih =>
    cases h with
    | access hothers hrest =>
      obtain ⟨y, rfl, hy⟩ := ih _ hrest
      exact ⟨y, rfl, .access hothers hy⟩

theorem RunsAmong.attempts {p : Program σ ε α} {x : Except ε α} (h : RunsAmong others p s x t) :
    RunsAmong others (p.attempt : Program σ ε' (Except ε α)) s (.ok x) t := by
  induction h with
  | done x s => exact .done _ s
  | access hothers _ ih => exact .access hothers ih

/-- Every access moves the state by the relation. -/
def Moves (R : σ → σ → Prop) : Program σ ε α → Prop
  | done _ => True
  | access effect next => ∀ s, R s (effect s) ∧ Moves R (next s)

variable {R : σ → σ → Prop}

theorem Moves.bind {p : Program σ ε α} {f : α → Program σ ε β} (hp : p.Moves R)
    (hf : ∀ a, (f a).Moves R) : (p >>= f).Moves R := by
  induction p with
  | done x =>
    cases x with
    | ok a => exact hf a
    | error e => trivial
  | access effect next ih => exact fun s => ⟨(hp s).1, ih s (hp s).2⟩

theorem Moves.lift (x : Except ε α) : (Program.lift x : Program σ ε α).Moves R := trivial

theorem Moves.read (hrefl : ∀ s, R s s) (f : σ → Except ε α) : (Program.read f).Moves R :=
  fun s => ⟨hrefl s, trivial⟩

theorem Moves.modify {f : σ → Except ε α × σ} (h : ∀ s, R s (f s).2) : (Program.modify f).Moves R :=
  fun s => ⟨h s, trivial⟩

theorem Moves.attempt {p : Program σ ε α} (hp : p.Moves R) :
    (p.attempt : Program σ ε' (Except ε α)).Moves R := by
  induction p with
  | done x => trivial
  | access effect next ih => exact fun s => ⟨(hp s).1, ih s (hp s).2⟩

/-- What follows a step that touches nothing may rely on what the step answered. -/
theorem Moves.bind_lift {x : Except ε α} {f : α → Program σ ε β}
    (hf : ∀ a, x = .ok a → (f a).Moves R) : (Program.lift x >>= f).Moves R := by
  cases x with
  | ok a => exact hf a rfl
  | error e => trivial

theorem Moves.mapError {f : ε → ε'} {p : Program σ ε α} (hp : p.Moves R) :
    (p.mapError f).Moves R := by
  induction p with
  | done x => trivial
  | access effect next ih => exact fun s => ⟨(hp s).1, ih s (hp s).2⟩

/-- Where a program and the others move by one relation, so does the run. -/
theorem RunsAmong.moves (hrefl : ∀ s, R s s) (htrans : ∀ s t u, R s t → R t u → R s u)
    {p : Program σ ε α} {x : Except ε α} (hp : p.Moves R) (h : RunsAmong R p s x t) : R s t := by
  induction h with
  | done x s => exact hrefl s
  | access hothers hrest ih =>
    exact htrans _ _ _ (htrans _ _ _ hothers (hp _).1) (ih (hp _).2)

end Among

end Program

end Irena.Library
