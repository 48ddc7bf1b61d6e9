import Irena.Library.Contract
import Irena.Library.Namespaces
import Mathlib.Logic.Relation

/-! # Reading by loops over events

A reader is a computation on a cursor that may fail. A loop runs its body until the body breaks;
every round consumes text, so a loop ends, and what it did is a chain of rounds. -/

namespace Irena.Library.Markup

open Outcome

variable [NamespaceScanner] {ε α β σ : Type}

abbrev Reads (ε : Type) := StateT Cursor (Except ε)

namespace Reads

/-- What a successful sequence did. -/
theorem bind_ok {p : Reads ε α} {f : α → Reads ε β} {c c'' : Cursor} {b : β} :
    (p >>= f) c = .ok (b, c'') ↔ ∃ a c', p c = .ok (a, c') ∧ f a c' = .ok (b, c'') := by
  change StateT.bind p f c = _ ↔ _
  rw [StateT.bind, Outcome.bind_eq_ok]
  simp only [Prod.exists]

theorem bind_of_ok {p : Reads ε α} {f : α → Reads ε β} {c c' : Cursor} {a : α}
    (h : p c = .ok (a, c')) : (p >>= f) c = f a c' := by
  change StateT.bind p f c = _
  rw [StateT.bind, h]
  rfl

theorem bind_error {p : Reads ε α} {f : α → Reads ε β} {c : Cursor} {e : ε} :
    (p >>= f) c = .error e ↔
      p c = .error e ∨ ∃ a c', p c = .ok (a, c') ∧ f a c' = .error e := by
  change StateT.bind p f c = _ ↔ _
  rw [StateT.bind, Outcome.bind_eq_error]
  simp only [Prod.exists]

@[simp] theorem pure_ok {a b : α} {c c' : Cursor} :
    (pure a : Reads ε α) c = .ok (b, c') ↔ a = b ∧ c = c' := by
  change Except.ok (a, c) = .ok (b, c') ↔ _
  simp

@[simp] theorem pure_error {a : α} {c : Cursor} {e : ε} :
    ¬ (pure a : Reads ε α) c = .error e := nofun

@[simp] theorem throw_apply {e : ε} {c : Cursor} : (throw e : Reads ε α) c = .error e := rfl

/-- A result that reads nothing. -/
@[simp] theorem lift_ok {x : Except ε α} {a : α} {c c' : Cursor} :
    (liftM x : Reads ε α) c = .ok (a, c') ↔ x = .ok a ∧ c = c' := by
  change StateT.lift x c = _ ↔ _
  cases x <;> simp [StateT.lift]

@[simp] theorem lift_error {x : Except ε α} {c : Cursor} {e : ε} :
    (liftM x : Reads ε α) c = .error e ↔ x = .error e := by
  change StateT.lift x c = _ ↔ _
  cases x <;> simp [StateT.lift]

theorem lift_bind {x : Except ε α} {f : α → Reads ε β} {c : Cursor} :
    ((liftM x : Reads ε α) >>= f) c =
      match x with
      | .ok a => f a c
      | .error e => .error e := by
  cases x <;> rfl

/-- What a successful sequence did that starts with a result. -/
theorem lift_bind_ok {x : Except ε α} {f : α → Reads ε β} {c c' : Cursor} {b : β} :
    ((liftM x : Reads ε α) >>= f) c = .ok (b, c') ↔ ∃ a, x = .ok a ∧ f a c = .ok (b, c') := by
  rw [lift_bind]
  cases x <;> simp

/-- Runs `body` until it breaks with a result. The fuel bounds the rounds. -/
def loopWithin (spent : ε) (body : σ → Reads ε (σ ⊕ α)) : ℕ → σ → Reads ε α
  | 0, _ => throw spent
  | fuel + 1, s => do
    match ← body s with
    | .inl s' => loopWithin spent body fuel s'
    | .inr a => return a

/-- A loop whose rounds consume text. -/
def loop (spent : ε) (body : σ → Reads ε (σ ⊕ α)) (s : σ) : Reads ε α := fun c =>
  loopWithin spent body (c.rest.length + 1) s c

variable {spent : ε} {body : σ → Reads ε (σ ⊕ α)}

/-- Every round that goes on has consumed text. -/
def Consumes (body : σ → Reads ε (σ ⊕ α)) : Prop :=
  ∀ ⦃s s' : σ⦄ ⦃c c' : Cursor⦄, body s c = .ok (.inl s', c') → c'.rest.length < c.rest.length

/-- The rounds of a loop. -/
def Rounds (body : σ → Reads ε (σ ⊕ α)) : σ × Cursor → σ × Cursor → Prop :=
  Relation.ReflTransGen fun p q => body p.1 p.2 = .ok (.inl q.1, q.2)

theorem Rounds.refl (p : σ × Cursor) : Rounds body p p := Relation.ReflTransGen.refl

theorem Rounds.tail {p : σ × Cursor} {s s' : σ} {c c' : Cursor} (h : Rounds body p (s, c))
    (hbody : body s c = .ok (.inl s', c')) : Rounds body p (s', c') :=
  Relation.ReflTransGen.tail h hbody

theorem Rounds.head {s s' : σ} {c c' : Cursor} {q : σ × Cursor}
    (hbody : body s c = .ok (.inl s', c')) (h : Rounds body (s', c') q) : Rounds body (s, c) q :=
  Relation.ReflTransGen.head (b := (s', c')) hbody h

/-- What holds at the start and is kept by each round holds after any of them. -/
theorem Rounds.invariant {I : σ → Cursor → Prop} {s t : σ} {c d : Cursor}
    (h : Rounds body (s, c) (t, d)) (hs : I s c)
    (hstep : ∀ {s s' c c'}, I s c → body s c = .ok (.inl s', c') → I s' c') : I t d := by
  suffices hall : ∀ q, Rounds body (s, c) q → I q.1 q.2 from hall _ h
  intro q hq
  induction hq with
  | refl => exact hs
  | tail _ hbody ih => exact hstep ih hbody

theorem loopWithin_ok {fuel : ℕ} {s : σ} {a : α} {c c' : Cursor}
    (h : loopWithin spent body fuel s c = .ok (a, c')) :
    ∃ t d, Rounds body (s, c) (t, d) ∧ body t d = .ok (.inr a, c') := by
  induction fuel generalizing s c with
  | zero => cases h
  | succ fuel ih =>
    obtain ⟨round, c₁, hbody, hrest⟩ := bind_ok.mp h
    cases round with
    | inl s₁ =>
      obtain ⟨t, d, hrounds, hlast⟩ := ih hrest
      exact ⟨t, d, hrounds.head hbody, hlast⟩
    | inr b =>
      obtain ⟨rfl, rfl⟩ := pure_ok.mp hrest
      exact ⟨s, c, .refl _, hbody⟩

theorem loopWithin_error (hconsumes : Consumes body) {fuel : ℕ} {s : σ} {e : ε} {c : Cursor}
    (hfuel : c.rest.length < fuel) (h : loopWithin spent body fuel s c = .error e) :
    ∃ t d, Rounds body (s, c) (t, d) ∧ body t d = .error e := by
  induction fuel generalizing s c with
  | zero => omega
  | succ fuel ih =>
    rcases bind_error.mp h with hbody | ⟨round, c₁, hbody, hrest⟩
    · exact ⟨s, c, .refl _, hbody⟩
    · cases round with
      | inl s₁ =>
        have hlt := hconsumes hbody
        obtain ⟨t, d, hrounds, hlast⟩ := ih (by omega) hrest
        exact ⟨t, d, hrounds.head hbody, hlast⟩
      | inr b => exact absurd hrest pure_error

/-- From any of its rounds on a loop goes on alike. -/
theorem loopWithin_of_rounds (hconsumes : Consumes body) {s t : σ} {c d : Cursor} {fuel : ℕ}
    (hfuel : c.rest.length < fuel) (h : Rounds body (s, c) (t, d)) :
    ∃ left, d.rest.length < left ∧
      loopWithin spent body fuel s c = loopWithin spent body left t d := by
  suffices hall : ∀ q, Rounds body (s, c) q → ∃ left, q.2.rest.length < left ∧
      loopWithin spent body fuel s c = loopWithin spent body left q.1 q.2 from hall _ h
  intro q hq
  induction hq with
  | refl => exact ⟨fuel, hfuel, rfl⟩
  | tail _ hbody ih =>
    rename_i p q
    obtain ⟨left, hleft, heq⟩ := ih
    obtain ⟨left, rfl⟩ : ∃ n, left = n + 1 := ⟨left - 1, by omega⟩
    have hlt := hconsumes hbody
    exact ⟨left, by omega, heq.trans (bind_of_ok hbody)⟩

/-- A loop succeeds exactly when one of its rounds breaks. -/
theorem loop_ok (hconsumes : Consumes body) {s : σ} {a : α} {c c' : Cursor} :
    loop spent body s c = .ok (a, c') ↔
      ∃ t d, Rounds body (s, c) (t, d) ∧ body t d = .ok (.inr a, c') := by
  refine ⟨loopWithin_ok, ?_⟩
  rintro ⟨t, d, hrounds, hlast⟩
  obtain ⟨left, hleft, heq⟩ : ∃ left, d.rest.length < left ∧ loop spent body s c = _ :=
    loopWithin_of_rounds hconsumes (Nat.lt_succ_self _) hrounds
  obtain ⟨left, rfl⟩ : ∃ n, left = n + 1 := ⟨left - 1, by omega⟩
  exact heq.trans (bind_ok.mpr ⟨_, _, hlast, rfl⟩)

/-- A loop fails exactly when one of its rounds does. -/
theorem loop_error (hconsumes : Consumes body) {s : σ} {e : ε} {c : Cursor} :
    loop spent body s c = .error e ↔
      ∃ t d, Rounds body (s, c) (t, d) ∧ body t d = .error e := by
  refine ⟨loopWithin_error hconsumes (Nat.lt_succ_self _), ?_⟩
  rintro ⟨t, d, hrounds, hlast⟩
  obtain ⟨left, hleft, heq⟩ : ∃ left, d.rest.length < left ∧ loop spent body s c = _ :=
    loopWithin_of_rounds hconsumes (Nat.lt_succ_self _) hrounds
  obtain ⟨left, rfl⟩ : ∃ n, left = n + 1 := ⟨left - 1, by omega⟩
  exact heq.trans (bind_error.mpr (.inl hlast))

/-- Wherever it starts, the computation answers a value with `Q` or fails with `R`. -/
def Ends (p : Reads ε α) (Q : α → Prop) (R : ε → Prop) : Prop :=
  ∀ c, Outcome.Ends (p c) (fun x => Q x.1) R

section Ends

variable {P Q : α → Prop} {R : ε → Prop}

theorem ends_pure {a : α} (h : Q a) : Ends (pure a : Reads ε α) Q R := fun _ => h

theorem ends_throw {e : ε} (h : R e) : Ends (throw e : Reads ε α) Q R := fun _ => h

theorem ends_lift {x : Except ε α} (h : Outcome.Ends x Q R) :
    Ends (liftM x : Reads ε α) Q R := by
  intro c
  cases x <;> exact h

theorem Ends.bind {p : Reads ε α} {f : α → Reads ε β} {Q : β → Prop} (hp : Ends p P R)
    (hf : ∀ a, P a → Ends (f a) Q R) : Ends (p >>= f) Q R := by
  intro c
  change Outcome.Ends (StateT.bind p f c) _ R
  rw [StateT.bind]
  exact Outcome.Ends.bind (hp c) fun x hx => hf x.1 hx x.2

theorem Ends.mono {p : Reads ε α} (h : Ends p P R) (hQ : ∀ a, P a → Q a) : Ends p Q R :=
  fun c => (h c).mono fun x => hQ x.1

/-- What every round keeps holds when the loop breaks. -/
theorem ends_loop {I : σ → Prop} (hspent : R spent)
    (hbody : ∀ s, I s → Ends (body s) (Sum.elim I Q) R) {s : σ} (hs : I s) :
    Ends (loop spent body s) Q R := by
  suffices hall : ∀ fuel s, I s → Ends (loopWithin spent body fuel s) Q R from
    fun c => hall _ s hs c
  intro fuel
  induction fuel with
  | zero => exact fun s _ => ends_throw hspent
  | succ fuel ih =>
    intro s hs
    refine (hbody s hs).bind fun round hround => ?_
    cases round with
    | inl s' => exact ih s' hround
    | inr a => exact ends_pure hround

end Ends

/-- A computation that only moves forward. -/
def Forward (p : Reads ε α) : Prop :=
  ∀ ⦃a c c'⦄, p c = .ok (a, c') → c'.rest <:+ c.rest

theorem forward_pure (a : α) : Forward (pure a : Reads ε α) := by
  intro b c c' h
  obtain ⟨-, rfl⟩ := pure_ok.mp h
  exact List.suffix_refl _

theorem forward_lift (x : Except ε α) : Forward (liftM x : Reads ε α) := by
  intro a c c' h
  obtain ⟨-, rfl⟩ := lift_ok.mp h
  exact List.suffix_refl _

theorem forward_throw (e : ε) : Forward (throw e : Reads ε α) := fun _ _ _ h => nomatch h

theorem Forward.bind {p : Reads ε α} {f : α → Reads ε β} (hp : Forward p)
    (hf : ∀ a, Forward (f a)) : Forward (p >>= f) := by
  intro b c c'' h
  obtain ⟨a, c', ha, hb⟩ := bind_ok.mp h
  exact (hf a hb).trans (hp ha)

theorem forward_loop (hbody : ∀ s, Forward (body s)) (s : σ) : Forward (loop spent body s) := by
  intro a c c' h
  obtain ⟨t, d, hrounds, hlast⟩ := loopWithin_ok h
  have hd : d.rest <:+ c.rest :=
    hrounds.invariant (I := fun _ d => d.rest <:+ c.rest) (List.suffix_refl _)
      fun hs hstep => (hbody _ hstep).trans hs
  exact (hbody t hlast).trans hd

end Reads

end Irena.Library.Markup
