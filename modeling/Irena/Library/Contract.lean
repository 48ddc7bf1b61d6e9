import Irena.Library.Markup
import Irena.Library.Outcome
import Irena.Library.Program

/-! # Contracts of fallible computations

What a computation answers and what it refuses with, composed along its structure: for results, for
programs over a shared state and for pull parsers. -/

namespace Irena.Library

namespace Outcome

variable {ε ε' α β σ : Type} {P Q : α → Prop} {R : ε → Prop}

/-- A value with `Q` or an error with `R`. -/
def Ends (x : Except ε α) (Q : α → Prop) (R : ε → Prop) : Prop :=
  match x with
  | .ok a => Q a
  | .error e => R e

@[simp] theorem ends_ok {a : α} : Ends (.ok a) Q R ↔ Q a := Iff.rfl

@[simp] theorem ends_error {e : ε} : Ends (.error e) Q R ↔ R e := Iff.rfl

@[simp] theorem ends_pure {a : α} : Ends (pure a) Q R ↔ Q a := Iff.rfl

theorem Ends.error {x : Except ε α} (h : Ends x Q R) {e : ε} (hx : x = .error e) : R e := by
  rw [hx] at h
  exact h

theorem Ends.value {x : Except ε α} (h : Ends x Q R) {a : α} (hx : x = .ok a) : Q a := by
  rw [hx] at h
  exact h

theorem Ends.mono {x : Except ε α} (h : Ends x P R) (hQ : ∀ a, P a → Q a) : Ends x Q R := by
  cases x with
  | ok a => exact hQ a h
  | error e => exact h

theorem Ends.bind {x : Except ε α} {f : α → Except ε β} {Q : β → Prop} (hx : Ends x P R)
    (hf : ∀ a, P a → Ends (f a) Q R) : Ends (x >>= f) Q R := by
  cases x with
  | ok a => exact hf a hx
  | error e => exact hx

theorem Ends.map {x : Except ε α} {f : α → β} {Q : β → Prop} (h : Ends x (fun a => Q (f a)) R) :
    Ends (f <$> x) Q R := by
  cases x <;> exact h

theorem ends_ite {c : Prop} [Decidable c] {x y : Except ε α} (hx : c → Ends x Q R)
    (hy : ¬ c → Ends y Q R) : Ends (if c then x else y) Q R := by
  split
  · exact hx ‹_›
  · exact hy ‹_›

theorem ends_ensure {c : Prop} [Decidable c] {e : ε} (h : ¬ c → R e) :
    Ends (ensure c e) (fun _ => c) R := by
  by_cases hc : c
  · rw [ensure_of hc]
    exact hc
  · rw [ensure_of_not hc]
    exact h hc

theorem ends_orError {o : Option α} {e : ε} (h : o = none → R e) :
    Ends (orError o e) (fun a => o = some a) R := by
  cases o with
  | none => exact h rfl
  | some a => exact rfl

theorem Ends.mapErr {x : Except ε α} {f : ε → ε'} {R : ε' → Prop}
    (h : Ends x Q fun e => R (f e)) : Ends (mapErr f x) Q R := by
  cases x <;> exact h

theorem ends_mapM {f : α → Except ε β} (h : ∀ a, Ends (f a) (fun _ => True) R) {xs : List α} :
    Ends (xs.mapM f) (fun _ => True) R := by
  induction xs with
  | nil => trivial
  | cons a xs ih =>
    rw [List.mapM_cons]
    exact (h a).bind fun _ _ => ih.bind fun _ _ => trivial

/-- What every step keeps holds after the fold. -/
theorem ends_foldlM {step : σ → α → Except ε σ} {I : σ → Prop}
    (hstep : ∀ s a, I s → Ends (step s a) I R) {xs : List α} {s : σ} (hs : I s) :
    Ends (xs.foldlM step s) I R := by
  induction xs generalizing s with
  | nil => exact hs
  | cons a xs ih =>
    rw [List.foldlM_cons]
    exact (hstep s a hs).bind fun t ht => ih ht

end Outcome

namespace Program

open Outcome

variable {σ ε α β : Type} {P : α → Prop} {Q : β → Prop} {R : ε → Prop}

theorem ends_run_bind {p : Program σ ε α} {f : α → Program σ ε β} {s : σ}
    (hp : Ends (p.run s).1 P R) (hf : ∀ a t, P a → Ends ((f a).run t).1 Q R) :
    Ends ((p >>= f).run s).1 Q R := by
  rw [run_bind]
  rcases hrun : p.run s with ⟨x | a, t⟩
  · rw [hrun] at hp
    exact hp
  · rw [hrun] at hp
    exact hf a t hp

end Program

namespace Markup

open Outcome

namespace Parse

variable [Scanner] {φ ι φ' ι' α β σ : Type} {P Q : α → Prop} {R : Refusal φ ι → Prop}

/-- Wherever it starts, the computation answers a value with `Q` or refuses with `R`. -/
def Ends (p : Parse φ ι α) (Q : α → Prop) (R : Refusal φ ι → Prop) : Prop :=
  ∀ r, Outcome.Ends (p.run r).1 Q R

theorem ends_answer {x : Except (Refusal φ ι) α} (h : Outcome.Ends x Q R) : Ends (answer x) Q R :=
  fun _ => h

theorem ends_pure {a : α} (h : Q a) : Ends (pure a : Parse φ ι α) Q R := fun _ => h

theorem ends_fatal {reason : φ} (h : R (.fatal reason)) :
    Ends (fatal reason : Parse φ ι α) Q R := fun _ => h

theorem ends_invalid {issues : ι} (h : R (.invalid issues)) :
    Ends (invalid issues : Parse φ ι α) Q R := fun _ => h

theorem ends_ite {c : Prop} [Decidable c] {p q : Parse φ ι α} (hp : c → Ends p Q R)
    (hq : ¬ c → Ends q Q R) : Ends (if c then p else q) Q R := by
  split
  · exact hp ‹_›
  · exact hq ‹_›

theorem Ends.mono {p : Parse φ ι α} (h : Ends p P R) (hQ : ∀ a, P a → Q a) : Ends p Q R :=
  fun r => (h r).mono hQ

theorem Ends.bind {p : Parse φ ι α} {f : α → Parse φ ι β} {Q : β → Prop} (hp : Ends p P R)
    (hf : ∀ a, P a → Ends (f a) Q R) : Ends (p >>= f) Q R := by
  intro r
  have h := hp r
  rw [run_bind]
  rcases hrun : p.run r with ⟨x | a, r'⟩
  · rw [hrun] at h
    exact h
  · rw [hrun] at h
    exact hf a h r'

theorem Ends.exec {p : Parse φ ι α} (h : Ends p Q R) (r : Reader) :
    Outcome.Ends (p.exec r) (fun a => Q a.1) R := by
  have hr := h r
  unfold Parse.exec
  rcases hrun : p.run r with ⟨x | a, r'⟩ <;> rwa [hrun] at hr

/-- What is attempted ends in a value, or in the issues it was refused for. -/
theorem Ends.attempt {p : Parse φ ι α} (h : Ends p Q R) :
    Ends p.attempt (fun x => Outcome.Ends x Q fun i => R (.invalid i)) R := by
  intro r
  have hr := h r
  unfold Parse.attempt
  rcases hrun : p.run r with ⟨(f | i) | a, r'⟩ <;>
  · rw [hrun] at hr
    simp only [hrun]
    exact hr

theorem Ends.mapRefusal {p : Parse φ ι α} {onFatal : φ → φ'} {onInvalid : ι → ι'}
    {R' : Refusal φ' ι' → Prop} (h : Ends p Q R)
    (hfatal : ∀ f, R (.fatal f) → R' (.fatal (onFatal f)))
    (hinvalid : ∀ i, R (.invalid i) → R' (.invalid (onInvalid i))) :
    Ends (p.mapRefusal onFatal onInvalid) Q R' := by
  intro r
  have hr := h r
  unfold Parse.mapRefusal
  rcases hrun : p.run r with ⟨(f | i) | a, r'⟩ <;> rw [hrun] at hr <;> simp only [hrun]
  · exact hfatal f hr
  · exact hinvalid i hr
  · exact hr

/-- What every child keeps holds of the whole element. -/
theorem ends_children {reasons : Reasons φ} {onChild : σ → Tag → Bool → Parse φ ι σ}
    {I : σ → Prop} (hill : R (.fatal reasons.illFormed))
    (hunexpected : ∀ e, R (.fatal (reasons.unexpected e)))
    (hchild : ∀ s tag isEmpty, I s → Ends (onChild s tag isEmpty) I R) {s : σ} (hs : I s) :
    Ends (children reasons onChild s) I R := by
  have hruns : ∀ fuel s r, I s → Outcome.Ends (runChildren reasons onChild fuel s r).1 I R := by
    intro fuel
    induction fuel with
    | zero => exact fun _ _ _ => hill
    | succ fuel ih =>
      intro s r hs
      rw [runChildren]
      rcases scan r with _ | ⟨e, r'⟩
      · exact hill
      · cases e with
        | text t => exact ih s r' hs
        | comment t => exact ih s r' hs
        | empty tag =>
          have h := hchild s tag true hs r'
          dsimp only
          rcases hrun : (onChild s tag true).run r' with ⟨x | s', r''⟩ <;> rw [hrun] at h
          · exact h
          · exact ih s' r'' h
        | start tag =>
          have h := hchild s tag false hs r'
          dsimp only
          rcases hrun : (onChild s tag false).run r' with ⟨x | s', r''⟩ <;> rw [hrun] at h
          · exact h
          · exact ih s' r'' h
        | close name => exact hs
        | _ => exact hunexpected _
  exact fun r => hruns _ s r hs

theorem ends_walk {reasons : Reasons φ} {refused : Event → Bool}
    (hill : R (.fatal reasons.illFormed)) (hunexpected : ∀ e, R (.fatal (reasons.unexpected e))) :
    Ends (walk reasons refused) (fun _ => True) R := by
  have hruns : ∀ source fuel depth r, Outcome.Ends
      (runWalk (ι := ι) reasons refused source fuel depth r).1
      (fun _ => True) R := by
    intro source fuel
    induction fuel with
    | zero => exact fun _ _ => hill
    | succ fuel ih =>
      intro depth r
      rw [runWalk]
      rcases scan r with _ | ⟨e, r'⟩
      · exact hill
      · by_cases hrefused : e = .eof ∨ refused e
        · simp only [hrefused, if_true]
          exact hunexpected e
        · simp only [hrefused, if_false]
          cases e with
          | start tag => exact ih _ r'
          | close name =>
            cases depth with
            | zero => trivial
            | succ depth => exact ih depth r'
          | _ => exact ih depth r'
  exact fun r => hruns r _ 0 r

end Parse

end Markup

end Irena.Library
