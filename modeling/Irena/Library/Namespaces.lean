import Irena.Library.Trees

/-! # Markup in namespaces

A scanner that also answers which namespace an element is bound to, and the trees that a text
spells. -/

namespace Irena.Library.Markup

open Strings

/-- A scanner over a text and whatever it keeps of the elements open around it. -/
class NamespaceScanner where
  Scope : Type
  outermost : Scope
  resolve : Scope → Text → Option (Option Text × Event × Scope × Text)

variable [NamespaceScanner]

/-- Where a text has been read to. -/
structure Cursor where
  scope : NamespaceScanner.Scope
  rest : Text

instance [DecidableEq NamespaceScanner.Scope] : DecidableEq Cursor := fun c d =>
  decidable_of_iff (c.scope = d.scope ∧ c.rest = d.rest) <| by
    rcases c with ⟨s, t⟩
    rcases d with ⟨s', t'⟩
    simp

/-- A cursor before the first event of a text. -/
def Cursor.start (text : Text) : Cursor := ⟨NamespaceScanner.outermost, text⟩

/-- The next event and the namespace it is in, unless the text is ill-formed. -/
def Cursor.next (c : Cursor) : Option (Option Text × Event × Cursor) :=
  (NamespaceScanner.resolve c.scope c.rest).map fun (bound, e, scope, rest) =>
    (bound, e, ⟨scope, rest⟩)

/-- The text from one cursor to a later one. -/
def Cursor.upTo (c c' : Cursor) : Text := c.rest.take (c.rest.length - c'.rest.length)

/-- What is relied on of a scanner: it only moves forward, and an event consumes text. -/
class LawfulNamespaceScanner : Prop where
  suffix : ∀ {c c' : Cursor} {bound e}, c.next = some (bound, e, c') → c'.rest <:+ c.rest
  progress : ∀ {c c' : Cursor} {bound e}, c.next = some (bound, e, c') → e ≠ .eof →
    c'.rest.length < c.rest.length

def Event.isTag : Event → Bool
  | .start _ => true
  | .empty _ => true
  | .close _ => true
  | _ => false

theorem Cursor.upTo_append {c c' : Cursor} (h : c'.rest <:+ c.rest) :
    c.upTo c' ++ c'.rest = c.rest := by
  obtain ⟨between, hrest⟩ := h
  rw [Cursor.upTo, ← hrest, List.length_append, Nat.add_sub_cancel, List.take_left]

/-- Events that are neither tags nor text. -/
def Event.isOther : Event → Bool
  | .start _ => false
  | .empty _ => false
  | .close _ => false
  | .text _ => false
  | .eof => false
  | _ => true

/-- The content of an element, from after its start tag until after its end tag. -/
inductive Forest : Cursor → List Node → Cursor → Prop
  | close {c c' bound name} : c.next = some (bound, .close name, c') → Forest c [] c'
  | text {c c₁ c' bound content nodes} : c.next = some (bound, .text content, c₁) →
      Forest c₁ nodes c' → Forest c (.text content :: nodes) c'
  | other {c c₁ c' bound e nodes} : c.next = some (bound, e, c₁) → e.isOther = true →
      Forest c₁ nodes c' → Forest c (.other e :: nodes) c'
  | empty {c c₁ c' bound tag nodes} : c.next = some (bound, .empty tag, c₁) →
      Forest c₁ nodes c' → Forest c (.element bound tag true (c.upTo c₁) [] :: nodes) c'
  | start {c c₁ c₂ c' bound tag content nodes} : c.next = some (bound, .start tag, c₁) →
      Forest c₁ content c₂ → Forest c₂ nodes c' →
      Forest c (.element bound tag false (c.upTo c₂) content :: nodes) c'

/-- A text spells one content at most. -/
theorem Forest.unique {c c₁ c₂ : Cursor} {ns ms : List Node} (h₁ : Forest c ns c₁)
    (h₂ : Forest c ms c₂) : ns = ms ∧ c₁ = c₂ := by
  induction h₁ generalizing ms c₂ with
  | close hn =>
    cases h₂ with
    | close hm => grind
    | other hm he => rw [hn] at hm; grind [Event.isOther]
    | _ hm => rw [hn] at hm; grind
  | text hn _ ih =>
    cases h₂ with
    | text hm hf =>
      rw [hn] at hm
      obtain ⟨rfl, rfl, rfl⟩ : _ ∧ _ ∧ _ := by simpa using hm
      obtain ⟨rfl, rfl⟩ := ih hf
      exact ⟨rfl, rfl⟩
    | other hm he => rw [hn] at hm; grind [Event.isOther]
    | _ hm => rw [hn] at hm; grind
  | other hn he _ ih =>
    cases h₂ with
    | other hm he' hf =>
      rw [hn] at hm
      obtain ⟨rfl, rfl, rfl⟩ : _ ∧ _ ∧ _ := by simpa using hm
      obtain ⟨rfl, rfl⟩ := ih hf
      exact ⟨rfl, rfl⟩
    | _ hm => rw [hn] at hm; grind [Event.isOther]
  | empty hn _ ih =>
    cases h₂ with
    | empty hm hf =>
      rw [hn] at hm
      obtain ⟨rfl, rfl, rfl⟩ : _ ∧ _ ∧ _ := by simpa using hm
      obtain ⟨rfl, rfl⟩ := ih hf
      exact ⟨rfl, rfl⟩
    | other hm he => rw [hn] at hm; grind [Event.isOther]
    | _ hm => rw [hn] at hm; grind
  | start hn _ _ ih₁ ih₂ =>
    cases h₂ with
    | start hm hc hf =>
      rw [hn] at hm
      obtain ⟨rfl, rfl, rfl⟩ : _ ∧ _ ∧ _ := by simpa using hm
      obtain ⟨rfl, rfl⟩ := ih₁ hc
      obtain ⟨rfl, rfl⟩ := ih₂ hf
      exact ⟨rfl, rfl⟩
    | other hm he => rw [hn] at hm; grind [Event.isOther]
    | _ hm => rw [hn] at hm; grind

theorem Forest.suffix [LawfulNamespaceScanner] {c c' : Cursor} {nodes : List Node}
    (h : Forest c nodes c') : c'.rest <:+ c.rest := by
  induction h with
  | close hn => exact LawfulNamespaceScanner.suffix hn
  | text hn _ ih => exact ih.trans (LawfulNamespaceScanner.suffix hn)
  | other hn _ _ ih => exact ih.trans (LawfulNamespaceScanner.suffix hn)
  | empty hn _ ih => exact ih.trans (LawfulNamespaceScanner.suffix hn)
  | start hn _ _ ih₁ ih₂ => exact (ih₂.trans ih₁).trans (LawfulNamespaceScanner.suffix hn)

/-- The content that a text spells, where its list is no longer and no deeper than the fuel. -/
def forest : ℕ → Cursor → Option (List Node × Cursor)
  | 0, _ => none
  | fuel + 1, c =>
    match c.next with
    | none => none
    | some (_, .close _, c') => some ([], c')
    | some (_, .text content, c₁) => do
      let (nodes, c') ← forest fuel c₁
      return (.text content :: nodes, c')
    | some (bound, .empty tag, c₁) => do
      let (nodes, c') ← forest fuel c₁
      return (.element bound tag true (c.upTo c₁) [] :: nodes, c')
    | some (bound, .start tag, c₁) => do
      let (content, c₂) ← forest fuel c₁
      let (nodes, c') ← forest fuel c₂
      return (.element bound tag false (c.upTo c₂) content :: nodes, c')
    | some (_, e, c₁) => do
      let (nodes, c') ← forest fuel c₁
      if e.isOther then return (.other e :: nodes, c') else none

theorem forest_spells {fuel : ℕ} {c c' : Cursor} {nodes : List Node}
    (h : forest fuel c = some (nodes, c')) : Forest c nodes c' := by
  induction fuel generalizing c nodes c' with
  | zero => cases h
  | succ fuel ih =>
    unfold forest at h
    split at h
    · cases h
    · rename_i hnext
      obtain ⟨rfl, rfl⟩ : _ ∧ _ := by simpa using h
      exact .close hnext
    · rename_i hnext
      obtain ⟨⟨rest, d⟩, hrest, h⟩ := Option.bind_eq_some_iff.mp h
      obtain ⟨rfl, rfl⟩ : _ ∧ _ := by simpa using h
      exact .text hnext (ih hrest)
    · rename_i hnext
      obtain ⟨⟨rest, d⟩, hrest, h⟩ := Option.bind_eq_some_iff.mp h
      obtain ⟨rfl, rfl⟩ : _ ∧ _ := by simpa using h
      exact .empty hnext (ih hrest)
    · rename_i hnext
      obtain ⟨⟨content, c₂⟩, hcontent, h⟩ := Option.bind_eq_some_iff.mp h
      obtain ⟨⟨rest, d⟩, hrest, h⟩ := Option.bind_eq_some_iff.mp h
      obtain ⟨rfl, rfl⟩ : _ ∧ _ := by simpa using h
      exact .start hnext (ih hcontent) (ih hrest)
    · rename_i hnext
      obtain ⟨⟨rest, d⟩, hrest, h⟩ := Option.bind_eq_some_iff.mp h
      split_ifs at h with hother
      obtain ⟨rfl, rfl⟩ : _ ∧ _ := by simpa using h
      exact .other hnext hother (ih hrest)

end Irena.Library.Markup
