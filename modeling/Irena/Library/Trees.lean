import Irena.Library.Markup

/-! # Trees of markup

What stands in the content of an element, and folds over its children: what is left in a slot that
the elements of one name fill, or in a list that they extend. -/

namespace Irena.Library.Markup

open Strings

/-- The name of a tag without its prefix. -/
def localName (name : Text) : Text :=
  match name.dropWhile fun c => c ≠ ':' with
  | [] => name
  | _ :: rest => rest

/-- What stands in the content of an element. An element carries the text it is written as. -/
inductive Node where
  | text (content : Text)
  | other (event : Event)
  | element (bound : Option Text) (tag : Tag) (isEmpty : Bool) (written : Text)
      (content : List Node)

def Node.content : Node → List Node
  | .element _ _ _ _ content => content
  | _ => []

/-- Whether a node is an element of a local name. -/
def Node.isNamed (name : Text) : Node → Bool
  | .element _ tag _ _ _ => localName tag.name == name
  | _ => false

/-- The child elements of a local name. -/
def named (name : Text) (nodes : List Node) : List Node := nodes.filter (Node.isNamed name)

/-- Text and comments. -/
def Node.isPassedOver : Node → Bool
  | .text _ => true
  | .other (.comment _) => true
  | _ => false

theorem Node.isNamed_element {name : Text} {bound : Option Text} {tag : Tag} {isEmpty : Bool}
    {written : Text} {content : List Node} (h : localName tag.name = name) :
    (Node.element bound tag isEmpty written content).isNamed name = true := by
  simpa [Node.isNamed] using h

/-- An element has one local name. -/
theorem Node.isNamed_ne {name name' : Text} {node : Node} (h : node.isNamed name = true)
    (hne : name' ≠ name) : node.isNamed name' = false := by
  cases node with
  | element bound tag isEmpty written content =>
    have heq : localName tag.name = name := by simpa [Node.isNamed] using h
    simpa [Node.isNamed, heq] using hne.symm
  | _ => rfl

theorem Node.isNamed_of_isPassedOver {name : Text} {node : Node} (h : node.isPassedOver = true) :
    node.isNamed name = false := by
  cases node with
  | element => cases h
  | _ => rfl

/-- A fold over the children of an element that passes over text and comments. -/
inductive Folds {σ : Type} (onNode : σ → Node → σ → Prop) : List Node → σ → σ → Prop
  | nil {s} : Folds onNode [] s s
  | skip {node nodes s t} : node.isPassedOver = true → Folds onNode nodes s t →
      Folds onNode (node :: nodes) s t
  | child {node nodes s s' t} : onNode s node s' → Folds onNode nodes s' t →
      Folds onNode (node :: nodes) s t

section Folds

variable {σ β : Type} {onNode : σ → Node → σ → Prop} {nodes : List Node} {s t : σ}

/-- A slot that elements of one name fill, each by its own value. -/
theorem Folds.slot (h : Folds onNode nodes s t) (name : Text) (slot : σ → Option β)
    (Shows : Node → β → Prop)
    (hother : ∀ {s node s'}, onNode s node s' → node.isNamed name = false → slot s' = slot s)
    (hnamed : ∀ {s node s'}, onNode s node s' → node.isNamed name = true →
      ∃ v, Shows node v ∧ slot s' = some v) :
    (named name nodes = [] → slot t = slot s) ∧
      ∀ a, named name nodes = [a] → ∃ v, Shows a v ∧ slot t = some v := by
  induction h with
  | nil => exact ⟨fun _ => rfl, nofun⟩
  | skip hpassed _ ih =>
    simp only [named, List.filter_cons, Node.isNamed_of_isPassedOver hpassed] at ih ⊢
    exact ih
  | @child node nodes s s' t hnode _ ih =>
    cases hname : node.isNamed name with
    | false =>
      rw [named, List.filter_cons, hname]
      exact ⟨fun hnil => (ih.1 hnil).trans (hother hnode hname), ih.2⟩
    | true =>
      rw [named, List.filter_cons, hname]
      refine ⟨nofun, fun a ha => ?_⟩
      obtain ⟨rfl, hnil⟩ := List.cons.inj ha
      obtain ⟨v, hshows, hv⟩ := hnamed hnode hname
      exact ⟨v, hshows, (ih.1 hnil).trans hv⟩

/-- A filled slot has an element, and its value where there is only one. -/
theorem Folds.one {v : β} (h : Folds onNode nodes s t) (name : Text) (slot : σ → Option β)
    (Shows : Node → β → Prop)
    (hother : ∀ {s node s'}, onNode s node s' → node.isNamed name = false → slot s' = slot s)
    (hnamed : ∀ {s node s'}, onNode s node s' → node.isNamed name = true →
      ∃ v, Shows node v ∧ slot s' = some v)
    (hs : slot s = none) (ht : slot t = some v) (hlength : (named name nodes).length ≤ 1) :
    ∃ a, named name nodes = [a] ∧ Shows a v := by
  obtain ⟨hnone, hone⟩ := h.slot name slot Shows hother hnamed
  rcases hlist : named name nodes with _ | ⟨a, rest⟩
  · rw [hnone hlist, hs] at ht
    cases ht
  · obtain rfl : rest = [] := by
      rw [hlist] at hlength
      simpa using hlength
    obtain ⟨v', hshows, hv'⟩ := hone a hlist
    rw [ht] at hv'
    obtain rfl := Option.some.inj hv'
    exact ⟨a, rfl, hshows⟩

/-- A list that the elements of one name extend, each by its own value. -/
theorem Folds.list (h : Folds onNode nodes s t) (name : Text) (list : σ → List β)
    (Shows : Node → β → Prop)
    (hother : ∀ {s node s'}, onNode s node s' → node.isNamed name = false → list s' = list s)
    (hnamed : ∀ {s node s'}, onNode s node s' → node.isNamed name = true →
      ∃ v, Shows node v ∧ list s' = list s ++ [v]) :
    ∃ vs, list t = list s ++ vs ∧ List.Forall₂ Shows (named name nodes) vs := by
  induction h with
  | nil => exact ⟨[], (List.append_nil _).symm, .nil⟩
  | skip hpassed _ ih =>
    simp only [named, List.filter_cons, Node.isNamed_of_isPassedOver hpassed] at ih ⊢
    exact ih
  | @child node nodes s s' t hnode _ ih =>
    obtain ⟨vs, hvs, hall⟩ := ih
    cases hname : node.isNamed name with
    | false =>
      rw [named, List.filter_cons, hname]
      exact ⟨vs, hother hnode hname ▸ hvs, hall⟩
    | true =>
      obtain ⟨v, hshows, hv⟩ := hnamed hnode hname
      rw [named, List.filter_cons, hname]
      refine ⟨v :: vs, ?_, .cons hshows hall⟩
      rw [hvs, hv, List.append_assoc]
      rfl

end Folds

end Irena.Library.Markup
