import Irena.Prunella.Read

/-! # Rounds of the document reader

What one round of each loop does: which event it takes, what it keeps, and that it moves forward. -/

namespace Irena.Prunella.Read

open Irena.Library Irena.Library.Outcome Irena.Library.Strings Irena.Library.Markup
open Irena.Library.Markup.Reads

variable [DocumentPlatform] {α σ : Type} {p : Context}

/-- A refusal, as opposed to a panic. -/
def Refused (e : ReadError) : Prop := e ≠ .panicked

theorem rawEvent_ok {c c' : Cursor} {next : Option Text × Event} :
    rawEvent c = .ok (next, c') ↔ c.next = some (next.1, next.2, c') := by
  unfold rawEvent
  rcases c.next with _ | ⟨bound, e, d⟩
  · simp
  · simp [Prod.ext_iff, and_assoc]

theorem rawEvent_error {c : Cursor} {e : ReadError} (h : rawEvent c = .error e) :
    e = .malformed .illFormed := by
  unfold rawEvent at h
  split at h
  · exact (Except.error.inj h).symm
  · cases h

/-- An event of the document proper is one whose element is in the document's namespace. -/
theorem event_ok {c c' : Cursor} {e : Event} :
    event p c = .ok (e, c') ↔ ∃ bound, c.next = some (bound, e, c') ∧
      (e.isTag = true → bound = some p.namespace_) := by
  unfold event
  simp only [bind_ok, rawEvent_ok, lift_ok, ensure_eq_ok, pure_ok, Prod.exists]
  constructor
  · rintro ⟨bound, e', c₁, hnext, u, c₂, ⟨htag, rfl⟩, rfl, rfl⟩
    exact ⟨bound, hnext, htag⟩
  · rintro ⟨bound, hnext, htag⟩
    exact ⟨bound, e, c', hnext, (), c', ⟨htag, rfl⟩, rfl, rfl⟩

theorem position_ok {c c' : Cursor} {n : ℕ} :
    position p c = .ok (n, c') ↔
      n = Utf8.byteLength p.source - Utf8.byteLength c.rest ∧ c' = c := by
  unfold position
  simp [eq_comm]

theorem forward_position : Forward (position p) := by
  intro n c c' h
  obtain ⟨-, rfl⟩ := position_ok.mp h
  exact List.suffix_refl _

theorem forward_rawEvent [LawfulNamespaceScanner] : Forward rawEvent :=
  fun _ _ _ h => LawfulNamespaceScanner.suffix (rawEvent_ok.mp h)

theorem forward_event [LawfulNamespaceScanner] : Forward (event p) :=
  forward_rawEvent.bind fun _ => (forward_lift _).bind fun _ => forward_pure _

theorem event_consumes [LawfulNamespaceScanner] {c c' : Cursor} {e : Event}
    (h : event p c = .ok (e, c')) (he : e ≠ .eof) : c'.rest.length < c.rest.length := by
  obtain ⟨bound, hnext, -⟩ := event_ok.mp h
  exact LawfulNamespaceScanner.progress hnext he

theorem ends_rawEvent : Ends rawEvent (fun _ => True) Refused := by
  intro c
  unfold rawEvent
  split <;> simp [Refused]

theorem ends_event : Ends (event p) (fun _ => True) Refused :=
  ends_rawEvent.bind fun _ _ =>
    (ends_lift (ends_ensure fun _ => by simp [Refused, malformed])).bind fun _ _ => ends_pure trivial

/-- An event that a loop over content passes over. -/
def passedOver : Event → Bool
  | .text _ => true
  | .comment _ => true
  | _ => false

/-- The start tag or the empty-element tag of a child. -/
def childEvent (child : Tag) (isEmpty : Bool) : Event :=
  if isEmpty then .empty child else .start child

variable {onChild : σ → Tag → Bool → Reads σ}

/-- A round that goes on has passed over an event, or has read a child. -/
theorem onContent_inl {s s' : σ} {c c' : Cursor} :
    onContent p onChild s c = .ok (.inl s', c') ↔
      (∃ e, event p c = .ok (e, c') ∧ passedOver e = true ∧ s' = s) ∨
      ∃ child isEmpty c₁, event p c = .ok (childEvent child isEmpty, c₁) ∧
        onChild s child isEmpty c₁ = .ok (s', c') := by
  unfold onContent
  rw [bind_ok]
  constructor
  · rintro ⟨e, c₁, hevent, h⟩
    cases e with
    | text t =>
      obtain ⟨hs, rfl⟩ := pure_ok.mp h
      exact .inl ⟨_, hevent, rfl, (Sum.inl.inj hs).symm⟩
    | comment t =>
      obtain ⟨hs, rfl⟩ := pure_ok.mp h
      exact .inl ⟨_, hevent, rfl, (Sum.inl.inj hs).symm⟩
    | empty child =>
      obtain ⟨t, c₂, hchild, h⟩ := bind_ok.mp h
      obtain ⟨hs, rfl⟩ := pure_ok.mp h
      obtain rfl := Sum.inl.inj hs
      exact .inr ⟨child, true, c₁, hevent, hchild⟩
    | start child =>
      obtain ⟨t, c₂, hchild, h⟩ := bind_ok.mp h
      obtain ⟨hs, rfl⟩ := pure_ok.mp h
      obtain rfl := Sum.inl.inj hs
      exact .inr ⟨child, false, c₁, hevent, hchild⟩
    | close name =>
      obtain ⟨hs, -⟩ := pure_ok.mp h
      cases hs
    | _ => cases h
  · rintro (⟨e, hevent, he, rfl⟩ | ⟨child, isEmpty, c₁, hevent, hchild⟩)
    · cases e with
      | text t => exact ⟨_, c', hevent, rfl⟩
      | comment t => exact ⟨_, c', hevent, rfl⟩
      | _ => cases he
    · cases isEmpty with
      | true => exact ⟨_, c₁, hevent, bind_ok.mpr ⟨s', c', hchild, rfl⟩⟩
      | false => exact ⟨_, c₁, hevent, bind_ok.mpr ⟨s', c', hchild, rfl⟩⟩

/-- A round breaks at the end tag. -/
theorem onContent_inr {s t : σ} {c c' : Cursor} :
    onContent p onChild s c = .ok (.inr t, c') ↔
      ∃ name, event p c = .ok (.close name, c') ∧ t = s := by
  unfold onContent
  rw [bind_ok]
  constructor
  · rintro ⟨e, c₁, hevent, h⟩
    cases e with
    | close name =>
      obtain ⟨hs, rfl⟩ := pure_ok.mp h
      exact ⟨name, hevent, (Sum.inr.inj hs).symm⟩
    | text t => cases (pure_ok.mp h).1
    | comment t => cases (pure_ok.mp h).1
    | empty child =>
      obtain ⟨t, c₂, -, h⟩ := bind_ok.mp h
      cases (pure_ok.mp h).1
    | start child =>
      obtain ⟨t, c₂, -, h⟩ := bind_ok.mp h
      cases (pure_ok.mp h).1
    | _ => cases h
  · rintro ⟨name, hevent, rfl⟩
    exact ⟨_, c', hevent, rfl⟩

/-- A round panics only in a child. -/
theorem onContent_panicked {s : σ} {c : Cursor} :
    onContent p onChild s c = .error .panicked ↔
      ∃ child isEmpty c₁, event p c = .ok (childEvent child isEmpty, c₁) ∧
        onChild s child isEmpty c₁ = .error .panicked := by
  unfold onContent
  rw [bind_error]
  constructor
  · rintro (hevent | ⟨e, c₁, hevent, h⟩)
    · exact absurd rfl ((ends_event (p := p) c).error hevent)
    · cases e with
      | empty child =>
        rcases bind_error.mp h with hchild | ⟨t, c₂, -, h⟩
        · exact ⟨child, true, c₁, hevent, hchild⟩
        · exact absurd h pure_error
      | start child =>
        rcases bind_error.mp h with hchild | ⟨t, c₂, -, h⟩
        · exact ⟨child, false, c₁, hevent, hchild⟩
        · exact absurd h pure_error
      | _ => cases h
  · rintro ⟨child, isEmpty, c₁, hevent, hchild⟩
    refine .inr ⟨_, c₁, hevent, ?_⟩
    cases isEmpty with
    | true => exact bind_error.mpr (.inl hchild)
    | false => exact bind_error.mpr (.inl hchild)

/-- A loop fails where its first child does. -/
theorem children_error {s : σ} {child : Tag} {isEmpty : Bool} {c c₁ : Cursor} {e : ReadError}
    (hevent : event p c = .ok (childEvent child isEmpty, c₁))
    (h : onChild s child isEmpty c₁ = .error e) : children p onChild s c = .error e := by
  refine bind_error.mpr (.inl ?_)
  rw [onContent, bind_of_ok hevent]
  cases isEmpty <;> exact bind_error.mpr (.inl h)

theorem ends_onContent {I : σ → Prop}
    (hchild : ∀ s child isEmpty, I s → Ends (onChild s child isEmpty) I Refused) {s : σ}
    (hs : I s) : Ends (onContent p onChild s) (Sum.elim I I) Refused := by
  refine ends_event.bind fun e _ => ?_
  cases e with
  | text t => exact ends_pure hs
  | comment t => exact ends_pure hs
  | empty child => exact (hchild s child true hs).bind fun t ht => ends_pure ht
  | start child => exact (hchild s child false hs).bind fun t ht => ends_pure ht
  | close name => exact ends_pure hs
  | _ => exact ends_lift (by simp [Refused, unexpected, malformed])

/-- What every child keeps, the loop over the children keeps. -/
theorem ends_children {I : σ → Prop}
    (hchild : ∀ s child isEmpty, I s → Ends (onChild s child isEmpty) I Refused) {s : σ}
    (hs : I s) : Ends (children p onChild s) I Refused :=
  ends_loop (by simp [Refused]) (fun _ => ends_onContent hchild) hs

section Lawful

variable [LawfulNamespaceScanner]

theorem forward_onContent (hchild : ∀ s child isEmpty, Forward (onChild s child isEmpty)) (s : σ) :
    Forward (onContent p onChild s) := by
  refine forward_event.bind fun e => ?_
  cases e with
  | text t => exact forward_pure _
  | comment t => exact forward_pure _
  | empty child => exact (hchild s child true).bind fun _ => forward_pure _
  | start child => exact (hchild s child false).bind fun _ => forward_pure _
  | close name => exact forward_pure _
  | _ => exact forward_lift _

theorem forward_children (hchild : ∀ s child isEmpty, Forward (onChild s child isEmpty)) (s : σ) :
    Forward (children p onChild s) :=
  forward_loop (forward_onContent hchild) s

theorem consumes_onContent (hchild : ∀ s child isEmpty, Forward (onChild s child isEmpty)) :
    Consumes (onContent p onChild) := by
  intro s s' c c' h
  rcases onContent_inl.mp h with ⟨e, hevent, he, -⟩ | ⟨child, isEmpty, c₁, hevent, hrun⟩
  · exact event_consumes hevent (by rintro rfl; cases he)
  · have hlt := event_consumes hevent (by cases isEmpty <;> simp [childEvent])
    exact lt_of_le_of_lt (hchild s child isEmpty hrun).length_le hlt

/-- What the loop over the children of an element did: its rounds, up to the end tag. -/
theorem children_ok (hchild : ∀ s child isEmpty, Forward (onChild s child isEmpty)) {s t : σ}
    {c c' : Cursor} :
    children p onChild s c = .ok (t, c') ↔
      ∃ d name, Rounds (onContent p onChild) (s, c) (t, d) ∧
        event p d = .ok (.close name, c') := by
  unfold children loop
  rw [loop_ok (consumes_onContent hchild)]
  constructor
  · rintro ⟨t', d, hrounds, hlast⟩
    obtain ⟨name, hevent, rfl⟩ := onContent_inr.mp hlast
    exact ⟨d, name, hrounds, hevent⟩
  · rintro ⟨d, name, hrounds, hevent⟩
    exact ⟨t, d, hrounds, onContent_inr.mpr ⟨name, hevent, rfl⟩⟩

/-- Before the root, a round that goes on has taken an event that is not the end. -/
theorem consumes_onProlog : Consumes onProlog := by
  intro s s' c c' h
  obtain ⟨⟨bound, e⟩, c₁, hraw, h⟩ := bind_ok.mp h
  have hnext := rawEvent_ok.mp hraw
  cases e with
  | declaration =>
    obtain ⟨-, rfl⟩ := pure_ok.mp h
    exact LawfulNamespaceScanner.progress hnext (by simp)
  | text t =>
    obtain ⟨-, rfl⟩ := pure_ok.mp h
    exact LawfulNamespaceScanner.progress hnext (by simp)
  | comment t =>
    obtain ⟨-, rfl⟩ := pure_ok.mp h
    exact LawfulNamespaceScanner.progress hnext (by simp)
  | start root => cases (pure_ok.mp h).1
  | _ => cases h

theorem forward_binaryText (name : Text) : Forward (binaryText p name) := by
  refine (forward_loop (fun text => forward_event.bind fun e => ?_) []).bind fun _ =>
    forward_lift _
  cases e with
  | text chunk => exact forward_pure _
  | cdata chunk => exact forward_pure _
  | comment chunk => exact forward_pure _
  | close name => exact forward_pure _
  | _ => exact forward_throw _

theorem forward_onNested (s : Nested) : Forward (onNested p s) := by
  refine forward_position.bind fun before => forward_rawEvent.bind fun next => ?_
  refine forward_position.bind fun after => (forward_lift _).bind fun left => ?_
  cases left with
  | none => exact forward_pure _
  | some s' => exact (forward_lift _).bind fun _ => forward_pure _

theorem forward_nestedPayload : Forward (nestedPayload p) :=
  (forward_loop forward_onNested Nested.initial).bind fun _ => forward_lift _

theorem forward_field (s : Parts) (child : Tag) (isEmpty : Bool) :
    Forward (field p s child isEmpty) := by
  unfold field
  cases isEmpty with
  | true => exact forward_lift _
  | false =>
    unfold startField
    simp only [Bool.false_eq_true, if_false]
    split_ifs
    · exact (forward_lift _).bind fun _ => (forward_binaryText _).bind fun _ =>
        (forward_lift _).bind fun _ => forward_pure _
    · refine (forward_lift _).bind fun encoding => ?_
      cases encoding with
      | base64 => exact (forward_binaryText _).bind fun _ => forward_pure _
      | xml => exact forward_nestedPayload.bind fun _ => forward_pure _
    · exact (forward_lift _).bind fun _ => (forward_binaryText _).bind fun _ =>
        (forward_lift _).bind fun _ => forward_pure _
    · exact forward_lift _

theorem forward_transaction (tag : Tag) (index : ℕ) : Forward (transaction p tag index) :=
  (forward_lift _).bind fun _ => (forward_children forward_field _).bind fun _ => forward_lift _

theorem forward_onTransaction (ts : List Transaction) (child : Tag) (isEmpty : Bool) :
    Forward (onTransaction p ts child isEmpty) := by
  unfold onTransaction
  split
  · exact (forward_lift _).bind fun _ => (forward_lift _).bind fun _ =>
      (forward_transaction _ _).bind fun _ => forward_pure _
  · exact forward_lift _

theorem forward_onBlockChild {height : ℕ} {networkId : NetworkId} (s : BlockParts) (child : Tag)
    (isEmpty : Bool) : Forward (onBlockChild p height networkId s child isEmpty) := by
  unfold onBlockChild
  split
  · exact (forward_lift _).bind fun _ => forward_pure _
  · split
    · refine (forward_lift _).bind fun _ => ?_
      cases isEmpty with
      | true => exact forward_pure _
      | false => exact (forward_children forward_onTransaction _).bind fun _ => forward_pure _
    · exact forward_lift _

theorem forward_block (tag : Tag) (networkId : NetworkId) : Forward (block p tag networkId) :=
  (forward_lift _).bind fun _ => (forward_children forward_onBlockChild _).bind fun _ =>
    (forward_lift _).bind fun _ => (forward_lift _).bind fun _ => forward_pure _

theorem forward_onRootChild {networkId : NetworkId} (s : Body) (child : Tag) (isEmpty : Bool) :
    Forward (onRootChild p networkId s child isEmpty) := by
  unfold onRootChild
  split
  · exact (forward_lift _).bind fun _ => forward_pure _
  · split
    · exact (forward_lift _).bind fun _ => (forward_block _ _).bind fun _ =>
        (forward_lift _).bind fun _ => forward_pure _
    · exact forward_lift _

end Lawful

end Irena.Prunella.Read
