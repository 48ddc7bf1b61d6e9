import Irena.Library.Namespaces
import Irena.Library.PlainMarkup

/-! # The plain scanner with namespaces

The same events with the text between them left as it is, and the namespaces that the elements
declare by prefix. -/

namespace Irena.Library.Markup.Plain

open Strings

/-- The next event of a text, blanks included. -/
def exactEvent : Text → Option (Event × Text)
  | [] => some (.eof, [])
  | '<' :: t => markup t
  | '&' :: t => (splitFirst (lit ";") t).map fun p => (.reference p.1, p.2)
  | t => some (.text (t.takeWhile isContent), t.dropWhile isContent)

/-- A scanner of one element alone. -/
def exactScan (r : Reader) : Option (Event × Reader) := do
  let (e, rest) ← exactEvent r.rest
  let opened ← relate r.opened e
  return (e, ⟨opened, rest⟩)

/-- The open elements, innermost first, each with the namespaces it declares by prefix. -/
abbrev Scope := List (Text × List (Text × Text))

def declarations (tag : Tag) : List (Text × Text) :=
  (tag.attributes.getD []).filterMap fun (key, value) =>
    if key = lit "xmlns" then some ([], value)
    else (stripPrefix key (lit "xmlns:")).map fun name => (name, value)

def lookup (name : Text) : Scope → Option Text
  | [] => none
  | (_, declared) :: outer =>
    match declared.find? fun d => d.1 = name with
    | some (_, value) => if value = [] then none else some value
    | none => lookup name outer

/-- The namespace a name is bound to. -/
def binding (scope : Scope) (name : Text) : Option Text :=
  lookup (if ':' ∈ name then name.takeWhile fun c => c ≠ ':' else []) scope

def resolve (scope : Scope) (t : Text) : Option (Option Text × Event × Scope × Text) := do
  let (e, rest) ← exactEvent t
  match e with
  | .start tag =>
    let inner := (tag.name, declarations tag) :: scope
    return (binding inner tag.name, e, inner, rest)
  | .empty tag => return (binding ((tag.name, declarations tag) :: scope) tag.name, e, scope, rest)
  | .close name =>
    match scope with
    | [] => none
    | (top, _) :: outer => if top = name then some (binding scope name, e, outer, rest) else none
  | _ => return (none, e, scope, rest)

@[reducible] def namespaceScanner : NamespaceScanner where
  Scope := Scope
  outermost := []
  resolve := resolve

/-- The exact event is the event up to its blanks. -/
theorem event_of_exactEvent {t rest : Text} {e : Event} (h : exactEvent t = some (e, rest)) :
    ∃ e', event t = some (e', rest) ∧ (e' = .eof → e = .eof) := by
  rcases t with _ | ⟨c, t⟩
  · exact ⟨e, h, id⟩
  by_cases hlt : c = '<'
  · subst hlt
    exact ⟨e, h, id⟩
  by_cases hamp : c = '&'
  · subst hamp
    exact ⟨e, h, id⟩
  have hexact : exactEvent (c :: t) =
      some (.text ((c :: t).takeWhile isContent), (c :: t).dropWhile isContent) := by
    simp [exactEvent, hlt, hamp]
  have hevent : event (c :: t) = some (.text (trimBlanks ((c :: t).takeWhile isContent)),
      (c :: t).dropWhile isContent) := by
    simp [event, hlt, hamp]
  rw [hexact] at h
  obtain ⟨-, rfl⟩ := Prod.mk.inj (Option.some.inj h)
  exact ⟨_, hevent, by rintro ⟨⟩⟩

theorem exactEvent_of_resolve {scope scope' : Scope} {t rest : Text} {bound : Option Text}
    {e : Event} (h : resolve scope t = some (bound, e, scope', rest)) :
    exactEvent t = some (e, rest) := by
  unfold resolve at h
  rcases hevent : exactEvent t with _ | ⟨e', rest'⟩
  · rw [hevent] at h
    cases h
  · rw [hevent] at h
    simp only [Option.bind_eq_bind, Option.bind_some] at h
    split at h
    · grind
    · grind
    · split at h
      · cases h
      · split at h <;> grind
    · grind

/-- Blanks before markup are one text event. -/
theorem resolve_blanks {scope : Scope} {n : ℕ} {t : Text} :
    resolve scope (List.replicate (n + 1) ' ' ++ '<' :: t) =
      some (none, .text (List.replicate (n + 1) ' '), scope, '<' :: t) := by
  have hcontent : ∀ c ∈ List.replicate (n + 1) ' ', isContent c = true := by
    intro c hc
    rw [List.eq_of_mem_replicate hc]
    rfl
  have htake : (List.replicate (n + 1) ' ' ++ '<' :: t).takeWhile isContent =
      List.replicate (n + 1) ' ' := by
    rw [List.takeWhile_append_of_pos hcontent]
    simp [isContent]
  have hdrop : (List.replicate (n + 1) ' ' ++ '<' :: t).dropWhile isContent = '<' :: t := by
    rw [List.dropWhile_append_of_pos hcontent]
    simp [isContent]
  have hevent : exactEvent (List.replicate (n + 1) ' ' ++ '<' :: t) =
      some (.text ((List.replicate (n + 1) ' ' ++ '<' :: t).takeWhile isContent),
        (List.replicate (n + 1) ' ' ++ '<' :: t).dropWhile isContent) := rfl
  rw [htake, hdrop] at hevent
  unfold resolve
  rw [hevent]
  rfl

theorem namespaceScanner_lawful : @LawfulNamespaceScanner namespaceScanner := by
  let := namespaceScanner
  have hevent {c c' : Cursor} {bound : Option Text} {e : Event}
      (h : c.next = some (bound, e, c')) : exactEvent c.rest = some (e, c'.rest) := by
    obtain ⟨⟨b, e', scope, rest⟩, hresolve, heq⟩ := Option.map_eq_some_iff.mp h
    obtain ⟨rfl, rfl, rfl⟩ : _ ∧ _ ∧ _ := by simpa using heq
    exact exactEvent_of_resolve hresolve
  constructor
  · intro c c' bound e h
    obtain ⟨e', he, -⟩ := event_of_exactEvent (hevent h)
    exact event_suffix he
  · intro c c' bound e h hne
    obtain ⟨e', he, heof⟩ := event_of_exactEvent (hevent h)
    exact event_progress he fun heq => hne (heof heq)

end Irena.Library.Markup.Plain
