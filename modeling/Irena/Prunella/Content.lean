import Irena.Prunella.Nested

/-! # What a document's elements hold

Each reader of the document, described over the tree of the markup it has read: a loop over children
is a fold over their nodes, in which a later child of a name takes the place of an earlier one. -/

namespace Irena.Prunella.Read

open Irena.Library Irena.Library.Outcome Irena.Library.Strings Irena.Library.Markup
open Irena.Library.Markup.Reads Irena.Library.Utf8

section Reader

variable [DocumentPlatform] [LawfulNamespaceScanner] {α σ : Type} {p : Context}

/-- The content of a child: none behind an empty-element tag. -/
def ContentOf (isEmpty : Bool) (c : Cursor) (content : List Node) (c' : Cursor) : Prop :=
  if isEmpty then content = [] ∧ c' = c else Forest c content c'

/-- A loop over children folds over the nodes of its element. -/
theorem children_nodes {onChild : σ → Tag → Bool → Reads σ} {onNode : σ → Node → σ → Prop}
    (hforward : ∀ s child isEmpty, Forward (onChild s child isEmpty))
    (hchild : ∀ {s s' child isEmpty c c'}, c.rest <:+ p.source →
      onChild s child isEmpty c = .ok (s', c') →
      ∃ content, ContentOf isEmpty c content c' ∧
        ∀ bound written, onNode s (.element bound child isEmpty written content) s')
    {s t : σ} {c c' : Cursor} (hc : c.rest <:+ p.source)
    (h : children p onChild s c = .ok (t, c')) :
    ∃ nodes, Forest c nodes c' ∧ Folds onNode nodes s t := by
  obtain ⟨d, name, hrounds, hclose⟩ := (children_ok hforward).mp h
  obtain ⟨bound, hclose, -⟩ := event_ok.mp hclose
  suffices hall : ∀ q, Rounds (onContent p onChild) q (t, d) → q.2.rest <:+ p.source →
      ∃ nodes, Forest q.2 nodes c' ∧ Folds onNode nodes q.1 t from hall (s, c) hrounds hc
  intro q hq
  induction hq using Relation.ReflTransGen.head_induction_on with
  | refl => exact fun _ => ⟨[], .close hclose, .nil⟩
  | head hround _ ih =>
    intro hq
    obtain ⟨nodes, hforest, hfolds⟩ := ih ((forward_onContent hforward _ hround).trans hq)
    rcases onContent_inl.mp hround with ⟨e, hevent, he, heq⟩ | ⟨child, isEmpty, c₁, hevent, hrun⟩
    · obtain ⟨bound, hnext, -⟩ := event_ok.mp hevent
      rw [heq] at hfolds
      cases e with
      | text content => exact ⟨_, .text hnext hforest, .skip rfl hfolds⟩
      | comment content => exact ⟨_, .other hnext rfl hforest, .skip rfl hfolds⟩
      | _ => cases he
    · obtain ⟨bound, hnext, -⟩ := event_ok.mp hevent
      obtain ⟨content, hcontent, hnode⟩ := hchild ((forward_event hevent).trans hq) hrun
      cases isEmpty with
      | true =>
        obtain ⟨rfl, hcursor⟩ := hcontent
        rw [hcursor] at hforest
        exact ⟨_, .empty hnext hforest, .child (hnode _ _) hfolds⟩
      | false => exact ⟨_, .start hnext hcontent hforest, .child (hnode _ _) hfolds⟩

/-- What a binary field may hold. -/
def isBinary : Node → Bool
  | .text _ => true
  | .other (.cdata _) => true
  | .other (.comment _) => true
  | _ => false

/-- The text of a field. -/
def fieldText : List Node → Text
  | [] => []
  | .text content :: nodes => xml10Content content ++ fieldText nodes
  | .other (.cdata content) :: nodes => content ++ fieldText nodes
  | _ :: nodes => fieldText nodes

theorem consumes_onBinary {name : Text} : Consumes (onBinary p name) := by
  intro text text' c c' h
  obtain ⟨e, c₁, hevent, h⟩ := bind_ok.mp h
  cases e with
  | text chunk =>
    obtain ⟨-, rfl⟩ := pure_ok.mp h
    exact event_consumes hevent (by simp)
  | cdata chunk =>
    obtain ⟨-, rfl⟩ := pure_ok.mp h
    exact event_consumes hevent (by simp)
  | comment chunk =>
    obtain ⟨-, rfl⟩ := pure_ok.mp h
    exact event_consumes hevent (by simp)
  | close name => cases (pure_ok.mp h).1
  | _ => cases h

/-- A field is read from all of its text. -/
theorem binaryText_nodes {name : Text} {bytes : Bytes} {c c' : Cursor}
    (h : binaryText p name c = .ok (bytes, c')) :
    ∃ content, Forest c content c' ∧ content.all isBinary = true ∧
      decodeField name (fieldText content) = .ok bytes := by
  obtain ⟨text, c₁, hloop, h⟩ := bind_ok.mp h
  obtain ⟨hdecode, rfl⟩ := lift_ok.mp h
  obtain ⟨last, d, hrounds, hlast⟩ := (loop_ok consumes_onBinary).mp hloop
  obtain ⟨hclose, hsame⟩ : (∃ bound close, d.next = some (bound, .close close, c₁)) ∧
      text = last := by
    obtain ⟨e, c₂, hevent, h⟩ := bind_ok.mp hlast
    obtain ⟨bound, hnext, -⟩ := event_ok.mp hevent
    cases e with
    | close close =>
      obtain ⟨htext, rfl⟩ := pure_ok.mp h
      exact ⟨⟨bound, close, hnext⟩, (Sum.inr.inj htext).symm⟩
    | text chunk => cases (pure_ok.mp h).1
    | cdata chunk => cases (pure_ok.mp h).1
    | comment chunk => cases (pure_ok.mp h).1
    | _ => cases h
  obtain ⟨bound, close, hclose⟩ := hclose
  suffices hall : ∀ q, Rounds (onBinary p name) q (last, d) → ∃ content,
      Forest q.2 content c₁ ∧ content.all isBinary = true ∧ last = q.1 ++ fieldText content by
    obtain ⟨content, hforest, hbinary, htext⟩ := hall ([], c) hrounds
    rw [hsame, htext] at hdecode
    exact ⟨content, hforest, hbinary, hdecode⟩
  intro q hq
  induction hq using Relation.ReflTransGen.head_induction_on with
  | refl => exact ⟨[], .close hclose, rfl, (List.append_nil _).symm⟩
  | head hround _ ih =>
    obtain ⟨content, hforest, hbinary, htext⟩ := ih
    obtain ⟨e, c₂, hevent, h⟩ := bind_ok.mp hround
    obtain ⟨bound, hnext, -⟩ := event_ok.mp hevent
    cases e with
    | text chunk =>
      obtain ⟨hq, rfl⟩ := pure_ok.mp h
      rw [← Sum.inl.inj hq, List.append_assoc] at htext
      exact ⟨_, .text hnext hforest, by simpa [isBinary] using hbinary, htext⟩
    | cdata chunk =>
      obtain ⟨hq, rfl⟩ := pure_ok.mp h
      rw [← Sum.inl.inj hq, List.append_assoc] at htext
      exact ⟨_, .other hnext rfl hforest, by simpa [isBinary] using hbinary, htext⟩
    | comment chunk =>
      obtain ⟨hq, rfl⟩ := pure_ok.mp h
      rw [← Sum.inl.inj hq] at htext
      exact ⟨_, .other hnext rfl hforest, by simpa [isBinary] using hbinary, htext⟩
    | close name => cases (pure_ok.mp h).1
    | _ => cases h

/-- Inside elements that are nested `depth` deep, the contents that are left of them. -/
inductive Forests : ℕ → Cursor → Cursor → Prop
  | zero {c nodes d} : Forest c nodes d → Forests 0 c d
  | succ {depth c nodes c' d} : Forest c nodes c' → Forests depth c' d → Forests (depth + 1) c d

omit [LawfulNamespaceScanner] in
/-- A node before what is left. -/
theorem Forests.cons {depth : ℕ} {c c₁ d : Cursor} {node : Node}
    (hnode : ∀ {nodes c'}, Forest c₁ nodes c' → Forest c (node :: nodes) c')
    (h : Forests depth c₁ d) : Forests depth c d := by
  cases h with
  | zero hforest => exact .zero (hnode hforest)
  | succ hforest hrest => exact .succ (hnode hforest) hrest

omit [LawfulNamespaceScanner] in
theorem Within.forests {depth : ℕ} {c d : Cursor} (h : Within depth c d) : Forests depth c d := by
  induction h with
  | last hnext => exact .zero (.close hnext)
  | close hnext _ ih => exact .succ (.close hnext) ih
  | start hnext _ ih =>
    cases ih with
    | succ hforest hrest => exact hrest.cons fun hnodes => .start hnext hforest hnodes
  | @inner depth c c₁ d bound e hnext he _ ih =>
    cases e with
    | empty tag => exact ih.cons fun hnodes => .empty hnext hnodes
    | text content => exact ih.cons fun hnodes => .text hnext hnodes
    | cdata content => exact ih.cons fun hnodes => .other hnext rfl hnodes
    | comment content => exact ih.cons fun hnodes => .other hnext rfl hnodes
    | reference name => exact ih.cons fun hnodes => .other hnext rfl hnodes
    | instruction => exact ih.cons fun hnodes => .other hnext rfl hnodes
    | _ => cases he

/-- Text that holds only blanks. -/
def isBlankText : Node → Bool
  | .text content => (xml10Content content).all isAsciiWhitespace
  | _ => false

omit [LawfulNamespaceScanner] in
theorem FirstElement.forest {c first last : Cursor} {isEmpty : Bool}
    (h : FirstElement c isEmpty first last) :
    ∃ before bound tag content, before.all isBlankText = true ∧
      ∀ {nodes c'}, Forest last nodes c' → Forest c
        (before ++ .element bound tag isEmpty (first.upTo last) content :: nodes) c' := by
  induction h with
  | @blank c c₁ isEmpty first last bound' text hnext hblank _ ih =>
    obtain ⟨before, bound, tag, content, hbefore, hforest⟩ := ih
    refine ⟨.text text :: before, bound, tag, content, ?_, fun h => .text hnext (hforest h)⟩
    rw [List.all_cons, hbefore, Bool.and_true]
    exact hblank
  | empty hnext => exact ⟨[], _, _, [], rfl, fun h => .empty hnext h⟩
  | start hnext hwithin =>
    cases hwithin.forests with
    | zero hcontent => exact ⟨[], _, _, _, rfl, fun h => .start hnext hcontent h⟩

omit [LawfulNamespaceScanner] in
theorem Blanks.forest {c d c' : Cursor} {nodes : List Node} (h : Blanks c d)
    (hforest : Forest d nodes c') :
    ∃ blanks, blanks.all isBlankText = true ∧ Forest c (blanks ++ nodes) c' := by
  induction h generalizing nodes with
  | refl => exact ⟨[], rfl, hforest⟩
  | @step d d' bound content _ hnext hblank ih =>
    obtain ⟨blanks, hblanks, hall⟩ := ih (.text hnext hforest)
    refine ⟨blanks ++ [.text content], ?_, by simpa using hall⟩
    rw [List.all_append, hblanks, Bool.true_and]
    simpa [isBlankText] using hblank

omit [LawfulNamespaceScanner] in
/-- Cutting between two cursors of the source gives the text between them. -/
theorem slice_offset {first last : Cursor} (hfirst : first.rest <:+ p.source)
    (hlast : last.rest <:+ first.rest) :
    slice p.source (p.offset first) (p.offset last) = some (first.upTo last) := by
  obtain ⟨before, hsource⟩ := hfirst
  have hrest := first.upTo_append hlast
  have hbytes : utf8 p.source = utf8 before ++ (utf8 (first.upTo last) ++ utf8 last.rest) := by
    rw [← hsource, utf8_append, ← hrest, utf8_append]
  have hfirst : p.offset first = (utf8 before).length := by
    rw [Context.offset, byteLength, byteLength, ← hsource, utf8_append, List.length_append]
    omega
  have hlast : p.offset last = (utf8 before).length + (utf8 (first.upTo last)).length := by
    rw [Context.offset, byteLength, byteLength, hbytes, List.length_append, List.length_append]
    omega
  have hle : (utf8 before).length + (utf8 (first.upTo last)).length ≤ byteLength p.source := by
    rw [byteLength, hbytes, List.length_append, List.length_append]
    omega
  rw [slice, hfirst, hlast, if_pos ⟨by omega, hle⟩, hbytes, ← List.append_assoc,
    List.take_append_of_le_length (by simp), ← List.length_append, List.take_length,
    List.drop_left, fromUtf8_utf8]

/-- A nested payload is the text of the one element it holds. -/
theorem nestedPayload_nodes {bytes : Bytes} {c c' : Cursor} (hc : c.rest <:+ p.source)
    (h : nestedPayload p c = .ok (bytes, c')) :
    ∃ before bound tag isEmpty written content after,
      Forest c (before ++ .element bound tag isEmpty written content :: after) c' ∧
      before.all isBlankText = true ∧ after.all isBlankText = true ∧ bytes = utf8 written := by
  obtain ⟨element, c₁, hloop, h⟩ := bind_ok.mp h
  obtain ⟨hcut, rfl⟩ := lift_ok.mp h
  obtain ⟨s, d, hrounds, hlast⟩ := (loop_ok consumes_onNested).mp hloop
  obtain ⟨⟨bound, name, hclose⟩, hdepth, rfl⟩ := onNested_inr hlast
  obtain ⟨⟨from_, to_⟩, helement, hcut⟩ := Outcome.bind_eq_ok.mp hcut
  cases sought_of_rounds hrounds with
  | before => cases helement
  | inside => cases hdepth
  | @after isEmpty first last start _ hfirst hblanks =>
    obtain ⟨rfl, rfl⟩ : p.offset first = from_ ∧ p.offset last = to_ := by simpa using helement
    obtain ⟨hfrom, hto⟩ := hfirst.suffix
    obtain ⟨written, hslice, hcut⟩ := Outcome.bind_eq_ok.mp hcut
    obtain ⟨_, -, hcut⟩ := Outcome.bind_eq_ok.mp hcut
    rw [orError_eq_ok, slice_offset (hfrom.trans hc) hto] at hslice
    obtain rfl := Option.some.inj hslice
    obtain ⟨after, hafter, hrest⟩ := hblanks.forest (.close hclose)
    obtain ⟨before, bound, tag, content, hbefore, hforest⟩ := hfirst.forest
    rw [List.append_nil] at hrest
    exact ⟨before, bound, tag, isEmpty, _, content, after, hforest hrest, hbefore, hafter,
      (Except.ok.inj hcut).symm⟩

end Reader

end Irena.Prunella.Read
