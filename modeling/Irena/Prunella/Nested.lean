import Irena.Prunella.Reading
import Irena.Sample.Documents

/-! # The size of a nested payload

The size test of a nested payload compares the end of the element with where an element was last
entered. For an empty-element tag that is the start of the document. -/

namespace Irena.Prunella.Read

open Irena.Library Irena.Library.Outcome Irena.Library.Strings Irena.Library.Markup
open Irena.Library.Markup.Reads Irena.Library.Utf8

section Reader

variable [DocumentPlatform]

/-- Events inside an element that neither open nor close one. -/
def isInner : Event → Bool
  | .empty _ => true
  | .text _ => true
  | .cdata _ => true
  | .comment _ => true
  | .reference _ => true
  | .instruction => true
  | _ => false

/-- From inside an element, with `depth` more elements open in it, to after its end tag. -/
inductive Within : ℕ → Cursor → Cursor → Prop
  | last {c d bound name} : c.next = some (bound, .close name, d) → Within 0 c d
  | close {depth c c₁ d bound name} : c.next = some (bound, .close name, c₁) →
      Within depth c₁ d → Within (depth + 1) c d
  | start {depth c c₁ d bound tag} : c.next = some (bound, .start tag, c₁) →
      Within (depth + 1) c₁ d → Within depth c d
  | inner {depth c c₁ d bound e} : c.next = some (bound, e, c₁) → isInner e = true →
      Within depth c₁ d → Within depth c d

/-- The first element ahead of a cursor, after blanks: whether it is an empty-element tag, and the
cursors before and after it. -/
inductive FirstElement : Cursor → Bool → Cursor → Cursor → Prop
  | blank {c c₁ isEmpty first last bound content} : c.next = some (bound, .text content, c₁) →
      (xml10Content content).all isAsciiWhitespace = true → FirstElement c₁ isEmpty first last →
      FirstElement c isEmpty first last
  | empty {c last bound tag} : c.next = some (bound, .empty tag, last) →
      FirstElement c true c last
  | start {c c₁ last bound tag} : c.next = some (bound, .start tag, c₁) → Within 0 c₁ last →
      FirstElement c false c last

theorem Within.unique {depth : ℕ} {c d d' : Cursor} (h : Within depth c d)
    (h' : Within depth c d') : d = d' := by
  induction h generalizing d' with
  | last hn =>
    cases h' with
    | inner hm he => rw [hn] at hm; grind [isInner]
    | _ hm => rw [hn] at hm; grind
  | close hn _ ih =>
    cases h' with
    | close hm hw => exact ih (by rw [hn] at hm; grind)
    | inner hm he => rw [hn] at hm; grind [isInner]
    | start hm => rw [hn] at hm; grind
  | start hn _ ih =>
    cases h' with
    | start hm hw => exact ih (by rw [hn] at hm; grind)
    | inner hm he => rw [hn] at hm; grind [isInner]
    | _ hm => rw [hn] at hm; grind
  | inner hn he _ ih =>
    cases h' with
    | inner hm _ hw => exact ih (by rw [hn] at hm; grind)
    | _ hm => rw [hn] at hm; grind [isInner]

theorem FirstElement.unique {c first first' last last' : Cursor} {isEmpty isEmpty' : Bool}
    (h : FirstElement c isEmpty first last) (h' : FirstElement c isEmpty' first' last') :
    isEmpty = isEmpty' ∧ first = first' ∧ last = last' := by
  induction h generalizing isEmpty' first' last' with
  | blank hn _ _ ih =>
    cases h' with
    | blank hm _ hf => exact ih (by rw [hn] at hm; grind)
    | _ hm => rw [hn] at hm; grind
  | empty hn =>
    cases h' with
    | empty hm => rw [hn] at hm; grind
    | _ hm => rw [hn] at hm; grind
  | start hn hw =>
    cases h' with
    | start hm hw' =>
      rw [hn] at hm
      obtain ⟨-, -, rfl⟩ : _ ∧ _ ∧ _ := by simpa using hm
      exact ⟨rfl, rfl, hw.unique hw'⟩
    | _ hm => rw [hn] at hm; grind

theorem Within.suffix [LawfulNamespaceScanner] {depth : ℕ} {c d : Cursor} (h : Within depth c d) :
    d.rest <:+ c.rest := by
  induction h with
  | last hn => exact LawfulNamespaceScanner.suffix hn
  | close hn _ ih => exact ih.trans (LawfulNamespaceScanner.suffix hn)
  | start hn _ ih => exact ih.trans (LawfulNamespaceScanner.suffix hn)
  | inner hn _ _ ih => exact ih.trans (LawfulNamespaceScanner.suffix hn)

theorem FirstElement.suffix [LawfulNamespaceScanner] {c first last : Cursor} {isEmpty : Bool}
    (h : FirstElement c isEmpty first last) :
    first.rest <:+ c.rest ∧ last.rest <:+ first.rest := by
  induction h with
  | blank hn _ _ ih => exact ⟨ih.1.trans (LawfulNamespaceScanner.suffix hn), ih.2⟩
  | empty hn => exact ⟨List.suffix_refl _, LawfulNamespaceScanner.suffix hn⟩
  | start hn hw =>
    exact ⟨List.suffix_refl _, hw.suffix.trans (LawfulNamespaceScanner.suffix hn)⟩

/-- The reader's byte offset at a cursor. -/
def Context.offset (p : Context) (c : Cursor) : ℕ := byteLength p.source - byteLength c.rest

variable {p : Context}

/-- What an event changes: it enters an element, goes deeper into it or up again, leaves it, is an
empty-element tag beside it, or is passed over inside or before it. -/
inductive Steps (s : Nested) (before after : ℕ) : Event → Nested → Prop
  | enter {tag} : s.depth = 0 → s.element = none →
      Steps s before after (.start tag) { s with depth := 1, start := before }
  | deeper {tag depth} : s.depth = depth + 1 →
      Steps s before after (.start tag) { s with depth := depth + 2 }
  | up {name depth} : s.depth = depth + 2 →
      Steps s before after (.close name) { s with depth := depth + 1 }
  | leave {name} : s.depth = 1 →
      Steps s before after (.close name) { s with depth := 0, element := some (s.start, after) }
  | alone {tag} : s.depth = 0 → s.element = none →
      Steps s before after (.empty tag) { s with element := some (before, after) }
  | inside {e} : 0 < s.depth → isInner e = true → Steps s before after e s
  | blank {content} : s.depth = 0 → (xml10Content content).all isAsciiWhitespace = true →
      Steps s before after (.text content) s

omit [DocumentPlatform] in
theorem nestedStep_eq_ok {s s' : Nested} {before after : ℕ} {e : Event} :
    nestedStep s before e after = .ok (some s') ↔ Steps s before after e s' := by
  constructor
  · intro h
    unfold nestedStep at h
    have hinside {e : Event} (hdepth : 0 < s.depth) (he : isInner e = true)
        (h : Except.ok (some s) = (Except.ok (some s') : Except ReadError _)) :
        Steps s before after e s' := by
      obtain rfl := Option.some.inj (Except.ok.inj h)
      exact .inside hdepth he
    cases e with
    | start tag =>
      dsimp only at h
      split_ifs at h with hdepth hsome
      · obtain rfl := Option.some.inj (Except.ok.inj h)
        exact .enter hdepth (Option.not_isSome_iff_eq_none.mp hsome)
      · obtain rfl := Option.some.inj (Except.ok.inj h)
        obtain ⟨depth, heq⟩ := Nat.exists_eq_succ_of_ne_zero hdepth
        rw [heq]
        exact .deeper heq
    | empty tag =>
      dsimp only at h
      split_ifs at h with hdepth hsome
      · obtain rfl := Option.some.inj (Except.ok.inj h)
        exact .alone hdepth (Option.not_isSome_iff_eq_none.mp hsome)
      · exact hinside (Nat.pos_of_ne_zero hdepth) rfl h
    | close name =>
      dsimp only at h
      split at h
      · cases h
      · rename_i hdepth
        obtain rfl := Option.some.inj (Except.ok.inj h)
        exact .leave hdepth
      · rename_i depth hdepth
        obtain rfl := Option.some.inj (Except.ok.inj h)
        exact .up hdepth
    | text content =>
      dsimp only at h
      split_ifs at h with hdepth hblank
      · obtain rfl := Option.some.inj (Except.ok.inj h)
        exact .blank hdepth hblank
      · exact hinside (Nat.pos_of_ne_zero hdepth) rfl h
    | eof => cases h
    | declaration => cases h
    | doctype => cases h
    | _ =>
      dsimp only at h
      split_ifs at h with hdepth
      exact hinside hdepth rfl h
  · intro h
    cases h with
    | enter hdepth hnone => simp [nestedStep, hdepth, hnone]
    | deeper hdepth => simp [nestedStep, hdepth]
    | up hdepth => simp [nestedStep, hdepth]
    | leave hdepth => simp [nestedStep, hdepth]
    | alone hdepth hnone => simp [nestedStep, hdepth, hnone]
    | inside hdepth he =>
      have hne : s.depth ≠ 0 := by omega
      cases e <;> first | (cases he; done) | simp [nestedStep, hdepth, hne]
    | blank hdepth hblank => simp only [nestedStep, hdepth, hblank, if_true]

/-- A round that goes on has taken a step and passed the size test. -/
theorem onNested_inl {s s' : Nested} {c c' : Cursor} :
    onNested p s c = .ok (.inl s', c') ↔ ∃ bound e, c.next = some (bound, e, c') ∧
      Steps s (p.offset c) (p.offset c') e s' ∧ s'.checkSize = .ok () := by
  unfold onNested
  simp only [bind_ok, position_ok, rawEvent_ok, lift_ok, Prod.exists, ← nestedStep_eq_ok]
  constructor
  · rintro ⟨before, _, ⟨rfl, rfl⟩, bound, e, c₁, hnext, after, _, ⟨rfl, rfl⟩, left, _,
      ⟨hstep, rfl⟩, h⟩
    cases left with
    | none => cases (pure_ok.mp h).1
    | some t =>
      obtain ⟨u, _, hcheck, h⟩ := bind_ok.mp h
      obtain ⟨hsize, rfl⟩ := lift_ok.mp hcheck
      obtain ⟨ht, rfl⟩ := pure_ok.mp h
      obtain rfl := Sum.inl.inj ht
      exact ⟨bound, e, hnext, hstep, hsize⟩
  · rintro ⟨bound, e, hnext, hstep, hsize⟩
    refine ⟨_, c, ⟨rfl, rfl⟩, bound, e, c', hnext, _, c', ⟨rfl, rfl⟩, _, c', ⟨hstep, rfl⟩, ?_⟩
    exact bind_ok.mpr ⟨(), c', lift_ok.mpr ⟨hsize, rfl⟩, rfl⟩

/-- A round breaks at the payload's own end tag. -/
theorem onNested_inr {s : Nested} {c c' : Cursor} {element : Option (ℕ × ℕ)}
    (h : onNested p s c = .ok (.inr element, c')) :
    (∃ bound name, c.next = some (bound, .close name, c')) ∧ s.depth = 0 ∧ element = s.element := by
  unfold onNested at h
  simp only [bind_ok, position_ok, rawEvent_ok, lift_ok, Prod.exists] at h
  obtain ⟨before, _, ⟨rfl, rfl⟩, bound, e, c₁, hnext, after, _, ⟨rfl, rfl⟩, left, _,
    ⟨hstep, rfl⟩, h⟩ := h
  cases left with
  | some s' =>
    obtain ⟨_, _, -, h⟩ := bind_ok.mp h
    cases (pure_ok.mp h).1
  | none =>
    obtain ⟨helement, rfl⟩ := pure_ok.mp h
    unfold nestedStep at hstep
    cases e with
    | close name =>
      dsimp only at hstep
      split at hstep
      · rename_i hdepth
        exact ⟨⟨bound, name, hnext⟩, hdepth, (Sum.inr.inj helement).symm⟩
      · cases hstep
      · cases hstep
    | declaration => cases hstep
    | doctype => cases hstep
    | eof => cases hstep
    | _ =>
      dsimp only at hstep
      split_ifs at hstep <;> cases hstep

/-- A round finds the payload too large after a step of its. -/
theorem onNested_tooLarge {s : Nested} {c : Cursor} {name : Text} {found limit : ℕ} :
    onNested p s c = .error (.fieldTooLarge name found limit) ↔
      ∃ bound e c' s', c.next = some (bound, e, c') ∧
        Steps s (p.offset c) (p.offset c') e s' ∧
        s'.checkSize = .error (.fieldTooLarge name found limit) := by
  unfold onNested
  have hposition (c : Cursor) : ¬ position p c = .error (.fieldTooLarge name found limit) := nofun
  have hraw (c : Cursor) : ¬ rawEvent c = .error (.fieldTooLarge name found limit) := fun h =>
    nomatch rawEvent_error h
  have hstep {s : Nested} {before after : ℕ} {e : Event} :
      ¬ nestedStep s before e after = .error (.fieldTooLarge name found limit) := by
    unfold nestedStep
    cases e <;> dsimp only <;> repeat' split
    all_goals simp [secondElement, malformed]
  simp only [bind_error, position_ok, rawEvent_ok, lift_ok, lift_error, hposition, hraw, hstep,
    false_or, Prod.exists, ← nestedStep_eq_ok]
  constructor
  · rintro ⟨before, _, ⟨rfl, rfl⟩, bound, e, c₁, hnext, after, _, ⟨rfl, rfl⟩, left, _,
      ⟨hstep, rfl⟩, h⟩
    cases left with
    | none => exact absurd h pure_error
    | some t =>
      rcases bind_error.mp h with hsize | ⟨_, _, -, h⟩
      · exact ⟨bound, e, _, t, hnext, hstep, lift_error.mp hsize⟩
      · exact absurd h pure_error
  · rintro ⟨bound, e, c', s', hnext, hstep, hsize⟩
    refine ⟨_, c, ⟨rfl, rfl⟩, bound, e, c', hnext, _, c', ⟨rfl, rfl⟩, _, c', ⟨hstep, rfl⟩, ?_⟩
    exact bind_error.mpr (.inl (lift_error.mpr hsize))

/-- From a cursor on there are only blanks up to another one. -/
inductive Blanks (c : Cursor) : Cursor → Prop
  | refl : Blanks c c
  | step {d d' bound content} : Blanks c d → d.next = some (bound, .text content, d') →
      (xml10Content content).all isAsciiWhitespace = true → Blanks c d'

/-- What a state of the reader says of the first element ahead of `c₀`. -/
inductive Sought (p : Context) (c₀ : Cursor) : Nested → Cursor → Prop
  | before {d} : (∀ isEmpty first last, FirstElement d isEmpty first last →
      FirstElement c₀ isEmpty first last) → Sought p c₀ ⟨none, 0, 0⟩ d
  | inside {depth first d} : (∀ last, Within depth d last → FirstElement c₀ false first last) →
      Sought p c₀ ⟨none, depth + 1, p.offset first⟩ d
  | after {isEmpty first last start d} : FirstElement c₀ isEmpty first last → Blanks last d →
      p.offset last - start ≤ maxBinaryFieldChars →
      Sought p c₀ ⟨some (p.offset first, p.offset last), 0, start⟩ d

omit [DocumentPlatform] in
theorem checkSize_of_some {first finish depth start : ℕ} {u : Unit} :
    (Nested.mk (some (first, finish)) depth start).checkSize = .ok u ↔
      finish - start ≤ maxBinaryFieldChars :=
  ensure_eq_ok

/-- Each round keeps what the state says. -/
theorem Sought.step {c₀ d d' : Cursor} {s s' : Nested} {bound : Option Text} {e : Event}
    (h : Sought p c₀ s d) (hnext : d.next = some (bound, e, d'))
    (hstep : Steps s (p.offset d) (p.offset d') e s') (hsize : s'.checkSize = .ok ()) :
    Sought p c₀ s' d' := by
  cases h with
  | before hfind =>
    cases hstep with
    | enter => exact .inside fun last hw => hfind _ _ _ (.start hnext hw)
    | deeper hdepth => cases hdepth
    | up hdepth => cases hdepth
    | leave hdepth => cases hdepth
    | alone => exact .after (hfind _ _ _ (.empty hnext)) .refl (checkSize_of_some.mp hsize)
    | inside hdepth => exact absurd hdepth (lt_irrefl 0)
    | blank _ hblank =>
      exact .before fun _ _ _ hfirst => hfind _ _ _ (.blank hnext hblank hfirst)
  | inside hfind =>
    cases hstep with
    | enter hdepth => cases hdepth
    | deeper hdepth =>
      obtain rfl := Nat.succ.inj hdepth
      exact .inside fun last hw => hfind last (.start hnext hw)
    | up hdepth =>
      obtain rfl := Nat.succ.inj hdepth
      exact .inside fun last hw => hfind last (.close hnext hw)
    | leave hdepth =>
      obtain rfl := Nat.succ.inj hdepth
      exact .after (hfind _ (.last hnext)) .refl (checkSize_of_some.mp hsize)
    | alone hdepth => cases hdepth
    | inside _ he => exact .inside fun last hw => hfind last (.inner hnext he hw)
    | blank hdepth => cases hdepth
  | after hfirst hblanks hfits =>
    cases hstep with
    | enter _ hnone => cases hnone
    | deeper hdepth => cases hdepth
    | up hdepth => cases hdepth
    | leave hdepth => cases hdepth
    | alone _ hnone => cases hnone
    | inside hdepth => exact absurd hdepth (lt_irrefl 0)
    | blank _ hblank => exact .after hfirst (hblanks.step hnext hblank) hfits

/-- What the size test measures of an element: from the start of the source for an empty-element
tag, from the element's own start otherwise. -/
def Context.measured (p : Context) (isEmpty : Bool) (first last : Cursor) : ℕ :=
  p.offset last - if isEmpty then 0 else p.offset first

/-- The size test fails at the end of the first element. -/
theorem Sought.tooLarge {c₀ d d' : Cursor} {s s' : Nested} {bound : Option Text} {e : Event}
    {name : Text} {found limit : ℕ} (h : Sought p c₀ s d) (hnext : d.next = some (bound, e, d'))
    (hstep : Steps s (p.offset d) (p.offset d') e s')
    (hsize : s'.checkSize = .error (.fieldTooLarge name found limit)) :
    ∃ isEmpty first last, FirstElement c₀ isEmpty first last ∧
      maxBinaryFieldChars < p.measured isEmpty first last := by
  have hlarge {first finish depth start : ℕ}
      (h : (Nested.mk (some (first, finish)) depth start).checkSize =
        .error (.fieldTooLarge name found limit)) : maxBinaryFieldChars < finish - start :=
    Nat.lt_of_not_le (ensure_eq_error.mp h).1
  cases h with
  | before hfind =>
    cases hstep with
    | enter => cases hsize
    | deeper hdepth => cases hdepth
    | up hdepth => cases hdepth
    | leave hdepth => cases hdepth
    | alone => exact ⟨true, d, d', hfind _ _ _ (.empty hnext), hlarge hsize⟩
    | inside hdepth => exact absurd hdepth (lt_irrefl 0)
    | blank => cases hsize
  | @inside depth first _ hfind =>
    cases hstep with
    | enter hdepth => cases hdepth
    | deeper => cases hsize
    | up => cases hsize
    | leave hdepth =>
      obtain rfl := Nat.succ.inj hdepth
      exact ⟨false, first, d', hfind _ (.last hnext), hlarge hsize⟩
    | alone hdepth => cases hdepth
    | inside => cases hsize
    | blank => cases hsize
  | after _ _ hfits =>
    cases hstep with
    | enter _ hnone => cases hnone
    | deeper hdepth => cases hdepth
    | up hdepth => cases hdepth
    | leave hdepth => cases hdepth
    | alone _ hnone => cases hnone
    | inside hdepth => exact absurd hdepth (lt_irrefl 0)
    | blank => exact absurd (hlarge hsize) (Nat.not_lt_of_le hfits)

/-- What the state says after any rounds of the loop. -/
theorem sought_of_rounds {c d : Cursor} {s : Nested}
    (h : Rounds (onNested p) (Nested.initial, c) (s, d)) : Sought p c s d :=
  h.invariant (I := Sought p c) (.before fun _ _ _ => id) fun hs hround => by
    obtain ⟨bound, e, hnext, hstep, hsize⟩ := onNested_inl.mp hround
    exact hs.step hnext hstep hsize

/-- From inside an element the reader gets to its end tag. -/
theorem Within.rounds {depth start : ℕ} {c last : Cursor} (h : Within depth c last) :
    ∃ d bound name, Rounds (onNested p) (⟨none, depth + 1, start⟩, c) (⟨none, 1, start⟩, d) ∧
      d.next = some (bound, .close name, last) := by
  induction h with
  | last hnext => exact ⟨_, _, _, .refl _, hnext⟩
  | close hnext _ ih =>
    obtain ⟨d, bound, name, hrounds, hlast⟩ := ih
    exact ⟨d, bound, name, hrounds.head (onNested_inl.mpr ⟨_, _, hnext, .up rfl, rfl⟩), hlast⟩
  | start hnext _ ih =>
    obtain ⟨d, bound, name, hrounds, hlast⟩ := ih
    exact ⟨d, bound, name, hrounds.head (onNested_inl.mpr ⟨_, _, hnext, .deeper rfl, rfl⟩), hlast⟩
  | inner hnext he _ ih =>
    obtain ⟨d, bound, name, hrounds, hlast⟩ := ih
    exact ⟨d, bound, name,
      hrounds.head (onNested_inl.mpr ⟨_, _, hnext, .inside (Nat.succ_pos _) he, rfl⟩), hlast⟩

/-- The reader gets to the end of the first element, and fails there if it measures too much. -/
theorem FirstElement.rounds {c first last : Cursor} {isEmpty : Bool}
    (h : FirstElement c isEmpty first last)
    (hlarge : maxBinaryFieldChars < p.measured isEmpty first last) :
    ∃ t d, Rounds (onNested p) (Nested.initial, c) (t, d) ∧
      onNested p t d = .error (.fieldTooLarge (lit "payload") (p.measured isEmpty first last)
        maxBinaryFieldChars) := by
  have hsize {depth start opening : ℕ}
      (h : maxBinaryFieldChars < p.offset last - start) :
      (Nested.mk (some (opening, p.offset last)) depth start).checkSize =
        .error (.fieldTooLarge (lit "payload") (p.offset last - start) maxBinaryFieldChars) :=
    ensure_of_not (Nat.not_le_of_lt h)
  induction h with
  | blank hnext hblank _ ih =>
    obtain ⟨t, d, hrounds, herror⟩ := ih hlarge hsize
    exact ⟨t, d, hrounds.head (onNested_inl.mpr ⟨_, _, hnext, .blank rfl hblank, rfl⟩), herror⟩
  | @empty c last bound tag hnext =>
    exact ⟨_, c, .refl _, onNested_tooLarge.mpr
      ⟨_, _, last, _, hnext, .alone rfl rfl, hsize hlarge⟩⟩
  | @start c c₁ last bound tag hnext hw =>
    obtain ⟨d, bound', name, hrounds, hlast⟩ := hw.rounds
    refine ⟨_, d, hrounds.head (onNested_inl.mpr ⟨_, _, hnext, .enter rfl rfl, rfl⟩), ?_⟩
    exact onNested_tooLarge.mpr ⟨_, _, last, _, hlast, .leave rfl, hsize hlarge⟩

/-- Between two cursors of the source there are as many bytes as the text between them has. -/
theorem offset_sub {first last : Cursor} (hfirst : first.rest <:+ p.source)
    (hlast : last.rest <:+ first.rest) :
    p.offset last - p.offset first = byteLength (first.upTo last) := by
  obtain ⟨before, hsource⟩ := hfirst
  have hrest := first.upTo_append hlast
  have hbytes : byteLength p.source = byteLength before + byteLength first.rest := by
    rw [← hsource, byteLength_append]
  have hbetween : byteLength first.rest = byteLength (first.upTo last) + byteLength last.rest := by
    rw [← hrest, byteLength_append]
  unfold Context.offset
  omega

section Lawful

variable [LawfulNamespaceScanner] {c : Cursor}

theorem consumes_onNested : Consumes (onNested p) := by
  intro s s' c c' h
  obtain ⟨bound, e, hnext, hstep, -⟩ := onNested_inl.mp h
  refine LawfulNamespaceScanner.progress hnext ?_
  rintro rfl
  cases hstep with
  | inside _ he => cases he

/-- A nested payload is refused as too large exactly where its first element measures too much. -/
theorem nestedPayload_tooLarge :
    (∃ found, nestedPayload p c =
      .error (.fieldTooLarge (lit "payload") found maxBinaryFieldChars)) ↔
      ∃ isEmpty first last, FirstElement c isEmpty first last ∧
        maxBinaryFieldChars < p.measured isEmpty first last := by
  have hcut {element : Option (ℕ × ℕ)} {found : ℕ} :
      cutOut p element ≠ .error (.fieldTooLarge (lit "payload") found maxBinaryFieldChars) := by
    simp [cutOut, malformed]
  constructor
  · rintro ⟨found, h⟩
    rcases bind_error.mp h with hloop | ⟨element, c', -, h⟩
    · obtain ⟨t, d, hrounds, herror⟩ := (loop_error consumes_onNested).mp hloop
      have hsought := sought_of_rounds hrounds
      obtain ⟨bound, e, d', s', hnext, hstep, hsize⟩ := onNested_tooLarge.mp herror
      exact hsought.tooLarge hnext hstep hsize
    · exact absurd (lift_error.mp h) hcut
  · rintro ⟨isEmpty, first, last, hfirst, hlarge⟩
    obtain ⟨t, d, hrounds, herror⟩ := hfirst.rounds hlarge
    exact ⟨_, bind_error.mpr (.inl ((loop_error consumes_onNested).mpr ⟨t, d, hrounds, herror⟩))⟩

/-- The element a payload holds is longer than a field may be. -/
def HoldsLongElement (c : Cursor) : Prop :=
  ∃ isEmpty first last, FirstElement c isEmpty first last ∧
    maxBinaryFieldChars < byteLength (first.upTo last)

/-- A payload holds an empty-element tag that is no longer than a field may be, but ends further
into the document than that. -/
def HoldsFarEmptyElement (p : Context) (c : Cursor) : Prop :=
  ∃ first last, FirstElement c true first last ∧
    byteLength (first.upTo last) ≤ maxBinaryFieldChars ∧ maxBinaryFieldChars < p.offset last

/-- The size limit depends on the element alone exactly where the payload does not hold a short
empty-element tag far into the document. -/
theorem nestedPayload_limit_iff (hc : c.rest <:+ p.source) :
    ((∃ found, nestedPayload p c =
      .error (.fieldTooLarge (lit "payload") found maxBinaryFieldChars)) ↔ HoldsLongElement c) ↔
      ¬ HoldsFarEmptyElement p c := by
  rw [nestedPayload_tooLarge]
  have hlength {isEmpty : Bool} {first last : Cursor} (h : FirstElement c isEmpty first last) :
      byteLength (first.upTo last) = p.offset last - p.offset first :=
    (offset_sub (h.suffix.1.trans hc) h.suffix.2).symm
  constructor
  · rintro hiff ⟨first, last, hfirst, hshort, hfar⟩
    obtain ⟨isEmpty, first', last', hfirst', hlong⟩ := hiff.mp ⟨true, first, last, hfirst, hfar⟩
    obtain ⟨-, rfl, rfl⟩ := hfirst.unique hfirst'
    exact absurd hlong (Nat.not_lt_of_le hshort)
  · intro hnear
    constructor
    · rintro ⟨isEmpty, first, last, hfirst, hlarge⟩
      refine ⟨isEmpty, first, last, hfirst, ?_⟩
      cases isEmpty with
      | true => exact Nat.lt_of_not_le fun hshort => hnear ⟨first, last, hfirst, hshort, hlarge⟩
      | false =>
        rw [hlength hfirst]
        exact hlarge
    · rintro ⟨isEmpty, first, last, hfirst, hlong⟩
      refine ⟨isEmpty, first, last, hfirst, ?_⟩
      have hle : p.offset last - p.offset first ≤ p.measured isEmpty first last := by
        unfold Context.measured
        split <;> omega
      exact lt_of_lt_of_le (hlength hfirst ▸ hlong) hle

end Lawful

end Reader

section Samples

attribute [local instance] Sample.documentPlatform Sample.lawfulNamespaces

/-- The cursor after the next event. -/
def after (c : Cursor) : Cursor :=
  match c.next with
  | some (_, _, c') => c'
  | none => c

/-- The start tag a cursor is before. -/
def tagAt (c : Cursor) : Tag :=
  match c.next with
  | some (_, .start tag, _) => tag
  | _ => ⟨[], none⟩

/-- A document whose one payload is an empty-element tag. -/
def noteDocument : Text :=
  Sample.chainDocument (lit "full") 0 0 <| Sample.blockElement 0 <|
    lit "<transactions>" ++
    Sample.transactionElement (lit "<payload encoding=\"xml\"><note/></payload>" ++
      Sample.signerElement ++ Sample.signatureElement) ++
    lit "</transactions>" ++ Sample.headerElement 0

def noteRoot : Cursor := Cursor.start noteDocument
def noteBlock : Cursor := after noteRoot
def noteTransactions : Cursor := after noteBlock
def noteTransaction : Cursor := after noteTransactions
def notePayload : Cursor := after noteTransaction
def noteElement : Cursor := after notePayload

theorem nestedPayload_limit_near :
    (∃ found, nestedPayload ⟨noteDocument, xmlNamespace, 2⟩ noteElement =
      .error (.fieldTooLarge (lit "payload") found maxBinaryFieldChars)) ↔
      HoldsLongElement noteElement := by
  refine (nestedPayload_limit_iff ?_).mpr ?_
  · decide +kernel
  · rintro ⟨first, last, -, -, hfar⟩
    have hle : byteLength noteDocument ≤ maxBinaryFieldChars := by decide +kernel
    exact absurd (hfar.trans_le ((Nat.sub_le _ _).trans hle)) (lt_irrefl _)

/-- The tags on the way to the payload's element, and what they state. -/
theorem note_tags :
    (noteRoot.next = some (some xmlNamespace, .start (tagAt noteRoot), noteBlock) ∧
      localName (tagAt noteRoot).name = lit "prunella-chain" ∧
      (rootAttributes (tagAt noteRoot)).toOption.map Parsed.formatVersion = some 2) ∧
    (noteBlock.next = some (some xmlNamespace, .start (tagAt noteBlock), noteTransactions) ∧
      localName (tagAt noteBlock).name = lit "block" ∧
      (blockStart (tagAt noteBlock)).toOption.isSome = true) ∧
    (noteTransactions.next =
        some (some xmlNamespace, .start (tagAt noteTransactions), noteTransaction) ∧
      localName (tagAt noteTransactions).name = lit "transactions" ∧
      transactionsAttributes (tagAt noteTransactions) = .ok ()) ∧
    (noteTransaction.next =
        some (some xmlNamespace, .start (tagAt noteTransaction), notePayload) ∧
      localName (tagAt noteTransaction).name = lit "transaction" ∧
      (transactionStart (tagAt noteTransaction) 0).toOption.isSome = true) ∧
    (notePayload.next = some (some xmlNamespace, .start (tagAt notePayload), noteElement) ∧
      localName (tagAt notePayload).name = lit "payload" ∧
      payloadEncoding ⟨[], [], 2⟩ (tagAt notePayload) = .ok .xml) ∧
    noteElement.next = some (some xmlNamespace, .empty ⟨lit "note", some []⟩, after noteElement) ∧
      byteLength (after noteElement).rest + 7 = byteLength noteElement.rest ∧
      byteLength noteElement.rest ≤ byteLength noteDocument := by
  refine ⟨?_, ?_, ?_, ?_, ?_, ?_⟩ <;> decide +kernel

theorem resolve_source (source : Text) {root : Tag} {bound : Option Text} {d : Parsed}
    {namespace_ : Text} (hname : localName root.name = lit "prunella-chain")
    (hroot : rootAttributes root = .ok d)
    (hnamespace : namespaceForVersion d.formatVersion = some namespace_)
    (hbound : bound = some namespace_) :
    rootContext source root bound = .ok (d, ⟨source, namespace_, d.formatVersion⟩) := by
  simp [rootContext, hname, hroot, hnamespace, hbound, ensure_of]

/-- After blanks that are longer than a field may be, the short payload is refused as too large. -/
theorem padded_tooLarge {n : ℕ} (hn : maxBinaryFieldChars ≤ n)
    (hlimit : n + 1 + byteLength noteDocument ≤ defaultMaxDocumentBytes) :
    ∃ found, readDocument (List.replicate (n + 1) ' ' ++ noteDocument) =
      .error (.fieldTooLarge (lit "payload") found maxBinaryFieldChars) := by
  obtain ⟨⟨hroot, hrootName, hversion⟩, ⟨hblock, hblockName, hstart⟩,
    ⟨htransactions, htransactionsName, hcount⟩, ⟨htransaction, htransactionName, hindex⟩,
    ⟨hpayload, hpayloadName, hencoding⟩, helement, hlast, hwithin⟩ := note_tags
  obtain ⟨declared, hdeclared, hformat⟩ := Option.map_eq_some_iff.mp hversion
  have hsize : byteLength (List.replicate (n + 1) ' ' ++ noteDocument) =
      n + 1 + byteLength noteDocument := by
    rw [byteLength_append, byteLength_blanks]
  generalize hsource : List.replicate (n + 1) ' ' ++ noteDocument = source at *
  let p : Context := ⟨source, xmlNamespace, 2⟩
  have hevent {c c' : Cursor} {tag : Tag}
      (h : c.next = some (some xmlNamespace, .start tag, c')) :
      event p c = .ok (childEvent tag false, c') := event_ok.mpr ⟨_, h, fun _ => rfl⟩
  obtain ⟨found, hnested⟩ : ∃ found, nestedPayload p noteElement =
      .error (.fieldTooLarge (lit "payload") found maxBinaryFieldChars) := by
    refine nestedPayload_tooLarge.mpr ⟨true, noteElement, after noteElement, .empty helement, ?_⟩
    change maxBinaryFieldChars < byteLength source - byteLength (after noteElement).rest - 0
    omega
  have hfield : field p {} (tagAt notePayload) false noteElement =
      .error (.fieldTooLarge (lit "payload") found maxBinaryFieldChars) := by
    have hother : lit "payload" ≠ lit "signer" := by decide
    have hxml : payloadEncoding p (tagAt notePayload) = .ok .xml := hencoding
    unfold field startField
    rw [hpayloadName, if_neg Bool.false_ne_true, if_neg hother, if_pos rfl,
      bind_of_ok (lift_ok.mpr ⟨hxml, rfl⟩)]
    exact bind_error.mpr (.inl hnested)
  have hof {α : Type} {x : Except ReadError α} (h : x.toOption.isSome = true) : ∃ a, x = .ok a := by
    cases x with
    | error e => cases h
    | ok a => exact ⟨a, rfl⟩
  obtain ⟨slots, hslots⟩ := hof hindex
  have htx : onTransaction p [] (tagAt noteTransaction) false notePayload =
      .error (.fieldTooLarge (lit "payload") found maxBinaryFieldChars) := by
    unfold onTransaction
    rw [if_pos ⟨rfl, htransactionName⟩,
      bind_of_ok (lift_ok.mpr ⟨ensure_of (by decide), rfl⟩),
      bind_of_ok (lift_ok.mpr ⟨ensure_of (by decide), rfl⟩)]
    refine bind_error.mpr (.inl ?_)
    rw [transaction, List.length_nil, bind_of_ok (lift_ok.mpr ⟨hslots, rfl⟩)]
    exact bind_error.mpr (.inl (children_error (hevent hpayload) hfield))
  obtain ⟨start, hstarts⟩ := hof hstart
  have hblocks : onRootChild p declared.networkId {} (tagAt noteBlock) false noteTransactions =
      .error (.fieldTooLarge (lit "payload") found maxBinaryFieldChars) := by
    have hnone : ¬ (false = true ∧ localName (tagAt noteBlock).name = lit "projection") := nofun
    unfold onRootChild
    rw [if_neg hnone, if_pos ⟨rfl, hblockName⟩,
      bind_of_ok (lift_ok.mpr ⟨ensure_of (by decide), rfl⟩)]
    refine bind_error.mpr (.inl ?_)
    rw [block, bind_of_ok (lift_ok.mpr ⟨hstarts, rfl⟩)]
    refine bind_error.mpr (.inl (children_error (hevent htransactions) ?_))
    have hheader : ¬ (false = true ∧ localName (tagAt noteTransactions).name = lit "header") := nofun
    rw [onBlockChild, if_neg hheader, if_pos htransactionsName,
      bind_of_ok (lift_ok.mpr ⟨hcount, rfl⟩)]
    exact bind_error.mpr (.inl (children_error (hevent htransaction) htx))
  have hdocument : document source (Cursor.start source) =
      .error (.fieldTooLarge (lit "payload") found maxBinaryFieldChars) := by
    have hopen : noteDocument = '<' :: noteDocument.tail := by decide +kernel
    have hblanks : (Cursor.start source).next =
        some (none, .text (List.replicate (n + 1) ' '), noteRoot) := by
      rw [← hsource, noteRoot, hopen]
      exact congrArg (Option.map _) (Plain.resolve_blanks )
    have hfirst : onProlog () (Cursor.start source) = .ok (.inl (), noteRoot) :=
      bind_ok.mpr ⟨(none, .text _), noteRoot, rawEvent_ok.mpr hblanks, rfl⟩
    have hsecond : onProlog () noteRoot =
        .ok (.inr (tagAt noteRoot, some xmlNamespace), noteBlock) :=
      bind_ok.mpr ⟨(_, .start (tagAt noteRoot)), noteBlock, rawEvent_ok.mpr hroot, rfl⟩
    have hprolog : loop onProlog () (Cursor.start source) =
        .ok ((tagAt noteRoot, some xmlNamespace), noteBlock) :=
      (loop_ok consumes_onProlog).mpr ⟨(), noteRoot, (Rounds.refl _).tail hfirst, hsecond⟩
    have hcontext : rootContext source (tagAt noteRoot) (some xmlNamespace) =
        .ok (declared, p) := by
      have hread : rootAttributes (tagAt noteRoot) = .ok declared := by
        cases hx : rootAttributes (tagAt noteRoot) with
        | error e =>
          rw [hx] at hdeclared
          cases hdeclared
        | ok d =>
          rw [hx] at hdeclared
          exact congrArg Except.ok (Option.some.inj hdeclared)
      have h := resolve_source source hrootName hread
        (congrArg namespaceForVersion hformat) rfl
      rwa [hformat] at h
    rw [document, bind_of_ok hprolog]
    refine bind_error.mpr (.inr ⟨(declared, p), noteBlock, lift_ok.mpr ⟨hcontext, rfl⟩, ?_⟩)
    exact bind_error.mpr (.inl (children_error (hevent hblock) hblocks))
  refine ⟨found, ?_⟩
  rw [readDocument, readDocumentWithLimit, ensure_of (hsize ▸ hlimit), ok_bind, hdocument]
  rfl

/-- A document is read or refused by where its one short payload lies. -/
theorem readDocument_far :
    (readDocument noteDocument).toOption.isSome = true ∧ ¬ HoldsLongElement noteElement ∧
      ∃ found, readDocument (List.replicate (maxBinaryFieldChars + 1) ' ' ++ noteDocument) =
        .error (.fieldTooLarge (lit "payload") found maxBinaryFieldChars) := by
  have hread : (readDocument noteDocument).toOption.isSome = true := by decide +kernel
  have hlimit : maxBinaryFieldChars + 1 + byteLength noteDocument ≤ defaultMaxDocumentBytes := by
    decide +kernel
  refine ⟨hread, ?_, padded_tooLarge (n := maxBinaryFieldChars) le_rfl hlimit⟩
  rintro ⟨isEmpty, first, last, hfirst, hlong⟩
  have helement := note_tags.2.2.2.2.2.1
  have hsame := hfirst.unique (.empty helement)
  have hlength : byteLength (noteElement.upTo (after noteElement)) ≤ maxBinaryFieldChars := by
    decide +kernel
  rw [hsame.2.1, hsame.2.2] at hlong
  exact absurd hlong (Nat.not_lt_of_le hlength)

end Samples

end Irena.Prunella.Read
