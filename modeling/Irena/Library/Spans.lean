import Irena.Library.Surroundings

/-! # Well-nested text

What lies between two places of a text, as far as elements are opened and closed there, and the
contract of a computation that reads well-nested text. A walk to the end of an element passes over
such text, so that it ends where the element does, and not in what is embedded. -/

namespace Irena.Library.Markup

open Strings

variable {φ ι α β σ : Type} [Scanner]

/-- The way between two places, through the tags of elements; text and comments stand before a tag.
The numbers count the elements that are open. -/
inductive Spans : ℕ → Reader → ℕ → Reader → Prop
  | refl {d r} : Spans d r d r
  | empty {d r r₁ d' r' tag} : Parse.skip ignorable r = some (.empty tag, r₁) →
      Spans d r₁ d' r' → Spans d r d' r'
  | start {d r r₁ d' r' tag} : Parse.skip ignorable r = some (.start tag, r₁) →
      Spans (d + 1) r₁ d' r' → Spans d r d' r'
  | close {d r r₁ d' r' name} : Parse.skip ignorable r = some (.close name, r₁) →
      Spans d r₁ d' r' → Spans (d + 1) r d' r'

/-- What an event does to the open elements. -/
def Event.Nests (e : Event) (before after : List Text) : Prop :=
  match e with
  | .start tag => after = tag.name :: before
  | .close name => before = name :: after
  | _ => after = before

/-- An event that opens and closes nothing. -/
def Event.Level (e : Event) : Prop :=
  e ≠ .eof ∧ (∀ tag, e ≠ .start tag) ∧ ∀ name, e ≠ .close name

omit [Scanner] in
theorem Event.Level.nests {e : Event} (h : e.Level) {before after : List Text} :
    e.Nests before after ↔ after = before := by
  obtain ⟨-, hstart, hclose⟩ := h
  cases e with
  | start tag => exact absurd rfl (hstart tag)
  | close name => exact absurd rfl (hclose name)
  | _ => rfl

omit [Scanner] in
theorem level_ignorable {e : Event} (h : ignorable e = true) : e.Level := by
  cases e <;> simp_all [Event.Level, ignorable]

/-- How many elements a tag opens. -/
def depthOf (isEmpty : Bool) : ℕ := if isEmpty then 0 else 1

namespace Spans

theorem trans {d d' d'' : ℕ} {r r' r'' : Reader} (h : Spans d r d' r') (k : Spans d' r' d'' r'') :
    Spans d r d'' r'' := by
  induction h with
  | refl => exact k
  | empty hskip _ ih => exact .empty hskip (ih k)
  | start hskip _ ih => exact .start hskip (ih k)
  | close hskip _ ih => exact .close hskip (ih k)

/-- The same way inside further elements. -/
theorem shift {d d' : ℕ} {r r' : Reader} (h : Spans d r d' r') (k : ℕ) :
    Spans (d + k) r (d' + k) r' := by
  induction h with
  | refl => exact .refl
  | empty hskip _ ih => exact .empty hskip ih
  | @start d _ _ _ _ _ hskip _ ih =>
    refine .start hskip ?_
    rw [Nat.add_right_comm]
    exact ih
  | @close d _ _ _ _ _ hskip _ ih =>
    rw [Nat.add_right_comm]
    exact .close hskip ih

theorem frame [LawfulScanner] {d d' : ℕ} {r r' : Reader} (h : Spans d r d' r') (base : List Text)
    (post : Text) : Spans d (r.frame base post) d' (r'.frame base post) := by
  induction h with
  | refl => exact .refl
  | empty hskip _ ih => exact .empty (Parse.skip_frame rfl hskip (by simp) (by simp) base post) ih
  | start hskip _ ih => exact .start (Parse.skip_frame rfl hskip (by simp) (by simp) base post) ih
  | close hskip _ ih => exact .close (Parse.skip_frame rfl hskip (by simp) (by simp) base post) ih

end Spans

namespace Parse

theorem skip_suffix [LawfulScanner] {skipped : Event → Bool} (heof : skipped .eof = false)
    {r r' : Reader} {e : Event} (h : skip skipped r = some (e, r')) :
    r'.rest <:+ r.rest ∧ (e ≠ .eof → r'.rest.length < r.rest.length) := by
  induction hn : r.rest.length using Nat.strong_induction_on generalizing r with
  | _ n ih =>
    rw [skip_eq heof] at h
    rcases hscan : scan r with _ | ⟨e₁, r₁⟩
    · rw [hscan] at h
      cases h
    · simp only [hscan] at h
      have hsuffix := LawfulScanner.suffix hscan
      split at h
      · rename_i hskip
        have hne : e₁ ≠ .eof := by
          rintro rfl
          rw [heof] at hskip
          cases hskip
        have hlt : r₁.rest.length < n := hn ▸ LawfulScanner.progress hscan hne
        obtain ⟨hlater, hless⟩ := ih _ hlt h rfl
        exact ⟨hlater.trans hsuffix, fun he => (hless he).trans hlt⟩
      · obtain ⟨rfl, rfl⟩ := Prod.mk.inj (Option.some.inj h)
        exact ⟨hsuffix, fun he => hn ▸ LawfulScanner.progress hscan he⟩

/-- Reading on over level events does to the open elements what the last event does. -/
theorem skip_nests [WritingScanner] {skipped : Event → Bool}
    (hskipped : ∀ e, skipped e = true → e.Level) {r r' : Reader} {e : Event}
    (h : skip skipped r = some (e, r')) : e.Nests r.opened r'.opened := by
  have heof : skipped .eof = false := by
    by_contra hcon
    exact (hskipped .eof (by simpa using hcon)).1 rfl
  induction hn : r.rest.length using Nat.strong_induction_on generalizing r with
  | _ n ih =>
    rw [skip_eq heof] at h
    rcases hscan : scan r with _ | ⟨e₁, r₁⟩
    · rw [hscan] at h
      cases h
    · simp only [hscan] at h
      have hnested := WritingScanner.nested hscan
      split at h
      · rename_i hskip
        have hlevel := hskipped e₁ hskip
        have hopened : r₁.opened = r.opened := hlevel.nests.mp hnested
        have hlt : r₁.rest.length < n := hn ▸ LawfulScanner.progress hscan hlevel.1
        rw [← hopened]
        exact ih _ hlt h rfl
      · obtain ⟨rfl, rfl⟩ := Prod.mk.inj (Option.some.inj h)
        exact hnested

end Parse

theorem Spans.suffix [LawfulScanner] {d d' : ℕ} {r r' : Reader} (h : Spans d r d' r') :
    r'.rest <:+ r.rest := by
  induction h with
  | refl => exact List.suffix_refl _
  | empty hskip _ ih => exact ih.trans (Parse.skip_suffix rfl hskip).1
  | start hskip _ ih => exact ih.trans (Parse.skip_suffix rfl hskip).1
  | close hskip _ ih => exact ih.trans (Parse.skip_suffix rfl hskip).1

theorem Spans.opened_length [WritingScanner] {d d' : ℕ} {r r' : Reader} (h : Spans d r d' r') :
    r'.opened.length + d = r.opened.length + d' := by
  induction h with
  | refl => rfl
  | empty hskip _ ih =>
    have hopened := congrArg List.length (Parse.skip_nests (fun _ => level_ignorable) hskip)
    omega
  | start hskip _ ih =>
    have hopened := congrArg List.length (Parse.skip_nests (fun _ => level_ignorable) hskip)
    rw [List.length_cons] at hopened
    omega
  | close hskip _ ih =>
    have hopened := congrArg List.length (Parse.skip_nests (fun _ => level_ignorable) hskip)
    rw [List.length_cons] at hopened
    omega

namespace Parse

/-- Where the answer is a good one, the text read closes `d` elements more than it opens, and what
the answer was reached from was good too. -/
def Spanning (p : Parse φ ι α) (d : ℕ) (Good : α → Prop) (Past : Prop) : Prop :=
  ∀ ⦃r a r'⦄, p.run r = (.ok a, r') → Good a → Past ∧ Spans d r 0 r'

variable {Good : α → Prop} {Past : Prop} {d : ℕ}

theorem Still.spanning {p : Parse φ ι α} (hp : Still p)
    (hpast : ∀ ⦃r a⦄, (p.run r).1 = .ok a → Good a → Past) : p.Spanning 0 Good Past := by
  intro r a r' hrun hgood
  obtain rfl := hp.eq_of_run hrun
  exact ⟨hpast (by rw [hrun]) hgood, .refl⟩

theorem spanning_pure {a : α} (hpast : Good a → Past) :
    (pure a : Parse φ ι α).Spanning 0 Good Past := by
  rintro r b r' hrun hgood
  obtain ⟨hb, rfl⟩ := Prod.mk.inj hrun
  obtain rfl := Except.ok.inj hb
  exact ⟨hpast hgood, .refl⟩

theorem spanning_refused {x : Refusal φ ι} :
    (answer (.error x) : Parse φ ι α).Spanning d Good Past := by
  intro r a r' hrun
  cases (Prod.mk.inj hrun).1

theorem spanning_ite {c : Prop} [Decidable c] {p q : Parse φ ι α}
    (hp : c → p.Spanning d Good Past) (hq : ¬ c → q.Spanning d Good Past) :
    (if c then p else q).Spanning d Good Past := by
  split
  · exact hp ‹_›
  · exact hq ‹_›

theorem Spanning.bind {p : Parse φ ι α} {f : α → Parse φ ι β} {B : β → Prop}
    (hp : p.Spanning d Good Past) (hf : ∀ a, (f a).Spanning 0 B (Good a)) :
    (p >>= f).Spanning d B Past := by
  intro r b r' hrun hbetter
  obtain ⟨a, r₁, hfirst, hsecond⟩ := run_bind_ok.mp hrun
  obtain ⟨hgood, hspans⟩ := hf a hsecond hbetter
  obtain ⟨hpast, hspans'⟩ := hp hfirst hgood
  exact ⟨hpast, hspans'.trans hspans⟩

theorem Still.bind_spanning {p : Parse φ ι α} {f : α → Parse φ ι β} {B : β → Prop}
    (hp : Still p) (hf : ∀ a, (f a).Spanning d B Past) : (p >>= f).Spanning d B Past := by
  intro r b r' hrun hbetter
  obtain ⟨a, r₁, hfirst, hsecond⟩ := run_bind_ok.mp hrun
  obtain rfl := hp.eq_of_run hfirst
  exact hf a hsecond hbetter

theorem Spanning.mapRefusal {φ' ι' : Type} {p : Parse φ ι α} (hp : p.Spanning d Good Past)
    (onFatal : φ → φ') (onInvalid : ι → ι') :
    (p.mapRefusal onFatal onInvalid).Spanning d Good Past := by
  intro r a r' hrun hgood
  refine hp (r := r) ?_ hgood
  unfold Parse.mapRefusal at hrun
  rcases hread : p.run r with ⟨(f | i) | b, r₁⟩
  · simp [hread] at hrun
  · simp [hread] at hrun
  · simpa [hread] using hrun

/-- A loop spans an element where each child is spanned. -/
theorem spanning_children [LawfulScanner] {reasons : Reasons φ}
    {onChild : σ → Tag → Bool → Parse φ ι σ} {G : σ → Prop}
    (hchild : ∀ s tag isEmpty, (onChild s tag isEmpty).Spanning (depthOf isEmpty) G (G s))
    (s : σ) : (children reasons onChild s).Spanning 1 G (G s) := by
  intro r t r' hrun hgood
  induction hn : r.rest.length using Nat.strong_induction_on generalizing r s with
  | _ n ih =>
    obtain ⟨e, r₁, hskip, hevent⟩ := run_children_ok.mp hrun
    have hlt (tag : Tag) (isEmpty : Bool) {s' : σ} {r₂ : Reader} (he : e ≠ .eof)
        (hchild : (onChild s tag isEmpty).run r₁ = (.ok s', r₂)) : r₂.rest.length < n := by
      have hsuffix := ((onChild s tag isEmpty).isLocal inferInstance).suffix r₁
      rw [hchild] at hsuffix
      exact hn ▸ lt_of_le_of_lt hsuffix.length_le ((skip_suffix rfl hskip).2 he)
    cases e with
    | empty tag =>
      obtain ⟨s', r₂, hfirst, hrest⟩ := run_bind_ok.mp hevent
      obtain ⟨hgood', hspans⟩ := ih _ (hlt tag true (by simp) hfirst) s' hrest rfl
      obtain ⟨hbefore, hinside⟩ := hchild s tag true hfirst hgood'
      exact ⟨hbefore, .empty hskip ((hinside.shift 1).trans hspans)⟩
    | start tag =>
      obtain ⟨s', r₂, hfirst, hrest⟩ := run_bind_ok.mp hevent
      obtain ⟨hgood', hspans⟩ := ih _ (hlt tag false (by simp) hfirst) s' hrest rfl
      obtain ⟨hbefore, hinside⟩ := hchild s tag false hfirst hgood'
      exact ⟨hbefore, .start hskip ((hinside.shift 1).trans hspans)⟩
    | close name =>
      obtain ⟨rfl, rfl⟩ := hevent
      exact ⟨hgood, .close hskip .refl⟩
    | _ => exact hevent.elim

/-- A walk on the way, `d` elements inside the one it ends with. -/
def walkOn (reasons : Reasons φ) (refused : Event → Bool) (source : Reader) (d : ℕ) (r : Reader) :
    Except (Refusal φ ι) Text × Reader :=
  runWalk reasons refused source (r.rest.length + 1) d r

/-- How a walk goes on behind an event that it does not refuse. -/
def walkBehind (reasons : Reasons φ) (refused : Event → Bool) (source r : Reader) (e : Event)
    (d : ℕ) (r' : Reader) : Except (Refusal φ ι) Text × Reader :=
  match e, d with
  | .start _, d => walkOn reasons refused source (d + 1) r'
  | .close _, 0 => (.ok (source.rest.take (source.rest.length - r.rest.length)), r')
  | .close _, d + 1 => walkOn reasons refused source d r'
  | _, d => walkOn reasons refused source d r'

variable {reasons : Reasons φ} {refused : Event → Bool} {source r r' : Reader} {e : Event}

section Walks

variable [LawfulScanner]

theorem runWalk_fuel {n m d : ℕ} (hn : r.rest.length < n) (hm : r.rest.length < m) :
    runWalk (ι := ι) reasons refused source n d r = runWalk reasons refused source m d r := by
  induction n generalizing m d r with
  | zero => omega
  | succ n ih =>
    obtain ⟨m, rfl⟩ : ∃ k, m = k + 1 := ⟨m - 1, by omega⟩
    rw [runWalk, runWalk]
    rcases hscan : scan r with _ | ⟨e, r'⟩
    · rfl
    · dsimp only
      split
      · rfl
      · rename_i hrefused
        have hlt := LawfulScanner.progress hscan fun heof => hrefused (.inl heof)
        split
        · exact ih (by omega) (by omega)
        · rfl
        · exact ih (by omega) (by omega)
        · exact ih (by omega) (by omega)

/-- A walk goes on by one event. -/
theorem walkOn_eq (hscan : scan r = some (e, r')) (heof : e ≠ .eof) (hrefused : refused e = false)
    (d : ℕ) :
    walkOn (ι := ι) reasons refused source d r = walkBehind reasons refused source r e d r' := by
  have hlt := LawfulScanner.progress hscan heof
  have hfuel (d : ℕ) : runWalk (ι := ι) reasons refused source r.rest.length d r' =
      walkOn reasons refused source d r' := runWalk_fuel hlt (Nat.lt_succ_self _)
  have hpassed : ¬ (e = .eof ∨ refused e = true) := by
    rw [hrefused]
    rintro (h | h)
    · exact heof h
    · cases h
  rw [walkOn, runWalk, hscan]
  simp only [hpassed, if_false]
  cases e with
  | close name =>
    cases d with
    | zero => rfl
    | succ d => exact hfuel d
  | _ => exact hfuel _

omit [LawfulScanner] in
theorem walkOn_refused (hscan : scan r = some (e, r')) (hrefused : refused e = true) (d : ℕ) :
    walkOn (ι := ι) reasons refused source d r = (.error (.fatal (reasons.unexpected e)), r') := by
  rw [walkOn, runWalk, hscan]
  simp [hrefused]

theorem walkOn_level (hscan : scan r = some (e, r')) (hlevel : e.Level)
    (hrefused : refused e = false) (d : ℕ) :
    walkOn (ι := ι) reasons refused source d r = walkOn reasons refused source d r' := by
  obtain ⟨heof, hstart, hclose⟩ := hlevel
  rw [walkOn_eq hscan heof hrefused]
  cases e with
  | start tag => exact absurd rfl (hstart tag)
  | close name => exact absurd rfl (hclose name)
  | _ => rfl

/-- A walk passes over what reading on passes over. -/
theorem walkOn_skip {skipped : Event → Bool} (heof : skipped .eof = false)
    (hskipped : ∀ e, skipped e = true → e.Level ∧ refused e = false)
    (h : skip skipped r = some (e, r')) (d : ℕ) :
    ∃ r₁, scan r₁ = some (e, r') ∧
      walkOn (ι := ι) reasons refused source d r = walkOn reasons refused source d r₁ := by
  induction hn : r.rest.length using Nat.strong_induction_on generalizing r with
  | _ n ih =>
    rw [skip_eq heof] at h
    rcases hscan : scan r with _ | ⟨e₁, r₁⟩
    · rw [hscan] at h
      cases h
    · simp only [hscan] at h
      split at h
      · rename_i hskip
        obtain ⟨hlevel, hrefused⟩ := hskipped e₁ hskip
        obtain ⟨r₂, hlast, hsame⟩ := ih _ (hn ▸ LawfulScanner.progress hscan hlevel.1) h rfl
        exact ⟨r₂, hlast, (walkOn_level hscan hlevel hrefused d).trans hsame⟩
      · obtain ⟨rfl, rfl⟩ := Prod.mk.inj (Option.some.inj h)
        exact ⟨r, hscan, rfl⟩

/-- A walk that refuses no element, text or comment passes over well-nested text. -/
theorem walkOn_spans (hopen : ∀ tag, refused (.start tag) = false ∧ refused (.empty tag) = false)
    (hclose : ∀ name, refused (.close name) = false)
    (hignorable : ∀ e, ignorable e = true → refused e = false) {d d' : ℕ}
    (h : Spans d r d' r') :
    walkOn (ι := ι) reasons refused source d r = walkOn reasons refused source d' r' := by
  have hpassed (e : Event) (he : ignorable e = true) : e.Level ∧ refused e = false :=
    ⟨level_ignorable he, hignorable e he⟩
  induction h with
  | refl => rfl
  | @empty d _ _ _ _ tag hskip _ ih =>
    obtain ⟨r₁, hscan, hsame⟩ := walkOn_skip rfl hpassed hskip d
    rw [hsame, walkOn_eq hscan (by simp) (hopen tag).2]
    exact ih
  | @start d _ _ _ _ tag hskip _ ih =>
    obtain ⟨r₁, hscan, hsame⟩ := walkOn_skip rfl hpassed hskip d
    rw [hsame, walkOn_eq hscan (by simp) (hopen tag).1]
    exact ih
  | @close d _ _ _ _ name hskip _ ih =>
    obtain ⟨r₁, hscan, hsame⟩ := walkOn_skip rfl hpassed hskip (d + 1)
    rw [hsame, walkOn_eq hscan (by simp) (hclose name)]
    exact ih

end Walks

section Documents

variable [DocumentScanner] {name : Text}

/-- A walk passes over the content before a level event. -/
theorem walkOn_content (hignorable : ∀ e, ignorable e = true → refused e = false)
    {opened : List Text} {text : Text} (hscan : scan ⟨opened, text.dropWhile isContent⟩ = some (e, r'))
    (hlevel : e.Level) (hrefused : refused e = false) (d : ℕ) :
    walkOn (ι := ι) reasons refused source d ⟨opened, text⟩ =
      walkOn reasons refused source d r' := by
  by_cases hblank : (text.takeWhile isContent).all isBlank = true
  · have h := @WritingScanner.blank _ _ opened (text.takeWhile isContent)
      (text.dropWhile isContent) hblank
    rw [List.takeWhile_append_dropWhile, hscan] at h
    exact walkOn_level h hlevel hrefused d
  · have hnot : (text.takeWhile isContent).all isBlank = false := by simpa using hblank
    obtain ⟨content, htext⟩ := @WritingScanner.content _ _ opened text hnot
    rw [walkOn_level htext (level_ignorable rfl) (hignorable _ rfl) d,
      walkOn_level hscan hlevel hrefused d]

/-- Where only an end tag is left behind content, a walk ends with it. -/
theorem walkOn_closing (hname : WritableName name) (hclose : ∀ name, refused (.close name) = false)
    (hignorable : ∀ e, ignorable e = true → refused e = false) {content : Text}
    (hcontent : content.all isContent = true) (base : List Text) (post : Text) :
    ∃ kept blanks, content = kept ++ blanks ∧ blanks.all isBlank = true ∧
      walkOn (ι := ι) reasons refused source 0
          ⟨name :: base, content ++ (lit "</" ++ name ++ lit ">" ++ post)⟩ =
        (.ok (source.rest.take (source.rest.length -
          (blanks ++ (lit "</" ++ name ++ lit ">" ++ post)).length)), ⟨base, post⟩) := by
  have hend := @WritingScanner.close _ _ base name post hname
  by_cases hblank : content.all isBlank = true
  · refine ⟨[], content, rfl, hblank, ?_⟩
    have h := @WritingScanner.blank _ _ (name :: base) content
      (lit "</" ++ name ++ lit ">" ++ post) hblank
    rw [hend] at h
    exact walkOn_eq h (by simp) (hclose name) 0
  · have htake : (content ++ (lit "</" ++ name ++ lit ">" ++ post)).takeWhile isContent = content := by
      rw [List.takeWhile_append_of_pos (List.all_eq_true.mp hcontent)]
      exact List.append_nil _
    have hdrop : (content ++ (lit "</" ++ name ++ lit ">" ++ post)).dropWhile isContent =
        lit "</" ++ name ++ lit ">" ++ post := by
      rw [List.dropWhile_append_of_pos (List.all_eq_true.mp hcontent)]
      rfl
    have hnot : ((content ++ (lit "</" ++ name ++ lit ">" ++ post)).takeWhile isContent).all isBlank =
        false := by
      rw [htake]
      simpa using hblank
    obtain ⟨text, htext⟩ := @WritingScanner.content _ _ (name :: base) _ hnot
    rw [hdrop] at htext
    refine ⟨content, [], (List.append_nil _).symm, rfl, ?_⟩
    rw [walkOn_level htext (level_ignorable rfl) (hignorable _ rfl)]
    exact walkOn_eq hend (by simp) (hclose name) 0

/-- A walk through a text that nothing more stands in ends with the end tag behind it. -/
theorem walkOn_end (hname : WritableName name) (hclose : ∀ name, refused (.close name) = false)
    (hignorable : ∀ e, ignorable e = true → refused e = false) {text : Text} {r' : Reader}
    (h : skip ignorable ⟨[], text⟩ = some (.eof, r')) (base : List Text) (post : Text) :
    ∃ kept blanks, text = kept ++ blanks ∧ blanks.all isBlank = true ∧
      walkOn (ι := ι) reasons refused source 0
          ⟨name :: base, text ++ (lit "</" ++ name ++ lit ">" ++ post)⟩ =
        (.ok (source.rest.take (source.rest.length -
          (blanks ++ (lit "</" ++ name ++ lit ">" ++ post)).length)), ⟨base, post⟩) := by
  induction hn : text.length using Nat.strong_induction_on generalizing text with
  | _ n ih =>
    rw [skip_content rfl (fun _ => rfl)] at h
    rcases hrest : text.dropWhile isContent with _ | ⟨c, rest⟩
    · refine walkOn_closing hname hclose hignorable ?_ base post
      exact List.all_eq_true.mpr (List.dropWhile_eq_nil_iff.mp hrest)
    · rw [hrest] at h
      have hc : isContent c = false := by
        have hnot := List.head?_dropWhile_not isContent text
        rw [hrest] at hnot
        exact hnot
      rcases hscan : scan ⟨[], c :: rest⟩ with _ | ⟨e, r₁⟩
      · rw [skip_eq rfl, hscan] at h
        cases h
      · obtain ⟨t, rfl⟩ := comment_of_skip hc hscan h
        rw [skip_eq rfl, hscan] at h
        have hopened : r₁.opened = [] := WritingScanner.nested hscan
        have hframe := LawfulScanner.frame hscan (by simp) (.inr (by simp)) (name :: base)
          (lit "</" ++ name ++ lit ">" ++ post)
        have hlt : r₁.rest.length < n := by
          refine lt_of_lt_of_le (LawfulScanner.progress hscan (by simp)) ?_
          change (c :: rest).length ≤ n
          rw [← hrest, ← hn]
          exact (List.dropWhile_suffix _).length_le
        obtain ⟨before, htext⟩ : r₁.rest <:+ text := by
          refine (LawfulScanner.suffix hscan).trans ?_
          change c :: rest <:+ text
          rw [← hrest]
          exact List.dropWhile_suffix _
        obtain ⟨opened, left⟩ := r₁
        obtain rfl : opened = [] := hopened
        obtain ⟨kept, blanks, hleft, hblanks, hwalk⟩ := ih _ hlt h rfl
        refine ⟨before ++ kept, blanks, ?_, hblanks, ?_⟩
        · rw [← htext, List.append_assoc, ← hleft]
        · rw [← hwalk]
          have hlevel : (Event.comment t).Level := level_ignorable rfl
          refine walkOn_content hignorable ?_ hlevel (hignorable (.comment t) rfl) 0
          rw [List.dropWhile_append, hrest]
          exact hframe

/-- A walk from the start of an element that holds a document answers the document, short of the
blanks at its end. -/
theorem run_walk_document {skipped : Event → Bool} (heof : skipped .eof = false)
    (hskipped : ∀ e, skipped e = true → e.Level ∧ refused e = false)
    (hopen : ∀ tag, refused (.start tag) = false ∧ refused (.empty tag) = false)
    (hclose : ∀ name, refused (.close name) = false)
    (hignorable : ∀ e, ignorable e = true → refused e = false) (hname : WritableName name)
    {text : Text} {root : Tag} {isEmpty : Bool} {r₁ r₂ r₃ : Reader}
    (hbegins : skip skipped ⟨[], text⟩ = some (if isEmpty then .empty root else .start root, r₁))
    (hspans : Spans (depthOf isEmpty) r₁ 0 r₂) (hends : skip ignorable r₂ = some (.eof, r₃))
    (base : List Text) (post : Text) :
    ∃ kept blanks, text = kept ++ blanks ∧ blanks.all isBlank = true ∧
      (walk (ι := ι) reasons refused).run
          ⟨name :: base, text ++ (lit "</" ++ name ++ lit ">" ++ post)⟩ =
        (.ok kept, ⟨base, post⟩) := by
  have hopened : r₂.opened = [] := by
    have hroot := skip_nests (fun e he => (hskipped e he).1) hbegins
    have hlength := hspans.opened_length
    refine List.eq_nil_of_length_eq_zero ?_
    cases isEmpty <;> simp_all [Event.Nests, depthOf]
  obtain ⟨before, htext⟩ : r₂.rest <:+ text :=
    hspans.suffix.trans (skip_suffix heof hbegins).1
  set source : Reader := ⟨name :: base, text ++ (lit "</" ++ name ++ lit ">" ++ post)⟩ with hsource
  have hframe := skip_frame heof hbegins (by cases isEmpty <;> simp)
    (by cases isEmpty <;> simp) (name :: base) (lit "</" ++ name ++ lit ">" ++ post)
  obtain ⟨r₀, hscan, hsame⟩ : ∃ r₀, scan r₀ = some (_, _) ∧
      walkOn (ι := ι) reasons refused source 0 _ = walkOn reasons refused source 0 r₀ :=
    walkOn_skip heof hskipped hframe 0
  have hroot : walkOn (ι := ι) reasons refused source 0 r₀ = walkOn reasons refused source
      (depthOf isEmpty) (r₁.frame (name :: base) (lit "</" ++ name ++ lit ">" ++ post)) := by
    cases isEmpty with
    | true => exact walkOn_eq hscan (by simp) (hopen root).2 0
    | false => exact walkOn_eq hscan (by simp) (hopen root).1 0
  obtain ⟨opened, left⟩ := r₂
  obtain rfl : opened = [] := hopened
  obtain ⟨kept, blanks, hleft, hblanks, hwalk⟩ : ∃ kept blanks, left = kept ++ blanks ∧
      blanks.all isBlank = true ∧ walkOn (ι := ι) reasons refused source 0 _ = _ :=
    walkOn_end hname hclose hignorable hends base post
  refine ⟨before ++ kept, blanks, ?_, hblanks, ?_⟩
  · rw [← htext, List.append_assoc, ← hleft]
  · have hrun : (walk (ι := ι) reasons refused).run source = walkOn reasons refused source 0
        (Reader.frame ⟨[], text⟩ (name :: base) (lit "</" ++ name ++ lit ">" ++ post)) := rfl
    rw [hrun, hsame, hroot, walkOn_spans hopen hclose hignorable (hspans.frame _ _)]
    refine hwalk.trans ?_
    have hrest : source.rest =
        (before ++ kept) ++ (blanks ++ (lit "</" ++ name ++ lit ">" ++ post)) := by
      rw [hsource]
      change text ++ (lit "</" ++ name ++ lit ">" ++ post) = _
      rw [← htext]
      change before ++ left ++ _ = _
      rw [hleft]
      simp only [List.append_assoc]
    rw [hrest, List.length_append, Nat.add_sub_cancel, List.take_left' rfl]

end Documents

end Parse

end Irena.Library.Markup
