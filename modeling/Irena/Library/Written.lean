import Irena.Library.Markup

/-! # Markup that a program wrote itself

What a program that writes elements relies on when it reads them back: the tags it wrote are read
as written, blanks between them are passed over, and text runs up to the next markup. Attribute
values are escaped when written; read, their line breaks and tabs have become blanks. -/

namespace Irena.Library.Markup

open Strings

/-- The blanks of markup. -/
def isBlank (c : Char) : Bool := c = ' ' || c = '\t' || c = '\n' || c = '\r'

/-- Whether a character goes on a run of text. -/
def isContent (c : Char) : Bool := c ≠ '<' && c ≠ '&'

/-- The characters of the names a program writes. -/
def isNameCharacter (c : Char) : Bool := isAsciiLowercase c || c = '-'

/-- Text as an attribute value in double quotes. -/
def escapeValue (text : Text) : Text :=
  text.flatMap fun c =>
    if c = '&' then lit "&amp;"
    else if c = '"' then lit "&quot;"
    else if c = '<' then lit "&lt;"
    else if c = '>' then lit "&gt;"
    else [c]

/-- The value of an attribute as it is read: each line break and each tab is one blank. -/
def normaliseValue : Text → Text
  | [] => []
  | '\r' :: '\n' :: t => ' ' :: normaliseValue t
  | c :: t => (if c = '\t' ∨ c = '\n' ∨ c = '\r' then ' ' else c) :: normaliseValue t

def writePair (p : Text × Text) : Text :=
  lit " " ++ p.1 ++ lit "=\"" ++ escapeValue p.2 ++ lit "\""

def writePairs (attributes : List (Text × Text)) : Text := attributes.flatMap writePair

/-- The attributes of a written tag as they are read. -/
def readPairs (attributes : List (Text × Text)) : List (Text × Text) :=
  attributes.map fun p => (p.1, normaliseValue p.2)

def WritableName (name : Text) : Prop := name ≠ [] ∧ name.all isNameCharacter = true

instance (name : Text) : Decidable (WritableName name) := inferInstanceAs (Decidable (_ ∧ _))

/-- A tag of plain names, no attribute twice. -/
structure Writable (name : Text) (attributes : List (Text × Text)) : Prop where
  name : WritableName name
  keys : ∀ p ∈ attributes, WritableName p.1
  nodup : (attributes.map Prod.fst).Nodup

/-- What is relied on of a scanner beyond its being lawful. -/
class WritingScanner [Scanner] : Prop extends LawfulScanner where
  blank : ∀ {opened blanks rest}, blanks.all isBlank = true →
    scan ⟨opened, blanks ++ rest⟩ = scan ⟨opened, rest⟩
  content : ∀ {opened text}, (text.takeWhile isContent).all isBlank = false →
    ∃ content, scan ⟨opened, text⟩ = some (.text content, ⟨opened, text.dropWhile isContent⟩)
  start : ∀ {opened name attributes rest}, Writable name attributes →
    scan ⟨opened, lit "<" ++ name ++ writePairs attributes ++ lit ">" ++ rest⟩ =
      some (.start ⟨name, some (readPairs attributes)⟩, ⟨name :: opened, rest⟩)
  empty : ∀ {opened name attributes rest}, Writable name attributes →
    scan ⟨opened, lit "<" ++ name ++ writePairs attributes ++ lit "/>" ++ rest⟩ =
      some (.empty ⟨name, some (readPairs attributes)⟩, ⟨opened, rest⟩)
  close : ∀ {opened name rest}, WritableName name →
    scan ⟨name :: opened, lit "</" ++ name ++ lit ">" ++ rest⟩ = some (.close name, ⟨opened, rest⟩)
  finish : scan ⟨[], []⟩ = some (.eof, ⟨[], []⟩)
  nested : ∀ {r r' e}, scan r = some (e, r') →
    match e with
    | .start tag => r'.opened = tag.name :: r.opened
    | .close name => r.opened = name :: r'.opened
    | _ => r'.opened = r.opened

/-- The characters that are read as another one. -/
def isBroken (c : Char) : Bool := c = '\t' || c = '\n' || c = '\r'

/-- A value is read as it was written exactly when it has no line break and no tab. -/
theorem normaliseValue_eq_self {v : Text} :
    normaliseValue v = v ↔ ∀ c ∈ v, isBroken c = false := by
  induction v using normaliseValue.induct with
  | case1 => simp [normaliseValue]
  | case2 t ih => simp [normaliseValue, isBroken]
  | case3 c t hne ih =>
    rw [normaliseValue.eq_3 c t hne, List.cons.injEq, ih, List.forall_mem_cons]
    refine and_congr_left fun _ => ?_
    by_cases hc : c = '\t' ∨ c = '\n' ∨ c = '\r'
    · rw [if_pos hc]
      rcases hc with rfl | rfl | rfl <;> decide
    · rw [if_neg hc]
      simpa [isBroken, and_assoc] using hc

/-- A text without special characters is its own escaped form. -/
theorem escapeValue_eq_self {v : Text} (h : ∀ c ∈ v, c ≠ '&' ∧ c ≠ '"' ∧ c ≠ '<' ∧ c ≠ '>') :
    escapeValue v = v := by
  induction v with
  | nil => rfl
  | cons c v ih =>
    obtain ⟨hamp, hquote, hlt, hgt⟩ := h c (List.mem_cons_self ..)
    have htail : escapeValue v = v := ih fun d hd => h d (List.mem_cons_of_mem _ hd)
    unfold escapeValue at htail ⊢
    rw [List.flatMap_cons, htail, if_neg hamp, if_neg hquote, if_neg hlt, if_neg hgt]
    rfl

/-- Characters that are written and read as they are. -/
def isPlain (c : Char) : Bool := c ≠ '&' && c ≠ '"' && c ≠ '<' && c ≠ '>' && !isBroken c

/-- A class of characters without the ones that markup treats apart is plain. -/
theorem isPlain_of_class {p : Char → Bool}
    (h : ∀ d ∈ ['&', '"', '<', '>', '\t', '\n', '\r'], p d = false) {c : Char} (hc : p c = true) :
    isPlain c = true := by
  have hne : ∀ d ∈ ['&', '"', '<', '>', '\t', '\n', '\r'], c ≠ d := by
    rintro d hd rfl
    rw [h c hd] at hc
    cases hc
  simp only [List.forall_mem_cons] at hne
  obtain ⟨hamp, hquote, hlt, hgt, htab, hline, hreturn, -⟩ := hne
  simp [isPlain, isBroken, hamp, hquote, hlt, hgt, htab, hline, hreturn]

theorem all_isPlain_of_class {p : Char → Bool} {v : Text}
    (h : (['&', '"', '<', '>', '\t', '\n', '\r'].any p) = false) (hv : v.all p = true) :
    v.all isPlain = true := by
  rw [List.any_eq_false] at h
  refine List.all_eq_true.mpr fun c hc => ?_
  exact isPlain_of_class (fun d hd => by simpa using h d hd) (List.all_eq_true.mp hv c hc)

theorem escapeValue_plain {v : Text} (h : v.all isPlain = true) : escapeValue v = v := by
  refine escapeValue_eq_self fun c hc => ?_
  have hplain := List.all_eq_true.mp h c hc
  simp only [isPlain, Bool.and_eq_true, decide_eq_true_eq] at hplain
  exact ⟨hplain.1.1.1.1, hplain.1.1.1.2, hplain.1.1.2, hplain.1.2⟩

theorem normaliseValue_plain {v : Text} (h : v.all isPlain = true) : normaliseValue v = v := by
  refine normaliseValue_eq_self.mpr fun c hc => ?_
  have hplain := List.all_eq_true.mp h c hc
  simp only [isPlain, Bool.and_eq_true, Bool.not_eq_true'] at hplain
  exact hplain.2

/-- What is passed over between the children of an element. -/
def ignorable : Event → Bool
  | .text _ => true
  | .comment _ => true
  | _ => false

namespace Parse

variable [Scanner] {φ ι σ α : Type} {skipped : Event → Bool}

section Lawful

variable [LawfulScanner]

theorem runSkip_fuel {n m : ℕ} {r : Reader} (heof : skipped .eof = false) (hn : r.rest.length < n)
    (hm : r.rest.length < m) : runSkip skipped n r = runSkip skipped m r := by
  induction n generalizing m r with
  | zero => omega
  | succ n ih =>
    obtain ⟨m, rfl⟩ : ∃ k, m = k + 1 := ⟨m - 1, by omega⟩
    rw [runSkip, runSkip]
    rcases hscan : scan r with _ | ⟨e, r'⟩
    · rfl
    · dsimp only
      split
      · rename_i hskip
        have hne : e ≠ .eof := by
          rintro rfl
          rw [heof] at hskip
          cases hskip
        have hlt := LawfulScanner.progress hscan hne
        exact ih (by omega) (by omega)
      · rfl

/-- Reading on, one event at a time. -/
theorem skip_eq (heof : skipped .eof = false) (r : Reader) :
    skip skipped r =
      match scan r with
      | none => none
      | some (e, r') => if skipped e then skip skipped r' else some (e, r') := by
  rw [skip, runSkip]
  rcases hscan : scan r with _ | ⟨e, r'⟩
  · rfl
  · dsimp only
    split
    · rename_i hskip
      have hne : e ≠ .eof := by
        rintro rfl
        rw [heof] at hskip
        cases hskip
      have hlt := LawfulScanner.progress hscan hne
      exact runSkip_fuel heof (by omega) (by omega)
    · rfl

/-- Reading on within a text is reading on within what surrounds it, short of its end. -/
theorem skip_frame (heof : skipped .eof = false) {r r' : Reader} {e : Event}
    (h : skip skipped r = some (e, r')) (he : e ≠ .eof) (hend : ∀ t, e ≠ .text t)
    (base : List Text) (post : Text) :
    skip skipped (r.frame base post) = some (e, r'.frame base post) := by
  induction hlen : r.rest.length using Nat.strong_induction_on generalizing r with
  | _ n ih =>
    rw [skip_eq heof] at h ⊢
    rcases hscan : scan r with _ | ⟨e₁, r₁⟩
    · simp [hscan] at h
    · simp only [hscan] at h
      have hne : e₁ ≠ .eof := by
        rintro rfl
        simp only [heof, Bool.false_eq_true, if_false, Option.some.injEq, Prod.mk.injEq] at h
        exact he h.1.symm
      have hlt := LawfulScanner.progress hscan hne
      by_cases hskip : skipped e₁ = true
      · rw [if_pos hskip] at h
        have hrest : r₁.rest ≠ [] := by
          intro hnil
          rw [skip_eq heof] at h
          rcases hscan₁ : scan r₁ with _ | ⟨e₂, r₂⟩
          · simp [hscan₁] at h
          · have heof₂ : e₂ = .eof := by
              by_contra hne₂
              have := LawfulScanner.progress hscan₁ hne₂
              simp [hnil] at this
            subst heof₂
            simp only [hscan₁, heof, Bool.false_eq_true, if_false, Option.some.injEq,
              Prod.mk.injEq] at h
            exact he h.1.symm
        rw [LawfulScanner.frame hscan hne (.inl hrest) base post]
        simp only [hskip, if_true]
        exact ih _ (by omega) h rfl
      · rw [if_neg hskip, Option.some.injEq, Prod.mk.injEq] at h
        obtain ⟨rfl, rfl⟩ := h
        rw [LawfulScanner.frame hscan hne (.inr hend) base post]
        simp only [hskip, Bool.false_eq_true, if_false]

/-- Passing over more either ends at the same event, or at one that less would have stopped at. -/
theorem skip_of_skip {fewer : Event → Bool} (heof : skipped .eof = false)
    (hle : ∀ e, fewer e = true → skipped e = true) {r r' : Reader} {e : Event}
    (h : skip skipped r = some (e, r')) :
    skip fewer r = some (e, r') ∨
      ∃ e₁ r₁, skip fewer r = some (e₁, r₁) ∧ skipped e₁ = true ∧ fewer e₁ = false := by
  have heof' : fewer .eof = false := by
    by_contra hcon
    rw [hle _ (by simpa using hcon)] at heof
    cases heof
  induction hlen : r.rest.length using Nat.strong_induction_on generalizing r with
  | _ n ih =>
    rw [skip_eq heof] at h
    rw [skip_eq heof']
    rcases hscan : scan r with _ | ⟨e₁, r₁⟩
    · simp [hscan] at h
    · simp only [hscan] at h ⊢
      by_cases hfewer : fewer e₁ = true
      · have hskip := hle _ hfewer
        have hne : e₁ ≠ .eof := by
          rintro rfl
          rw [heof] at hskip
          cases hskip
        have hlt := LawfulScanner.progress hscan hne
        rw [if_pos hskip] at h
        simp only [hfewer, if_true]
        exact ih _ (by omega) h rfl
      · simp only [hfewer, Bool.false_eq_true, if_false]
        by_cases hskip : skipped e₁ = true
        · exact .inr ⟨e₁, r₁, rfl, hskip, by simpa using hfewer⟩
        · rw [if_neg hskip] at h
          exact .inl h

/-- The loop over children reads on to the next tag, and goes on with the child it opens. -/
theorem run_children_ok {reasons : Reasons φ} {onChild : σ → Tag → Bool → Parse φ ι σ} {s a : σ}
    {r r'' : Reader} :
    (children reasons onChild s).run r = (.ok a, r'') ↔ ∃ e r', skip ignorable r = some (e, r') ∧
      match e with
      | .empty tag => (onChild s tag true >>= children reasons onChild).run r' = (.ok a, r'')
      | .start tag => (onChild s tag false >>= children reasons onChild).run r' = (.ok a, r'')
      | .close _ => a = s ∧ r'' = r'
      | _ => False := by
  induction hlen : r.rest.length using Nat.strong_induction_on generalizing r with
  | _ n ih =>
    rw [run_children, skip_eq rfl]
    rcases hscan : scan r with _ | ⟨e, r₁⟩
    · simp
    · dsimp only
      cases e with
      | text t =>
        have hlt := LawfulScanner.progress hscan (by simp)
        simp only [ignorable, if_true]
        exact ih _ (by omega) rfl
      | comment t =>
        have hlt := LawfulScanner.progress hscan (by simp)
        simp only [ignorable, if_true]
        exact ih _ (by omega) rfl
      | close name => simp [ignorable, eq_comm]
      | empty tag => simp [ignorable]
      | start tag => simp [ignorable]
      | _ => simp [ignorable]

end Lawful

section Writing

variable [WritingScanner]

/-- Reading on passes over the text before the next markup. -/
theorem skip_content (heof : skipped .eof = false) (htext : ∀ t, skipped (.text t) = true)
    (opened : List Text) (text : Text) :
    skip skipped ⟨opened, text⟩ = skip skipped ⟨opened, text.dropWhile isContent⟩ := by
  by_cases hblank : (text.takeWhile isContent).all isBlank = true
  · have hscan : scan ⟨opened, text⟩ = scan ⟨opened, text.dropWhile isContent⟩ := by
      have h := @WritingScanner.blank _ _ opened (text.takeWhile isContent)
        (text.dropWhile isContent) hblank
      rw [List.takeWhile_append_dropWhile] at h
      exact h
    rw [skip_eq heof, skip_eq heof, hscan]
  · have hnot : (text.takeWhile isContent).all isBlank = false := by simpa using hblank
    obtain ⟨content, hscan⟩ := @WritingScanner.content _ _ opened text hnot
    rw [skip_eq heof, hscan]
    simp only [htext, if_true]

end Writing

end Parse

end Irena.Library.Markup
