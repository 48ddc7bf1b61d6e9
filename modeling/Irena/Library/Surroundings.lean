import Irena.Library.PlainMarkup
import Mathlib.Data.List.TakeWhile

/-! # Documents and what surrounds them

Whitespace around a document, and a declaration before it, do not change what its root is or that
nothing follows it. -/

namespace Irena.Library.Markup

open Strings

/-- What is relied on of a scanner where a document begins and where it ends. -/
class DocumentScanner [Scanner] : Prop extends WritingScanner where
  ending : ∀ {r r'}, scan r = some (.eof, r') → r.rest.all isBlank = true
  textual : ∀ {r r' t}, scan r = some (.text t, r') → ∃ c rest, r.rest = c :: rest ∧
    isContent c = true
  instructed : ∀ {opened t rest}, afterFirst (lit "?>") t = some rest →
    ∃ e, (e = .declaration ∨ e = .instruction) ∧
      scan ⟨opened, lit "<?xml" ++ t⟩ = some (e, ⟨opened, rest⟩)

theorem isContent_of_isWhitespace {c : Char} (h : isWhitespace c = true) : isContent c = true := by
  unfold isContent
  have hlt : c ≠ '<' := by
    rintro rfl
    exact absurd h (by decide)
  have hamp : c ≠ '&' := by
    rintro rfl
    exact absurd h (by decide)
  simp [hlt, hamp]

theorem isContent_of_isBlank {c : Char} (h : isBlank c = true) : isContent c = true := by
  unfold isContent
  have hlt : c ≠ '<' := by
    rintro rfl
    exact absurd h (by decide)
  have hamp : c ≠ '&' := by
    rintro rfl
    exact absurd h (by decide)
  simp [hlt, hamp]

theorem all_isContent {ws : Text} (h : ws.all isWhitespace = true) : ws.all isContent = true :=
  List.all_eq_true.mpr fun c hc => isContent_of_isWhitespace (List.all_eq_true.mp h c hc)

/-- A text with the whitespace that trimming it takes away. -/
theorem trim_decompose (t : Text) : ∃ before after, t = before ++ trim t ++ after ∧
    before.all isWhitespace = true ∧ after.all isWhitespace = true := by
  refine ⟨t.takeWhile isWhitespace, ((trimStart t).reverse.takeWhile isWhitespace).reverse, ?_,
    ?_, ?_⟩
  · have hend : trim t ++ ((trimStart t).reverse.takeWhile isWhitespace).reverse = trimStart t := by
      rw [trim, trimEnd, ← List.reverse_append, List.takeWhile_append_dropWhile, List.reverse_reverse]
    rw [List.append_assoc, hend]
    exact List.takeWhile_append_dropWhile.symm
  · exact List.all_takeWhile
  · rw [List.all_reverse]
    exact List.all_takeWhile

theorem isWhitespace_of_isBlank {c : Char} (h : isBlank c = true) : isWhitespace c = true := by
  simp only [isBlank, Bool.or_eq_true, decide_eq_true_iff] at h
  rcases h with ((rfl | rfl) | rfl) | rfl <;> rfl

/-- Whitespace before a text is trimmed away. -/
theorem trim_before {ws : Text} (h : ws.all isWhitespace = true) (t : Text) :
    trim (ws ++ t) = trim t := by
  rw [trim, trim, trimStart, List.dropWhile_append_of_pos (List.all_eq_true.mp h)]
  rfl

/-- Whitespace behind a text is trimmed away. -/
theorem trim_behind {ws : Text} (h : ws.all isWhitespace = true) (t : Text) :
    trim (t ++ ws) = trim t := by
  have hnil {u : Text} (hu : u.all isWhitespace = true) : trimStart u = [] :=
    List.dropWhile_eq_nil_iff.mpr (List.all_eq_true.mp hu)
  by_cases ht : t.all isWhitespace = true
  · have hall : (t ++ ws).all isWhitespace = true := by
      rw [List.all_append, ht, h]
      rfl
    rw [trim, trim, hnil ht, hnil hall]
  · have hne : t.dropWhile isWhitespace ≠ [] := by
      rw [ne_eq, List.dropWhile_eq_nil_iff, ← List.all_eq_true]
      exact ht
    have hstart : trimStart (t ++ ws) = trimStart t ++ ws := by
      rw [trimStart, List.dropWhile_append, if_neg (by simpa using hne)]
      rfl
    have hreverse : ws.reverse.all isWhitespace = true := by rwa [List.all_reverse]
    rw [trim, hstart, trimEnd, List.reverse_append,
      List.dropWhile_append_of_pos (List.all_eq_true.mp hreverse)]
    rfl

/-- Trimming leaves nothing to trim. -/
theorem trim_trim (t : Text) : trim (trim t) = trim t := by
  obtain ⟨before, after, htext, hbefore, hafter⟩ := trim_decompose t
  calc trim (trim t) = trim (before ++ trim t) := (trim_before hbefore _).symm
    _ = trim (before ++ trim t ++ after) := (trim_behind hafter _).symm
    _ = trim t := by rw [← htext]

theorem afterFirst_eq_splitFirst (needle t : Text) :
    afterFirst needle t = (Plain.splitFirst needle t).map Prod.snd := by
  induction t with
  | nil =>
    rw [afterFirst, Plain.splitFirst, Option.map_map]
    exact Option.map_id'.symm
  | cons c t ih =>
    rw [afterFirst, Plain.splitFirst]
    cases stripPrefix (c :: t) needle with
    | some rest => rfl
    | none =>
      rw [ih, Option.map_map]
      rfl

/-- The first occurrence stays the first when a text goes on. -/
theorem afterFirst_append {needle t rest : Text} (h : afterFirst needle t = some rest)
    (more : Text) : afterFirst needle (t ++ more) = some (rest ++ more) := by
  rw [afterFirst_eq_splitFirst] at h ⊢
  obtain ⟨⟨before, rest⟩, hsplit, rfl⟩ := Option.map_eq_some_iff.mp h
  rw [Plain.splitFirst_append hsplit]
  rfl

namespace Parse

variable [Scanner] [DocumentScanner] {skipped : Event → Bool}

/-- Content before a text is passed over with what the text begins with. -/
theorem skip_before (heof : skipped .eof = false) (htext : ∀ t, skipped (.text t) = true)
    {before : Text} (hbefore : before.all isContent = true) (opened : List Text) (text : Text) :
    skip skipped ⟨opened, before ++ text⟩ = skip skipped ⟨opened, text⟩ := by
  rw [skip_content heof htext opened (before ++ text), skip_content heof htext opened text,
    List.dropWhile_append_of_pos (List.all_eq_true.mp hbefore)]

/-- Behind content, reading on reaches a written start tag. -/
theorem skip_start (heof : skipped .eof = false) (htext : ∀ t, skipped (.text t) = true)
    (hstart : ∀ tag, skipped (.start tag) = false) {name before : Text}
    {attributes : List (Text × Text)} (hwritable : Writable name attributes)
    (hbefore : before.all isContent = true) (opened : List Text) (rest : Text) :
    skip skipped ⟨opened, before ++ (lit "<" ++ name ++ writePairs attributes ++ lit ">" ++ rest)⟩ =
      some (.start ⟨name, some (readPairs attributes)⟩, ⟨name :: opened, rest⟩) := by
  rw [skip_before heof htext hbefore, skip_eq heof, WritingScanner.start hwritable]
  simp only [hstart, Bool.false_eq_true, if_false]

/-- Behind content, reading on reaches a written empty-element tag. -/
theorem skip_empty {name before : Text} {attributes : List (Text × Text)}
    (hwritable : Writable name attributes) (hbefore : before.all isContent = true)
    (opened : List Text) (rest : Text) :
    skip ignorable
        ⟨opened, before ++ (lit "<" ++ name ++ writePairs attributes ++ lit "/>" ++ rest)⟩ =
      some (.empty ⟨name, some (readPairs attributes)⟩, ⟨opened, rest⟩) := by
  rw [skip_before rfl (fun _ => rfl) hbefore, skip_eq rfl, WritingScanner.empty hwritable]
  rfl

theorem skip_close {name before : Text} (hname : WritableName name)
    (hbefore : before.all isContent = true) (opened : List Text) (rest : Text) :
    skip ignorable ⟨name :: opened, before ++ (lit "</" ++ name ++ lit ">" ++ rest)⟩ =
      some (.close name, ⟨opened, rest⟩) := by
  rw [skip_before rfl (fun _ => rfl) hbefore, skip_eq rfl, WritingScanner.close hname]
  rfl

/-- A loop reads leaves that were written one after the other, content around them. -/
theorem run_children_leaves {φ ι σ α : Type} {reasons : Reasons φ}
    {onChild : σ → Tag → Bool → Parse φ ι σ} {parent name before lead trail closing : Text}
    {attributes : α → List (Text × Text)} {k : σ → α → σ} {items : List α} {I : σ → Prop}
    (hparent : WritableName parent) (hbefore : before.all isContent = true)
    (hlead : lead.all isContent = true) (htrail : trail.all isContent = true)
    (hclosing : closing.all isContent = true)
    (hwritable : ∀ a ∈ items, Writable name (attributes a))
    (hstep : ∀ s, I s → ∀ a ∈ items, ∀ r,
      (onChild s ⟨name, some (readPairs (attributes a))⟩ true).run r = (.ok (k s a), r))
    (hkeep : ∀ s, I s → ∀ a, I (k s a)) {s : σ} (hs : I s) (base : List Text) (post : Text) :
    (children reasons onChild s).run ⟨parent :: base,
        before ++ (items.flatMap (fun a => lead ++ (lit "<" ++ name ++ writePairs (attributes a) ++
          lit "/>" ++ trail)) ++ (closing ++ (lit "</" ++ parent ++ lit ">" ++ post)))⟩ =
      (.ok (items.foldl k s), ⟨base, post⟩) := by
  have hboth {t u : Text} (ht : t.all isContent = true) (hu : u.all isContent = true) :
      (t ++ u).all isContent = true := by
    rw [List.all_append, ht, hu]
    rfl
  induction items generalizing s before with
  | nil =>
    have hskip := skip_close hparent (hboth hbefore hclosing) base post
    rw [List.append_assoc] at hskip
    exact run_children_ok.mpr ⟨_, _, hskip, rfl, rfl⟩
  | cons a items ih =>
    rw [List.forall_mem_cons] at hwritable
    have hrest := ih htrail hwritable.2
      (fun s hs b hb => hstep s hs b (List.mem_cons_of_mem _ hb)) (hkeep s hs a)
    have hskip := skip_empty hwritable.1 (hboth hbefore hlead) (parent :: base) (trail ++
      (items.flatMap (fun a => lead ++ (lit "<" ++ name ++ writePairs (attributes a) ++ lit "/>" ++
        trail)) ++ (closing ++ (lit "</" ++ parent ++ lit ">" ++ post))))
    rw [List.flatMap_cons]
    simp only [List.append_assoc] at hskip hrest ⊢
    refine run_children_ok.mpr ⟨_, _, hskip, ?_⟩
    exact run_bind_ok.mpr ⟨_, _, hstep s hs a List.mem_cons_self _, hrest⟩

/-- Markup from which reading on reaches the end is a comment. -/
theorem comment_of_skip {opened : List Text} {c : Char} {rest : Text} {e : Event} {r r' : Reader}
    (hc : isContent c = false) (hscan : scan ⟨opened, c :: rest⟩ = some (e, r))
    (h : skip ignorable ⟨opened, c :: rest⟩ = some (.eof, r')) : ∃ t, e = .comment t := by
  rw [skip_eq rfl, hscan] at h
  cases e with
  | comment t => exact ⟨t, rfl⟩
  | text t =>
    obtain ⟨c', rest', heq, hc'⟩ := DocumentScanner.textual hscan
    obtain ⟨rfl, rfl⟩ := List.cons.inj heq
    rw [hc] at hc'
    cases hc'
  | eof =>
    have hblank := List.all_eq_true.mp (DocumentScanner.ending hscan) c List.mem_cons_self
    rw [isContent_of_isBlank hblank] at hc
    cases hc
  | _ => cases h

/-- A text that nothing follows is followed by nothing when content is added to it. -/
theorem skip_after {opened : List Text} {text after : Text} {r : Reader}
    (h : skip ignorable ⟨opened, text⟩ = some (.eof, r)) (hafter : after.all isContent = true) :
    ∃ r', skip ignorable ⟨opened, text ++ after⟩ = some (.eof, r') := by
  induction hn : text.length using Nat.strong_induction_on generalizing opened text with
  | _ n ih =>
    rw [skip_content rfl (fun _ => rfl)] at h ⊢
    rcases hrest : text.dropWhile isContent with _ | ⟨c, rest⟩
    · rw [hrest] at h
      have hall : (text ++ after).dropWhile isContent = [] := by
        rw [List.dropWhile_append, hrest]
        exact List.dropWhile_eq_nil_iff.mpr (List.all_eq_true.mp hafter)
      rw [hall]
      exact ⟨r, h⟩
    · rw [hrest] at h
      have hc : isContent c = false := by
        have hnot := List.head?_dropWhile_not isContent text
        rw [hrest] at hnot
        exact hnot
      have hdrop : (text ++ after).dropWhile isContent = c :: rest ++ after := by
        rw [List.dropWhile_append, hrest]
        rfl
      have hlength : (c :: rest).length ≤ n := by
        rw [← hrest, ← hn]
        exact (List.dropWhile_suffix _).length_le
      rcases hscan : scan ⟨opened, c :: rest⟩ with _ | ⟨e, r₁⟩
      · rw [skip_eq rfl, hscan] at h
        cases h
      · obtain ⟨t, rfl⟩ := comment_of_skip hc hscan h
        have hframe := LawfulScanner.frame hscan (by simp) (.inr (by simp)) [] after
        have hlt := LawfulScanner.progress hscan (by simp)
        simp only [Reader.frame, List.append_nil] at hframe
        rw [skip_eq rfl, hscan] at h
        rw [hdrop, skip_eq rfl, hframe]
        exact ih _ (lt_of_lt_of_le hlt hlength) h rfl

/-- Behind a text that nothing follows stands the end tag that was put there. -/
theorem skip_closing {name text : Text} {r : Reader} (hname : WritableName name)
    (h : skip ignorable ⟨[], text⟩ = some (.eof, r)) (base : List Text) (post : Text) :
    skip ignorable ⟨name :: base, text ++ (lit "</" ++ name ++ lit ">" ++ post)⟩ =
      some (.close name, ⟨base, post⟩) := by
  induction hn : text.length using Nat.strong_induction_on generalizing text with
  | _ n ih =>
    rw [skip_content rfl (fun _ => rfl)] at h ⊢
    rcases hrest : text.dropWhile isContent with _ | ⟨c, rest⟩
    · have hdrop : (text ++ (lit "</" ++ name ++ lit ">" ++ post)).dropWhile isContent =
          lit "</" ++ name ++ lit ">" ++ post := by
        rw [List.dropWhile_append, hrest]
        rfl
      rw [hdrop, skip_eq rfl, WritingScanner.close hname]
      rfl
    · rw [hrest] at h
      have hc : isContent c = false := by
        have hnot := List.head?_dropWhile_not isContent text
        rw [hrest] at hnot
        exact hnot
      have hdrop : (text ++ (lit "</" ++ name ++ lit ">" ++ post)).dropWhile isContent =
          c :: rest ++ (lit "</" ++ name ++ lit ">" ++ post) := by
        rw [List.dropWhile_append, hrest]
        rfl
      rcases hscan : scan ⟨[], c :: rest⟩ with _ | ⟨e, r₁⟩
      · rw [skip_eq rfl, hscan] at h
        cases h
      · obtain ⟨t, rfl⟩ := comment_of_skip hc hscan h
        rw [skip_eq rfl, hscan] at h
        have hframe := LawfulScanner.frame hscan (by simp) (.inr (by simp)) (name :: base)
          (lit "</" ++ name ++ lit ">" ++ post)
        have hopened : r₁.opened = [] := WritingScanner.nested hscan
        have hlt : r₁.rest.length < n := by
          refine lt_of_lt_of_le (LawfulScanner.progress hscan (by simp)) ?_
          change (c :: rest).length ≤ n
          rw [← hrest, ← hn]
          exact (List.dropWhile_suffix _).length_le
        obtain ⟨opened, left⟩ := r₁
        obtain rfl : opened = [] := hopened
        have hframed : scan ⟨name :: base, c :: rest ++ (lit "</" ++ name ++ lit ">" ++ post)⟩ =
            _ := hframe
        rw [hdrop, skip_eq rfl, hframed]
        exact ih _ hlt h rfl

end Parse

namespace Plain

theorem markup_tag {t rest : Text} {e : Event} (h : markup t = some (e, rest)) :
    e ≠ .eof ∧ ∀ content, e ≠ .text content := by
  have htag (inside : Text) : tagEvent inside ≠ .eof ∧ ∀ content, tagEvent inside ≠ .text content := by
    unfold tagEvent
    split <;> simp
  unfold markup at h
  split at h
  · obtain ⟨p, -, heq⟩ := Option.map_eq_some_iff.mp h
    obtain ⟨rfl, -⟩ := Prod.mk.inj heq
    simp
  · cases h
  · obtain ⟨p, -, heq⟩ := Option.map_eq_some_iff.mp h
    obtain ⟨rfl, -⟩ := Prod.mk.inj heq
    split <;> simp
  · obtain ⟨p, -, heq⟩ := Option.map_eq_some_iff.mp h
    obtain ⟨rfl, -⟩ := Prod.mk.inj heq
    simp
  · obtain ⟨p, -, heq⟩ := Option.map_eq_some_iff.mp h
    obtain ⟨rfl, -⟩ := Prod.mk.inj heq
    exact htag p.1

/-- The scanner of plain markup is one of documents. -/
theorem scanner_documents : @DocumentScanner scanner :=
  letI := scanner
  { scanner_writing with
    ending := fun {r r'} h => by
      obtain ⟨hevent, -⟩ := scan_eq_some.mp h
      unfold event at hevent
      split at hevent
      · rename_i hnil
        exact List.all_eq_true.mpr (List.dropWhile_eq_nil_iff.mp hnil)
      · exact absurd rfl (markup_tag hevent).1
      · obtain ⟨p, -, heq⟩ := Option.map_eq_some_iff.mp hevent
        cases (Prod.mk.inj heq).1
      · cases (Prod.mk.inj (Option.some.inj hevent)).1
    textual := fun {r r' t} h => by
      obtain ⟨hevent, -⟩ := scan_eq_some.mp h
      rcases hrest : r.rest with _ | ⟨c, rest⟩
      · rw [hrest] at hevent
        cases hevent
      · refine ⟨c, rest, rfl, ?_⟩
        by_cases hblank : isBlank c = true
        · exact isContent_of_isBlank hblank
        · rw [hrest, List.dropWhile_cons_of_neg hblank] at hevent
          unfold event at hevent
          split at hevent
          · cases hevent
          · exact absurd rfl ((markup_tag hevent).2 t)
          · obtain ⟨p, -, heq⟩ := Option.map_eq_some_iff.mp hevent
            cases (Prod.mk.inj heq).1
          · rename_i hlt hamp
            have hne : c ≠ '<' ∧ c ≠ '&' :=
              ⟨fun heq => hlt rest (by rw [heq]), fun heq => hamp rest (by rw [heq])⟩
            simp [isContent, hne.1, hne.2]
    instructed := fun {opened t rest} h => by
      rw [afterFirst_eq_splitFirst] at h
      obtain ⟨⟨before, rest⟩, hsplit, rfl⟩ := Option.map_eq_some_iff.mp h
      refine ⟨if isDeclaration (lit "xml" ++ before) then .declaration else .instruction, ?_, ?_⟩
      · split
        · exact .inl rfl
        · exact .inr rfl
      · refine scan_eq_some.mpr ⟨?_, ?_⟩
        · have hinside : splitFirst (lit "?>") (lit "xml" ++ t) = some (lit "xml" ++ before, rest) := by
            have hsplit' : splitFirst ['?', '>'] t = some (before, rest) := hsplit
            simp [lit, splitFirst, stripPrefix, hsplit']
          change (splitFirst (lit "?>") (lit "xml" ++ t)).map _ = _
          rw [hinside]
          rfl
        · split <;> rfl }

end Plain

end Irena.Library.Markup
