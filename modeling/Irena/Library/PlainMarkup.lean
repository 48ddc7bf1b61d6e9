import Irena.Library.Written
import Mathlib.Data.Option.Basic

/-! # A scanner of plain markup

Tags with quoted attributes, text, references, comments and instructions; blanks around text are
not part of it. Sections and document types are refused. The scanner obeys the laws, and reads the
tags a program wrote as they were written. -/

namespace Irena.Library.Markup.Plain

open Strings

/-- The text before the first occurrence of `needle` and the text after it. -/
def splitFirst (needle : Text) : Text → Option (Text × Text)
  | [] => (stripPrefix [] needle).map fun rest => ([], rest)
  | c :: t =>
    match stripPrefix (c :: t) needle with
    | some rest => some ([], rest)
    | none => (splitFirst needle t).map fun p => (c :: p.1, p.2)

/-- The inside of a tag up to the `>` that ends it, which no quotes enclose. -/
def splitTag : Option Char → Text → Option (Text × Text)
  | _, [] => none
  | none, c :: t =>
    if c = '>' then some ([], t)
    else (splitTag (if c = '"' ∨ c = '\'' then some c else none) t).map fun p => (c :: p.1, p.2)
  | some quote, c :: t =>
    (splitTag (if c = quote then none else some quote) t).map fun p => (c :: p.1, p.2)

theorem stripPrefix_eq_some {t pre rest : Text} : stripPrefix t pre = some rest ↔ t = pre ++ rest := by
  unfold stripPrefix
  split
  · rename_i hpre
    obtain ⟨more, rfl⟩ := List.isPrefixOf_iff_prefix.mp hpre
    simp
  · rename_i hpre
    simp only [reduceCtorEq, false_iff]
    rintro rfl
    exact hpre (List.isPrefixOf_iff_prefix.mpr (List.prefix_append _ _))

theorem splitFirst_eq {needle t a b : Text} (h : splitFirst needle t = some (a, b)) :
    t = a ++ needle ++ b := by
  induction t generalizing a with
  | nil =>
    obtain ⟨rest, hrest, heq⟩ := Option.map_eq_some_iff.mp h
    obtain ⟨rfl, rfl⟩ := Prod.mk.inj heq
    exact stripPrefix_eq_some.mp hrest
  | cons c t ih =>
    unfold splitFirst at h
    split at h
    · rename_i rest hrest
      obtain ⟨rfl, rfl⟩ := Prod.mk.inj (Option.some.inj h)
      exact stripPrefix_eq_some.mp hrest
    · obtain ⟨⟨a', b'⟩, htail, heq⟩ := Option.map_eq_some_iff.mp h
      obtain ⟨rfl, rfl⟩ := Prod.mk.inj heq
      rw [ih htail]
      simp

theorem splitFirst_append {needle t a b : Text} (h : splitFirst needle t = some (a, b))
    (post : Text) : splitFirst needle (t ++ post) = some (a, b ++ post) := by
  induction t generalizing a with
  | nil =>
    obtain ⟨rest, hrest, heq⟩ := Option.map_eq_some_iff.mp h
    obtain ⟨rfl, rfl⟩ := Prod.mk.inj heq
    have hnil := stripPrefix_eq_some.mp hrest
    obtain ⟨rfl, rfl⟩ := List.append_eq_nil_iff.mp hnil.symm
    cases post <;> simp [splitFirst, stripPrefix]
  | cons c t ih =>
    rw [List.cons_append]
    unfold splitFirst at h ⊢
    split at h
    · rename_i rest hrest
      obtain ⟨rfl, rfl⟩ := Prod.mk.inj (Option.some.inj h)
      have hsplit : c :: (t ++ post) = needle ++ (rest ++ post) := by
        rw [← List.cons_append, stripPrefix_eq_some.mp hrest, List.append_assoc]
      rw [stripPrefix_eq_some.mpr hsplit]
    · rename_i hnone
      obtain ⟨⟨a', b'⟩, htail, heq⟩ := Option.map_eq_some_iff.mp h
      obtain ⟨rfl, rfl⟩ := Prod.mk.inj heq
      have hlen : needle.length ≤ t.length := by
        rw [splitFirst_eq htail]
        simp only [List.length_append]
        omega
      -- The needle lies further on in `t`, so what follows `t` cannot complete one here.
      have hstill : stripPrefix (c :: (t ++ post)) needle = none := by
        rw [Option.eq_none_iff_forall_ne_some] at hnone ⊢
        intro rest hrest
        have hpre : needle <+: c :: t ++ post := ⟨rest, (stripPrefix_eq_some.mp hrest).symm⟩
        have hshort : needle <+: c :: t :=
          List.prefix_of_prefix_length_le hpre (List.prefix_append _ _)
            (by rw [List.length_cons]; omega)
        obtain ⟨more, hmore⟩ := hshort
        exact hnone more (stripPrefix_eq_some.mpr hmore.symm)
      rw [hstill, ih htail]
      rfl

theorem splitTag_eq {quote : Option Char} {t a b : Text} (h : splitTag quote t = some (a, b)) :
    t = a ++ '>' :: b := by
  induction t generalizing quote a with
  | nil => cases quote <;> cases h
  | cons c t ih =>
    cases quote with
    | none =>
      unfold splitTag at h
      split at h
      · rename_i hc
        obtain ⟨rfl, rfl⟩ := Prod.mk.inj (Option.some.inj h)
        rw [hc]
        rfl
      · obtain ⟨⟨a', b'⟩, htail, heq⟩ := Option.map_eq_some_iff.mp h
        obtain ⟨rfl, rfl⟩ := Prod.mk.inj heq
        rw [ih htail]
        rfl
    | some quote =>
      obtain ⟨⟨a', b'⟩, htail, heq⟩ := Option.map_eq_some_iff.mp h
      obtain ⟨rfl, rfl⟩ := Prod.mk.inj heq
      rw [ih htail]
      rfl

theorem splitTag_append {quote : Option Char} {t a b : Text} (h : splitTag quote t = some (a, b))
    (post : Text) : splitTag quote (t ++ post) = some (a, b ++ post) := by
  induction t generalizing quote a with
  | nil => cases quote <;> cases h
  | cons c t ih =>
    rw [List.cons_append]
    cases quote with
    | none =>
      unfold splitTag at h ⊢
      split at h
      · rename_i hc
        obtain ⟨rfl, rfl⟩ := Prod.mk.inj (Option.some.inj h)
        rw [if_pos hc]
      · rename_i hc
        obtain ⟨⟨a', b'⟩, htail, heq⟩ := Option.map_eq_some_iff.mp h
        obtain ⟨rfl, rfl⟩ := Prod.mk.inj heq
        rw [if_neg hc, ih htail]
        rfl
    | some quote =>
      obtain ⟨⟨a', b'⟩, htail, heq⟩ := Option.map_eq_some_iff.mp h
      obtain ⟨rfl, rfl⟩ := Prod.mk.inj heq
      rw [splitTag, ih htail]
      rfl

/-- Replaces the predefined references; any other reference is refused. -/
def unescape : Text → Option Text
  | [] => some []
  | '&' :: 'a' :: 'm' :: 'p' :: ';' :: t => (unescape t).map ('&' :: ·)
  | '&' :: 'l' :: 't' :: ';' :: t => (unescape t).map ('<' :: ·)
  | '&' :: 'g' :: 't' :: ';' :: t => (unescape t).map ('>' :: ·)
  | '&' :: 'q' :: 'u' :: 'o' :: 't' :: ';' :: t => (unescape t).map ('"' :: ·)
  | '&' :: 'a' :: 'p' :: 'o' :: 's' :: ';' :: t => (unescape t).map ('\'' :: ·)
  | '&' :: _ => none
  | c :: t => (unescape t).map (c :: ·)

/-- The attributes a text spells; the fuel bounds their number. -/
def attributesFrom : ℕ → Text → Option (List (Text × Text))
  | 0, _ => none
  | fuel + 1, t =>
    match t.dropWhile isBlank with
    | [] => some []
    | t => do
      let (key, rest) ← splitFirst (lit "=") t
      match rest with
      | [] => none
      | quote :: rest => do
        guard (quote = '"' ∨ quote = '\'')
        let (value, rest) ← splitFirst [quote] rest
        let value ← unescape value
        let more ← attributesFrom fuel rest
        guard (key ∉ more.map Prod.fst)
        return (key, normaliseValue value) :: more

/-- The tag with a given inside. -/
def tagOf (inside : Text) : Tag :=
  let attributes := inside.dropWhile fun c => !isBlank c
  ⟨inside.takeWhile fun c => !isBlank c, attributesFrom (attributes.length + 1) attributes⟩

def tagEvent (inside : Text) : Event :=
  if inside.getLast? = some '/' then .empty (tagOf inside.dropLast) else .start (tagOf inside)

/-- Whether an instruction is the declaration of a document. -/
def isDeclaration (content : Text) : Bool :=
  match stripPrefix content (lit "xml") with
  | none => false
  | some [] => true
  | some (c :: _) => isBlank c

/-- The markup that follows a `<`. -/
def markup : Text → Option (Event × Text)
  | '!' :: '-' :: '-' :: t => (splitFirst (lit "-->") t).map fun p => (.comment p.1, p.2)
  | '!' :: _ => none
  | '?' :: t =>
    (splitFirst (lit "?>") t).map fun p =>
      (if isDeclaration p.1 then .declaration else .instruction, p.2)
  | '/' :: t =>
    (splitFirst (lit ">") t).map fun p => (.close (p.1.takeWhile fun c => !isBlank c), p.2)
  | t => (splitTag none t).map fun p => (tagEvent p.1, p.2)

def trimBlanks (t : Text) : Text := (t.reverse.dropWhile isBlank).reverse

/-- The next event of a text past its leading blanks, and the text after it. -/
def event : Text → Option (Event × Text)
  | [] => some (.eof, [])
  | '<' :: t => markup t
  | '&' :: t => (splitFirst (lit ";") t).map fun p => (.reference p.1, p.2)
  | t => some (.text (trimBlanks (t.takeWhile isContent)), t.dropWhile isContent)

/-- The open elements after an event; an end tag must match the innermost one. -/
def relate (opened : List Text) : Event → Option (List Text)
  | .start tag => some (tag.name :: opened)
  | .close name =>
    match opened with
    | [] => none
    | top :: outer => if top = name then some outer else none
  | _ => some opened

def scan (r : Reader) : Option (Event × Reader) := do
  let (e, rest) ← event (r.rest.dropWhile isBlank)
  let opened ← relate r.opened e
  return (e, ⟨opened, rest⟩)

theorem markup_suffix {t rest : Text} {e : Event} (h : markup t = some (e, rest)) : rest <:+ t := by
  unfold markup at h
  split at h
  · obtain ⟨p, hp, heq⟩ := Option.map_eq_some_iff.mp h
    obtain ⟨-, rfl⟩ := Prod.mk.inj heq
    rw [splitFirst_eq hp]
    exact (List.suffix_append _ _).trans ⟨['!', '-', '-'], rfl⟩
  · cases h
  · obtain ⟨p, hp, heq⟩ := Option.map_eq_some_iff.mp h
    obtain ⟨-, rfl⟩ := Prod.mk.inj heq
    rw [splitFirst_eq hp]
    exact (List.suffix_append _ _).trans ⟨['?'], rfl⟩
  · obtain ⟨p, hp, heq⟩ := Option.map_eq_some_iff.mp h
    obtain ⟨-, rfl⟩ := Prod.mk.inj heq
    rw [splitFirst_eq hp]
    exact (List.suffix_append _ _).trans ⟨['/'], rfl⟩
  · obtain ⟨p, hp, heq⟩ := Option.map_eq_some_iff.mp h
    obtain ⟨-, rfl⟩ := Prod.mk.inj heq
    rw [splitTag_eq hp]
    exact ⟨p.1 ++ ['>'], by simp⟩

theorem markup_append {t rest : Text} {e : Event} (h : markup t = some (e, rest)) (post : Text) :
    markup (t ++ post) = some (e, rest ++ post) := by
  unfold markup at h
  split at h
  · obtain ⟨p, hp, heq⟩ := Option.map_eq_some_iff.mp h
    obtain ⟨rfl, rfl⟩ := Prod.mk.inj heq
    simp [markup, splitFirst_append hp post]
  · cases h
  · obtain ⟨p, hp, heq⟩ := Option.map_eq_some_iff.mp h
    obtain ⟨rfl, rfl⟩ := Prod.mk.inj heq
    simp [markup, splitFirst_append hp post]
  · obtain ⟨p, hp, heq⟩ := Option.map_eq_some_iff.mp h
    obtain ⟨rfl, rfl⟩ := Prod.mk.inj heq
    simp [markup, splitFirst_append hp post]
  · rename_i hcomment hbang hinstruction hclose
    obtain ⟨p, hp, heq⟩ := Option.map_eq_some_iff.mp h
    obtain ⟨rfl, rfl⟩ := Prod.mk.inj heq
    cases t with
    | nil => cases hp
    | cons c t =>
      have happend := splitTag_append hp post
      rw [List.cons_append] at happend ⊢
      unfold markup
      split
      · rename_i heq
        exact absurd (by rw [(List.cons.inj heq).1]) (hbang t)
      · rename_i heq
        exact absurd (by rw [(List.cons.inj heq).1]) (hbang t)
      · rename_i heq
        exact absurd (by rw [(List.cons.inj heq).1]) (hinstruction t)
      · rename_i heq
        exact absurd (by rw [(List.cons.inj heq).1]) (hclose t)
      · rw [happend]
        rfl

theorem event_suffix {t rest : Text} {e : Event} (h : event t = some (e, rest)) : rest <:+ t := by
  unfold event at h
  split at h
  · obtain ⟨-, rfl⟩ := Prod.mk.inj (Option.some.inj h)
    exact List.suffix_refl _
  · exact (markup_suffix h).trans (List.suffix_cons _ _)
  · obtain ⟨p, hp, heq⟩ := Option.map_eq_some_iff.mp h
    obtain ⟨-, rfl⟩ := Prod.mk.inj heq
    rw [splitFirst_eq hp]
    exact (List.suffix_append _ _).trans ⟨['&'], rfl⟩
  · obtain ⟨-, rfl⟩ := Prod.mk.inj (Option.some.inj h)
    exact List.dropWhile_suffix _

theorem event_progress {t rest : Text} {e : Event} (h : event t = some (e, rest)) (he : e ≠ .eof) :
    rest.length < t.length := by
  unfold event at h
  split at h
  · obtain ⟨rfl, -⟩ := Prod.mk.inj (Option.some.inj h)
    exact absurd rfl he
  · have := (markup_suffix h).length_le
    simp only [List.length_cons]
    omega
  · obtain ⟨p, hp, heq⟩ := Option.map_eq_some_iff.mp h
    obtain ⟨-, rfl⟩ := Prod.mk.inj heq
    rw [splitFirst_eq hp]
    simp only [List.length_cons, List.length_append]
    omega
  · rename_i hnil hlt hamp
    obtain ⟨-, rfl⟩ := Prod.mk.inj (Option.some.inj h)
    cases t with
    | nil => exact absurd rfl hnil
    | cons c t =>
      have hc : isContent c = true := by
        simp only [isContent, Bool.and_eq_true, decide_eq_true_eq]
        exact ⟨fun hc => hlt t (by rw [hc]), fun hc => hamp t (by rw [hc])⟩
      rw [List.dropWhile_cons_of_pos hc]
      have := (List.dropWhile_suffix isContent (l := t)).length_le
      simp only [List.length_cons]
      omega

theorem event_append {t rest : Text} {e : Event} (h : event t = some (e, rest)) (he : e ≠ .eof)
    (hend : rest ≠ [] ∨ ∀ content, e ≠ .text content) (post : Text) :
    event (t ++ post) = some (e, rest ++ post) := by
  unfold event at h
  split at h
  · obtain ⟨rfl, -⟩ := Prod.mk.inj (Option.some.inj h)
    exact absurd rfl he
  · exact markup_append h post
  · obtain ⟨p, hp, heq⟩ := Option.map_eq_some_iff.mp h
    obtain ⟨rfl, rfl⟩ := Prod.mk.inj heq
    simp [event, splitFirst_append hp post]
  · rename_i hnil hlt hamp
    obtain ⟨rfl, rfl⟩ := Prod.mk.inj (Option.some.inj h)
    have hstop : t.dropWhile isContent ≠ [] := by
      rcases hend with hrest | hnot
      · exact hrest
      · exact absurd rfl (hnot _)
    have hdrop : (t ++ post).dropWhile isContent = t.dropWhile isContent ++ post := by
      rw [List.dropWhile_append, if_neg (by simpa using hstop)]
    have htake : (t ++ post).takeWhile isContent = t.takeWhile isContent := by
      rw [List.takeWhile_append, if_neg]
      intro hlen
      have hsum := congrArg List.length (List.takeWhile_append_dropWhile (p := isContent) (l := t))
      rw [List.length_append] at hsum
      have : t.dropWhile isContent = [] := List.length_eq_zero_iff.mp (by omega)
      exact hstop this
    cases t with
    | nil => exact absurd rfl hnil
    | cons c t =>
      rw [List.cons_append] at hdrop htake ⊢
      unfold event
      split
      · rename_i heq
        cases heq
      · rename_i heq
        exact absurd (by rw [(List.cons.inj heq).1]) (hlt t)
      · rename_i heq
        exact absurd (by rw [(List.cons.inj heq).1]) (hamp t)
      · rw [hdrop, htake]

theorem relate_append {opened opened' base : List Text} {e : Event}
    (h : relate opened e = some opened') : relate (opened ++ base) e = some (opened' ++ base) := by
  cases e with
  | start tag =>
    obtain rfl := Option.some.inj h
    rfl
  | close name =>
    cases opened with
    | nil => cases h
    | cons top outer =>
      simp only [relate, List.cons_append] at h ⊢
      split at h
      · rename_i heq
        obtain rfl := Option.some.inj h
        rw [if_pos heq]
      · cases h
  | _ =>
    obtain rfl := Option.some.inj h
    rfl

theorem scan_eq_some {r r' : Reader} {e : Event} :
    scan r = some (e, r') ↔ event (r.rest.dropWhile isBlank) = some (e, r'.rest) ∧
      relate r.opened e = some r'.opened := by
  simp only [scan, Option.bind_eq_bind, Option.bind_eq_some_iff, Option.pure_def, Option.some.injEq,
    Prod.mk.injEq, Prod.exists]
  constructor
  · rintro ⟨_, _, hevent, _, hrelate, rfl, rfl⟩
    exact ⟨hevent, hrelate⟩
  · rintro ⟨hevent, hrelate⟩
    exact ⟨_, _, hevent, _, hrelate, rfl, rfl⟩

/-- The scanner of plain markup. -/
@[reducible] def scanner : Scanner := ⟨scan⟩

theorem scanner_lawful : @LawfulScanner scanner :=
  letI := scanner
  { suffix := fun h => (event_suffix (scan_eq_some.mp h).1).trans (List.dropWhile_suffix _)
    progress := fun h he => lt_of_lt_of_le (event_progress (scan_eq_some.mp h).1 he)
      (List.dropWhile_suffix _).length_le
    frame := fun {r r' e} h he hend base post => by
      obtain ⟨hevent, hrelate⟩ := scan_eq_some.mp h
      refine scan_eq_some.mpr ⟨?_, relate_append hrelate⟩
      have hblank : (r.rest ++ post).dropWhile isBlank = r.rest.dropWhile isBlank ++ post := by
        rw [List.dropWhile_append, if_neg]
        intro hnil
        rw [List.isEmpty_iff.mp hnil] at hevent
        obtain ⟨rfl, -⟩ := Prod.mk.inj (Option.some.inj hevent)
        exact he rfl
      rw [Reader.frame_rest, hblank]
      exact event_append hevent he hend post }

theorem splitFirst_singleton {c : Char} {a b : Text} (h : c ∉ a) :
    splitFirst [c] (a ++ c :: b) = some (a, b) := by
  induction a with
  | nil => simp [splitFirst, stripPrefix]
  | cons d a ih =>
    simp only [List.mem_cons, not_or] at h
    obtain ⟨hne, hmem⟩ := h
    rw [List.cons_append, splitFirst]
    have hnone : stripPrefix (d :: (a ++ c :: b)) [c] = none := by
      simp [stripPrefix, hne]
    rw [hnone, ih hmem]
    rfl

theorem splitTag_plain {a t : Text} (h : ∀ c ∈ a, c ≠ '>' ∧ c ≠ '"' ∧ c ≠ '\'') :
    splitTag none (a ++ t) = (splitTag none t).map fun p => (a ++ p.1, p.2) := by
  induction a with
  | nil => simp
  | cons c a ih =>
    obtain ⟨hgt, hquote, happos⟩ := h c (List.mem_cons_self ..)
    rw [List.cons_append, splitTag, if_neg hgt, if_neg (by simp [hquote, happos]),
      ih fun d hd => h d (List.mem_cons_of_mem _ hd), Option.map_map]
    rfl

theorem splitTag_quoted {a t : Text} (h : '"' ∉ a) :
    splitTag (some '"') (a ++ '"' :: t) =
      (splitTag none t).map fun p => (a ++ '"' :: p.1, p.2) := by
  induction a with
  | nil => simp [splitTag]
  | cons c a ih =>
    simp only [List.mem_cons, not_or] at h
    obtain ⟨hne, hmem⟩ := h
    rw [List.cons_append, splitTag, if_neg (Ne.symm hne), ih hmem, Option.map_map]
    rfl

theorem splitTag_quote (t : Text) :
    splitTag none ('"' :: t) = (splitTag (some '"') t).map fun p => ('"' :: p.1, p.2) := by
  rw [splitTag, if_neg (by decide), if_pos (.inl rfl)]

theorem escapeValue_cons (c : Char) (v : Text) :
    escapeValue (c :: v) =
      (if c = '&' then lit "&amp;" else if c = '"' then lit "&quot;"
        else if c = '<' then lit "&lt;" else if c = '>' then lit "&gt;" else [c]) ++
        escapeValue v :=
  List.flatMap_cons

theorem quote_not_mem_escapeValue (v : Text) : '"' ∉ escapeValue v := by
  induction v with
  | nil => simp [escapeValue]
  | cons c v ih =>
    rw [escapeValue_cons, List.mem_append, not_or]
    refine ⟨?_, ih⟩
    split
    · decide
    · split
      · decide
      · rename_i hquote
        split
        · decide
        · split
          · decide
          · simpa using Ne.symm hquote

theorem unescape_cons {c : Char} (h : c ≠ '&') (t : Text) :
    unescape (c :: t) = (unescape t).map (c :: ·) := by
  conv_lhs => unfold unescape
  split <;> simp_all

theorem unescape_escapeValue (v : Text) : unescape (escapeValue v) = some v := by
  induction v with
  | nil => rfl
  | cons c v ih =>
    rw [escapeValue_cons]
    by_cases hamp : c = '&'
    · subst hamp
      simp [lit, unescape, ih]
    · by_cases hquote : c = '"'
      · subst hquote
        simp [lit, unescape, ih]
      · by_cases hlt : c = '<'
        · subst hlt
          simp [lit, unescape, ih]
        · by_cases hgt : c = '>'
          · subst hgt
            simp [lit, unescape, ih]
          · rw [if_neg hamp, if_neg hquote, if_neg hlt, if_neg hgt, List.singleton_append,
              unescape_cons hamp, ih]
            rfl

theorem ne_of_isNameCharacter {c d : Char} (hc : isNameCharacter c = true)
    (hd : isNameCharacter d = false) : c ≠ d := by
  rintro rfl
  rw [hc] at hd
  cases hd

theorem nameCharacter {name : Text} (h : WritableName name) {c : Char} (hc : c ∈ name) :
    isNameCharacter c = true :=
  List.all_eq_true.mp h.2 c hc

theorem not_isBlank {name : Text} (h : WritableName name) :
    ∀ c ∈ name, (!isBlank c) = true := by
  intro c hc
  have hname := nameCharacter h hc
  simp only [isBlank, Bool.not_eq_true', Bool.or_eq_false_iff, decide_eq_false_iff_not]
  refine ⟨⟨⟨?_, ?_⟩, ?_⟩, ?_⟩ <;> exact ne_of_isNameCharacter hname (by decide)

theorem splitTag_name {name : Text} (h : WritableName name) (t : Text) :
    splitTag none (name ++ t) = (splitTag none t).map fun p => (name ++ p.1, p.2) := by
  refine splitTag_plain fun c hc => ?_
  have hname := nameCharacter h hc
  refine ⟨?_, ?_, ?_⟩ <;> exact ne_of_isNameCharacter hname (by decide)

theorem writePair_eq (p : Text × Text) :
    writePair p = (' ' :: p.1 ++ ['=']) ++ '"' :: (escapeValue p.2 ++ ['"']) := by
  simp [writePair, lit]

theorem splitTag_writePair {p : Text × Text} (h : WritableName p.1) (t : Text) :
    splitTag none (writePair p ++ t) = (splitTag none t).map fun q => (writePair p ++ q.1, q.2) := by
  have hplain : ∀ c ∈ ' ' :: p.1 ++ ['='], c ≠ '>' ∧ c ≠ '"' ∧ c ≠ '\'' := by
    intro c hc
    simp only [List.cons_append, List.mem_cons, List.mem_append, List.not_mem_nil, or_false] at hc
    rcases hc with rfl | hc | rfl
    · decide
    · have hname := nameCharacter h hc
      refine ⟨?_, ?_, ?_⟩ <;> exact ne_of_isNameCharacter hname (by decide)
    · decide
  have hvalue : '"' :: (escapeValue p.2 ++ ['"']) ++ t = '"' :: (escapeValue p.2 ++ '"' :: t) := by
    simp
  rw [writePair_eq, List.append_assoc, splitTag_plain hplain, hvalue, splitTag_quote,
    splitTag_quoted (quote_not_mem_escapeValue _), Option.map_map, Option.map_map]
  refine congrArg (fun f => (splitTag none t).map f) (funext fun q => ?_)
  simp

theorem splitTag_writePairs {attributes : List (Text × Text)}
    (h : ∀ p ∈ attributes, WritableName p.1) (t : Text) :
    splitTag none (writePairs attributes ++ t) =
      (splitTag none t).map fun q => (writePairs attributes ++ q.1, q.2) := by
  induction attributes with
  | nil => simp [writePairs]
  | cons p ps ih =>
    have htail := ih fun q hq => h q (List.mem_cons_of_mem _ hq)
    rw [writePairs, List.flatMap_cons, List.append_assoc,
      splitTag_writePair (h p (List.mem_cons_self ..))]
    rw [writePairs] at htail
    rw [htail, Option.map_map]
    refine congrArg (fun f => (splitTag none t).map f) (funext fun q => ?_)
    simp

/-- Written attributes are read one by one. -/
theorem attributesFrom_writePairs {attributes : List (Text × Text)}
    (hkeys : ∀ p ∈ attributes, WritableName p.1) (hnodup : (attributes.map Prod.fst).Nodup)
    {fuel : ℕ} (hfuel : attributes.length < fuel) :
    attributesFrom fuel (writePairs attributes) = some (readPairs attributes) := by
  induction attributes generalizing fuel with
  | nil =>
    obtain ⟨fuel, rfl⟩ : ∃ n, fuel = n + 1 := ⟨fuel - 1, by omega⟩
    rfl
  | cons p ps ih =>
    rw [List.length_cons] at hfuel
    obtain ⟨fuel, rfl⟩ : ∃ n, fuel = n + 1 := ⟨fuel - 1, by omega⟩
    rw [List.map_cons, List.nodup_cons] at hnodup
    have htail : attributesFrom fuel (writePairs ps) = some (readPairs ps) :=
      ih (fun q hq => hkeys q (List.mem_cons_of_mem _ hq)) hnodup.2 (by omega)
    have hname := hkeys p (List.mem_cons_self ..)
    obtain ⟨c, k, hk⟩ : ∃ c k, p.1 = c :: k := List.exists_cons_of_ne_nil hname.1
    have hdrop : (writePairs (p :: ps)).dropWhile isBlank =
        p.1 ++ '=' :: '"' :: (escapeValue p.2 ++ '"' :: writePairs ps) := by
      have hc := not_isBlank hname c (by simp [hk])
      rw [writePairs, List.flatMap_cons, writePair_eq, hk]
      simp only [List.cons_append, List.append_assoc, List.dropWhile_cons_of_pos,
        show isBlank ' ' = true from rfl, List.nil_append]
      rw [List.dropWhile_cons_of_neg (by simpa using hc)]
      rfl
    have heq : '=' ∉ p.1 := fun hmem =>
      ne_of_isNameCharacter (nameCharacter hname hmem) (d := '=') (by decide) rfl
    have hreads : (readPairs ps).map Prod.fst = ps.map Prod.fst := by
      simp [readPairs, Function.comp_def]
    rw [attributesFrom, hdrop, hk]
    rw [hk] at heq
    simp only [List.cons_append]
    have hsplit := splitFirst_singleton (b := '"' :: (escapeValue p.2 ++ '"' :: writePairs ps)) heq
    rw [List.cons_append] at hsplit
    rw [show lit "=" (spells _) = ['='] from rfl, hsplit]
    simp only [Option.bind_eq_bind, Option.bind_some, splitFirst_singleton
      (quote_not_mem_escapeValue p.2), unescape_escapeValue, htail, hreads, guard]
    rw [← hk]
    simp [hnodup.1, readPairs]

theorem tagOf_written {name : Text} {attributes : List (Text × Text)}
    (h : Writable name attributes) :
    tagOf (name ++ writePairs attributes) = ⟨name, some (readPairs attributes)⟩ := by
  have hstop : (writePairs attributes).takeWhile (fun c => !isBlank c) = [] ∧
      (writePairs attributes).dropWhile (fun c => !isBlank c) = writePairs attributes := by
    cases attributes with
    | nil => exact ⟨rfl, rfl⟩
    | cons p ps =>
      rw [writePairs, List.flatMap_cons, writePair_eq]
      exact ⟨rfl, rfl⟩
  have hlen : attributes.length < (writePairs attributes).length + 1 := by
    clear hstop h
    induction attributes with
    | nil => simp
    | cons p ps ih =>
      rw [writePairs, List.flatMap_cons, writePair_eq]
      rw [writePairs] at ih
      simp only [List.length_cons, List.length_append]
      omega
  have hnames := not_isBlank h.name
  rw [tagOf, List.takeWhile_append_of_pos hnames, List.dropWhile_append_of_pos hnames, hstop.1,
    hstop.2, List.append_nil, attributesFrom_writePairs h.keys h.nodup hlen]

/-- A written tag ends with a quote or the last character of its name. -/
theorem getLast?_written {name : Text} {attributes : List (Text × Text)}
    (h : Writable name attributes) : (name ++ writePairs attributes).getLast? ≠ some '/' := by
  rcases List.eq_nil_or_concat attributes with rfl | ⟨ps, p, rfl⟩
  · intro hlast
    have hmem := List.mem_of_getLast? hlast
    rw [writePairs, List.flatMap_nil, List.append_nil] at hmem
    exact ne_of_isNameCharacter (nameCharacter h.name hmem) (d := '/') (by decide) rfl
  · have hend : name ++ writePairs (ps.concat p) =
        (name ++ writePairs ps ++ (' ' :: p.1 ++ ['=']) ++ '"' :: escapeValue p.2) ++ ['"'] := by
      simp [writePairs, writePair_eq]
    rw [hend, List.getLast?_append]
    simp

theorem markup_of_name {name t : Text} (h : WritableName name) :
    markup (name ++ t) = (splitTag none (name ++ t)).map fun p => (tagEvent p.1, p.2) := by
  obtain ⟨c, k, rfl⟩ := List.exists_cons_of_ne_nil h.1
  have hname := nameCharacter h (List.mem_cons_self ..)
  rw [List.cons_append]
  unfold markup
  split
  · rename_i heq
    exact absurd (List.cons.inj heq).1 (ne_of_isNameCharacter hname (by decide))
  · rename_i heq
    exact absurd (List.cons.inj heq).1 (ne_of_isNameCharacter hname (by decide))
  · rename_i heq
    exact absurd (List.cons.inj heq).1 (ne_of_isNameCharacter hname (by decide))
  · rename_i heq
    exact absurd (List.cons.inj heq).1 (ne_of_isNameCharacter hname (by decide))
  · rfl

theorem event_start {name rest : Text} {attributes : List (Text × Text)}
    (h : Writable name attributes) :
    event (lit "<" ++ name ++ writePairs attributes ++ lit ">" ++ rest) =
      some (.start ⟨name, some (readPairs attributes)⟩, rest) := by
  have htext : lit "<" ++ name ++ writePairs attributes ++ lit ">" ++ rest =
      '<' :: (name ++ (writePairs attributes ++ '>' :: rest)) := by
    simp [lit]
  rw [htext, event, markup_of_name h.name, splitTag_name h.name, splitTag_writePairs h.keys,
    splitTag, if_pos rfl]
  simp only [Option.map_some, List.append_nil, tagEvent, getLast?_written h, if_false, tagOf_written h]

theorem event_empty {name rest : Text} {attributes : List (Text × Text)}
    (h : Writable name attributes) :
    event (lit "<" ++ name ++ writePairs attributes ++ lit "/>" ++ rest) =
      some (.empty ⟨name, some (readPairs attributes)⟩, rest) := by
  have htext : lit "<" ++ name ++ writePairs attributes ++ lit "/>" ++ rest =
      '<' :: (name ++ (writePairs attributes ++ '/' :: '>' :: rest)) := by
    simp [lit]
  have hslash : splitTag none ('/' :: '>' :: rest) = some (['/'], rest) := by
    simp [splitTag]
  rw [htext, event, markup_of_name h.name, splitTag_name h.name, splitTag_writePairs h.keys, hslash]
  simp only [Option.map_some, tagEvent, ← List.append_assoc, List.getLast?_concat, if_true,
    List.dropLast_concat, tagOf_written h]

theorem event_close {name rest : Text} (h : WritableName name) :
    event (lit "</" ++ name ++ lit ">" ++ rest) = some (.close name, rest) := by
  have htext : lit "</" ++ name ++ lit ">" ++ rest = '<' :: '/' :: (name ++ '>' :: rest) := by
    simp [lit]
  have hgt : '>' ∉ name := fun hmem =>
    ne_of_isNameCharacter (nameCharacter h hmem) (d := '>') (by decide) rfl
  have htake : name.takeWhile (fun c => !isBlank c) = name := by
    have happend := @List.takeWhile_append_of_pos _ _ name [] (not_isBlank h)
    simpa using happend
  rw [htext, event, markup, show lit ">" (spells _) = ['>'] from rfl, splitFirst_singleton hgt]
  simp only [Option.map_some, htake]

theorem isContent_of_isBlank {c : Char} (h : isBlank c = true) : isContent c = true := by
  simp only [isBlank, Bool.or_eq_true, decide_eq_true_eq] at h
  rcases h with ((rfl | rfl) | rfl) | rfl <;> decide

/-- A run of text that is not all blank is one event, which ends where the run does. -/
theorem event_content {t : Text} (h : (t.takeWhile isContent).all isBlank = false) :
    ∃ content, event (t.dropWhile isBlank) = some (.text content, t.dropWhile isContent) := by
  induction t with
  | nil => cases h
  | cons c t ih =>
    by_cases hblank : isBlank c = true
    · rw [List.takeWhile_cons_of_pos (isContent_of_isBlank hblank), List.all_cons, hblank,
        Bool.true_and] at h
      rw [List.dropWhile_cons_of_pos hblank,
        List.dropWhile_cons_of_pos (isContent_of_isBlank hblank)]
      exact ih h
    · have hcontent : isContent c = true := by
        by_contra hcon
        rw [List.takeWhile_cons_of_neg hcon] at h
        cases h
      have hc := hcontent
      simp only [isContent, Bool.and_eq_true, decide_eq_true_eq] at hc
      rw [List.dropWhile_cons_of_neg hblank]
      unfold event
      split
      · rename_i heq
        cases heq
      · rename_i heq
        exact absurd (List.cons.inj heq).1 hc.1
      · rename_i heq
        exact absurd (List.cons.inj heq).1 hc.2
      · exact ⟨_, rfl⟩

/-- The scanner of plain markup reads what a program wrote. -/
theorem scanner_writing : @WritingScanner scanner :=
  letI := scanner
  letI := scanner_lawful
  { scanner_lawful with
    blank := fun {opened blanks rest} h => by
      have hdrop : (blanks ++ rest).dropWhile isBlank = rest.dropWhile isBlank :=
        List.dropWhile_append_of_pos fun c hc => List.all_eq_true.mp h c hc
      change scan _ = scan _
      simp only [scan, hdrop]
    content := fun {opened text} h => by
      obtain ⟨content, hevent⟩ := event_content h
      exact ⟨content, scan_eq_some.mpr ⟨hevent, rfl⟩⟩
    start := fun {opened name attributes rest} h => by
      refine scan_eq_some.mpr ⟨?_, rfl⟩
      exact event_start h
    empty := fun {opened name attributes rest} h => by
      refine scan_eq_some.mpr ⟨?_, rfl⟩
      exact event_empty h
    close := fun {opened name rest} h => by
      refine scan_eq_some.mpr ⟨event_close h, ?_⟩
      simp [relate]
    finish := rfl
    nested := fun {r r' e} h => by
      obtain ⟨-, hrelate⟩ := scan_eq_some.mp h
      cases e with
      | start tag => exact (Option.some.inj hrelate).symm
      | close name =>
        cases hopened : r.opened with
        | nil =>
          rw [hopened] at hrelate
          cases hrelate
        | cons top outer =>
          rw [hopened, relate] at hrelate
          split at hrelate
          · rename_i heq
            rw [heq, Option.some.inj hrelate]
          · cases hrelate
      | _ => exact (Option.some.inj hrelate).symm }

end Irena.Library.Markup.Plain
