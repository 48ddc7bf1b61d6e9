import Irena.Library.Strings

/-! # Pull parsing of markup

A scanner turns text into markup events, one at a time, and keeps the names of the open elements.
A `Parse` is a computation over such events that carries the proof that it is local: as long as it
does not run into the end of the text, what it answers and where it stops depend neither on what
follows nor on the elements open around it. Computations are built from loops over the children of
an element, so a document and the same element embedded in another one are read alike. -/

namespace Irena.Library.Markup

open Strings

/-- A start tag: its name and its attributes, absent where one of them cannot be decoded. -/
structure Tag where
  name : Text
  attributes : Option (List (Text × Text))
deriving DecidableEq

inductive Event where
  | start (tag : Tag)
  | empty (tag : Tag)
  | close (name : Text)
  | text (content : Text)
  | cdata (content : Text)
  | comment (content : Text)
  | declaration
  | instruction
  | doctype
  | reference (name : Text)
  | eof
deriving DecidableEq

/-- Where a document has been read to: the open elements, innermost first, and the text left. -/
structure Reader where
  opened : List Text
  rest : Text
deriving DecidableEq

/-- The reader of a text that is followed by `post` inside the elements `base`. -/
def Reader.frame (r : Reader) (base : List Text) (post : Text) : Reader :=
  ⟨r.opened ++ base, r.rest ++ post⟩

@[simp] theorem Reader.frame_rest (r : Reader) (base : List Text) (post : Text) :
    (r.frame base post).rest = r.rest ++ post := rfl

@[simp] theorem Reader.frame_opened (r : Reader) (base : List Text) (post : Text) :
    (r.frame base post).opened = r.opened ++ base := rfl

private theorem take_frame {source r : Text} (h : r <:+ source) (post : Text) :
    (source ++ post).take ((source ++ post).length - (r ++ post).length) =
      source.take (source.length - r.length) := by
  have hlen := h.length_le
  rw [List.length_append, List.length_append, Nat.add_sub_add_right, List.take_append_of_le_length]
  omega

/-- A scanner reads the next event, or finds the text ill-formed. -/
class Scanner where
  scan : Reader → Option (Event × Reader)

export Scanner (scan)

/-- What is relied on of a scanner: an event other than the end consumes text; and an event is
recognised by its own text alone, unless it is the end or text that runs to the end. -/
class LawfulScanner [Scanner] : Prop where
  suffix : ∀ {r r' e}, scan r = some (e, r') → r'.rest <:+ r.rest
  progress : ∀ {r r' e}, scan r = some (e, r') → e ≠ .eof → r'.rest.length < r.rest.length
  frame : ∀ {r r' e}, scan r = some (e, r') → e ≠ .eof → (r'.rest ≠ [] ∨ ∀ t, e ≠ .text t) →
    ∀ base post, scan (r.frame base post) = some (e, r'.frame base post)

variable {φ ι φ' ι' α β σ : Type}

/-- Why a computation refuses: a fatal reason ends the reading, an invalid content can be
collected with others. -/
inductive Refusal (φ ι : Type) where
  | fatal (reason : φ)
  | invalid (issues : ι)
deriving DecidableEq

/-- An answer after which the reading may go on. -/
def Recoverable : Except (Refusal φ ι) α → Prop
  | .error (.fatal _) => False
  | _ => True

@[simp] theorem recoverable_ok (a : α) : Recoverable (.ok a : Except (Refusal φ ι) α) := trivial

@[simp] theorem recoverable_invalid (i : ι) :
    Recoverable (.error (.invalid i) : Except (Refusal φ ι) α) := trivial

@[simp] theorem not_recoverable_fatal (f : φ) :
    ¬ Recoverable (.error (.fatal f) : Except (Refusal φ ι) α) := id

/-- A computation only moves forward, and is framed by what surrounds its text. -/
structure Local (run : Reader → Except (Refusal φ ι) α × Reader) : Prop where
  suffix : ∀ r, (run r).2.rest <:+ r.rest
  frame : ∀ r, Recoverable (run r).1 → ∀ base post,
    run (r.frame base post) = ((run r).1, (run r).2.frame base post)

structure Parse [Scanner] (φ ι α : Type) where
  run : Reader → Except (Refusal φ ι) α × Reader
  isLocal : LawfulScanner → Local run

namespace Parse

variable [Scanner]

@[ext] theorem ext {p q : Parse φ ι α} (h : ∀ r, p.run r = q.run r) : p = q := by
  cases p
  cases q
  congr
  funext r
  exact h r

/-- An answer that reads nothing. -/
def answer (x : Except (Refusal φ ι) α) : Parse φ ι α where
  run r := (x, r)
  isLocal _ := ⟨fun _ => List.suffix_refl _, fun _ _ _ _ => rfl⟩

def fatal (reason : φ) : Parse φ ι α := answer (.error (.fatal reason))

def invalid (issues : ι) : Parse φ ι α := answer (.error (.invalid issues))

protected def bind (p : Parse φ ι α) (f : α → Parse φ ι β) : Parse φ ι β where
  run r :=
    match p.run r with
    | (.ok a, r') => (f a).run r'
    | (.error e, r') => (.error e, r')
  isLocal law := by
    have hp := p.isLocal law
    refine ⟨fun r => ?_, fun r hrec base post => ?_⟩
    · have hs := hp.suffix r
      rcases hrun : p.run r with ⟨x | a, r'⟩
      · simpa [hrun] using hs
      · rw [hrun] at hs
        exact (((f a).isLocal law).suffix r').trans hs
    · rcases hrun : p.run r with ⟨x | a, r'⟩
      · simp only [hrun] at hrec
        have hframe := hp.frame r (by rw [hrun]; cases x <;> trivial) base post
        simp only [hrun] at hframe
        simp only [hframe]
      · simp only [hrun] at hrec
        have hframe := hp.frame r (by rw [hrun]; trivial) base post
        simp only [hrun] at hframe
        simp only [hframe]
        exact ((f a).isLocal law).frame r' hrec base post

instance : Monad (Parse φ ι) where
  pure a := answer (.ok a)
  bind := Parse.bind

@[simp] theorem run_pure (a : α) (r : Reader) : (pure a : Parse φ ι α).run r = (.ok a, r) := rfl

@[simp] theorem run_answer (x : Except (Refusal φ ι) α) (r : Reader) :
    (answer x).run r = (x, r) := rfl

@[simp] theorem run_fatal (reason : φ) (r : Reader) :
    (fatal reason : Parse φ ι α).run r = (.error (.fatal reason), r) := rfl

@[simp] theorem run_invalid (issues : ι) (r : Reader) :
    (invalid issues : Parse φ ι α).run r = (.error (.invalid issues), r) := rfl

theorem run_bind (p : Parse φ ι α) (f : α → Parse φ ι β) (r : Reader) :
    (p >>= f).run r =
      match p.run r with
      | (.ok a, r') => (f a).run r'
      | (.error e, r') => (.error e, r') := rfl

/-- What a successful sequence did. -/
theorem run_bind_ok {p : Parse φ ι α} {f : α → Parse φ ι β} {r r'' : Reader} {b : β} :
    (p >>= f).run r = (.ok b, r'') ↔
      ∃ a r', p.run r = (.ok a, r') ∧ (f a).run r' = (.ok b, r'') := by
  rw [run_bind]
  rcases hrun : p.run r with ⟨x | a, r'⟩ <;> simp

/-- A computation that reads nothing. -/
def Still (p : Parse φ ι α) : Prop := ∀ r, (p.run r).2 = r

theorem still_answer (x : Except (Refusal φ ι) α) : Still (answer x) := fun _ => rfl

theorem Still.bind {p : Parse φ ι α} {f : α → Parse φ ι β} (hp : Still p) (hf : ∀ a, Still (f a)) :
    Still (p >>= f) := by
  intro r
  have hread := hp r
  rw [run_bind]
  rcases hrun : p.run r with ⟨x | a, r'⟩
  · rw [hrun] at hread
    exact hread
  · rw [hrun] at hread
    obtain rfl := hread
    exact hf a r'

theorem Still.eq_of_run {p : Parse φ ι α} (hp : Still p) {r r' : Reader}
    {x : Except (Refusal φ ι) α} (h : p.run r = (x, r')) : r' = r := by
  rw [← hp r, h]

/-- A computation's answer with the reader after it. -/
def exec (p : Parse φ ι α) (r : Reader) : Except (Refusal φ ι) (α × Reader) :=
  match p.run r with
  | (.ok a, r') => .ok (a, r')
  | (.error e, _) => .error e

@[simp] theorem exec_eq_ok {p : Parse φ ι α} {r r' : Reader} {a : α} :
    p.exec r = .ok (a, r') ↔ p.run r = (.ok a, r') := by
  unfold exec
  rcases p.run r with ⟨x | b, r''⟩ <;> simp

/-- Invalid content becomes a value; a fatal reason is passed on. -/
def attempt (p : Parse φ ι α) : Parse φ ι (Except ι α) where
  run r :=
    match p.run r with
    | (.ok a, r') => (.ok (.ok a), r')
    | (.error (.invalid i), r') => (.ok (.error i), r')
    | (.error (.fatal f), r') => (.error (.fatal f), r')
  isLocal law := by
    have hp := p.isLocal law
    refine ⟨fun r => ?_, fun r hrec base post => ?_⟩
    · have hs := hp.suffix r
      rcases hrun : p.run r with ⟨(f | i) | a, r'⟩ <;> simpa [hrun] using hs
    · rcases hrun : p.run r with ⟨(f | i) | a, r'⟩
      · simp only [hrun] at hrec
        exact absurd hrec (not_recoverable_fatal f)
      all_goals
        have hframe := hp.frame r (by rw [hrun]; trivial) base post
        simp only [hrun] at hframe
        simp only [hframe]

/-- The same computation with its refusals renamed. -/
def mapRefusal (onFatal : φ → φ') (onInvalid : ι → ι') (p : Parse φ ι α) : Parse φ' ι' α where
  run r :=
    match p.run r with
    | (.ok a, r') => (.ok a, r')
    | (.error (.invalid i), r') => (.error (.invalid (onInvalid i)), r')
    | (.error (.fatal f), r') => (.error (.fatal (onFatal f)), r')
  isLocal law := by
    have hp := p.isLocal law
    refine ⟨fun r => ?_, fun r hrec base post => ?_⟩
    · have hs := hp.suffix r
      rcases hrun : p.run r with ⟨(f | i) | a, r'⟩ <;> simpa [hrun] using hs
    · rcases hrun : p.run r with ⟨(f | i) | a, r'⟩
      · simp only [hrun] at hrec
        exact absurd hrec (not_recoverable_fatal _)
      all_goals
        have hframe := hp.frame r (by rw [hrun]; trivial) base post
        simp only [hrun] at hframe
        simp only [hframe]

/-- Reasons a loop itself refuses for: the text is ill-formed, or an event does not belong. -/
structure Reasons (φ : Type) where
  illFormed : φ
  unexpected : Event → φ

/-- Reads the children of an element up to its end tag, skipping text and comments. Each child's
start tag is handed to `onChild`, with whether it is an empty-element tag. The fuel bounds the
number of events. -/
def runChildren (reasons : Reasons φ) (onChild : σ → Tag → Bool → Parse φ ι σ) :
    ℕ → σ → Reader → Except (Refusal φ ι) σ × Reader
  | 0, _, r => (.error (.fatal reasons.illFormed), r)
  | fuel + 1, s, r =>
    match scan r with
    | none => (.error (.fatal reasons.illFormed), r)
    | some (.text _, r') => runChildren reasons onChild fuel s r'
    | some (.comment _, r') => runChildren reasons onChild fuel s r'
    | some (.empty tag, r') =>
      match (onChild s tag true).run r' with
      | (.ok s', r'') => runChildren reasons onChild fuel s' r''
      | (.error e, r'') => (.error e, r'')
    | some (.start tag, r') =>
      match (onChild s tag false).run r' with
      | (.ok s', r'') => runChildren reasons onChild fuel s' r''
      | (.error e, r'') => (.error e, r'')
    | some (.close _, r') => (.ok s, r')
    | some (e, r') => (.error (.fatal (reasons.unexpected e)), r')

/-- Walks to the end tag of the element just opened, through whatever it holds, and answers the
text before that end tag. `depth` counts the elements opened on the way. -/
def runWalk (reasons : Reasons φ) (refused : Event → Bool) (from_ : Reader) :
    ℕ → ℕ → Reader → Except (Refusal φ ι) Text × Reader
  | 0, _, r => (.error (.fatal reasons.illFormed), r)
  | fuel + 1, depth, r =>
    match scan r with
    | none => (.error (.fatal reasons.illFormed), r)
    | some (e, r') =>
      if e = .eof ∨ refused e then (.error (.fatal (reasons.unexpected e)), r')
      else match e, depth with
        | .start _, depth => runWalk reasons refused from_ fuel (depth + 1) r'
        | .close _, 0 => (.ok (from_.rest.take (from_.rest.length - r.rest.length)), r')
        | .close _, depth + 1 => runWalk reasons refused from_ fuel depth r'
        | _, depth => runWalk reasons refused from_ fuel depth r'

variable {reasons : Reasons φ} {onChild : σ → Tag → Bool → Parse φ ι σ}

section Lawful

variable [law : LawfulScanner]

theorem runChildren_suffix (fuel : ℕ) (s : σ) (r : Reader) :
    (runChildren reasons onChild fuel s r).2.rest <:+ r.rest := by
  induction fuel generalizing s r with
  | zero => exact List.suffix_refl _
  | succ fuel ih =>
    unfold runChildren
    have hsuffix : ∀ {e r'}, scan r = some (e, r') → r'.rest <:+ r.rest := law.suffix
    split
    · exact List.suffix_refl _
    · rename_i hscan
      exact (ih s _).trans (hsuffix hscan)
    · rename_i hscan
      exact (ih s _).trans (hsuffix hscan)
    · rename_i tag r' hscan
      have hchild := ((onChild s tag true).isLocal law).suffix r'
      split
      · rename_i hrun
        rw [hrun] at hchild
        exact ((ih _ _).trans hchild).trans (hsuffix hscan)
      · rename_i hrun
        rw [hrun] at hchild
        exact hchild.trans (hsuffix hscan)
    · rename_i tag r' hscan
      have hchild := ((onChild s tag false).isLocal law).suffix r'
      split
      · rename_i hrun
        rw [hrun] at hchild
        exact ((ih _ _).trans hchild).trans (hsuffix hscan)
      · rename_i hrun
        rw [hrun] at hchild
        exact hchild.trans (hsuffix hscan)
    · rename_i hscan
      exact hsuffix hscan
    · rename_i hscan
      exact hsuffix hscan

/-- At the end of the text a loop can only refuse. -/
theorem not_recoverable_of_rest_nil {fuel : ℕ} {s : σ} {r : Reader} (h : r.rest = []) :
    ¬ Recoverable (runChildren reasons onChild fuel s r).1 := by
  cases fuel with
  | zero => exact not_recoverable_fatal _
  | succ fuel =>
    unfold runChildren
    have hend : ∀ {e r'}, scan r = some (e, r') → e = .eof := by
      intro e r' hscan
      by_contra hne
      have hlt := law.progress hscan hne
      simp [h] at hlt
    split <;> first | exact not_recoverable_fatal _ | (rename_i hscan; cases hend hscan)

theorem runChildren_frame {fuel more : ℕ} (hmore : fuel ≤ more) (s : σ) (r : Reader)
    (hrec : Recoverable (runChildren reasons onChild fuel s r).1) (base : List Text)
    (post : Text) :
    runChildren reasons onChild more s (r.frame base post) =
      ((runChildren reasons onChild fuel s r).1,
        (runChildren reasons onChild fuel s r).2.frame base post) := by
  induction fuel generalizing s r more with
  | zero => exact absurd hrec (not_recoverable_fatal _)
  | succ fuel ih =>
    obtain ⟨more, rfl⟩ : ∃ m, more = m + 1 := ⟨more - 1, by omega⟩
    have hle : fuel ≤ more := by omega
    rw [runChildren] at hrec
    rw [runChildren, runChildren]
    rcases hscan : scan r with _ | ⟨e, r'⟩
    · simp only [hscan] at hrec
      exact absurd hrec (not_recoverable_fatal _)
    · simp only [hscan] at hrec
      cases e with
      | text t =>
        have hne : r'.rest ≠ [] := fun hnil => not_recoverable_of_rest_nil hnil hrec
        rw [law.frame hscan (by simp) (.inl hne) base post]
        exact ih hle s r' hrec
      | comment t =>
        rw [law.frame hscan (by simp) (.inr (by simp)) base post]
        exact ih hle s r' hrec
      | empty tag =>
        rw [law.frame hscan (by simp) (.inr (by simp)) base post]
        have hchild := ((onChild s tag true).isLocal law).frame r'
        rcases hrun : (onChild s tag true).run r' with ⟨x | s', r''⟩
        · simp only [hrun] at hrec hchild ⊢
          simp only [hchild (by cases x <;> trivial) base post]
        · simp only [hrun] at hrec hchild ⊢
          simp only [hchild trivial base post]
          exact ih hle s' r'' hrec
      | start tag =>
        rw [law.frame hscan (by simp) (.inr (by simp)) base post]
        have hchild := ((onChild s tag false).isLocal law).frame r'
        rcases hrun : (onChild s tag false).run r' with ⟨x | s', r''⟩
        · simp only [hrun] at hrec hchild ⊢
          simp only [hchild (by cases x <;> trivial) base post]
        · simp only [hrun] at hrec hchild ⊢
          simp only [hchild trivial base post]
          exact ih hle s' r'' hrec
      | close name =>
        rw [law.frame hscan (by simp) (.inr (by simp)) base post]
      | _ => exact absurd hrec (not_recoverable_fatal _)

/-- Every event consumes text, so any fuel beyond the text left gives the same answer. -/
theorem runChildren_fuel {n m : ℕ} (s : σ) (r : Reader) (hn : r.rest.length < n)
    (hm : r.rest.length < m) :
    runChildren reasons onChild n s r = runChildren reasons onChild m s r := by
  induction n generalizing m s r with
  | zero => omega
  | succ n ih =>
    obtain ⟨m, rfl⟩ : ∃ k, m = k + 1 := ⟨m - 1, by omega⟩
    rw [runChildren, runChildren]
    have hlt : ∀ {e r'}, scan r = some (e, r') → e ≠ .eof → r'.rest.length < r.rest.length :=
      law.progress
    have hchild : ∀ s tag b r', ((onChild s tag b).run r').2.rest.length ≤ r'.rest.length :=
      fun s tag b r' => (((onChild s tag b).isLocal law).suffix r').length_le
    rcases hscan : scan r with _ | ⟨e, r'⟩
    · rfl
    · cases e with
      | text t =>
        have := hlt hscan (by simp)
        exact ih s r' (by omega) (by omega)
      | comment t =>
        have := hlt hscan (by simp)
        exact ih s r' (by omega) (by omega)
      | empty tag =>
        have := hlt hscan (by simp)
        have hle := hchild s tag true r'
        dsimp only
        rcases hrun : (onChild s tag true).run r' with ⟨x | s', r''⟩
        · rfl
        · rw [hrun] at hle
          dsimp only at hle
          exact ih s' r'' (by omega) (by omega)
      | start tag =>
        have := hlt hscan (by simp)
        have hle := hchild s tag false r'
        dsimp only
        rcases hrun : (onChild s tag false).run r' with ⟨x | s', r''⟩
        · rfl
        · rw [hrun] at hle
          dsimp only at hle
          exact ih s' r'' (by omega) (by omega)
      | _ => rfl

theorem runWalk_suffix {refused : Event → Bool} {source : Reader} (fuel depth : ℕ) (r : Reader) :
    (runWalk (ι := ι) reasons refused source fuel depth r).2.rest <:+ r.rest := by
  induction fuel generalizing depth r with
  | zero => exact List.suffix_refl _
  | succ fuel ih =>
    unfold runWalk
    rcases hscan : scan r with _ | ⟨e, r'⟩
    · exact List.suffix_refl _
    · have hsuffix := law.suffix hscan
      dsimp only
      split
      · exact hsuffix
      · split
        · exact (ih _ r').trans hsuffix
        · exact hsuffix
        · exact (ih _ r').trans hsuffix
        · exact (ih _ r').trans hsuffix

theorem not_recoverable_runWalk {refused : Event → Bool} {source : Reader} {fuel depth : ℕ}
    {r : Reader} (h : r.rest = []) :
    ¬ Recoverable (runWalk (ι := ι) reasons refused source fuel depth r).1 := by
  cases fuel with
  | zero => exact not_recoverable_fatal _
  | succ fuel =>
    unfold runWalk
    rcases hscan : scan r with _ | ⟨e, r'⟩
    · exact not_recoverable_fatal _
    · have hend : e = .eof := by
        by_contra hne
        have hlt := law.progress hscan hne
        simp [h] at hlt
      simp [hend]

theorem runWalk_frame {refused : Event → Bool} {source : Reader} {fuel more : ℕ}
    (hmore : fuel ≤ more) (depth : ℕ) (r : Reader) (hsource : r.rest <:+ source.rest)
    (hrec : Recoverable (runWalk (ι := ι) reasons refused source fuel depth r).1)
    (base : List Text) (post : Text) :
    runWalk (ι := ι) reasons refused (source.frame base post) more depth (r.frame base post) =
      ((runWalk reasons refused source fuel depth r).1,
        (runWalk (ι := ι) reasons refused source fuel depth r).2.frame base post) := by
  induction fuel generalizing depth r more with
  | zero => exact absurd hrec (not_recoverable_fatal _)
  | succ fuel ih =>
    obtain ⟨more, rfl⟩ : ∃ m, more = m + 1 := ⟨more - 1, by omega⟩
    have hle : fuel ≤ more := by omega
    rw [runWalk] at hrec
    rw [runWalk, runWalk]
    rcases hscan : scan r with _ | ⟨e, r'⟩
    · simp only [hscan] at hrec
      exact absurd hrec (not_recoverable_fatal _)
    · simp only [hscan] at hrec
      have hr' : r'.rest <:+ source.rest := (law.suffix hscan).trans hsource
      by_cases hrefused : e = .eof ∨ refused e
      · simp only [hrefused, if_true] at hrec
        exact absurd hrec (not_recoverable_fatal _)
      · have heof : e ≠ .eof := fun h => hrefused (.inl h)
        simp only [hrefused, if_false] at hrec ⊢
        have hframe : scan (r.frame base post) = some (e, r'.frame base post) := by
          refine law.frame hscan heof ?_ base post
          by_contra hcon
          push Not at hcon
          obtain ⟨hnil, t, rfl⟩ := hcon
          exact not_recoverable_runWalk hnil hrec
        simp only [hframe, hrefused, if_false]
        cases e with
        | start tag => exact ih hle _ r' hr' hrec
        | close name =>
          cases depth with
          | zero =>
            dsimp only [Reader.frame]
            rw [take_frame hsource]
          | succ depth => exact ih hle _ r' hr' hrec
        | _ => exact ih hle _ r' hr' hrec

end Lawful

/-- The loop over an element's children; an event consumes text, so that the fuel suffices. -/
def children (reasons : Reasons φ) (onChild : σ → Tag → Bool → Parse φ ι σ) (s : σ) :
    Parse φ ι σ where
  run r := runChildren reasons onChild (r.rest.length + 1) s r
  isLocal law := by
    refine ⟨fun r => runChildren_suffix _ s r, fun r hrec base post => ?_⟩
    refine runChildren_frame ?_ s r hrec base post
    simp

/-- Passes over the rest of an element to its end tag and answers the text on the way. -/
def walk (reasons : Reasons φ) (refused : Event → Bool) : Parse φ ι Text where
  run r := runWalk reasons refused r (r.rest.length + 1) 0 r
  isLocal law := by
    refine ⟨fun r => runWalk_suffix _ 0 r, fun r hrec base post => ?_⟩
    refine runWalk_frame ?_ 0 r (List.suffix_refl _) hrec base post
    simp

/-- The loop over children, one event at a time. -/
theorem run_children [LawfulScanner] (s : σ) (r : Reader) :
    (children reasons onChild s).run r =
      match scan r with
      | none => (.error (.fatal reasons.illFormed), r)
      | some (.text _, r') => (children reasons onChild s).run r'
      | some (.comment _, r') => (children reasons onChild s).run r'
      | some (.empty tag, r') => (onChild s tag true >>= children reasons onChild).run r'
      | some (.start tag, r') => (onChild s tag false >>= children reasons onChild).run r'
      | some (.close _, r') => (.ok s, r')
      | some (e, r') => (.error (.fatal (reasons.unexpected e)), r') := by
  have hfuel : ∀ s' r', r'.rest.length < r.rest.length →
      runChildren reasons onChild r.rest.length s' r' = (children reasons onChild s').run r' :=
    fun s' r' h => runChildren_fuel s' r' h (Nat.lt_succ_self _)
  have hchild : ∀ tag b r', ((onChild s tag b).run r').2.rest.length ≤ r'.rest.length :=
    fun tag b r' => (((onChild s tag b).isLocal inferInstance).suffix r').length_le
  change runChildren _ _ _ _ _ = _
  rw [runChildren]
  rcases hscan : scan r with _ | ⟨e, r'⟩
  · rfl
  · cases e with
    | text t => exact hfuel s r' (LawfulScanner.progress hscan (by simp))
    | comment t => exact hfuel s r' (LawfulScanner.progress hscan (by simp))
    | empty tag =>
      have hlt := LawfulScanner.progress hscan (by simp)
      have hle := hchild tag true r'
      simp only [run_bind]
      rcases hrun : (onChild s tag true).run r' with ⟨x | s', r''⟩
      · rfl
      · rw [hrun] at hle
        exact hfuel s' r'' (lt_of_le_of_lt hle hlt)
    | start tag =>
      have hlt := LawfulScanner.progress hscan (by simp)
      have hle := hchild tag false r'
      simp only [run_bind]
      rcases hrun : (onChild s tag false).run r' with ⟨x | s', r''⟩
      · rfl
      · rw [hrun] at hle
        exact hfuel s' r'' (lt_of_le_of_lt hle hlt)
    | _ => rfl

/-- The first event that is not one of those to skip. -/
def runSkip (skipped : Event → Bool) : ℕ → Reader → Option (Event × Reader)
  | 0, _ => none
  | fuel + 1, r =>
    match scan r with
    | none => none
    | some (e, r') => if skipped e then runSkip skipped fuel r' else some (e, r')

def skip (skipped : Event → Bool) (r : Reader) : Option (Event × Reader) :=
  runSkip skipped (r.rest.length + 1) r

end Parse

end Irena.Library.Markup
