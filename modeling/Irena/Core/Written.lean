import Irena.Core.Compose
import Irena.Bornite.Taken
import Irena.Library.Surroundings

/-! # What is written into a record, and what it is read as

The free texts of a notarisation are read with their line breaks and tabs turned into blanks.
Everything else a tag was written with is read as it was. -/

namespace Irena.Core

open Irena.Library Irena.Library.Outcome Irena.Library.Strings Irena.Library.Markup
open Irena.Library.Utf8 Irena.Library.Numeral Irena.Bornite Irena.Prunella

/-- A text without line breaks and tabs. -/
def Unbroken (text : Text) : Prop := ∀ c ∈ text, isBroken c = false

instance (text : Text) : Decidable (Unbroken text) := List.decidableBAll _ text

theorem unbroken_iff {text : Text} : Unbroken text ↔ normaliseValue text = text :=
  normaliseValue_eq_self.symm

/-- Turning whitespace into blanks leaves whitespace. -/
theorem all_isWhitespace_normaliseValue (text : Text) :
    (normaliseValue text).all isWhitespace = text.all isWhitespace := by
  induction text using normaliseValue.induct with
  | case1 => rfl
  | case2 t ih =>
    rw [normaliseValue, List.all_cons, List.all_cons, List.all_cons, ih]
    rfl
  | case3 c t hne ih =>
    rw [normaliseValue.eq_3 c t hne, List.all_cons, List.all_cons, ih]
    split
    · rename_i hc
      rcases hc with rfl | rfl | rfl <;> rfl
    · rfl

theorem trim_eq_nil {text : Text} : trim text = [] ↔ text.all isWhitespace = true := by
  constructor
  · intro h
    obtain ⟨before, after, htext, hbefore, hafter⟩ := trim_decompose text
    rw [h] at htext
    rw [htext, List.all_append, List.all_append, hbefore, hafter]
    rfl
  · intro h
    have hstart : trimStart text = [] := List.dropWhile_eq_nil_iff.mpr (List.all_eq_true.mp h)
    rw [trim, hstart]
    rfl

@[simp] theorem trim_normaliseValue_eq_nil {text : Text} :
    trim (normaliseValue text) = [] ↔ trim text = [] := by
  rw [trim_eq_nil, trim_eq_nil, all_isWhitespace_normaliseValue]

/-- A notarisation as it is read where it was written. -/
def NotarisationV1.asRead (n : NotarisationV1) : NotarisationV1 :=
  { n with
    name := normaliseValue n.name
    address := n.address.map normaliseValue
    statement := n.statement.map normaliseValue }

/-- No free text of the notarisation has a line break or a tab. -/
structure NotarisationV1.Unbroken (n : NotarisationV1) : Prop where
  name : Core.Unbroken n.name
  address : ∀ text ∈ n.address, Core.Unbroken text
  statement : ∀ text ∈ n.statement, Core.Unbroken text

theorem map_normaliseValue_eq_self {text : Option Text} :
    text.map normaliseValue = text ↔ ∀ t ∈ text, Unbroken t := by
  cases text <;> simp [unbroken_iff]

theorem NotarisationV1.asRead_eq_self {n : NotarisationV1} : n.asRead = n ↔ n.Unbroken := by
  obtain ⟨id, name, address, at_, statement, sourceDigest⟩ := n
  simp only [asRead, mk.injEq, true_and, and_true]
  rw [map_normaliseValue_eq_self, map_normaliseValue_eq_self, ← unbroken_iff]
  exact ⟨fun ⟨hname, haddress, hstatement⟩ => ⟨hname, haddress, hstatement⟩,
    fun h => ⟨h.name, h.address, h.statement⟩⟩

section Attributes

variable {ι α β : Type} {pairs : List (Text × Text)} {names names' names'' : Finset Text}

/-- With some names taken, a reading answers `a` with more names taken, and records nothing. -/
def Yields (pairs : List (Text × Text)) (names : Finset Text) (body : Reading ι α) (a : α)
    (names' : Finset Text) : Prop :=
  Takes pairs names body a names' True

theorem yields_pure {a : α} : Yields pairs names (pure a : Reading ι α) a names := takes_pure

theorem Yields.bind {body : Reading ι α} {f : α → Reading ι β} {a : α} {b : β}
    (h : Yields pairs names body a names') (hf : Yields pairs names' (f a) b names'') :
    Yields pairs names (body >>= f) b names'' :=
  (Takes.bind h hf).of_iff (by simp)

/-- A check that passes. -/
theorem Yields.check {body : Reading ι Unit} {f : Unit → Reading ι β} {b : β}
    (h : Yields pairs names body () names) (hf : Yields pairs names (f ()) b names'') :
    Yields pairs names (body >>= f) b names'' :=
  h.bind hf

theorem yields_require {name value : Text} (h : name ∉ names)
    (hvalue : pairs.lookup name = some value) :
    Yields pairs names (require name) (some value) (insert name names) := by
  have htakes : Takes pairs names (Attributes.requireWith IssueV1.xml name) (pairs.lookup name)
      (insert name names) _ := takes_requireWith h
  rw [hvalue] at htakes
  exact htakes.of_iff (by simp)

theorem yields_take {name : Text} {value : Option Text} (h : name ∉ names)
    (hvalue : pairs.lookup name = value) :
    Yields pairs names (Attributes.take name : Reading ι _) value (insert name names) :=
  hvalue ▸ takes_take h

theorem yields_collect {result : Except IrenaError α} {a : α} (h : result = .ok a) :
    Yields pairs names (collect result) (some a) names := by
  subst h
  exact takes_pure

theorem yields_spelled {element key reason value : Text} {parsed : Option α} {a : α}
    (h : parsed = some a) :
    Yields pairs names (collect (spelled element key reason value parsed)) (some a) names :=
  yields_collect (by rw [h]; rfl)

/-- A value that may be missing, read where it is there. -/
theorem yields_andThen_map {γ : Type} {a : Option γ} {spell : γ → α}
    {f : α → Reading ι (Option γ)} (hf : ∀ x ∈ a, Yields pairs names (f (spell x)) (some x) names) :
    Yields pairs names (andThen (a.map spell) f) a names := by
  cases a with
  | none => exact takes_pure
  | some x => exact hf x rfl

/-- A tag whose attributes are all taken. -/
theorem Yields.run [Scanner] {φ κ : Type} [DocumentFault φ] {element name : Text}
    {body : Reading ι α} {a : α} (h : Yields pairs ∅ body a names)
    (hcovers : Covers names pairs) (r : Reader) :
    (readAttributes element ⟨name, some pairs⟩ ∅ body : Parse φ κ _).run r = (.ok (a, ∅), r) := by
  obtain ⟨found, hbody, hfound⟩ := h element ∅
  obtain rfl := hfound.mpr ⟨rfl, trivial⟩
  rw [marked_empty] at hbody
  rw [readAttributes_known rfl hbody (unknown_marked.mpr hcovers)]
  rfl

theorem lookup_readPairs {name : Text} :
    (readPairs pairs).lookup name = (pairs.lookup name).map normaliseValue := by
  induction pairs with
  | nil => rfl
  | cons p rest ih =>
    obtain ⟨key, value⟩ := p
    rw [readPairs, List.map_cons, List.lookup_cons, List.lookup_cons]
    cases name == key with
    | true => rfl
    | false => exact ih

/-- The attributes of a written tag are covered by the names that they are read by. -/
theorem covers_readPairs {name : Text} (h : Writable name pairs)
    (hnames : ∀ key ∈ pairs.map Prod.fst, key ∈ names) : Covers names (readPairs pairs) := by
  have hkeys : (readPairs pairs).map Prod.fst = pairs.map Prod.fst := by
    rw [readPairs, List.map_map]
    rfl
  exact ⟨hkeys ▸ h.nodup, hkeys ▸ hnames⟩

/-- Settles where a name stands among written attributes, for any names a claim is about. -/
theorem lookup_written {name : Text} {value : Option Text}
    (h : pairs.lookup name = value) : (readPairs pairs).lookup name = value.map normaliseValue :=
  lookup_readPairs.trans (congrArg _ h)

end Attributes

section Notarisations

variable {n : NotarisationV1}

theorem NotaryIdV1.new_eq_ok {value : Text} {id : NotaryIdV1} :
    NotaryIdV1.new value = .ok id ↔ id.value = value := by
  obtain ⟨v, hv⟩ := id
  unfold NotaryIdV1.new
  split
  · rename_i reason hreason
    simp only [rejectValue, reduceCtorEq, false_iff]
    rintro rfl
    rw [hv] at hreason
    cases hreason
  · simp [eq_comm]

theorem NotaryTimeV1.parse_eq_ok {text : Text} {time : NotaryTimeV1} :
    NotaryTimeV1.parse text = .ok time ↔ time.value = text := by
  obtain ⟨v, hv⟩ := time
  unfold NotaryTimeV1.parse
  split
  · rename_i reason hreason
    simp only [rejectValue, reduceCtorEq, false_iff]
    rintro rfl
    rw [hv] at hreason
    cases hreason
  · simp [eq_comm]

/-- The names a notarisation is read by, the last one first. -/
def notarisationNames : Finset Text :=
  {lit "source-digest", lit "statement", lit "at", lit "address", lit "name", lit "id"}

theorem mem_notarisationNames :
    ∀ key ∈ (notarisationPairs n).map Prod.fst, key ∈ notarisationNames := by
  unfold notarisationPairs
  cases n.address <;> cases n.statement <;> cases n.sourceDigest <;>
    simp only [Option.map_none, Option.map_some, Option.toList_none, Option.toList_some,
      List.append_nil, List.cons_append, List.nil_append, List.map_cons, List.map_nil] <;> decide

theorem lookup_notarisationPairs :
    (notarisationPairs n).lookup (lit "id") = some n.id.value ∧
    (notarisationPairs n).lookup (lit "name") = some n.name ∧
    (notarisationPairs n).lookup (lit "address") = n.address ∧
    (notarisationPairs n).lookup (lit "at") = some n.at_.value ∧
    (notarisationPairs n).lookup (lit "statement") = n.statement ∧
    (notarisationPairs n).lookup (lit "source-digest") = n.sourceDigest.map Hash.toHex := by
  unfold notarisationPairs
  cases n.address <;> cases n.statement <;> cases n.sourceDigest <;>
    exact ⟨by rfl, by rfl, by rfl, by rfl, by rfl, by rfl⟩

theorem yields_notarisation (hname : trim n.name ≠ []) :
    Yields (readPairs (notarisationPairs n)) ∅ notarisationAttributes (some n.asRead)
      notarisationNames := by
  obtain ⟨hid, hn, haddress, hat, hstatement, hdigest⟩ := @lookup_notarisationPairs n
  have hplain {text : Text} (h : text.all isPlain = true) :
      (some text).map normaliseValue = some text := congrArg some (normaliseValue_plain h)
  refine (yields_require (by decide) ((lookup_written hid).trans (hplain (plain_notaryId n.id)))).bind ?_
  refine (yields_require (by decide) (lookup_written hn)).bind ?_
  refine (yields_take (by decide) (lookup_written haddress)).bind ?_
  refine (yields_require (by decide) ((lookup_written hat).trans (hplain (plain_time n.at_)))).bind ?_
  refine (yields_take (by decide) (lookup_written hstatement)).bind ?_
  have hhex : (n.sourceDigest.map Hash.toHex).map normaliseValue = n.sourceDigest.map Hash.toHex := by
    cases n.sourceDigest with
    | none => rfl
    | some digest => exact hplain (plain_hash digest)
  refine (yields_take (by decide) ((lookup_written hdigest).trans hhex)).bind ?_
  refine Yields.bind (yields_collect (NotaryIdV1.new_eq_ok.mpr rfl)) ?_
  refine Yields.bind (yields_collect (NotaryTimeV1.parse_eq_ok.mpr rfl)) ?_
  refine Yields.bind (yields_andThen_map fun digest _ => yields_spelled (Hash.fromHex_toHex digest)) ?_
  have hread : trim (normaliseValue n.name) ≠ [] := by simpa using hname
  dsimp only
  rw [if_neg hread]
  exact yields_pure

/-- A written notarisation is read, the breaks in its free texts turned into blanks. -/
theorem run_readNotarisation [Scanner] (hname : trim n.name ≠ []) (r : Reader) :
    (readNotarisation ⟨lit "notarisation", some (readPairs (notarisationPairs n))⟩).run r =
      (.ok n.asRead, r) := by
  have hcovers := covers_readPairs (writable_notarisation n) mem_notarisationNames
  unfold readNotarisation
  rw [Parse.run_bind, (yields_notarisation hname).run hcovers r]
  dsimp only
  refine Parse.run_bind_ok.mpr ⟨(), r, run_finishIssues_ok.mpr ⟨rfl, rfl⟩, ?_⟩
  exact run_expectSome_ok.mpr ⟨rfl, rfl⟩

end Notarisations

section Documents

variable [Scanner] [DocumentScanner] {skipped : Event → Bool}

/-- Behind content, a text is opened as a document of its own is. -/
theorem skip_opened (heof : skipped .eof = false) (htext : ∀ t, skipped (.text t) = true)
    {before : Text} (hbefore : before.all isContent = true) (text after : Text) :
    Parse.skip skipped ⟨[], before ++ (text ++ after)⟩ =
      Parse.skip skipped ((openDocument text).frame [] after) := by
  rw [Parse.skip_before heof htext hbefore]
  unfold openDocument stripPrefix
  split
  · rename_i hbom
    obtain ⟨t, rfl⟩ := List.isPrefixOf_iff_prefix.mp hbom
    rw [List.append_assoc, Parse.skip_before heof htext (by decide)]
    rfl
  · rfl

theorem skip_openDocument (heof : skipped .eof = false) (htext : ∀ t, skipped (.text t) = true)
    (text : Text) :
    Parse.skip skipped (openDocument text) = Parse.skip skipped ⟨[], text⟩ := by
  have h := skip_opened heof htext (List.all_nil) text []
  simp only [List.nil_append, List.append_nil, Reader.frame] at h
  exact h.symm

end Documents

end Irena.Core
