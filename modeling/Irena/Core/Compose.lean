import Irena.Core.Xml
import Irena.Library.Written

/-! # Composed records are read back as written

The text a record is composed as is markup the program wrote itself around a body that reads as a
document of its own. Both readings find the same root and read the same body. -/

namespace Irena.Core

open Irena.Library Irena.Library.Outcome Irena.Library.Strings Irena.Library.Markup
open Irena.Library.Utf8 Irena.Library.Numeral Irena.Bornite Irena.Prunella

theorem writeAttribute_escape (name value : Text) :
    writeAttribute name (escapeAttribute value) = writePair (name, value) := rfl

theorem writeAttribute_plain {name value : Text} (h : value.all isPlain = true) :
    writeAttribute name value = writePair (name, value) := by
  rw [writePair, escapeValue_plain h]
  rfl

theorem plain_of_label {value : Text} (h : labelReason value = none) :
    value.all isPlain = true := by
  refine all_isPlain_of_class (p := labelCharacter) (by decide) ?_
  unfold labelReason at h
  split at h
  · cases h
  · rename_i first rest
    split at h
    · cases h
    · split at h
      · cases h
      · rename_i hfirst
        split at h
        · rename_i hrest
          rw [List.all_cons, hrest, Bool.and_true]
          simp only [Bool.and_eq_true, Bool.not_eq_true', not_and, Bool.not_eq_false] at hfirst
          unfold labelCharacter
          by_cases hlower : isAsciiLowercase first = true
          · simp [hlower]
          · simp [hfirst (by simpa using hlower)]
        · cases h

theorem plain_toHex (w n : ℕ) : (toHex w n).all isPlain = true := by
  have hchar : ∀ d < 16, isPlain (hexChar d) = true := by decide
  rw [toHex, (swapPairs_perm _).all_eq, List.all_map]
  exact List.all_eq_true.mpr fun d hd => hchar d (nibbles_lt _ _ d hd)

theorem plain_notaryId (id : NotaryIdV1) : id.value.all isPlain = true := by
  have h := id.valid
  refine all_isPlain_of_class (p := voterIdCharacter) (by decide) ?_
  unfold notaryIdReason at h
  split at h
  · cases h
  · split at h
    · cases h
    · split at h
      · rename_i hall
        exact hall
      · cases h

/-- A character of one byte is its own encoding. -/
theorem mem_utf8_of_mem {text : Text} {c : Char} (hc : c ∈ text) (hlt : c.toNat < 128) :
    c.toNat ∈ utf8 text := by
  refine List.mem_flatMap.mpr ⟨c, hc, ?_⟩
  unfold utf8Char
  simp [hlt]

/-- Every byte of a time is a digit or one of its symbols. -/
theorem timeFormReason_eq_none {index : ℕ} {bytes : Bytes} (h : timeFormReason index bytes = none) :
    ∀ byte ∈ bytes, (48 ≤ byte ∧ byte ≤ 57) ∨ byte ∈ [45, 84, 58, 90] := by
  induction bytes generalizing index with
  | nil => simp
  | cons byte rest ih =>
    unfold timeFormReason at h
    rintro b hb
    split at h
    · rename_i symbol hsymbol
      split at h
      · rename_i heq
        rcases List.mem_cons.mp hb with rfl | hb
        · subst heq
          refine .inr ?_
          unfold timeSymbol at hsymbol
          split_ifs at hsymbol <;> simp_all
        · exact ih h b hb
      · cases h
    · split at h
      · rename_i hdigit
        rcases List.mem_cons.mp hb with rfl | hb
        · exact .inl hdigit
        · exact ih h b hb
      · cases h

theorem plain_time (t : NotaryTimeV1) : t.value.all isPlain = true := by
  have h := t.valid
  unfold timeReason at h
  simp only [ne_eq, ite_not] at h
  split at h
  · rename_i hlen
    cases hform : timeFormReason 0 (utf8 t.value) with
    | some reason => simp [hform] at h
    | none =>
      have hbytes := timeFormReason_eq_none hform
      refine List.all_eq_true.mpr fun c hc => ?_
      have hne : ∀ d ∈ ['&', '"', '<', '>', '\t', '\n', '\r'], c ≠ d := by
        rintro d hd rfl
        have hsmall : c.toNat < 128 ∧ ¬ ((48 ≤ c.toNat ∧ c.toNat ≤ 57) ∨
            c.toNat ∈ [45, 84, 58, 90]) := by
          simp only [List.mem_cons, List.not_mem_nil, or_false] at hd
          rcases hd with rfl | rfl | rfl | rfl | rfl | rfl | rfl <;> decide
        exact hsmall.2 (hbytes _ (mem_utf8_of_mem hc hsmall.1))
      exact isPlain_of_class (p := fun d => d = c)
        (fun d hd => decide_eq_false fun heq => hne d hd heq.symm) (by simp)
  · cases h

def envelopePairs (kind : RecordKindV1) (company : CompanyIdV1) (supersedes : Option TxId) :
    List (Text × Text) :=
  [(lit "version", recordVersion), (lit "kind", kind.asStr), (lit "company", company.value)] ++
    (supersedes.map fun txId => (lit "supersedes", txId.toHex)).toList

def notarisationPairs (n : NotarisationV1) : List (Text × Text) :=
  [(lit "id", n.id.value), (lit "name", n.name)] ++
    (n.address.map fun address => (lit "address", address)).toList ++ [(lit "at", n.at_.value)] ++
    (n.statement.map fun statement => (lit "statement", statement)).toList ++
    (n.sourceDigest.map fun digest => (lit "source-digest", digest.toHex)).toList

theorem writePairs_append (ps qs : List (Text × Text)) :
    writePairs (ps ++ qs) = writePairs ps ++ writePairs qs :=
  List.flatMap_append

@[simp] theorem writePairs_cons (p : Text × Text) (ps : List (Text × Text)) :
    writePairs (p :: ps) = writePair p ++ writePairs ps :=
  List.flatMap_cons

@[simp] theorem writePairs_nil : writePairs [] = [] := rfl

theorem writeOptional_plain {α : Type} {name : Text} {spell : α → Text} {value : Option α}
    (h : ∀ a, (spell a).all isPlain = true) :
    writeOptional name (value.map spell) = writePairs (value.map fun a => (name, spell a)).toList := by
  cases value <;> simp [writeOptional, writeAttribute_plain (h _)]

theorem writeOptional_escape {name : Text} {value : Option Text} :
    writeOptional name (value.map escapeAttribute) =
      writePairs (value.map fun v => (name, v)).toList := by
  cases value <;> simp [writeOptional, writeAttribute_escape]

theorem plain_hash (digest : Hash) : digest.toHex.all isPlain = true := plain_toHex 64 digest.value

theorem plain_txId (txId : TxId) : txId.toHex.all isPlain = true := plain_toHex 64 txId.hash.value

theorem writeNotarisation_eq (n : NotarisationV1) :
    writeNotarisation n =
      lit "<" ++ lit "notarisation" ++ writePairs (notarisationPairs n) ++ lit "/>" := by
  have hid := @writeAttribute_plain (lit "id") _ (plain_notaryId n.id)
  have hat := @writeAttribute_plain (lit "at") _ (plain_time n.at_)
  have hopen : lit "<notarisation" = lit "<" ++ lit "notarisation" := rfl
  rw [writeNotarisation, hid, hat, writeAttribute_escape, writeOptional_escape,
    writeOptional_escape, writeOptional_plain plain_hash, hopen]
  simp only [notarisationPairs, writePairs_append, writePairs_cons, writePairs_nil, List.append_assoc,
    List.append_nil]

theorem recordText_eq (kind : RecordKindV1) (company : CompanyIdV1) (supersedes : Option TxId)
    (n : NotarisationV1) (element : Text) :
    recordText kind company supersedes n element =
      lit "<" ++ lit "irena-record" ++ writePairs (envelopePairs kind company supersedes) ++
        lit ">" ++ (lit "\n  " ++ (lit "<" ++ lit "notarisation" ++
          writePairs (notarisationPairs n) ++ lit "/>" ++
            (lit "\n  " ++ (element ++ lit "\n</irena-record>")))) := by
  have hversion : writeAttribute (lit "version") recordVersion =
      writePair (lit "version", recordVersion) := writeAttribute_plain (by decide)
  have hkind : writeAttribute (lit "kind") kind.asStr = writePair (lit "kind", kind.asStr) :=
    writeAttribute_plain (by cases kind <;> decide)
  have hcompany := @writeAttribute_plain (lit "company") _ (plain_of_label company.valid)
  have hopen : lit "<irena-record" = lit "<" ++ lit "irena-record" := rfl
  have hclose : lit ">\n  " = lit ">" ++ lit "\n  " := rfl
  rw [recordText, writeNotarisation_eq, hversion, hkind, hcompany, writeOptional_plain plain_txId, hopen, hclose]
  simp only [envelopePairs, writePairs_append, writePairs_cons, writePairs_nil, List.append_assoc,
    List.nil_append]

theorem writable_envelope (kind : RecordKindV1) (company : CompanyIdV1) (supersedes : Option TxId) :
    Writable (lit "irena-record") (envelopePairs kind company supersedes) where
  name := by decide
  keys := by
    cases supersedes <;>
      simp only [envelopePairs, Option.map_none, Option.map_some, Option.toList_none,
        Option.toList_some, List.append_nil, List.cons_append, List.nil_append,
        List.forall_mem_cons, List.not_mem_nil, false_implies, implies_true, and_true] <;> decide
  nodup := by cases supersedes <;> simp [envelopePairs, lit]

theorem writable_notarisation (n : NotarisationV1) :
    Writable (lit "notarisation") (notarisationPairs n) where
  name := by decide
  keys := by
    unfold notarisationPairs
    cases n.address <;> cases n.statement <;> cases n.sourceDigest <;>
      simp only [Option.map_none, Option.map_some, Option.toList_none, Option.toList_some,
        List.append_nil, List.cons_append, List.nil_append, List.forall_mem_cons, List.not_mem_nil,
        false_implies, implies_true, and_true] <;> decide
  nodup := by
    unfold notarisationPairs
    cases n.address <;> cases n.statement <;> cases n.sourceDigest <;> simp [lit]

section Readers

variable [Scanner]

/-- The event a root tag is. -/
def rootEvent (root : Tag) (isEmpty : Bool) : Event := if isEmpty then .empty root else .start root

omit [Scanner] in
theorem epilog_eq : epilog = ignorable := by
  funext e
  cases e <;> rfl

theorem rootOf_eq_ok {name : Text} {r r' : Reader} {root : Tag} {isEmpty : Bool} :
    (rootOf name r : Except IrenaError _) = .ok (root, isEmpty, r') ↔
      Parse.skip prolog r = some (rootEvent root isEmpty, r') ∧ root.name = name := by
  unfold rootOf
  rcases hskip : Parse.skip prolog r with _ | ⟨e, r₁⟩
  · simp
  · cases e with
    | start tag =>
      by_cases hname : tag.name = name
      · cases isEmpty <;> simp [rootEvent, hname]
        rintro rfl rfl
        exact hname
      · cases isEmpty <;> simp [rootEvent, hname]
        rintro rfl rfl
        exact hname
    | empty tag =>
      by_cases hname : tag.name = name
      · cases isEmpty <;> simp [rootEvent, hname]
        rintro rfl rfl
        exact hname
      · cases isEmpty <;> simp [rootEvent, hname]
        rintro rfl rfl
        exact hname
    | _ => cases isEmpty <;> simp [rootEvent]

theorem rootStart_eq_ok {name : Text} {r r' : Reader} {root : Tag} :
    (rootStart name r : Except IrenaError _) = .ok (root, r') ↔
      Parse.skip prolog r = some (.start root, r') ∧ root.name = name := by
  unfold rootStart
  rcases hskip : Parse.skip prolog r with _ | ⟨e, r₁⟩
  · simp
  · cases e with
    | start tag =>
      by_cases hname : tag.name = name
      · simp only [hname, if_true, Except.ok.injEq, Prod.mk.injEq, Option.some.injEq, Event.start.injEq]
        constructor
        · rintro ⟨rfl, rfl⟩
          exact ⟨⟨rfl, rfl⟩, hname⟩
        · rintro ⟨⟨rfl, rfl⟩, -⟩
          exact ⟨rfl, rfl⟩
      · simp only [hname, if_false, reduceCtorEq, Option.some.injEq, Prod.mk.injEq,
          Event.start.injEq, false_iff, not_and]
        rintro ⟨rfl, -⟩
        exact hname
    | empty tag =>
      by_cases hname : tag.name = name <;> simp [hname]
    | _ => simp

theorem expectEof_eq_ok {r : Reader} {u : Unit} :
    (expectEof r : Except IrenaError Unit) = .ok u ↔
      ∃ r', Parse.skip ignorable r = some (.eof, r') := by
  rw [expectEof, epilog_eq]
  rcases Parse.skip ignorable r with _ | ⟨e, r'⟩
  · simp
  · cases e <;> simp

omit [Scanner] in
theorem checkSize_eq_ok {xml : Text} {limit : ℕ} {u : Unit} :
    (checkSize xml limit : Except IrenaError Unit) = .ok u ↔ byteLength xml ≤ limit :=
  ensure_eq_ok

theorem readDocument_eq_ok {α : Type} {name xml : Text} {parse : Tag → Bool → IrenaParse α} {a : α} :
    readDocument name parse xml = .ok a ↔ byteLength xml ≤ defaultMaxDocumentBytes ∧
      ∃ root isEmpty r r', Parse.skip prolog (openDocument xml) = some (rootEvent root isEmpty, r) ∧
        root.name = name ∧ (parse root isEmpty).run r = (.ok a, r') ∧
        (expectEof r' : Except IrenaError Unit) = .ok () := by
  simp only [readDocument, bind_eq_ok, checkSize_eq_ok, rootOf_eq_ok, Prod.exists, Parse.exec_eq_ok,
    pure_eq_ok, Except.ok.injEq]
  constructor
  · rintro ⟨_, hsize, root, isEmpty, r, ⟨hskip, hname⟩, value, r', hrun, _, heof, rfl⟩
    exact ⟨hsize, root, isEmpty, r, r', hskip, hname, hrun, heof⟩
  · rintro ⟨hsize, root, isEmpty, r, r', hskip, hname, hrun, heof⟩
    exact ⟨(), hsize, root, isEmpty, r, ⟨hskip, hname⟩, a, r', hrun, (), heof, rfl⟩

/-- What a standalone document of a kind is read as: its root, the body read from there, the end. -/
structure Stands (kind : RecordKindV1) (xml : Text) (root : Tag) (isEmpty : Bool) (r r' : Reader)
    (body : RecordBodyV1) : Prop where
  fits : byteLength xml ≤ defaultMaxDocumentBytes
  begins : Parse.skip prolog (openDocument xml) = some (rootEvent root isEmpty, r)
  name : root.name = kind.element
  reads : (parseBody kind root isEmpty).run r = (.ok body, r')
  ends : (expectEof r' : Except IrenaError Unit) = .ok ()

theorem stands_of_readDocument {α : Type} {kind : RecordKindV1} {xml : Text}
    {parse : Tag → Bool → IrenaParse α} {wrap : α → RecordBodyV1} {body : RecordBodyV1}
    (hparse : ∀ tag isEmpty, parseBody kind tag isEmpty = (do return wrap (← parse tag isEmpty)))
    (h : (readDocument kind.element parse xml).map wrap = .ok body) :
    ∃ root isEmpty r r', Stands kind xml root isEmpty r r' body := by
  obtain ⟨a, ha, rfl⟩ := map_eq_ok.mp h
  obtain ⟨hsize, root, isEmpty, r, r', hskip, hname, hrun, heof⟩ := readDocument_eq_ok.mp ha
  refine ⟨root, isEmpty, r, r', hsize, hskip, hname, ?_, heof⟩
  rw [hparse]
  exact Parse.run_bind_ok.mpr ⟨a, r', hrun, rfl⟩

/-- A document of a kind that reads is read from its root as a body in a record is. -/
theorem stands_of_readBodyDocument {kind : RecordKindV1} {xml : Text} {body : RecordBodyV1}
    (h : readBodyDocument kind xml = .ok body) :
    ∃ root isEmpty r r', Stands kind xml root isEmpty r r' body := by
  cases kind with
  | companyGenesis =>
    obtain ⟨genesis, hgenesis, rfl⟩ := map_eq_ok.mp h
    simp only [readCompanyGenesisDocument, bind_eq_ok, checkSize_eq_ok, rootStart_eq_ok,
      Prod.exists, Parse.exec_eq_ok, pure_eq_ok, Except.ok.injEq] at hgenesis
    obtain ⟨_, hsize, root, r, ⟨hskip, hname⟩, _, r', hrun, _, heof, rfl⟩ := hgenesis
    refine ⟨root, false, r, r', hsize, hskip, hname, ?_, heof⟩
    exact Parse.run_bind_ok.mpr ⟨_, r', hrun, rfl⟩
  | identity =>
    obtain ⟨identity, hidentity, rfl⟩ := map_eq_ok.mp h
    simp only [readIdentityDocument, bind_eq_ok, checkSize_eq_ok, rootOf_eq_ok, Prod.exists,
      Parse.exec_eq_ok, ensure_eq_ok, orError_eq_ok] at hidentity
    obtain ⟨_, hsize, root, isEmpty, r, ⟨hskip, hname⟩, found, issues, r₁, hattributes, _, r', hleaf,
      _, heof, _, rfl, rfl⟩ := hidentity
    refine ⟨root, isEmpty, r, r', hsize, hskip, hname, ?_, heof⟩
    refine Parse.run_bind_ok.mpr ⟨identity, r', ?_, rfl⟩
    refine Parse.run_bind_ok.mpr ⟨_, r₁, hattributes, ?_⟩
    exact Parse.run_bind_ok.mpr ⟨_, r', hleaf, rfl⟩
  | shareStructure => exact stands_of_readDocument (fun _ _ => rfl) h
  | decisionChannels => exact stands_of_readDocument (fun _ _ => rfl) h
  | identities => exact stands_of_readDocument (fun _ _ => rfl) h
  | authorisation => exact stands_of_readDocument (fun _ _ => rfl) h

theorem still_readAttributes {φ κ ι α : Type} [DocumentFault φ] {element : Text} {tag : Tag}
    {issues : Finset ι} {body : Reading ι α} :
    Parse.Still (readAttributes element tag issues body : Parse φ κ (α × Finset ι)) := by
  intro r
  cases htag : tag.attributes with
  | none =>
    rw [readAttributes_bad htag]
    rfl
  | some pairs =>
    rcases hbody : body (⟨element, untaken pairs⟩, issues) with ⟨a, attributes, found⟩
    cases hunknown : attributes.unknown with
    | some key =>
      rw [readAttributes_unknown htag hbody hunknown]
      rfl
    | none =>
      rw [readAttributes_known htag hbody hunknown]
      rfl

theorem still_finishIssues {φ ι : Type} [DocumentFault φ] [DecidableEq ι] {issues : Finset ι} :
    Parse.Still (finishIssues issues : Parse φ (Finset ι) Unit) := by
  intro r
  unfold finishIssues
  split <;> rfl

theorem still_expectSome {φ κ α : Type} [DocumentFault φ] {value : Option α} :
    Parse.Still (expectSome value : Parse φ κ α) := by
  intro r
  cases value <;> rfl

theorem run_finishIssues_ok {φ ι : Type} [DocumentFault φ] [DecidableEq ι] {issues : Finset ι}
    {r r' : Reader} {u : Unit} :
    (finishIssues issues : Parse φ (Finset ι) Unit).run r = (.ok u, r') ↔ issues = ∅ ∧ r' = r := by
  unfold finishIssues
  split
  · simp [*, eq_comm]
  · simp [*]

theorem run_expectSome_ok {φ κ α : Type} [DocumentFault φ] {value : Option α} {a : α}
    {r r' : Reader} :
    (expectSome value : Parse φ κ α).run r = (.ok a, r') ↔ value = some a ∧ r' = r := by
  cases value with
  | none => simp [expectSome]
  | some b => simp [expectSome, eq_comm]

theorem still_readNotarisation {tag : Tag} : Parse.Still (readNotarisation tag) :=
  still_readAttributes.bind fun _ => still_finishIssues.bind fun _ => still_expectSome

theorem still_readEnvelope {root : Tag} : Parse.Still (readEnvelope root) := by
  refine still_readAttributes.bind fun p => still_finishIssues.bind fun _ =>
    still_expectSome.bind fun version => ?_
  split
  · exact Parse.still_answer _
  · refine still_expectSome.bind fun kind => ?_
    split
    · exact Parse.still_answer _
    · refine still_expectSome.bind fun company => (Parse.still_answer _).bind fun _ => ?_
      split
      · exact Parse.still_answer _
      · exact (Parse.still_answer _).bind fun _ => Parse.still_answer _

section Embedded

variable [WritingScanner]

/-- The first tag of an embedded document is the first one of the document itself. -/
theorem skip_embedded (base : List Text) (element post : Text) :
    Parse.skip ignorable ⟨base, lit "\n  " ++ (element ++ post)⟩ =
      Parse.skip ignorable ((openDocument element).frame base post) := by
  have htext : ∀ t, ignorable (.text t) = true := fun _ => rfl
  have hdrop : (lit "\n  " ++ (element ++ post)).dropWhile isContent =
      ((openDocument element).frame base post).rest.dropWhile isContent := by
    rw [List.dropWhile_append_of_pos (List.all_eq_true.mp (by decide)), Reader.frame_rest, openDocument]
    unfold stripPrefix
    split
    · rename_i hbom
      obtain ⟨t, rfl⟩ := List.isPrefixOf_iff_prefix.mp hbom
      rw [List.append_assoc, List.dropWhile_append_of_pos (List.all_eq_true.mp (by decide))]
      rfl
    · rfl
  rw [Parse.skip_content rfl htext, hdrop]
  exact (Parse.skip_content rfl htext _ _).symm

/-- Neither a declaration nor an instruction stands before the root of a document. -/
def OpensPlainly (element : Text) : Prop :=
  ∃ root isEmpty r, Parse.skip ignorable (openDocument element) = some (rootEvent root isEmpty, r)

/-- Reading on in a record reaches the root of the embedded document, or something that may stand
before a root but not in an element. -/
theorem skip_body {kind : RecordKindV1} {element : Text} {root : Tag} {isEmpty : Bool}
    {r r' : Reader} {body : RecordBodyV1} (h : Stands kind element root isEmpty r r' body)
    (base : List Text) (post : Text) :
    Parse.skip ignorable (openDocument element) = some (rootEvent root isEmpty, r) ∧
        Parse.skip ignorable ⟨base, lit "\n  " ++ (element ++ post)⟩ =
          some (rootEvent root isEmpty, r.frame base post) ∨
      ∃ e r₁, Parse.skip ignorable ⟨base, lit "\n  " ++ (element ++ post)⟩ = some (e, r₁) ∧
        (e = .declaration ∨ e = .instruction) := by
  rw [skip_embedded]
  have hle : ∀ e, ignorable e = true → prolog e = true := by
    intro e
    cases e <;> simp [ignorable, prolog]
  rcases Parse.skip_of_skip rfl hle h.begins with hskip | ⟨e, r₁, hskip, hprolog, hnot⟩
  · refine .inl ⟨hskip, Parse.skip_frame rfl hskip ?_ ?_ base post⟩
    · cases isEmpty <;> simp [rootEvent]
    · cases isEmpty <;> simp [rootEvent]
  · right
    have he : e = .declaration ∨ e = .instruction := by
      cases e <;> simp_all [ignorable, prolog]
    refine ⟨e, r₁.frame base post, Parse.skip_frame rfl hskip ?_ ?_ base post, he⟩
    · rcases he with rfl | rfl <;> simp
    · rcases he with rfl | rfl <;> simp

omit [WritingScanner] in
/-- Where a body has been read, nothing more is accepted in a record. -/
theorem no_second_body {s : RecordSlots} (hs : s.body.isSome = true) {tag : Tag} {isEmpty : Bool}
    {s' : RecordSlots} {r r' : Reader} : (parseRecordChild s tag isEmpty).run r ≠ (.ok s', r') := by
  unfold parseRecordChild
  split
  · simp [hs]
  · cases RecordKindV1.parse tag.name with
    | none => simp [unknownChild]
    | some kind => simp

omit [WritingScanner] in
theorem parseRecordChild_notarisation {s : RecordSlots} {tag : Tag} (htag : tag.name = lit "notarisation")
    {r r' : Reader} (h : (parseRecordChild ⟨none, none⟩ tag true).run r = (.ok s, r')) :
    r' = r ∧ s.body = none := by
  rw [parseRecordChild, if_pos htag, if_neg (by simp)] at h
  obtain ⟨n, r₁, hn, h⟩ := Parse.run_bind_ok.mp h
  obtain ⟨_, r₂, hleaf, h⟩ := Parse.run_bind_ok.mp h
  obtain rfl := still_readNotarisation.eq_of_run hn
  obtain ⟨-, rfl⟩ := Prod.mk.inj hleaf
  obtain ⟨hs, rfl⟩ := Prod.mk.inj h
  obtain rfl := Except.ok.inj hs
  exact ⟨rfl, rfl⟩

omit [WritingScanner] in
theorem parseRecordChild_body {s s' : RecordSlots} (hs : s.body = none) {kind : RecordKindV1}
    {tag : Tag} (htag : tag.name = kind.element) {isEmpty : Bool} {r r' : Reader} :
    (parseRecordChild s tag isEmpty).run r = (.ok s', r') ↔ ∃ body,
      (parseBody kind tag isEmpty).run r = (.ok body, r') ∧ s' = { s with body := some body } := by
  have hne : tag.name ≠ lit "notarisation" := by
    rw [htag]
    cases kind <;> decide
  have hkind : RecordKindV1.parse tag.name = some kind := by
    rw [htag]
    exact RecordKindV1.parse_asStr kind
  rw [parseRecordChild, if_neg hne]
  simp only [hkind, hs, Option.isSome_none, Bool.false_eq_true, if_false, Parse.run_bind_ok,
    Parse.run_pure, Prod.mk.injEq, Except.ok.injEq]
  constructor
  · rintro ⟨body, _, hbody, rfl, rfl⟩
    exact ⟨body, hbody, rfl⟩
  · rintro ⟨body, hbody, rfl⟩
    exact ⟨body, r', hbody, rfl, rfl⟩

/-- What follows the start tag of a composed record. -/
def recordContent (n : NotarisationV1) (element : Text) : Text :=
  lit "\n  " ++ (lit "<" ++ lit "notarisation" ++ writePairs (notarisationPairs n) ++ lit "/>" ++
    (lit "\n  " ++ (element ++ lit "\n</irena-record>")))

/-- The content of a composed record is read as its notarisation first. -/
theorem skip_recordContent (n : NotarisationV1) (element : Text) (base : List Text) :
    Parse.skip ignorable ⟨base, recordContent n element⟩ =
      some (.empty ⟨lit "notarisation", some (readPairs (notarisationPairs n))⟩,
        ⟨base, lit "\n  " ++ (element ++ lit "\n</irena-record>")⟩) := by
  have htext : ∀ t, ignorable (.text t) = true := fun _ => rfl
  have hdrop : (recordContent n element).dropWhile isContent =
      lit "<" ++ lit "notarisation" ++ writePairs (notarisationPairs n) ++ lit "/>" ++
        (lit "\n  " ++ (element ++ lit "\n</irena-record>")) := by
    rw [recordContent, List.dropWhile_append_of_pos (List.all_eq_true.mp (by decide))]
    rfl
  rw [Parse.skip_content rfl htext, hdrop, Parse.skip_eq rfl,
    WritingScanner.empty (writable_notarisation n)]
  rfl

/-- A composed record begins with its tag. -/
theorem skip_recordText (kind : RecordKindV1) (company : CompanyIdV1) (supersedes : Option TxId)
    (n : NotarisationV1) (element : Text) :
    Parse.skip prolog (openDocument (recordText kind company supersedes n element)) =
      some (.start ⟨lit "irena-record", some (readPairs (envelopePairs kind company supersedes))⟩,
        ⟨[lit "irena-record"], recordContent n element⟩) := by
  have hopen : openDocument (recordText kind company supersedes n element) =
      ⟨[], lit "<" ++ lit "irena-record" ++
        writePairs (envelopePairs kind company supersedes) ++ lit ">" ++ recordContent n element⟩ := by
    rw [recordText_eq]
    rfl
  rw [hopen, Parse.skip_eq rfl, WritingScanner.start (writable_envelope kind company supersedes)]
  rfl

/-- The body of a record composed around a document is what the document reads as, and nothing stands
before its root that may not stand in an element. -/
theorem body_of_readRecord {kind : RecordKindV1} {company : CompanyIdV1} {supersedes : Option TxId}
    {n : NotarisationV1} {element : Text} {record : IrenaRecordV1} {body : RecordBodyV1}
    (hbody : readBodyDocument kind element = .ok body)
    (h : readRecord (recordText kind company supersedes n element) = .ok record) :
    record.body = body ∧ OpensPlainly element := by
  obtain ⟨root, isEmpty, r, r', hstands⟩ := stands_of_readBodyDocument hbody
  simp only [readRecord, readRecordWithLimit, bind_eq_ok, rootStart_eq_ok, Prod.exists,
    Parse.exec_eq_ok, skip_recordText, Option.some.injEq, Prod.mk.injEq, Event.start.injEq] at h
  obtain ⟨_, -, _, _, ⟨⟨rfl, rfl⟩, -⟩, envelope, r₁, henvelope, slots, r₂, hchildren, _, -,
    hassemble⟩ := h
  obtain rfl := still_readEnvelope.eq_of_run henvelope
  obtain ⟨e, r₃, hskip, hchild⟩ := Parse.run_children_ok.mp hchildren
  rw [skip_recordContent, Option.some.injEq, Prod.mk.injEq] at hskip
  obtain ⟨rfl, rfl⟩ := hskip
  obtain ⟨s₁, r₄, hnotarisation, hrest⟩ := Parse.run_bind_ok.mp hchild
  obtain ⟨rfl, hnone⟩ := parseRecordChild_notarisation rfl hnotarisation
  obtain ⟨e, r₅, hskip, hchild⟩ := Parse.run_children_ok.mp hrest
  -- A declaration or an instruction before the root would have been refused.
  rcases skip_body hstands [lit "irena-record"] (lit "\n</irena-record>") with
    ⟨hplain, hroot⟩ | ⟨e', r₆, hstop, he'⟩
  · rw [hskip, Option.some.injEq, Prod.mk.injEq] at hroot
    obtain ⟨rfl, rfl⟩ := hroot
    have hchild : (parseRecordChild s₁ root isEmpty >>=
        Parse.children (reasonsIn (lit "irena-record")) parseRecordChild).run
          (r.frame [lit "irena-record"] (lit "\n</irena-record>")) = (.ok slots, r₂) := by
      cases isEmpty <;> exact hchild
    obtain ⟨s₂, r₇, hbodied, hrest⟩ := Parse.run_bind_ok.mp hchild
    obtain ⟨body', hbody', rfl⟩ := (parseRecordChild_body hnone hstands.name).mp hbodied
    have hframe := ((parseBody kind root isEmpty).isLocal inferInstance).frame r
    rw [hstands.reads] at hframe
    rw [hframe trivial] at hbody'
    obtain ⟨hsame, rfl⟩ := Prod.mk.inj hbody'
    obtain rfl := Except.ok.inj hsame
    obtain ⟨e, r₈, -, hlast⟩ := Parse.run_children_ok.mp hrest
    have hslots : slots.body = some body := by
      cases e with
      | close name =>
        obtain ⟨rfl, -⟩ := hlast
        rfl
      | empty tag =>
        obtain ⟨_, _, hsecond, -⟩ := Parse.run_bind_ok.mp hlast
        exact absurd hsecond (no_second_body rfl)
      | start tag =>
        obtain ⟨_, _, hsecond, -⟩ := Parse.run_bind_ok.mp hlast
        exact absurd hsecond (no_second_body rfl)
      | _ => exact hlast.elim
    simp only [assemble, hslots, orError_some, ok_bind, bind_eq_ok, orError_eq_ok, ensure_eq_ok,
      pure_eq_ok, Except.ok.injEq] at hassemble
    obtain ⟨_, -, _, -, rfl⟩ := hassemble
    exact ⟨rfl, root, isEmpty, r, hplain⟩
  · rw [hskip, Option.some.injEq, Prod.mk.injEq] at hstop
    obtain ⟨rfl, rfl⟩ := hstop
    rcases he' with rfl | rfl <;> exact hchild.elim

/-- A composed record says what it was composed of, its body being what the given text reads as. -/
theorem readRecord_of_compose {kind : RecordKindV1} {company : CompanyIdV1}
    {supersedes : Option TxId} {n : NotarisationV1} {text xml : Text}
    (h : composeRecord kind company supersedes n text = .ok xml) :
    xml = recordText kind company supersedes n (normaliseBody text) ∧ ∃ body,
      readBodyDocument kind (normaliseBody text) = .ok body ∧
        readRecord xml = .ok ⟨company, supersedes, n, body⟩ ∧ body.kind = kind := by
  simp only [composeRecord, bind_eq_ok, ensure_eq_ok, pure_eq_ok, Except.ok.injEq] at h
  obtain ⟨_, -, body, hbody, ⟨company', supersedes', n', body'⟩, hread, _,
    ⟨hkind, hcompany, hsupersedes, hn⟩, rfl⟩ := h
  obtain ⟨rfl, -⟩ := body_of_readRecord hbody hread
  obtain rfl : company' = company := hcompany
  obtain rfl : supersedes' = supersedes := hsupersedes
  obtain rfl : n' = n := hn
  exact ⟨rfl, body', hbody, hread, hkind⟩

end Embedded

end Readers

end Irena.Core
