import Irena.Core.Spanning
import Irena.Core.Standalone

/-! # When a record is composed

The text a record is written as is read whatever its free texts are, as long as it fits. It is
composed exactly when it is read as it was written: when no free text has a line break or a tab. -/

namespace Irena.Core

open Irena.Library Irena.Library.Outcome Irena.Library.Strings Irena.Library.Markup
open Irena.Library.Utf8 Irena.Library.Numeral Irena.Bornite Irena.Prunella

variable {kind : RecordKindV1} {company : CompanyIdV1} {supersedes : Option TxId}
  {n : NotarisationV1}

theorem lookup_envelopePairs :
    (envelopePairs kind company supersedes).lookup (lit "version") = some recordVersion ∧
    (envelopePairs kind company supersedes).lookup (lit "kind") = some kind.asStr ∧
    (envelopePairs kind company supersedes).lookup (lit "company") = some company.value ∧
    (envelopePairs kind company supersedes).lookup (lit "supersedes") =
      supersedes.map TxId.toHex := by
  cases supersedes <;> exact ⟨by rfl, by rfl, by rfl, by rfl⟩

def envelopeNames : Finset Text :=
  {lit "supersedes", lit "company", lit "kind", lit "version"}

theorem mem_envelopeNames :
    ∀ key ∈ (envelopePairs kind company supersedes).map Prod.fst, key ∈ envelopeNames := by
  unfold envelopePairs
  cases supersedes <;>
    simp only [Option.map_none, Option.map_some, Option.toList_none, Option.toList_some,
      List.append_nil, List.cons_append, List.nil_append, List.map_cons, List.map_nil] <;> decide

theorem yields_envelope :
    Yields (readPairs (envelopePairs kind company supersedes)) ∅ envelopeAttributes
      ⟨some recordVersion, some kind.asStr, some company.value, supersedes.map TxId.toHex⟩
      envelopeNames := by
  obtain ⟨hversion, hkind, hcompany, hsupersedes⟩ :=
    @lookup_envelopePairs kind company supersedes
  have hplain {text : Text} (h : text.all isPlain = true) :
      (some text).map normaliseValue = some text := congrArg some (normaliseValue_plain h)
  have hkindPlain : kind.asStr.all isPlain = true := by cases kind <;> decide
  have hhex : (supersedes.map TxId.toHex).map normaliseValue = supersedes.map TxId.toHex := by
    cases supersedes with
    | none => rfl
    | some txId => exact hplain (plain_txId txId)
  refine (yields_require (by decide) ((lookup_written hversion).trans (hplain (by decide)))).bind ?_
  refine (yields_require (by decide) ((lookup_written hkind).trans (hplain hkindPlain))).bind ?_
  refine (yields_require (by decide)
    ((lookup_written hcompany).trans (hplain (plain_of_label company.valid)))).bind ?_
  exact (yields_take (by decide) ((lookup_written hsupersedes).trans hhex)).bind yields_pure

section Readers

variable [Scanner]

theorem run_readEnvelope (r : Reader) :
    (readEnvelope ⟨lit "irena-record", some (readPairs (envelopePairs kind company supersedes))⟩).run
      r = (.ok ⟨kind, company, supersedes⟩, r) := by
  have hcovers := covers_readPairs (writable_envelope kind company supersedes) mem_envelopeNames
  refine Parse.run_bind_ok.mpr ⟨_, r, yields_envelope.run hcovers r, ?_⟩
  refine Parse.run_bind_ok.mpr ⟨(), r, run_finishIssues_ok.mpr ⟨rfl, rfl⟩, ?_⟩
  refine Parse.run_bind_ok.mpr ⟨_, r, run_expectSome_ok.mpr ⟨rfl, rfl⟩, ?_⟩
  rw [if_neg (by simp)]
  refine Parse.run_bind_ok.mpr ⟨_, r, run_expectSome_ok.mpr ⟨rfl, rfl⟩, ?_⟩
  simp only [RecordKindV1.parse_asStr]
  refine Parse.run_bind_ok.mpr ⟨_, r, run_expectSome_ok.mpr ⟨rfl, rfl⟩, ?_⟩
  refine Parse.run_bind_ok.mpr ⟨company, r, ?_, ?_⟩
  · exact congrArg (·, r) (CompanyIdV1.new_eq_ok.mpr rfl)
  · cases supersedes with
    | none => rfl
    | some txId =>
      refine Parse.run_bind_ok.mpr ⟨txId, r, ?_, rfl⟩
      simp [spelled]

theorem kind_of_parseBody {tag : Tag} {isEmpty : Bool} {r r' : Reader} {body : RecordBodyV1}
    (h : (parseBody kind tag isEmpty).run r = (.ok body, r')) : body.kind = kind := by
  cases kind with
  | companyGenesis =>
    cases isEmpty with
    | true => cases (Prod.mk.inj h).1
    | false =>
      obtain ⟨_, _, -, hwrap⟩ := Parse.run_bind_ok.mp h
      obtain rfl := Except.ok.inj (Prod.mk.inj hwrap).1
      rfl
  | _ =>
    obtain ⟨_, _, -, hwrap⟩ := Parse.run_bind_ok.mp h
    obtain rfl := Except.ok.inj (Prod.mk.inj hwrap).1
    rfl

variable [DocumentScanner]

/-- Where nothing but text and comments stands before it, the root is reached over these alone. -/
theorem Stands.plain {element : Text} {root : Tag} {isEmpty : Bool} {r r' : Reader}
    {body : RecordBodyV1} (h : Stands kind element root isEmpty r r' body)
    (hplain : OpensPlainly element) :
    Parse.skip ignorable (openDocument element) = some (rootEvent root isEmpty, r) := by
  have hle : ∀ e, ignorable e = true → prolog e = true := by
    intro e
    cases e <;> simp [ignorable, prolog]
  rcases Parse.skip_of_skip rfl hle h.begins with hskip | ⟨e, r₁, hskip, hprolog, -⟩
  · exact hskip
  · obtain ⟨root', isEmpty', r₂, hopen⟩ := hplain
    rw [hskip, Option.some.injEq, Prod.mk.injEq] at hopen
    rw [hopen.1] at hprolog
    cases isEmpty' <;> cases hprolog

/-- The children of a written record are its notarisation and its body. -/
theorem run_children_recordContent {element : Text} {root : Tag} {isEmpty : Bool} {r r' : Reader}
    {body : RecordBodyV1} (hname : trim n.name ≠ [])
    (hstands : Stands kind element root isEmpty r r' body) (hplain : OpensPlainly element) :
    (Parse.children (reasonsIn (lit "irena-record")) parseRecordChild ⟨none, none⟩ :
        IrenaParse RecordSlots).run ⟨[lit "irena-record"], recordContent n element⟩ =
      (.ok ⟨some n.asRead, some body⟩, ⟨[], []⟩) := by
  refine Parse.run_children_ok.mpr ⟨_, _, skip_recordContent n element _, ?_⟩
  refine Parse.run_bind_ok.mpr ⟨⟨some n.asRead, none⟩,
    ⟨[lit "irena-record"], lit "\n  " ++ (element ++ lit "\n</irena-record>")⟩, ?_, ?_⟩
  · rw [parseRecordChild, if_pos rfl, if_neg (by simp)]
    rw [Parse.run_bind, run_readNotarisation hname]
    rfl
  · have hskip : Parse.skip ignorable
        ⟨[lit "irena-record"], lit "\n  " ++ (element ++ lit "\n</irena-record>")⟩ =
        some (rootEvent root isEmpty, r.frame [lit "irena-record"] (lit "\n</irena-record>")) := by
      rw [skip_embedded]
      refine Parse.skip_frame rfl (hstands.plain hplain) ?_ ?_ _ _
      · cases isEmpty <;> simp [rootEvent]
      · cases isEmpty <;> simp [rootEvent]
    have hreads := ((parseBody kind root isEmpty).isLocal inferInstance).frame r
    rw [hstands.reads] at hreads
    have hchild := (parseRecordChild_body (s := ⟨some n.asRead, none⟩) rfl hstands.name).mpr
      ⟨body, hreads trivial [lit "irena-record"] (lit "\n</irena-record>"), rfl⟩
    have hclose : Parse.skip ignorable (r'.frame [lit "irena-record"] (lit "\n</irena-record>")) =
        some (.close (lit "irena-record"), ⟨[], []⟩) := by
      obtain ⟨opened, rest⟩ := r'
      obtain rfl : opened = [] := hstands.opened
      obtain ⟨r₁, hend⟩ := expectEof_eq_ok.mp hstands.ends
      have hbreak : (lit "\n").all isContent = true := by decide
      have hwritable : WritableName (lit "irena-record") := by decide
      obtain ⟨r₂, hafter⟩ := Parse.skip_after hend hbreak
      have h := Parse.skip_closing hwritable hafter [] []
      rw [List.append_assoc] at h
      exact h
    have hloop : (parseRecordChild ⟨some n.asRead, none⟩ root isEmpty >>=
        Parse.children (reasonsIn (lit "irena-record")) parseRecordChild).run
          (r.frame [lit "irena-record"] (lit "\n</irena-record>")) =
        (.ok ⟨some n.asRead, some body⟩, ⟨[], []⟩) := by
      refine Parse.run_bind_ok.mpr ⟨_, _, hchild, ?_⟩
      exact Parse.run_children_ok.mpr ⟨_, _, hclose, rfl, rfl⟩
    refine Parse.run_children_ok.mpr ⟨_, _, hskip, ?_⟩
    cases isEmpty <;> exact hloop

/-- A written record is read, the breaks in the free texts of its notarisation turned into blanks. -/
theorem readRecord_recordText {element : Text} {body : RecordBodyV1} (hname : trim n.name ≠ [])
    (hbody : readBodyDocument kind element = .ok body) (hplain : OpensPlainly element)
    (hfits : byteLength (recordText kind company supersedes n element) ≤ defaultMaxDocumentBytes) :
    readRecord (recordText kind company supersedes n element) =
      .ok ⟨company, supersedes, n.asRead, body⟩ := by
  obtain ⟨root, isEmpty, r, r', hstands⟩ := stands_of_readBodyDocument hbody
  simp only [readRecord, readRecordWithLimit, bind_eq_ok, rootStart_eq_ok, Prod.exists,
    Parse.exec_eq_ok, skip_recordText, checkSize_eq_ok]
  refine ⟨(), hfits, _, _, ⟨rfl, rfl⟩, ⟨kind, company, supersedes⟩, _, run_readEnvelope _,
    ⟨some n.asRead, some body⟩, ⟨[], []⟩, run_children_recordContent hname hstands hplain, (), ?_, ?_⟩
  · refine expectEof_eq_ok.mpr ⟨⟨[], []⟩, ?_⟩
    rw [Parse.skip_eq rfl, WritingScanner.finish]
    rfl
  · simp [assemble, kind_of_parseBody hstands.reads]

omit [Scanner] [DocumentScanner] in
theorem NotarisationV1.validate_eq_ok {u : Unit} : n.validate = .ok u ↔ trim n.name ≠ [] := by
  unfold NotarisationV1.validate
  split
  · simp [rejectValue, *]
  · simp [*]

/-- A record is composed exactly around a document that opens plainly, when its text fits and the
free texts of its notarisation are unbroken. -/
theorem composeRecord_eq_ok_iff {text xml : Text} :
    composeRecord kind company supersedes n text = .ok xml ↔
      trim n.name ≠ [] ∧ n.Unbroken ∧ (∃ body, readBodyDocument kind (normaliseBody text) = .ok body) ∧
        OpensPlainly (normaliseBody text) ∧
        xml = recordText kind company supersedes n (normaliseBody text) ∧
        byteLength xml ≤ defaultMaxDocumentBytes := by
  constructor
  · intro h
    obtain ⟨rfl, body, hbody, hread, -⟩ := readRecord_of_compose h
    have hname : trim n.name ≠ [] := by
      obtain ⟨_, hvalid, -⟩ := bind_eq_ok.mp h
      exact NotarisationV1.validate_eq_ok.mp hvalid
    have hplain := (body_of_readRecord hbody hread).2
    have hfits : byteLength (recordText kind company supersedes n (normaliseBody text)) ≤
        defaultMaxDocumentBytes := by
      obtain ⟨_, hsize, -⟩ := bind_eq_ok.mp hread
      exact checkSize_eq_ok.mp hsize
    rw [readRecord_recordText hname hbody hplain hfits, Except.ok.injEq, IrenaRecordV1.mk.injEq]
      at hread
    exact ⟨hname, NotarisationV1.asRead_eq_self.mp hread.2.2.1, ⟨body, hbody⟩, hplain, rfl, hfits⟩
  · rintro ⟨hname, hunbroken, ⟨body, hbody⟩, hplain, rfl, hfits⟩
    have hread : readRecord (recordText kind company supersedes n (normaliseBody text)) = .ok _ :=
      readRecord_recordText hname hbody hplain hfits
    rw [NotarisationV1.asRead_eq_self.mpr hunbroken] at hread
    obtain ⟨root, isEmpty, r, r', hstands⟩ := stands_of_readBodyDocument hbody
    simp only [composeRecord, bind_eq_ok, ensure_eq_ok, pure_eq_ok, Except.ok.injEq]
    exact ⟨(), NotarisationV1.validate_eq_ok.mpr hname, body, hbody, _, hread, (),
      ⟨kind_of_parseBody hstands.reads, rfl, rfl, rfl⟩, rfl⟩

end Readers

end Irena.Core
