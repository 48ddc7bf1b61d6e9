import Irena.Core.Composed
import Irena.Meeting.Expected

/-! # When a meeting record is composed

Both records of a meeting are one text around an agenda. It is read whatever its free texts are, as
long as it fits, and composed exactly when it is read as it was written. -/

namespace Irena.Meeting

open Irena.Library Irena.Library.Outcome Irena.Library.Strings Irena.Library.Markup
open Irena.Library.Utf8 Irena.Library.Numeral
open Irena.Core Irena.Bornite Irena.Prunella

def meetingRootPairs (isFinal : Bool) (company : CompanyIdV1) (meeting : Option MeetingIdV1) :
    List (Text × Text) :=
  [(lit "version", meetingVersion), (lit "kind", if isFinal then lit "final" else lit "convened"),
    (lit "company", company.value)] ++
    (meeting.map fun id => (lit "meeting", id.txId.toHex)).toList

def meetingPairs (m : MeetingMetadataV1) (openedAtHeight : Option ℕ) : List (Text × Text) :=
  [(lit "channel", m.channel), (lit "title", m.title), (lit "scheduled-at", m.scheduledAt)] ++
    (m.noticeDigest.map fun digest => (lit "notice-digest", digest.toHex)).toList ++
    (openedAtHeight.map fun height => (lit "opened-at-height", decimal height)).toList

def AgendaBodyV1.pair : AgendaBodyV1 → Text × Text
  | .informational digest => (lit "document-digest", digest.toHex)
  | .vote digest => (lit "proposal-digest", digest.toHex)

def AgendaBodyV1.documentText : AgendaBodyV1 → Option Text
  | .informational digest => some digest.toHex
  | .vote _ => none

def AgendaBodyV1.proposalText : AgendaBodyV1 → Option Text
  | .informational _ => none
  | .vote digest => some digest.toHex

def itemPairs (entry : FinalItemV1) : List (Text × Text) :=
  [(lit "number", decimal entry.item.number), (lit "kind", entry.item.body.kind),
    (lit "title", entry.item.title), entry.item.body.pair] ++
    (entry.voteTxId.map fun txId => (lit "vote-tx", txId.toHex)).toList ++
    (entry.outcome.map fun outcome => (lit "outcome", outcome)).toList

/-- The text of a meeting record of either kind. -/
def meetingText (isFinal : Bool) (company : CompanyIdV1) (meeting : Option MeetingIdV1)
    (n : NotarisationV1) (m : MeetingMetadataV1) (openedAtHeight : Option ℕ)
    (items : List FinalItemV1) : Text :=
  lit "<" ++ lit "irena-meeting" ++ writePairs (meetingRootPairs isFinal company meeting) ++
    lit ">" ++ (lit "\n  " ++ (lit "<" ++ lit "notarisation" ++ writePairs (notarisationPairs n) ++
      lit "/>" ++ (lit "\n  " ++ (lit "<" ++ lit "meeting" ++
        writePairs (meetingPairs m openedAtHeight) ++ lit ">" ++ (lit "\n    " ++ (lit "<" ++
          lit "agenda" ++ writePairs [] ++ lit ">" ++ (lit "\n" ++
            (items.flatMap (fun entry => lit "      " ++ (lit "<" ++ lit "item" ++
              writePairs (itemPairs entry) ++ lit "/>" ++ lit "\n")) ++
            (lit "    " ++ (lit "</" ++ lit "agenda" ++ lit ">" ++
              (lit "\n  " ++ (lit "</" ++ lit "meeting" ++ lit ">" ++
                (lit "\n" ++ (lit "</" ++ lit "irena-meeting" ++ lit ">" ++ []))))))))))))))

theorem plain_decimal (n : ℕ) : (decimal n).all isPlain = true := by
  refine List.all_eq_true.mpr fun c hc => ?_
  have hdigit := Nat.isDigit_of_mem_toDigits (by decide) (by decide) hc
  exact isPlain_of_class (p := Char.isDigit) (by simp) hdigit

theorem plain_kind (body : AgendaBodyV1) : body.kind.all isPlain = true := by
  have hinformational : (lit "informational").all isPlain = true := by decide
  have hvote : (lit "vote").all isPlain = true := by decide
  cases body with
  | informational digest => exact hinformational
  | vote digest => exact hvote

theorem writeItem_eq (entry : FinalItemV1) :
    writeItem entry = lit "      " ++ (lit "<" ++ lit "item" ++ writePairs (itemPairs entry) ++
      lit "/>" ++ lit "\n") := by
  have hopen : lit "      <item" = lit "      " ++ (lit "<" ++ lit "item") := rfl
  have hclose : lit "/>\n" = lit "/>" ++ lit "\n" := rfl
  obtain ⟨⟨number, title, body⟩, voteTxId, outcome⟩ := entry
  cases body <;>
    simp only [writeItem, writeAttribute_plain (plain_decimal _), writeAttribute_plain (plain_kind _),
      writeAttribute_plain (plain_hash _), writeAttribute_escape, writeOptional_plain plain_txId,
      writeOptional_escape, hopen, hclose, itemPairs, AgendaBodyV1.pair, writePairs_append,
      writePairs_cons, writePairs_nil, List.append_assoc, List.nil_append]

theorem metadataAttributes_eq {m : MeetingMetadataV1} (h : m.scheduledAt.all isPlain = true) :
    metadataAttributes m = writePairs (meetingPairs m none) := by
  rw [metadataAttributes, writeAttribute_escape, writeAttribute_escape, writeAttribute_plain h,
    writeOptional_plain plain_hash]
  simp only [meetingPairs, writePairs_append, writePairs_cons, writePairs_nil, List.append_assoc,
    Option.map_none, Option.toList_none, List.append_nil]

theorem writeAgenda_eq (items : List FinalItemV1) :
    writeAgenda items = lit "    " ++ (lit "<" ++ lit "agenda" ++ writePairs [] ++ lit ">" ++
      (lit "\n" ++ (items.flatMap (fun entry => lit "      " ++ (lit "<" ++ lit "item" ++
        writePairs (itemPairs entry) ++ lit "/>" ++ lit "\n")) ++
      (lit "    " ++ (lit "</" ++ lit "agenda" ++ lit ">" ++ lit "\n"))))) := by
  have hopen : lit "    <agenda>\n" = lit "    " ++ (lit "<" ++ lit "agenda" ++ writePairs [] ++
    lit ">" ++ lit "\n") := rfl
  have hclose : lit "    </agenda>\n" = lit "    " ++ (lit "</" ++ lit "agenda" ++ lit ">" ++
    lit "\n") := rfl
  rw [writeAgenda, hopen, hclose, funext writeItem_eq]
  simp only [List.append_assoc]

/-- Where a line ends and the next one begins. -/
theorem meetingText_eq {isFinal : Bool} {company : CompanyIdV1} {meeting : Option MeetingIdV1}
    {n : NotarisationV1} {m : MeetingMetadataV1} {openedAtHeight : Option ℕ}
    {items : List FinalItemV1} :
    meetingText isFinal company meeting n m openedAtHeight items =
      lit "<irena-meeting" ++ writePairs (meetingRootPairs isFinal company meeting) ++ lit ">\n  " ++
        writeNotarisation n ++ lit "\n  <meeting" ++ writePairs (meetingPairs m openedAtHeight) ++
        lit ">\n" ++ writeAgenda items ++ lit "  </meeting>\n</irena-meeting>" := by
  have hroot : lit "<irena-meeting" = lit "<" ++ lit "irena-meeting" := rfl
  have hfirst : lit ">\n  " = lit ">" ++ lit "\n  " := rfl
  have hmeeting : lit "\n  <meeting" = lit "\n  " ++ (lit "<" ++ lit "meeting") := rfl
  have hline : lit ">\n" = lit ">" ++ lit "\n" := rfl
  have hagenda : lit "\n    " = lit "\n" ++ lit "    " := rfl
  have hclose : lit "  </meeting>\n</irena-meeting>" = lit "  " ++ (lit "</" ++ (lit "meeting" ++
    (lit ">" ++ (lit "\n" ++ (lit "</" ++ (lit "irena-meeting" ++ lit ">")))))) := rfl
  have hlast : lit "\n  " = lit "\n" ++ lit "  " := rfl
  rw [writeNotarisation_eq, writeAgenda_eq, meetingText, hroot, hfirst, hmeeting, hline, hagenda,
    hclose, hlast]
  simp only [List.append_assoc, List.append_nil]

theorem convenedText_eq {company : CompanyIdV1} {n : NotarisationV1} {m : MeetingMetadataV1}
    {agenda : AgendaV1} (h : m.scheduledAt.all isPlain = true) :
    convenedText company n m agenda = meetingText false company none n m none
      (agenda.items.map fun item => ⟨item, none, none⟩) := by
  have hversion : writeAttribute (lit "version") meetingVersion =
      writePair (lit "version", meetingVersion) := writeAttribute_plain (by decide)
  have hkind : writeAttribute (lit "kind") (lit "convened") =
      writePair (lit "kind", lit "convened") := writeAttribute_plain (by decide)
  rw [convenedText, metadataAttributes_eq h, hversion, hkind,
    writeAttribute_plain (plain_of_label company.valid), meetingText_eq]
  simp only [meetingRootPairs, writePairs_cons, writePairs_nil, Option.map_none, Option.toList_none,
    Bool.false_eq_true, if_false, List.append_assoc, List.append_nil]

theorem finalText_eq {company : CompanyIdV1} {n : NotarisationV1} {record : MeetingFinalRecordV1}
    (h : record.metadata.scheduledAt.all isPlain = true) :
    finalText company n record = meetingText true company (some record.meetingId) n record.metadata
      (some record.openedAtHeight) record.items := by
  have hversion : writeAttribute (lit "version") meetingVersion =
      writePair (lit "version", meetingVersion) := writeAttribute_plain (by decide)
  have hkind : writeAttribute (lit "kind") (lit "final") = writePair (lit "kind", lit "final") :=
    writeAttribute_plain (by decide)
  rw [finalText, metadataAttributes_eq h, hversion, hkind,
    writeAttribute_plain (plain_of_label company.valid), writeAttribute_plain (plain_txId _),
    writeAttribute_plain (plain_decimal _), meetingText_eq]
  simp only [meetingRootPairs, meetingPairs, writePairs_append, writePairs_cons, writePairs_nil,
    Option.map_none, Option.map_some, Option.toList_none, Option.toList_some, if_true,
    List.append_assoc, List.append_nil]

/-- An item as it is read where it was written. -/
def AgendaItemV1.asRead (item : AgendaItemV1) : AgendaItemV1 :=
  { item with title := normaliseValue item.title }

def FinalItemV1.asRead (entry : FinalItemV1) : FinalItemV1 :=
  { entry with item := entry.item.asRead, outcome := entry.outcome.map normaliseValue }

def MeetingMetadataV1.asRead (m : MeetingMetadataV1) : MeetingMetadataV1 :=
  { m with title := normaliseValue m.title }

/-- An item carries a vote and its outcome exactly where it is a vote item of a final record. -/
structure FinalItemV1.Reported (isFinal : Bool) (entry : FinalItemV1) : Prop where
  number : entry.item.number ≤ u32Max
  voteTx : entry.voteTxId.isSome = (isFinal && entry.item.body.isVote)
  outcome : entry.outcome.isSome = (isFinal && entry.item.body.isVote)

def itemNames : Finset Text :=
  {lit "outcome", lit "vote-tx", lit "proposal-digest", lit "document-digest", lit "title",
    lit "kind", lit "number"}

section Attributes

variable {pairs : List (Text × Text)} {names : Finset Text} {isFinal : Bool}

theorem parseU32_decimal {number : ℕ} (h : number ≤ u32Max) :
    parseU32 (decimal number) = some number := by
  rw [parseU32, ofDecimal_decimal, Option.filter_some, decide_eq_true h, if_pos rfl]

theorem yields_itemBody {body : AgendaBodyV1} {voteTx outcome : Option Text}
    (hvote : body.isVote = false → voteTx = none ∧ outcome = none) :
    Yields pairs names (itemBody (some body.kind)
      body.documentText body.proposalText voteTx outcome) (some body) names := by
  cases body with
  | informational digest =>
    obtain ⟨rfl, rfl⟩ := hvote rfl
    exact (yields_spelled (Hash.fromHex_toHex digest)).bind yields_pure
  | vote digest => exact (yields_spelled (Hash.fromHex_toHex digest)).bind yields_pure

theorem yields_finalOnly {isVote : Bool} {key : Text} {value : Option Text}
    (h : value.isSome = (isFinal && isVote)) :
    Yields pairs names (finalOnly isFinal isVote key value) value names := by
  cases value <;> cases isFinal <;> cases isVote <;> first | exact yields_pure | cases h

theorem lookup_itemPairs (entry : FinalItemV1) :
    (itemPairs entry).lookup (lit "number") = some (decimal entry.item.number) ∧
    (itemPairs entry).lookup (lit "kind") = some entry.item.body.kind ∧
    (itemPairs entry).lookup (lit "title") = some entry.item.title ∧
    (itemPairs entry).lookup (lit "document-digest") = entry.item.body.documentText ∧
    (itemPairs entry).lookup (lit "proposal-digest") = entry.item.body.proposalText ∧
    (itemPairs entry).lookup (lit "vote-tx") = entry.voteTxId.map TxId.toHex ∧
    (itemPairs entry).lookup (lit "outcome") = entry.outcome := by
  obtain ⟨⟨number, title, body⟩, voteTxId, outcome⟩ := entry
  cases body <;> cases voteTxId <;> cases outcome <;>
    exact ⟨by rfl, by rfl, by rfl, by rfl, by rfl, by rfl, by rfl⟩

theorem writable_item (entry : FinalItemV1) : Writable (lit "item") (itemPairs entry) where
  name := by decide
  keys := by
    obtain ⟨⟨number, title, body⟩, voteTxId, outcome⟩ := entry
    cases body <;> cases voteTxId <;> cases outcome <;>
      simp only [itemPairs, AgendaBodyV1.pair, Option.map_none, Option.map_some, Option.toList_none,
        Option.toList_some, List.append_nil, List.cons_append, List.nil_append,
        List.forall_mem_cons, List.not_mem_nil, false_implies, implies_true, and_true] <;> decide
  nodup := by
    obtain ⟨⟨number, title, body⟩, voteTxId, outcome⟩ := entry
    cases body <;> cases voteTxId <;> cases outcome <;> simp [itemPairs, AgendaBodyV1.pair, lit]

theorem mem_itemNames (entry : FinalItemV1) :
    ∀ key ∈ (itemPairs entry).map Prod.fst, key ∈ itemNames := by
  obtain ⟨⟨number, title, body⟩, voteTxId, outcome⟩ := entry
  cases body <;> cases voteTxId <;> cases outcome <;>
    simp only [itemPairs, AgendaBodyV1.pair, Option.map_none, Option.map_some, Option.toList_none,
      Option.toList_some, List.append_nil, List.cons_append, List.nil_append, List.map_cons,
      List.map_nil] <;> decide

theorem yields_item {entry : FinalItemV1} (h : entry.Reported isFinal) :
    Yields (readPairs (itemPairs entry)) ∅ (itemAttributes isFinal) (some entry.asRead) itemNames := by
  obtain ⟨hnumber, hkind, htitle, hdocument, hproposal, hvoteTx, houtcome⟩ := lookup_itemPairs entry
  have hplain {text : Text} (h : text.all isPlain = true) :
      (some text).map normaliseValue = some text := congrArg some (normaliseValue_plain h)
  have hdocumentHex : entry.item.body.documentText.map normaliseValue =
      entry.item.body.documentText := by
    cases entry.item.body with
    | informational digest => exact hplain (plain_hash digest)
    | vote digest => rfl
  have hproposalHex : entry.item.body.proposalText.map normaliseValue =
      entry.item.body.proposalText := by
    cases entry.item.body with
    | informational digest => rfl
    | vote digest => exact hplain (plain_hash digest)
  have hvoteTxHex : (entry.voteTxId.map TxId.toHex).map normaliseValue =
      entry.voteTxId.map TxId.toHex := by
    cases entry.voteTxId with
    | none => rfl
    | some txId => exact hplain (plain_txId txId)
  refine (yields_require (by decide) ((lookup_written hnumber).trans
    (hplain (plain_decimal _)))).bind ?_
  refine (yields_require (by decide) ((lookup_written hkind).trans (hplain (plain_kind _)))).bind ?_
  refine (yields_require (by decide) (lookup_written htitle)).bind ?_
  refine (yields_take (by decide) ((lookup_written hdocument).trans hdocumentHex)).bind ?_
  refine (yields_take (by decide) ((lookup_written hproposal).trans hproposalHex)).bind ?_
  refine (yields_take (by decide) ((lookup_written hvoteTx).trans hvoteTxHex)).bind ?_
  refine (yields_take (by decide) (lookup_written houtcome)).bind ?_
  refine Yields.bind (yields_spelled (parseU32_decimal h.number)) ?_
  refine Yields.bind (yields_itemBody fun hvote => ?_) ?_
  · have hnone := h.voteTx
    have hnone' := h.outcome
    rw [hvote, Bool.and_false, Option.isSome_eq_false_iff, Option.isNone_iff_eq_none] at hnone hnone'
    rw [hnone, hnone']
    exact ⟨rfl, rfl⟩
  · refine Yields.bind (yields_finalOnly ?_) ?_
    · rw [Option.isSome_map]
      exact h.voteTx
    · refine Yields.bind (yields_andThen_map fun txId _ => yields_spelled (TxId.fromHex_toHex txId)) ?_
      refine Yields.bind (yields_finalOnly ?_) yields_pure
      rw [Option.isSome_map]
      exact h.outcome

def meetingNames : Finset Text :=
  {lit "opened-at-height", lit "notice-digest", lit "scheduled-at", lit "title", lit "channel"}

variable {m : MeetingMetadataV1} {openedAtHeight : Option ℕ}

theorem lookup_meetingPairs :
    (meetingPairs m openedAtHeight).lookup (lit "channel") = some m.channel ∧
    (meetingPairs m openedAtHeight).lookup (lit "title") = some m.title ∧
    (meetingPairs m openedAtHeight).lookup (lit "scheduled-at") = some m.scheduledAt ∧
    (meetingPairs m openedAtHeight).lookup (lit "notice-digest") = m.noticeDigest.map Hash.toHex ∧
    (meetingPairs m openedAtHeight).lookup (lit "opened-at-height") =
      openedAtHeight.map decimal := by
  unfold meetingPairs
  cases m.noticeDigest <;> cases openedAtHeight <;>
    exact ⟨by rfl, by rfl, by rfl, by rfl, by rfl⟩

theorem writable_meeting : Writable (lit "meeting") (meetingPairs m openedAtHeight) where
  name := by decide
  keys := by
    unfold meetingPairs
    cases m.noticeDigest <;> cases openedAtHeight <;>
      simp only [Option.map_none, Option.map_some, Option.toList_none, Option.toList_some,
        List.append_nil, List.cons_append, List.nil_append, List.forall_mem_cons, List.not_mem_nil,
        false_implies, implies_true, and_true] <;> decide
  nodup := by
    unfold meetingPairs
    cases m.noticeDigest <;> cases openedAtHeight <;> simp [lit]

theorem mem_meetingNames :
    ∀ key ∈ (meetingPairs m openedAtHeight).map Prod.fst, key ∈ meetingNames := by
  unfold meetingPairs
  cases m.noticeDigest <;> cases openedAtHeight <;>
    simp only [Option.map_none, Option.map_some, Option.toList_none, Option.toList_some,
      List.append_nil, List.cons_append, List.nil_append, List.map_cons, List.map_nil] <;> decide

/-- Metadata that validates, and what it validates to. -/
theorem validate_metadata {u : Unit} : m.validate = .ok u ↔
    (∃ channel : ChannelIdV1, channel.value = m.channel) ∧ trim m.title ≠ [] ∧
      ∃ time : NotaryTimeV1, time.value = m.scheduledAt := by
  simp only [MeetingMetadataV1.validate, MeetingMetadataV1.channelId, bind_eq_ok, mapErr_eq_ok,
    ChannelIdV1.new_eq_ok, ensure_eq_ok, NotaryTimeV1.parse_eq_ok, pure_eq_ok, and_true]
  constructor
  · rintro ⟨channel, hchannel, _, htitle, time, htime⟩
    exact ⟨⟨channel, hchannel⟩, htitle, time, htime⟩
  · rintro ⟨⟨channel, hchannel⟩, htitle, time, htime⟩
    exact ⟨channel, hchannel, (), htitle, time, htime⟩

theorem yields_checkAs {α : Type} {element key : Text} {result : Except IrenaError α} {a : α}
    (h : result = .ok a) : Yields pairs names (checkAs element key result) () names := by
  subst h
  exact yields_pure

theorem parseU64_decimal {number : ℕ} (h : number ≤ u64Max) :
    parseU64 (decimal number) = some ⟨number, h⟩ := by
  rw [parseU64, ofDecimal_decimal]
  exact dif_pos h

theorem yields_meeting {channel : ChannelIdV1} {time : NotaryTimeV1}
    (hchannel : channel.value = m.channel) (htitle : trim m.title ≠ [])
    (htime : time.value = m.scheduledAt) (hopened : openedAtHeight.isSome = isFinal)
    (hheight : ∀ height ∈ openedAtHeight, height ≤ u64Max) :
    Yields (readPairs (meetingPairs m openedAtHeight)) ∅ (meetingAttributes isFinal)
      ⟨some m.channel, some (normaliseValue m.title), some m.scheduledAt, m.noticeDigest,
        openedAtHeight⟩ meetingNames := by
  obtain ⟨hchannelText, htitleText, htimeText, hnotice, hopenedText⟩ :=
    @lookup_meetingPairs m openedAtHeight
  have hplain {text : Text} (h : text.all isPlain = true) :
      (some text).map normaliseValue = some text := congrArg some (normaliseValue_plain h)
  have hnoticeHex : (m.noticeDigest.map Hash.toHex).map normaliseValue =
      m.noticeDigest.map Hash.toHex := by
    cases m.noticeDigest with
    | none => rfl
    | some digest => exact hplain (plain_hash digest)
  have hopenedDecimal : (openedAtHeight.map decimal).map normaliseValue =
      openedAtHeight.map decimal := by
    cases openedAtHeight with
    | none => rfl
    | some height => exact hplain (plain_decimal height)
  have hread : trim (normaliseValue m.title) ≠ [] := by simpa using htitle
  rw [meetingAttributes_eq]
  refine (yields_require (by decide) ((lookup_written hchannelText).trans
    (hplain (hchannel ▸ plain_of_label channel.valid)))).bind ?_
  refine (yields_require (by decide) (lookup_written htitleText)).bind ?_
  refine (yields_require (by decide) ((lookup_written htimeText).trans
    (hplain (htime ▸ plain_time time)))).bind ?_
  refine (yields_take (by decide) ((lookup_written hnotice).trans hnoticeHex)).bind ?_
  refine (yields_take (by decide) ((lookup_written hopenedText).trans hopenedDecimal)).bind ?_
  refine Yields.check ?_ ?_
  · cases openedAtHeight <;> cases isFinal <;> first | exact yields_pure | cases hopened
  refine Yields.bind (yields_andThen_map fun digest _ => yields_spelled (Hash.fromHex_toHex digest)) ?_
  refine Yields.bind (yields_checkAs (NotaryTimeV1.parse_eq_ok.mpr htime)) ?_
  refine Yields.check ?_ ?_
  · change Yields _ _ (if _ then _ else _) _ _
    rw [if_neg hread]
    exact yields_pure
  refine Yields.bind (yields_checkAs (ChannelIdV1.new_eq_ok.mpr hchannel)) ?_
  cases openedAtHeight with
  | none =>
    obtain rfl : isFinal = false := hopened.symm
    exact Yields.bind (a := none) yields_pure yields_pure
  | some height =>
    obtain rfl : isFinal = true := hopened.symm
    exact Yields.bind (yields_spelled (parseU64_decimal (hheight height rfl))) yields_pure

variable {company : CompanyIdV1} {meeting : Option MeetingIdV1}

def meetingKindText (isFinal : Bool) : Text := if isFinal then lit "final" else lit "convened"

def meetingRootNames : Finset Text :=
  {lit "meeting", lit "company", lit "kind", lit "version"}

theorem lookup_meetingRootPairs :
    (meetingRootPairs isFinal company meeting).lookup (lit "version") = some meetingVersion ∧
    (meetingRootPairs isFinal company meeting).lookup (lit "kind") =
      some (meetingKindText isFinal) ∧
    (meetingRootPairs isFinal company meeting).lookup (lit "company") = some company.value ∧
    (meetingRootPairs isFinal company meeting).lookup (lit "meeting") =
      meeting.map fun id => id.txId.toHex := by
  unfold meetingRootPairs
  cases meeting <;> exact ⟨by rfl, by rfl, by rfl, by rfl⟩

theorem writable_meetingRoot :
    Writable (lit "irena-meeting") (meetingRootPairs isFinal company meeting) where
  name := by decide
  keys := by
    unfold meetingRootPairs
    cases meeting <;>
      simp only [Option.map_none, Option.map_some, Option.toList_none, Option.toList_some,
        List.append_nil, List.cons_append, List.nil_append, List.forall_mem_cons, List.not_mem_nil,
        false_implies, implies_true, and_true] <;> decide
  nodup := by
    unfold meetingRootPairs
    cases meeting <;> simp [lit]

theorem mem_meetingRootNames :
    ∀ key ∈ (meetingRootPairs isFinal company meeting).map Prod.fst, key ∈ meetingRootNames := by
  unfold meetingRootPairs
  cases meeting <;>
    simp only [Option.map_none, Option.map_some, Option.toList_none, Option.toList_some,
      List.append_nil, List.cons_append, List.nil_append, List.map_cons, List.map_nil] <;> decide

theorem yields_meetingRoot :
    Yields (readPairs (meetingRootPairs isFinal company meeting)) ∅ meetingRootAttributes
      ⟨some meetingVersion, some (meetingKindText isFinal), some company.value,
        meeting.map fun id => id.txId.toHex⟩ meetingRootNames := by
  obtain ⟨hversion, hkind, hcompany, hmeeting⟩ := @lookup_meetingRootPairs isFinal company meeting
  have hplain {text : Text} (h : text.all isPlain = true) :
      (some text).map normaliseValue = some text := congrArg some (normaliseValue_plain h)
  have hkindPlain : (meetingKindText isFinal).all isPlain = true := by cases isFinal <;> decide
  have hhex : (meeting.map fun id => id.txId.toHex).map normaliseValue =
      meeting.map fun id => id.txId.toHex := by
    cases meeting with
    | none => rfl
    | some id => exact hplain (plain_txId id.txId)
  refine (yields_require (by decide) ((lookup_written hversion).trans (hplain (by decide)))).bind ?_
  refine (yields_require (by decide) ((lookup_written hkind).trans (hplain hkindPlain))).bind ?_
  refine (yields_require (by decide)
    ((lookup_written hcompany).trans (hplain (plain_of_label company.valid)))).bind ?_
  exact (yields_take (by decide) ((lookup_written hmeeting).trans hhex)).bind yields_pure

end Attributes

section Readers

variable [Scanner] {isFinal : Bool} {company : CompanyIdV1} {meeting : Option MeetingIdV1}
  {n : NotarisationV1} {m : MeetingMetadataV1} {openedAtHeight : Option ℕ}
  {items : List FinalItemV1}

theorem run_readMeetingRoot (hmeeting : meeting.isSome = isFinal) (r : Reader) :
    (readMeetingRoot ⟨lit "irena-meeting",
        some (readPairs (meetingRootPairs isFinal company meeting))⟩).run r =
      (.ok ⟨isFinal, company, meeting⟩, r) := by
  have hcovers := covers_readPairs (@writable_meetingRoot isFinal company meeting)
    mem_meetingRootNames
  refine Parse.run_bind_ok.mpr ⟨_, r, yields_meetingRoot.run hcovers r, ?_⟩
  refine Parse.run_bind_ok.mpr ⟨(), r, run_finishIssues_ok.mpr ⟨rfl, rfl⟩, ?_⟩
  refine Parse.run_bind_ok.mpr ⟨_, r, run_expectSome_ok.mpr ⟨rfl, rfl⟩, ?_⟩
  rw [if_neg (by simp)]
  refine Parse.run_bind_ok.mpr ⟨_, r, run_expectSome_ok.mpr ⟨rfl, rfl⟩, ?_⟩
  refine Parse.run_bind_ok.mpr ⟨isFinal, r, ?_, ?_⟩
  · cases isFinal <;> rfl
  refine Parse.run_bind_ok.mpr ⟨_, r, run_expectSome_ok.mpr ⟨rfl, rfl⟩, ?_⟩
  refine Parse.run_bind_ok.mpr ⟨company, r, congrArg (·, r) (CompanyIdV1.new_eq_ok.mpr rfl), ?_⟩
  refine Parse.run_bind_ok.mpr ⟨meeting, r, ?_, rfl⟩
  cases meeting with
  | none =>
    obtain rfl : isFinal = false := hmeeting.symm
    rfl
  | some id =>
    obtain rfl : isFinal = true := hmeeting.symm
    refine Parse.run_bind_ok.mpr ⟨id.txId, r, ?_, rfl⟩
    simp [txIdValue, spelled]

variable [DocumentScanner]

/-- What follows the start tag of an agenda. -/
def agendaContent (items : List FinalItemV1) (post : Text) : Text :=
  lit "\n" ++ (items.flatMap (fun entry => lit "      " ++ (lit "<" ++ lit "item" ++
    writePairs (itemPairs entry) ++ lit "/>" ++ lit "\n")) ++
    (lit "    " ++ (lit "</" ++ lit "agenda" ++ lit ">" ++ post)))

/-- One more item read, the issues as they were. -/
def listed (s : List FinalItemV1 × Finset IssueV1) (entry : FinalItemV1) :
    List FinalItemV1 × Finset IssueV1 :=
  (s.1 ++ [entry.asRead], s.2)

omit [Scanner] [DocumentScanner] in
theorem foldl_listed (s : List FinalItemV1 × Finset IssueV1) :
    items.foldl listed s = (s.1 ++ items.map FinalItemV1.asRead, s.2) := by
  induction items generalizing s with
  | nil => simp
  | cons entry items ih => simp [ih, listed]

/-- The items of a written agenda are read. -/
theorem run_agenda (hitems : ∀ entry ∈ items, entry.Reported isFinal) (base : List Text)
    (post : Text) :
    (parseLeaves (lit "agenda") (lit "item") none (itemAttributes isFinal) false ∅ :
        IrenaParse _).run ⟨lit "agenda" :: base, agendaContent items post⟩ =
      (.ok (items.map FinalItemV1.asRead, ∅), ⟨base, post⟩) := by
  refine (Parse.run_children_leaves (I := fun s => s.2 = ∅) (k := listed) (by decide) (by decide)
    (by decide) (by decide) (by decide) (fun entry _ => writable_item entry) ?_ ?_ rfl base post).trans
    ?_
  · rintro ⟨found, issues⟩ hissues entry hentry r
    obtain rfl : issues = ∅ := hissues
    have hcovers := covers_readPairs (writable_item entry) (mem_itemNames entry)
    dsimp only
    rw [if_neg (by simp)]
    refine Parse.run_bind_ok.mpr ⟨_, r, (yields_item (hitems entry hentry)).run hcovers r, ?_⟩
    exact Parse.run_bind_ok.mpr ⟨(), r, rfl, rfl⟩
  · exact fun s hs entry => hs
  · rw [foldl_listed]
    rfl

/-- What follows the start tag of a meeting element. -/
def meetingContent (items : List FinalItemV1) (post : Text) : Text :=
  lit "\n    " ++ (lit "<" ++ lit "agenda" ++ writePairs [] ++ lit ">" ++ agendaContent items
    (lit "\n  " ++ (lit "</" ++ lit "meeting" ++ lit ">" ++ post)))

/-- A written meeting element is read, the breaks in its free texts turned into blanks. -/
theorem run_readMeeting {channel : ChannelIdV1} {time : NotaryTimeV1}
    (hchannel : channel.value = m.channel) (htitle : trim m.title ≠ [])
    (htime : time.value = m.scheduledAt) (hopened : openedAtHeight.isSome = isFinal)
    (hheight : ∀ height ∈ openedAtHeight, height ≤ u64Max)
    (hitems : ∀ entry ∈ items, entry.Reported isFinal) (base : List Text) (post : Text) :
    (readMeeting isFinal ⟨lit "meeting", some (readPairs (meetingPairs m openedAtHeight))⟩).run
        ⟨lit "meeting" :: base, meetingContent items post⟩ =
      (.ok ⟨m.asRead, openedAtHeight, items.map FinalItemV1.asRead⟩, ⟨base, post⟩) := by
  have hcovers := covers_readPairs (@writable_meeting m openedAtHeight) mem_meetingNames
  refine Parse.run_bind_ok.mpr ⟨_, _, (yields_meeting hchannel htitle htime hopened hheight).run
    hcovers _, ?_⟩
  have hagenda : Writable (lit "agenda") [] := ⟨by decide, nofun, List.nodup_nil⟩
  have hskip := @Parse.skip_start _ _ ignorable rfl (fun _ => rfl) (fun _ => rfl) _ _ _ hagenda
    (by decide : (lit "\n    ").all isContent = true) (lit "meeting" :: base)
    (agendaContent items (lit "\n  " ++ (lit "</" ++ lit "meeting" ++ lit ">" ++ post)))
  refine Parse.run_bind_ok.mpr ⟨(some (items.map FinalItemV1.asRead), ∅), ⟨base, post⟩, ?_, ?_⟩
  · refine Parse.run_children_ok.mpr ⟨_, _, hskip, ?_⟩
    refine Parse.run_bind_ok.mpr ⟨(some (items.map FinalItemV1.asRead), ∅),
      ⟨lit "meeting" :: base, lit "\n  " ++ (lit "</" ++ lit "meeting" ++ lit ">" ++ post)⟩,
      ?_, ?_⟩
    · dsimp only
      rw [if_neg (by simp)]
      refine Parse.run_bind_ok.mpr ⟨(), _, rfl, ?_⟩
      exact Parse.run_bind_ok.mpr ⟨_, _, run_agenda hitems (lit "meeting" :: base) _, rfl⟩
    · exact Parse.run_children_ok.mpr ⟨_, _, Parse.skip_close (by decide) (by decide) base post,
        rfl, rfl⟩
  · refine Parse.run_bind_ok.mpr ⟨(), _, run_finishIssues_ok.mpr ⟨by rfl, rfl⟩, ?_⟩
    refine Parse.run_bind_ok.mpr ⟨_, _, run_expectSome_ok.mpr ⟨rfl, rfl⟩, ?_⟩
    refine Parse.run_bind_ok.mpr ⟨_, _, run_expectSome_ok.mpr ⟨rfl, rfl⟩, ?_⟩
    exact Parse.run_bind_ok.mpr ⟨_, _, run_expectSome_ok.mpr ⟨rfl, rfl⟩, rfl⟩

/-- What follows the start tag of a meeting record. -/
def meetingRecordContent (n : NotarisationV1) (m : MeetingMetadataV1) (openedAtHeight : Option ℕ)
    (items : List FinalItemV1) : Text :=
  lit "\n  " ++ (lit "<" ++ lit "notarisation" ++ writePairs (notarisationPairs n) ++ lit "/>" ++
    (lit "\n  " ++ (lit "<" ++ lit "meeting" ++ writePairs (meetingPairs m openedAtHeight) ++
      lit ">" ++ meetingContent items (lit "\n" ++ (lit "</" ++ lit "irena-meeting" ++ lit ">" ++
        [])))))

theorem skip_meetingText :
    Parse.skip prolog (openDocument (meetingText isFinal company meeting n m openedAtHeight items)) =
      some (.start ⟨lit "irena-meeting",
          some (readPairs (meetingRootPairs isFinal company meeting))⟩,
        ⟨[lit "irena-meeting"], meetingRecordContent n m openedAtHeight items⟩) := by
  have hopen : openDocument (meetingText isFinal company meeting n m openedAtHeight items) =
      ⟨[], [] ++ (lit "<" ++ lit "irena-meeting" ++
        writePairs (meetingRootPairs isFinal company meeting) ++ lit ">" ++
          meetingRecordContent n m openedAtHeight items)⟩ := rfl
  rw [hopen]
  exact Parse.skip_start rfl (fun _ => rfl) (fun _ => rfl) writable_meetingRoot List.all_nil [] _

/-- The children of a written meeting record are its notarisation and its meeting. -/
theorem run_children_meetingRecord {channel : ChannelIdV1} {time : NotaryTimeV1}
    (hname : trim n.name ≠ []) (hchannel : channel.value = m.channel) (htitle : trim m.title ≠ [])
    (htime : time.value = m.scheduledAt) (hopened : openedAtHeight.isSome = isFinal)
    (hheight : ∀ height ∈ openedAtHeight, height ≤ u64Max)
    (hitems : ∀ entry ∈ items, entry.Reported isFinal) :
    (Parse.children (reasonsIn (lit "irena-meeting")) (parseMeetingChild isFinal) ⟨none, none⟩ :
        IrenaParse MeetingSlots).run
        ⟨[lit "irena-meeting"], meetingRecordContent n m openedAtHeight items⟩ =
      (.ok ⟨some n.asRead, some ⟨m.asRead, openedAtHeight, items.map FinalItemV1.asRead⟩⟩,
        ⟨[], []⟩) := by
  have hline : (lit "\n  ").all isContent = true := by decide
  have hother : lit "meeting" ≠ lit "notarisation" := by decide
  have hfirst (r : Reader) : (parseMeetingChild isFinal ⟨none, none⟩
      ⟨lit "notarisation", some (readPairs (notarisationPairs n))⟩ true).run r =
        (.ok ⟨some n.asRead, none⟩, r) := by
    rw [parseMeetingChild, if_pos rfl, if_neg (by simp)]
    rw [Parse.run_bind, run_readNotarisation hname]
    rfl
  have hsecond (post : Text) : (parseMeetingChild isFinal ⟨some n.asRead, none⟩
      ⟨lit "meeting", some (readPairs (meetingPairs m openedAtHeight))⟩ false).run
        ⟨[lit "meeting", lit "irena-meeting"], meetingContent items post⟩ =
      (.ok ⟨some n.asRead, some ⟨m.asRead, openedAtHeight, items.map FinalItemV1.asRead⟩⟩,
        ⟨[lit "irena-meeting"], post⟩) := by
    rw [parseMeetingChild, if_neg hother, if_pos rfl, if_neg (by simp), if_neg (by simp)]
    exact Parse.run_bind_ok.mpr ⟨_, _, run_readMeeting hchannel htitle htime hopened hheight hitems
      _ _, rfl⟩
  refine Parse.run_children_ok.mpr ⟨_, _, Parse.skip_empty (writable_notarisation n) hline _ _, ?_⟩
  refine Parse.run_bind_ok.mpr ⟨_, _, hfirst _, ?_⟩
  refine Parse.run_children_ok.mpr ⟨_, _, Parse.skip_start rfl (fun _ => rfl) (fun _ => rfl)
    writable_meeting hline _ _, ?_⟩
  refine Parse.run_bind_ok.mpr ⟨_, _, hsecond _, ?_⟩
  exact Parse.run_children_ok.mpr ⟨_, _, Parse.skip_close (by decide)
    (by decide : (lit "\n").all isContent = true) [] [], rfl, rfl⟩

/-- A written meeting record that fits is read as far as its root and its children. -/
theorem readMeetingDocument_meetingText {channel : ChannelIdV1} {time : NotaryTimeV1}
    (hname : trim n.name ≠ []) (hchannel : channel.value = m.channel) (htitle : trim m.title ≠ [])
    (htime : time.value = m.scheduledAt) (hmeeting : meeting.isSome = isFinal)
    (hopened : openedAtHeight.isSome = isFinal)
    (hheight : ∀ height ∈ openedAtHeight, height ≤ u64Max)
    (hitems : ∀ entry ∈ items, entry.Reported isFinal)
    (hfits : byteLength (meetingText isFinal company meeting n m openedAtHeight items) ≤
      maxDocumentBytes) :
    readMeetingDocument (meetingText isFinal company meeting n m openedAtHeight items) =
      .ok (⟨isFinal, company, meeting⟩, ⟨some n.asRead,
        some ⟨m.asRead, openedAtHeight, items.map FinalItemV1.asRead⟩⟩) := by
  simp only [readMeetingDocument, bind_eq_ok, rootStart_eq_ok, Prod.exists, Parse.exec_eq_ok,
    skip_meetingText, checkSize_eq_ok]
  refine ⟨(), hfits, _, _, ⟨rfl, rfl⟩, ⟨isFinal, company, meeting⟩, _, run_readMeetingRoot hmeeting _,
    _, ⟨[], []⟩, run_children_meetingRecord hname hchannel htitle htime hopened hheight hitems, (),
    ?_, rfl⟩
  refine expectEof_eq_ok.mpr ⟨⟨[], []⟩, ?_⟩
  rw [Parse.skip_eq rfl, WritingScanner.finish]
  rfl

end Readers

theorem AgendaItemV1.asRead_eq_self {item : AgendaItemV1} :
    item.asRead = item ↔ Unbroken item.title := by
  obtain ⟨number, title, body⟩ := item
  simp only [asRead, mk.injEq, true_and, and_true, unbroken_iff]

/-- No free text of the item has a line break or a tab. -/
structure FinalItemV1.Unbroken (entry : FinalItemV1) : Prop where
  title : Core.Unbroken entry.item.title
  outcome : ∀ text ∈ entry.outcome, Core.Unbroken text

theorem FinalItemV1.asRead_eq_self {entry : FinalItemV1} : entry.asRead = entry ↔ entry.Unbroken := by
  obtain ⟨item, voteTxId, outcome⟩ := entry
  simp only [asRead, mk.injEq, true_and]
  rw [AgendaItemV1.asRead_eq_self, map_normaliseValue_eq_self]
  exact ⟨fun ⟨htitle, houtcome⟩ => ⟨htitle, houtcome⟩, fun h => ⟨h.title, h.outcome⟩⟩

theorem MeetingMetadataV1.asRead_eq_self {m : MeetingMetadataV1} : m.asRead = m ↔ Unbroken m.title := by
  obtain ⟨channel, title, scheduledAt, noticeDigest⟩ := m
  simp only [asRead, mk.injEq, true_and, and_true, unbroken_iff]

theorem map_eq_self_iff {α : Type} {f : α → α} {l : List α} : l.map f = l ↔ ∀ a ∈ l, f a = a := by
  have h := @List.map_inj_left _ _ l f id
  rwa [List.map_id] at h

/-- Turning the breaks in titles into blanks takes no title away. -/
theorem agendaDetail_asRead (index : ℕ) (items : List AgendaItemV1) :
    agendaDetail index (items.map AgendaItemV1.asRead) = agendaDetail index items := by
  induction items generalizing index with
  | nil => rfl
  | cons item items ih =>
    have hnumber : item.asRead.number = item.number := rfl
    have htitle : trim item.asRead.title = [] ↔ trim item.title = [] := trim_normaliseValue_eq_nil
    simp only [List.map_cons, agendaDetail, hnumber, htitle, ih]

theorem number_le_of_agendaDetail {index : ℕ} {items : List AgendaItemV1}
    (h : agendaDetail index items = none) : ∀ item ∈ items, item.number ≤ u32Max := by
  induction items generalizing index with
  | nil => nofun
  | cons item items ih =>
    rw [agendaDetail] at h
    split at h
    · cases h
    · split at h
      · cases h
      · split at h
        · cases h
        · exact List.forall_mem_cons.mpr ⟨by omega, ih h⟩

def AgendaV1.asRead (agenda : AgendaV1) : AgendaV1 :=
  ⟨agenda.items.map AgendaItemV1.asRead, by simpa using agenda.nonempty,
    (agendaDetail_asRead 0 agenda.items).trans agenda.valid⟩

theorem AgendaV1.asRead_eq_self {agenda : AgendaV1} :
    agenda.asRead = agenda ↔ ∀ item ∈ agenda.items, Unbroken item.title := by
  rw [← AgendaV1.items_injective.eq_iff]
  change agenda.items.map AgendaItemV1.asRead = agenda.items ↔ _
  rw [map_eq_self_iff]
  exact forall₂_congr fun _ _ => AgendaItemV1.asRead_eq_self

def MeetingFinalRecordV1.asRead (record : MeetingFinalRecordV1) : MeetingFinalRecordV1 :=
  { record with metadata := record.metadata.asRead, items := record.items.map FinalItemV1.asRead }

/-- No free text of the record has a line break or a tab. -/
structure MeetingFinalRecordV1.Unbroken (record : MeetingFinalRecordV1) : Prop where
  title : Core.Unbroken record.metadata.title
  items : ∀ entry ∈ record.items, entry.Unbroken

theorem MeetingFinalRecordV1.asRead_eq_self {record : MeetingFinalRecordV1} :
    record.asRead = record ↔ record.Unbroken := by
  obtain ⟨meetingId, metadata, openedAtHeight, items⟩ := record
  simp only [asRead, mk.injEq, true_and]
  rw [MeetingMetadataV1.asRead_eq_self, map_eq_self_iff]
  simp only [FinalItemV1.asRead_eq_self]
  exact ⟨fun ⟨htitle, hitems⟩ => ⟨htitle, hitems⟩, fun h => ⟨h.title, h.items⟩⟩

/-- What a final record holds: a height the chain can have, and what was decided on each item. -/
structure MeetingFinalRecordV1.Reported (record : MeetingFinalRecordV1) : Prop where
  openedAtHeight : record.openedAtHeight ≤ u64Max
  items : ∀ entry ∈ record.items, entry.Reported true

section Composers

variable [Scanner] [DocumentScanner] {company : CompanyIdV1} {n : NotarisationV1}
  {m : MeetingMetadataV1} {agenda : AgendaV1} {record : MeetingFinalRecordV1} {u : Unit} {xml : Text}

theorem readMeetingRecord_convenedText (hname : trim n.name ≠ []) (hvalid : m.validate = .ok u)
    (hfits : byteLength (convenedText company n m agenda) ≤ maxDocumentBytes) :
    readMeetingRecord (convenedText company n m agenda) =
      .ok ⟨company, n.asRead, .convened m.asRead agenda.asRead⟩ := by
  obtain ⟨⟨channel, hchannel⟩, htitle, time, htime⟩ := validate_metadata.mp hvalid
  have hitems : ∀ entry ∈ agenda.items.map fun item => (⟨item, none, none⟩ : FinalItemV1),
      entry.Reported false := by
    intro entry hentry
    obtain ⟨item, hitem, rfl⟩ := List.mem_map.mp hentry
    exact ⟨number_le_of_agendaDetail agenda.valid item hitem, rfl, rfl⟩
  rw [convenedText_eq (htime ▸ plain_time time)] at hfits ⊢
  have hread : readMeetingDocument (meetingText false company none n m none _) = .ok _ :=
    readMeetingDocument_meetingText hname hchannel htitle htime rfl rfl nofun hitems hfits
  refine bind_eq_ok.mpr ⟨_, mapErr_eq_ok.mpr hread, ?_⟩
  refine bind_eq_ok.mpr ⟨n.asRead, rfl, bind_eq_ok.mpr ⟨_, rfl, ?_⟩⟩
  refine bind_eq_ok.mpr ⟨agenda.asRead, AgendaV1.new_eq_ok.mpr ?_, rfl⟩
  change agenda.items.map AgendaItemV1.asRead = _
  simp [FinalItemV1.asRead]

theorem readMeetingRecord_finalText (hname : trim n.name ≠ [])
    (hvalid : record.metadata.validate = .ok u) (hreported : record.Reported)
    (hfits : byteLength (finalText company n record) ≤ maxDocumentBytes) :
    readMeetingRecord (finalText company n record) =
      .ok ⟨company, n.asRead, .final record.asRead⟩ := by
  obtain ⟨⟨channel, hchannel⟩, htitle, time, htime⟩ := validate_metadata.mp hvalid
  rw [finalText_eq (htime ▸ plain_time time)] at hfits ⊢
  have hheight : ∀ height ∈ some record.openedAtHeight, height ≤ u64Max := by
    rintro height ⟨⟩
    exact hreported.openedAtHeight
  have hread : readMeetingDocument (meetingText true company (some record.meetingId) n
      record.metadata (some record.openedAtHeight) record.items) = .ok _ :=
    readMeetingDocument_meetingText hname hchannel htitle htime rfl rfl hheight hreported.items hfits
  exact bind_eq_ok.mpr ⟨_, mapErr_eq_ok.mpr hread, rfl⟩

omit [DocumentScanner] in
theorem fits_of_readMeetingRecord {r : MeetingRecordV1} (h : readMeetingRecord xml = .ok r) :
    byteLength xml ≤ maxDocumentBytes := by
  obtain ⟨_, hread, -⟩ := bind_eq_ok.mp h
  obtain ⟨_, hsize, -⟩ := bind_eq_ok.mp (mapErr_eq_ok.mp hread)
  exact checkSize_eq_ok.mp hsize

/-- A convening is composed exactly where its text fits and no free text of it is broken. -/
theorem composeConvened_eq_ok_iff (hn : n.validate = .ok u) (hvalid : m.validate = .ok u) :
    composeConvened company n m agenda = .ok xml ↔
      (n.Unbroken ∧ Unbroken m.title ∧ ∀ item ∈ agenda.items, Unbroken item.title) ∧
        xml = convenedText company n m agenda ∧ byteLength xml ≤ maxDocumentBytes := by
  have hname := NotarisationV1.validate_eq_ok.mp hn
  rw [← NotarisationV1.asRead_eq_self, ← MeetingMetadataV1.asRead_eq_self,
    ← AgendaV1.asRead_eq_self]
  simp only [composeConvened, bind_eq_ok, mapErr_eq_ok, ensure_eq_ok, pure_eq_ok, Except.ok.injEq]
  constructor
  · rintro ⟨_, -, _, -, readBack, hread, _, rfl, rfl⟩
    have hfits := fits_of_readMeetingRecord hread
    have h := (readMeetingRecord_convenedText hname hvalid hfits).symm.trans hread
    simp only [Except.ok.injEq, MeetingRecordV1.mk.injEq, MeetingRecordBodyV1.convened.injEq,
      true_and] at h
    exact ⟨h, rfl, hfits⟩
  · rintro ⟨⟨hsame, hmetadata, hagenda⟩, rfl, hfits⟩
    have hread := readMeetingRecord_convenedText hname hvalid hfits
    rw [hsame, hmetadata, hagenda] at hread
    exact ⟨u, hvalid, u, hn, _, hread, (), rfl, rfl⟩

/-- A final record is composed exactly where its text fits and no free text of it is broken. -/
theorem composeFinal_eq_ok_iff (hn : n.validate = .ok u) (hvalid : record.metadata.validate = .ok u)
    (hagenda : record.agenda = .ok agenda) (hreported : record.Reported) :
    composeFinal company n record = .ok xml ↔
      (n.Unbroken ∧ record.Unbroken) ∧ xml = finalText company n record ∧
        byteLength xml ≤ maxDocumentBytes := by
  have hname := NotarisationV1.validate_eq_ok.mp hn
  rw [← NotarisationV1.asRead_eq_self, ← MeetingFinalRecordV1.asRead_eq_self]
  simp only [composeFinal, bind_eq_ok, mapErr_eq_ok, ensure_eq_ok, pure_eq_ok, Except.ok.injEq]
  constructor
  · rintro ⟨_, -, _, -, _, -, readBack, hread, _, rfl, rfl⟩
    have hfits := fits_of_readMeetingRecord hread
    have h := (readMeetingRecord_finalText hname hvalid hreported hfits).symm.trans hread
    simp only [Except.ok.injEq, MeetingRecordV1.mk.injEq, MeetingRecordBodyV1.final.injEq,
      true_and] at h
    exact ⟨h, rfl, hfits⟩
  · rintro ⟨⟨hsame, hrecord⟩, rfl, hfits⟩
    have hread := readMeetingRecord_finalText hname hvalid hreported hfits
    rw [hsame, hrecord] at hread
    exact ⟨u, hvalid, agenda, hagenda, u, hn, _, hread, (), rfl, rfl⟩

end Composers

end Irena.Meeting
