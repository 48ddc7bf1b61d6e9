import Irena.Meeting.Agenda

/-! # Meeting records and their text

A convening record carries the agenda; a final record repeats it with the transaction of every
vote. Composing reads the document back before it is returned. -/

namespace Irena.Meeting

open Irena.Library Irena.Library.Outcome Irena.Library.Strings Irena.Library.Markup
open Irena.Library.Utf8 Irena.Library.Numeral
open Irena.Core Irena.Bornite Irena.Prunella

def meetingNamespace : Text := lit "irena.meeting.v1"

def meetingVersion : Text := lit "1.0"

def maxDocumentBytes : ℕ := 16 * 1024 * 1024

/-- One agenda item as the final record reports it. -/
structure FinalItemV1 where
  item : AgendaItemV1
  voteTxId : Option TxId
  outcome : Option Text
deriving DecidableEq

structure MeetingFinalRecordV1 where
  meetingId : MeetingIdV1
  metadata : MeetingMetadataV1
  openedAtHeight : ℕ
  items : List FinalItemV1
deriving DecidableEq

def MeetingFinalRecordV1.agenda (r : MeetingFinalRecordV1) : Except MeetingError AgendaV1 :=
  AgendaV1.new (r.items.map FinalItemV1.item)

inductive MeetingRecordBodyV1 where
  | convened (metadata : MeetingMetadataV1) (agenda : AgendaV1)
  | final (record : MeetingFinalRecordV1)
deriving DecidableEq

structure MeetingRecordV1 where
  company : CompanyIdV1
  notarisation : NotarisationV1
  body : MeetingRecordBodyV1
deriving DecidableEq

def metadataAttributes (m : MeetingMetadataV1) : Text :=
  writeAttribute (lit "channel") (escapeAttribute m.channel) ++
    writeAttribute (lit "title") (escapeAttribute m.title) ++
    writeAttribute (lit "scheduled-at") m.scheduledAt ++
    writeOptional (lit "notice-digest") (m.noticeDigest.map Hash.toHex)

def writeItem (entry : FinalItemV1) : Text :=
  lit "      <item" ++ writeAttribute (lit "number") (decimal entry.item.number) ++
    writeAttribute (lit "kind") entry.item.body.kind ++
    writeAttribute (lit "title") (escapeAttribute entry.item.title) ++
    (match entry.item.body with
      | .informational digest => writeAttribute (lit "document-digest") digest.toHex
      | .vote digest => writeAttribute (lit "proposal-digest") digest.toHex) ++
    writeOptional (lit "vote-tx") (entry.voteTxId.map TxId.toHex) ++
    writeOptional (lit "outcome") (entry.outcome.map escapeAttribute) ++ lit "/>\n"

def writeAgenda (items : List FinalItemV1) : Text :=
  lit "    <agenda>\n" ++ items.flatMap writeItem ++ lit "    </agenda>\n"

def convenedText (company : CompanyIdV1) (notarisation : NotarisationV1)
    (metadata : MeetingMetadataV1) (agenda : AgendaV1) : Text :=
  lit "<irena-meeting" ++ writeAttribute (lit "version") meetingVersion ++
    writeAttribute (lit "kind") (lit "convened") ++
    writeAttribute (lit "company") company.value ++ lit ">\n  " ++
    writeNotarisation notarisation ++ lit "\n  <meeting" ++ metadataAttributes metadata ++
    lit ">\n" ++ writeAgenda (agenda.items.map fun item => ⟨item, none, none⟩) ++
    lit "  </meeting>\n</irena-meeting>"

def finalText (company : CompanyIdV1) (notarisation : NotarisationV1)
    (record : MeetingFinalRecordV1) : Text :=
  lit "<irena-meeting" ++ writeAttribute (lit "version") meetingVersion ++
    writeAttribute (lit "kind") (lit "final") ++
    writeAttribute (lit "company") company.value ++
    writeAttribute (lit "meeting") record.meetingId.txId.toHex ++ lit ">\n  " ++
    writeNotarisation notarisation ++ lit "\n  <meeting" ++ metadataAttributes record.metadata ++
    writeAttribute (lit "opened-at-height") (decimal record.openedAtHeight) ++ lit ">\n" ++
    writeAgenda record.items ++ lit "  </meeting>\n</irena-meeting>"

/-- A decimal integer in 32 bits. -/
def parseU32 (text : Text) : Option ℕ := (ofDecimal text).filter (· ≤ u32Max)

def txIdValue (element key text : Text) : Except IrenaError TxId :=
  spelled element key (hexReason (lit "transaction id") 64 text) text (TxId.fromHex text)

/-- An attribute that is present where it means nothing. -/
def unused (element key reason : Text) : IssueV1 := .xml (.unusedAttribute element key reason)

/-- An issue about a value, told of another attribute. -/
def relabel (element key : Text) : IssueV1 → IssueV1
  | .invalidValue _ _ value reason => .invalidValue element key value reason
  | other => other

/-- Moves the issues of a refused value into the running set, told of one attribute. -/
def checkAs {α : Type} (element key : Text) (result : Except IrenaError α) :
    Reading IssueV1 Unit := do
  match result with
  | .error (.invalid found) =>
    modify fun (a, issues) => (a, issues ∪ found.image (relabel element key))
  | _ => pure ()

/-- What the attributes of a meeting element say. -/
structure MeetingTexts where
  channel : Option Text
  title : Option Text
  scheduledAt : Option Text
  noticeDigest : Option Hash
  openedAtHeight : Option ℕ

def meetingAttributes (isFinal : Bool) : Reading IssueV1 MeetingTexts := do
  let channel ← require (lit "channel")
  let title ← require (lit "title")
  let scheduledAt ← require (lit "scheduled-at")
  let notice ← Attributes.take (lit "notice-digest")
  let openedAt ← Attributes.take (lit "opened-at-height")
  match isFinal, openedAt with
  | true, none => Attributes.push (.missingAttribute (lit "meeting") (lit "opened-at-height"))
  | false, some _ =>
    Attributes.push (unused (lit "meeting") (lit "opened-at-height")
      (lit "the record is a convening"))
  | _, _ => pure ()
  let noticeDigest ← andThen notice fun text =>
    collect (hashValue (lit "meeting") (lit "notice-digest") text)
  match scheduledAt with
  | some text => checkAs (lit "meeting") (lit "scheduled-at") (NotaryTimeV1.parse text)
  | none => pure ()
  match title with
  | some text =>
    if trim text = [] then
      Attributes.push (.invalidValue (lit "meeting") (lit "title") text
        (lit "must not be empty"))
  | none => pure ()
  match channel with
  | some text => checkAs (lit "meeting") (lit "channel") (ChannelIdV1.new text)
  | none => pure ()
  let openedAtHeight ← andThen (if isFinal then openedAt else none) fun text =>
    collect (spelled (lit "meeting") (lit "opened-at-height")
      (lit "must be a decimal block height") text (parseU64 text))
  return ⟨channel, title, scheduledAt, noticeDigest, openedAtHeight.map Subtype.val⟩

/-- The digest an item of a kind must carry. -/
def itemDigest (key : Text) (value : Option Text) (make : Hash → AgendaBodyV1) :
    Reading IssueV1 (Option AgendaBodyV1) := do
  match value with
  | some text =>
    let digest ← collect (hashValue (lit "item") key text)
    return digest.map make
  | none =>
    Attributes.push (.missingAttribute (lit "item") key)
    return none

def itemBody (kind documentDigest proposalDigest voteTx outcome : Option Text) :
    Reading IssueV1 (Option AgendaBodyV1) := do
  match kind with
  | none => return none
  | some kind =>
    if kind = lit "informational" then
      if proposalDigest.isSome then
        Attributes.push (unused (lit "item") (lit "proposal-digest")
          (lit "the item is informational"))
      if voteTx.isSome ∨ outcome.isSome then
        Attributes.push (unused (lit "item") (lit "vote-tx") (lit "the item is informational"))
      itemDigest (lit "document-digest") documentDigest .informational
    else if kind = lit "vote" then
      if documentDigest.isSome then
        Attributes.push (unused (lit "item") (lit "document-digest") (lit "the item is a vote"))
      itemDigest (lit "proposal-digest") proposalDigest .vote
    else
      Attributes.push (.invalidValue (lit "item") (lit "kind") kind
        (lit "expected informational or vote"))
      return none

/-- An attribute that the vote items of a final record carry, and those of a convening do not. -/
def finalOnly (isFinal isVote : Bool) (key : Text) (value : Option Text) :
    Reading IssueV1 (Option Text) := do
  match isFinal && isVote, value with
  | true, some text => return some text
  | true, none =>
    Attributes.push (.missingAttribute (lit "item") key)
    return none
  | false, some _ =>
    if isVote then Attributes.push (unused (lit "item") key (lit "the record is a convening"))
    return none
  | false, none => return none

def itemAttributes (isFinal : Bool) : Reading IssueV1 (Option FinalItemV1) := do
  let number ← require (lit "number")
  let kind ← require (lit "kind")
  let title ← require (lit "title")
  let documentDigest ← Attributes.take (lit "document-digest")
  let proposalDigest ← Attributes.take (lit "proposal-digest")
  let voteTx ← Attributes.take (lit "vote-tx")
  let outcome ← Attributes.take (lit "outcome")
  let number ← andThen number fun text =>
    collect (spelled (lit "item") (lit "number") (lit "must be a decimal integer") text
      (parseU32 text))
  let body ← itemBody kind documentDigest proposalDigest voteTx outcome
  let isVote := body.any AgendaBodyV1.isVote
  let voteTxId ← andThen (← finalOnly isFinal isVote (lit "vote-tx") voteTx) fun text =>
    collect (txIdValue (lit "item") (lit "vote-tx") text)
  let outcome ← finalOnly isFinal isVote (lit "outcome") outcome
  match number, title, body with
  | some number, some title, some body => return some ⟨⟨number, title, body⟩, voteTxId, outcome⟩
  | _, _, _ => return none

/-- What the inside of a meeting element amounts to. -/
structure MeetingBody where
  metadata : MeetingMetadataV1
  openedAtHeight : Option ℕ
  items : List FinalItemV1

/-- What the root of a meeting record says. -/
structure MeetingRoot where
  isFinal : Bool
  company : CompanyIdV1
  meetingId : Option MeetingIdV1

structure MeetingRootTexts where
  version : Option Text
  kind : Option Text
  company : Option Text
  meeting : Option Text

def meetingRootAttributes : Reading IssueV1 MeetingRootTexts := do
  let version ← require (lit "version")
  let kind ← require (lit "kind")
  let company ← require (lit "company")
  let meeting ← Attributes.take (lit "meeting")
  return { version, kind, company, meeting }

structure MeetingSlots where
  notarisation : Option NotarisationV1
  body : Option MeetingBody

section Readers

variable [Scanner]

/-- Parses `<meeting>` with its `<agenda>`; a final record carries the opening height. -/
def readMeeting (isFinal : Bool) (tag : Tag) : IrenaParse MeetingBody := do
  let (texts, issues) ← readAttributes (lit "meeting") tag ∅ (meetingAttributes isFinal)
  let (items, issues) ←
    Parse.children (reasonsIn (lit "meeting"))
      (fun ((items, issues) : Option (List FinalItemV1) × Finset IssueV1) child isEmpty =>
        if child.name ≠ lit "agenda" then unknownChild (lit "meeting") child.name
        else do
          let issues := repeatedIf items.isSome (lit "meeting") (lit "agenda") issues
          noAttributes (lit "agenda") child
          let (found, issues) ← parseLeaves (lit "agenda") (lit "item") none
            (itemAttributes isFinal) isEmpty issues
          return (some found, issues))
      (none, issues)
  finishIssues (issues ∪
    missingElements .missingElement (lit "meeting") [(items.isSome, lit "agenda")])
  return {
    metadata := {
      channel := ← expectSome texts.channel
      title := ← expectSome texts.title
      scheduledAt := ← expectSome texts.scheduledAt
      noticeDigest := texts.noticeDigest }
    openedAtHeight := texts.openedAtHeight
    items := items.getD [] }

/-- Whether a kind attribute says final, where it says either. -/
def meetingKind (kind : Text) : IrenaParse Bool :=
  if kind = lit "convened" then pure false
  else if kind = lit "final" then pure true
  else Parse.fatal (.malformed (.unknownKind kind))

def meetingIdOf (isFinal : Bool) (meeting : Option Text) : IrenaParse (Option MeetingIdV1) :=
  match isFinal, meeting with
  | true, some text => do
    let id ← Parse.answer (txIdValue (lit "irena-meeting") (lit "meeting") text)
    return some ⟨id⟩
  | true, none => Parse.invalid {.missingAttribute (lit "irena-meeting") (lit "meeting")}
  | false, some _ =>
    Parse.fatal (.malformed (.message
      (lit "a convened record does not name a meeting; it is one")))
  | false, none => pure none

def readMeetingRoot (root : Tag) : IrenaParse MeetingRoot := do
  let (texts, issues) ← readAttributes (lit "irena-meeting") root ∅ meetingRootAttributes
  finishIssues issues
  let version ← expectSome texts.version
  if version ≠ meetingVersion then Parse.fatal (.unsupportedVersion version) else
  let isFinal ← meetingKind (← expectSome texts.kind)
  let company ← Parse.answer (CompanyIdV1.new (← expectSome texts.company))
  let meetingId ← meetingIdOf isFinal texts.meeting
  return { isFinal, company, meetingId }

def parseMeetingChild (isFinal : Bool) (s : MeetingSlots) (tag : Tag) (isEmpty : Bool) :
    IrenaParse MeetingSlots :=
  if tag.name = lit "notarisation" then
    if s.notarisation.isSome ∨ s.body.isSome then
      Parse.fatal (.malformed (.message
        (lit "notarisation must appear once, before the meeting element")))
    else do
      let notarisation ← readNotarisation tag
      expectLeaf (lit "notarisation") isEmpty
      return { s with notarisation := some notarisation }
  else if tag.name = lit "meeting" then
    if s.body.isSome then
      Parse.fatal (.malformed (.message (lit "a record carries one meeting element")))
    else if isEmpty then
      Parse.fatal (.malformed (.message (lit "<meeting> must hold an agenda")))
    else do
      let body ← readMeeting isFinal tag
      return { s with body := some body }
  else unknownChild (lit "irena-meeting") tag.name

def readMeetingDocument (xml : Text) : Except IrenaError (MeetingRoot × MeetingSlots) := do
  checkSize xml maxDocumentBytes
  let (root, r) ← rootStart (lit "irena-meeting") (openDocument xml)
  let (root, r) ← (readMeetingRoot root).exec r
  let (slots, r) ←
    (Parse.children (reasonsIn (lit "irena-meeting")) (parseMeetingChild root.isFinal)
      ⟨none, none⟩).exec r
  expectEof r
  return (root, slots)

/-- What the document amounts to; a convening's items must form an agenda. -/
def assembleMeeting (root : MeetingRoot) (s : MeetingSlots) :
    Except MeetingError MeetingRecordV1 := do
  let notarisation ← orError s.notarisation
    (.record (invalidIssues [.missingElement (lit "irena-meeting") (lit "notarisation")]))
  let body ← orError s.body
    (.record (invalidIssues [.missingElement (lit "irena-meeting") (lit "meeting")]))
  if root.isFinal then
    let meetingId ← orError root.meetingId .panicked
    let openedAtHeight ← orError body.openedAtHeight .panicked
    return ⟨root.company, notarisation,
      .final ⟨meetingId, body.metadata, openedAtHeight, body.items⟩⟩
  else
    let agenda ← AgendaV1.new (body.items.map FinalItemV1.item)
    return ⟨root.company, notarisation, .convened body.metadata agenda⟩

/-- Reads an `<irena-meeting>` document. -/
def readMeetingRecord (xml : Text) : Except MeetingError MeetingRecordV1 := do
  let (root, slots) ← mapErr .record (readMeetingDocument xml)
  assembleMeeting root slots

def composeConvened (company : CompanyIdV1) (notarisation : NotarisationV1)
    (metadata : MeetingMetadataV1) (agenda : AgendaV1) : Except MeetingError Text := do
  metadata.validate
  mapErr .record notarisation.validate
  let xml := convenedText company notarisation metadata agenda
  let readBack ← readMeetingRecord xml
  ensure (readBack = ⟨company, notarisation, .convened metadata agenda⟩)
    (.chain .conveningNotReadBack)
  return xml

def composeFinal (company : CompanyIdV1) (notarisation : NotarisationV1)
    (record : MeetingFinalRecordV1) : Except MeetingError Text := do
  record.metadata.validate
  let _ ← record.agenda
  mapErr .record notarisation.validate
  let xml := finalText company notarisation record
  let readBack ← readMeetingRecord xml
  ensure (readBack = ⟨company, notarisation, .final record⟩) (.chain .finalNotReadBack)
  return xml

end Readers

end Irena.Meeting
