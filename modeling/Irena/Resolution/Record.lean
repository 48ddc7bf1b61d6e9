import Irena.Resolution.Resolution

/-! # Resolution and execution records and their text

An amendment resolution carries the body of the amendment verbatim. Reading it back takes the body
from the text of the document, never from parse events. -/

namespace Irena.Resolution

open Irena.Library Irena.Library.Outcome Irena.Library.Strings Irena.Library.Markup
open Irena.Library.Utf8 Irena.Library.Numeral
open Irena.Core Irena.Bornite Irena.Prunella
open Irena.Meeting (parseU32)

def resolutionNamespace : Text := lit "irena.resolution.v1"

def executionNamespace : Text := lit "irena.execution.v1"

def resolutionVersion : Text := lit "1.0"

def maxDocumentBytes : ℕ := 16 * 1024 * 1024

structure ResolutionRecordV1 where
  company : CompanyIdV1
  notarisation : NotarisationV1
  title : Text
  authority : AuthorityV1
  kind : ResolutionKindV1
deriving DecidableEq

/-- The link from a resolution to the amendment it authorised. -/
structure ResolutionExecutionV1 where
  resolutionId : ResolutionIdV1
  amendmentTx : TxId
  target : AmendmentTargetV1
  replacedTx : TxId
  bodyDigest : Hash
deriving DecidableEq

structure ExecutionRecordV1 where
  company : CompanyIdV1
  notarisation : NotarisationV1
  execution : ResolutionExecutionV1
deriving DecidableEq

def authorityAttributes : AuthorityV1 → Text
  | .collective _ meetingTx itemNumber voteTx =>
    writeAttribute (lit "meeting") meetingTx.toHex ++
      writeAttribute (lit "item") (decimal itemNumber) ++ writeAttribute (lit "vote") voteTx.toHex
  | .individual _ decisionTx => writeAttribute (lit "decision") decisionTx.toHex

/-- The text of a resolution; the body of an amendment is embedded as it is. -/
def resolutionText (company : CompanyIdV1) (notarisation : NotarisationV1) (title : Text)
    (authority : AuthorityV1) (kind : ResolutionKindV1) : Text :=
  lit "<irena-resolution" ++ writeAttribute (lit "version") resolutionVersion ++
    writeAttribute (lit "kind") kind.asStr ++ writeAttribute (lit "company") company.value ++
    writeAttribute (lit "title") (escapeAttribute title) ++
    writeAttribute (lit "channel") authority.channel ++ authorityAttributes authority ++
    match kind with
    | .declarative digest =>
      writeAttribute (lit "document-digest") digest.toHex ++ lit ">\n  " ++
        writeNotarisation notarisation ++ lit "\n</irena-resolution>"
    | .amendment target body =>
      writeAttribute (lit "target") target.asStr ++ lit ">\n  " ++
        writeNotarisation notarisation ++ lit "\n  <amendment>" ++ body ++
        lit "</amendment>\n</irena-resolution>"

def executionText (company : CompanyIdV1) (notarisation : NotarisationV1)
    (execution : ResolutionExecutionV1) : Text :=
  lit "<irena-execution" ++ writeAttribute (lit "version") resolutionVersion ++
    writeAttribute (lit "company") company.value ++
    writeAttribute (lit "resolution") execution.resolutionId.txId.toHex ++
    writeAttribute (lit "amendment") execution.amendmentTx.toHex ++
    writeAttribute (lit "target") execution.target.asStr ++
    writeAttribute (lit "replaced") execution.replacedTx.toHex ++
    writeAttribute (lit "body-digest") execution.bodyDigest.toHex ++ lit ">\n  " ++
    writeNotarisation notarisation ++ lit "\n</irena-execution>"

/-- A transaction id; a wrong one is told of a resolution, also in an execution record. -/
def txOf (key text : Text) : Except IrenaError TxId :=
  spelled (lit "irena-resolution") key (hexReason (lit "transaction id") 64 text) text
    (TxId.fromHex text)

def numberOf (key text : Text) : Except IrenaError ℕ :=
  if text = [] ∨ !text.all isAsciiDigit then
    rejectValue (lit "irena-resolution") key text (lit "must be a decimal integer")
  else spelled (lit "irena-resolution") key (lit "is too large") text (parseU32 text)

/-- The reason a channel attribute is refused for: the refusal of the label, as text. -/
def channelReason (value : Text) : Text :=
  lit "1 issue(s): <channel id=\"" ++ value ++ lit "\"> is not valid: " ++
    (labelReason value).getD []

def channelOf (text : Text) : Except IrenaError ChannelIdV1 :=
  spelled (lit "irena-resolution") (lit "channel") (channelReason text) text
    (ChannelIdV1.new text).toOption

def targetOf (element text : Text) : Except IrenaError AmendmentTargetV1 :=
  spelled element (lit "target") (lit "expected share-structure or decision-channels") text
    (AmendmentTargetV1.parse text)

/-- What a resolution rests on, by the attributes present. -/
def authorityOf (channel : Text) (meeting item vote decision : Option Text) :
    Except IrenaError AuthorityV1 :=
  match meeting, item, vote, decision with
  | some meeting, some item, some vote, none => do
    let meetingTx ← txOf (lit "meeting") meeting
    let itemNumber ← numberOf (lit "item") item
    let voteTx ← txOf (lit "vote") vote
    return .collective channel meetingTx itemNumber voteTx
  | none, none, none, some decision => do
    let decisionTx ← txOf (lit "decision") decision
    return .individual channel decisionTx
  | none, none, none, none =>
    .error (invalidIssues [.missingAttribute (lit "irena-resolution")
      (lit "meeting, item and vote, or decision")])
  | _, _, _, _ =>
    .error (.fatal (.malformed (.message
      (lit "a resolution rests on one authority: meeting, item and vote together, or decision alone"))))

structure ResolutionTexts where
  version : Option Text
  kind : Option Text
  company : Option Text
  title : Option Text
  channel : Option Text
  meeting : Option Text
  item : Option Text
  vote : Option Text
  decision : Option Text
  documentDigest : Option Text
  target : Option Text

def resolutionAttributes : Reading IssueV1 ResolutionTexts := do
  let version ← require (lit "version")
  let kind ← require (lit "kind")
  let company ← require (lit "company")
  let title ← require (lit "title")
  let channel ← require (lit "channel")
  let meeting ← Attributes.take (lit "meeting")
  let item ← Attributes.take (lit "item")
  let vote ← Attributes.take (lit "vote")
  let decision ← Attributes.take (lit "decision")
  let documentDigest ← Attributes.take (lit "document-digest")
  let target ← Attributes.take (lit "target")
  return ⟨version, kind, company, title, channel, meeting, item, vote, decision, documentDigest,
    target⟩

structure ExecutionTexts where
  version : Option Text
  company : Option Text
  resolution : Option Text
  amendment : Option Text
  target : Option Text
  replaced : Option Text
  bodyDigest : Option Text

def executionAttributes : Reading IssueV1 ExecutionTexts := do
  let version ← require (lit "version")
  let company ← require (lit "company")
  let resolution ← require (lit "resolution")
  let amendment ← require (lit "amendment")
  let target ← require (lit "target")
  let replaced ← require (lit "replaced")
  let bodyDigest ← require (lit "body-digest")
  return ⟨version, company, resolution, amendment, target, replaced, bodyDigest⟩

/-- What the root of a resolution says; kind, digest and target are judged with the content. -/
structure ResolutionRoot where
  company : CompanyIdV1
  title : Text
  authority : AuthorityV1
  kind : Text
  documentDigest : Option Text
  target : Option Text

structure ResolutionSlots where
  notarisation : Option NotarisationV1
  body : Option Text

structure ExecutionRoot where
  company : CompanyIdV1
  execution : ResolutionExecutionV1

section Readers

variable [Scanner]

def checkVersion (version : Text) : IrenaParse Unit :=
  if version = resolutionVersion then pure () else Parse.fatal (.unsupportedVersion version)

/-- Checks that a body is a valid document of its target's kind. -/
def validateBody (target : AmendmentTargetV1) (body : Text) : Except IrenaError Unit :=
  match target with
  | .shareStructure => do
    let _ ← readShareStructureDocument body
    return ()
  | .decisionChannels => do
    let _ ← readDecisionChannelsDocument body
    return ()
  | .identities => do
    let _ ← readIdentitiesDocument body
    return ()
  | .authorisation => do
    let _ ← readAuthorisationDocument body
    return ()

def readResolutionRoot (root : Tag) : IrenaParse ResolutionRoot := do
  let (texts, issues) ←
    readAttributes (lit "irena-resolution") root ∅ resolutionAttributes
  finishIssues issues
  checkVersion (← expectSome texts.version)
  let company ← Parse.answer (CompanyIdV1.new (← expectSome texts.company))
  let title ← expectSome texts.title
  Parse.answer (ensure (trim title ≠ [])
    (invalidIssues [.invalidValue (lit "irena-resolution") (lit "title") title
      (lit "must not be empty")]))
  let channel ← Parse.answer (channelOf (← expectSome texts.channel))
  let authority ← Parse.answer
    (authorityOf channel.value texts.meeting texts.item texts.vote texts.decision)
  return {
    company, title, authority
    kind := ← expectSome texts.kind
    documentDigest := texts.documentDigest
    target := texts.target }

/-- How the walk through an amendment refuses. -/
def amendmentReasons : Parse.Reasons IrenaFault where
  illFormed := .malformed .illFormed
  unexpected e :=
    if e = .eof then .malformed (.message (lit "document ends inside an amendment"))
    else .malformed (.message (lit "unexpected " ++ describe e ++ lit " in <amendment>"))

/-- Recovers the source text inside `<amendment>` and consumes its end tag. -/
def captureBody : IrenaParse Text := do
  let inside ← Parse.walk amendmentReasons fun e => e = .declaration ∨ e = .doctype
  if trim inside = [] then
    Parse.fatal (.malformed (.message (lit "<amendment> must hold a body element")))
  else return trim inside

def parseResolutionChild (s : ResolutionSlots) (tag : Tag) (isEmpty : Bool) :
    IrenaParse ResolutionSlots :=
  if tag.name = lit "notarisation" then
    if s.notarisation.isSome ∨ s.body.isSome then
      Parse.fatal (.malformed (.message
        (lit "notarisation must appear once, before the amendment")))
    else do
      let notarisation ← readNotarisation tag
      expectLeaf (lit "notarisation") isEmpty
      return { s with notarisation := some notarisation }
  else if tag.name = lit "amendment" then
    if s.body.isSome then
      Parse.fatal (.malformed (.message (lit "a resolution carries one amendment")))
    else if isEmpty then
      Parse.fatal (.malformed (.message (lit "<amendment> must hold a body element")))
    else do
      let body ← captureBody
      return { s with body := some body }
  else unknownChild (lit "irena-resolution") tag.name

/-- What a resolution does, by its kind, its digest, its target and its content. -/
def kindOf (declared : Text) (documentDigest target body : Option Text) :
    Except IrenaError ResolutionKindV1 :=
  let malformed (message : Text) : Except IrenaError ResolutionKindV1 :=
    .error (.fatal (.malformed (.message message)))
  if declared = lit "declarative" then
    match documentDigest, target, body with
    | some text, none, none => do
      let digest ← hashValue (lit "irena-resolution") (lit "document-digest") text
      return .declarative digest
    | none, _, _ =>
      .error (invalidIssues [.missingAttribute (lit "irena-resolution") (lit "document-digest")])
    | some _, _, _ =>
      malformed (lit "a declarative resolution carries no target and no amendment")
  else if declared = lit "amendment" then
    match documentDigest, target, body with
    | none, some text, some body => do
      let target ← targetOf (lit "irena-resolution") text
      validateBody target body
      return .amendment target body
    | some _, _, _ =>
      malformed (lit "an amendment resolution carries its body, not a document digest")
    | none, none, _ =>
      .error (invalidIssues [.missingAttribute (lit "irena-resolution") (lit "target")])
    | none, some _, none =>
      .error (invalidIssues [.missingElement (lit "irena-resolution") (lit "amendment")])
  else .error (.fatal (.malformed (.unknownKind declared)))

def readResolutionDocument (xml : Text) : Except IrenaError ResolutionRecordV1 := do
  checkSize xml maxDocumentBytes
  let (root, r) ← rootStart (lit "irena-resolution") (openDocument xml)
  let (root, r) ← (readResolutionRoot root).exec r
  let (slots, r) ←
    (Parse.children (reasonsIn (lit "irena-resolution")) parseResolutionChild
      ⟨none, none⟩).exec r
  expectEof r
  let notarisation ← orError slots.notarisation
    (invalidIssues [.missingElement (lit "irena-resolution") (lit "notarisation")])
  let kind ← kindOf root.kind root.documentDigest root.target slots.body
  return ⟨root.company, notarisation, root.title, root.authority, kind⟩

/-- Reads an `<irena-resolution>` document. -/
def readResolutionRecord (xml : Text) : Except ResolutionError ResolutionRecordV1 :=
  mapErr .record (readResolutionDocument xml)

def readExecutionRoot (root : Tag) : IrenaParse ExecutionRoot := do
  let (texts, issues) ← readAttributes (lit "irena-execution") root ∅ executionAttributes
  finishIssues issues
  checkVersion (← expectSome texts.version)
  let company ← Parse.answer (CompanyIdV1.new (← expectSome texts.company))
  let target ← Parse.answer (targetOf (lit "irena-execution") (← expectSome texts.target))
  let resolutionTx ← Parse.answer (txOf (lit "resolution") (← expectSome texts.resolution))
  let amendmentTx ← Parse.answer (txOf (lit "amendment") (← expectSome texts.amendment))
  let replacedTx ← Parse.answer (txOf (lit "replaced") (← expectSome texts.replaced))
  let bodyDigest ← Parse.answer
    (hashValue (lit "irena-execution") (lit "body-digest") (← expectSome texts.bodyDigest))
  return ⟨company, ⟨⟨resolutionTx⟩, amendmentTx, target, replacedTx, bodyDigest⟩⟩

def parseExecutionChild (notarisation : Option NotarisationV1) (tag : Tag) (isEmpty : Bool) :
    IrenaParse (Option NotarisationV1) :=
  if tag.name ≠ lit "notarisation" then unknownChild (lit "irena-execution") tag.name
  else if notarisation.isSome then
    Parse.fatal (.malformed (.message (lit "notarisation must appear once")))
  else do
    let notarisation ← readNotarisation tag
    expectLeaf (lit "notarisation") isEmpty
    return some notarisation

def readExecutionDocument (xml : Text) : Except IrenaError ExecutionRecordV1 := do
  checkSize xml maxDocumentBytes
  let (root, r) ← rootStart (lit "irena-execution") (openDocument xml)
  let (root, r) ← (readExecutionRoot root).exec r
  let (notarisation, r) ←
    (Parse.children (reasonsIn (lit "irena-execution")) parseExecutionChild none).exec r
  expectEof r
  let notarisation ← orError notarisation
    (invalidIssues [.missingElement (lit "irena-execution") (lit "notarisation")])
  return ⟨root.company, notarisation, root.execution⟩

/-- Reads an `<irena-execution>` document. -/
def readExecutionRecord (xml : Text) : Except ResolutionError ExecutionRecordV1 :=
  mapErr .record (readExecutionDocument xml)

/-- A kind with the body of an amendment normalised. -/
def ResolutionKindV1.normalised : ResolutionKindV1 → ResolutionKindV1
  | .declarative digest => .declarative digest
  | .amendment target body => .amendment target (normaliseBody body)

/-- Composes a resolution record; the body of an amendment is embedded normalised. -/
def composeResolution (company : CompanyIdV1) (notarisation : NotarisationV1) (title : Text)
    (authority : AuthorityV1) (kind : ResolutionKindV1) : Except ResolutionError Text := do
  mapErr .record notarisation.validate
  ensure (trim title ≠ []) (.record (invalidIssues
    [.invalidValue (lit "irena-resolution") (lit "title") title (lit "must not be empty")]))
  let _ ← mapErr .record (ChannelIdV1.new authority.channel)
  match kind.normalised with
  | .declarative _ => pure ()
  | .amendment target body => mapErr .record (validateBody target body)
  let xml := resolutionText company notarisation title authority kind.normalised
  let readBack ← readResolutionRecord xml
  ensure (readBack = ⟨company, notarisation, title, authority, kind.normalised⟩)
    (.chain .resolutionNotReadBack)
  return xml

def composeExecution (company : CompanyIdV1) (notarisation : NotarisationV1)
    (execution : ResolutionExecutionV1) : Except ResolutionError Text := do
  mapErr .record notarisation.validate
  let xml := executionText company notarisation execution
  let readBack ← readExecutionRecord xml
  ensure (readBack = ⟨company, notarisation, execution⟩) (.chain .executionNotReadBack)
  return xml

end Readers

end Irena.Resolution
