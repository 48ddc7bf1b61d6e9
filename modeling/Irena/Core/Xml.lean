import Irena.Core.Company
import Mathlib.Data.Finset.Image

/-! # Reading and composing company records

The readers of the company documents and of the record that carries one of them, and the composer
that embeds a body byte for byte and reads the result back. -/

namespace Irena.Core

open Irena.Library Irena.Library.Outcome Irena.Library.Strings Irena.Library.Markup
open Irena.Library.Utf8 Irena.Bornite Irena.Prunella

def defaultMaxDocumentBytes : ℕ := 16 * 1024 * 1024

abbrev IrenaParse [Scanner] := Parse IrenaFault (Finset IssueV1)

/-- Takes a required attribute, recording an issue if absent. -/
def require (name : Text) : Reading IssueV1 (Option Text) := Attributes.requireWith .xml name

/-- Keeps a value, or moves its issues into the running set. No constructor handed to this refuses
for another reason; such a reason would be surfaced as an issue. -/
def collect {α : Type} (result : Except IrenaError α) : Reading IssueV1 (Option α) := do
  match result with
  | .ok a => return some a
  | .error (.invalid found) =>
    modify fun (a, issues) => (a, issues ∪ found)
    return none
  | .error (.fatal _) =>
    Attributes.push (.invalidValue (lit "irena-record") (lit "?") [] [])
    return none

/-- A value spelled by an attribute, or the refusal of its text. -/
def spelled {α : Type} (element key reason value : Text) (parsed : Option α) :
    Except IrenaError α :=
  match parsed with
  | some a => .ok a
  | none => rejectValue element key value reason

def hexReason (kind : Text) (width : ℕ) (text : Text) : Text :=
  if byteLength text ≠ width then
    lit "expected " ++ decimal width ++ lit " hex characters for " ++ kind ++ lit ", found " ++
      decimal (byteLength text)
  else lit "invalid hex for " ++ kind ++ lit ": expected lowercase hex"

def hashValue (element key text : Text) : Except IrenaError Hash :=
  spelled element key (hexReason (lit "hash") 64 text) text (Hash.fromHex text)

def VoterIdRejection.reason : VoterIdRejection → Text
  | .empty => lit "must not be empty"
  | .tooLong => lit "must be at most 128 bytes"
  | .badCharacter =>
    lit "may only contain ASCII letters, digits, '.', '_', ':', '+', '@' and '-'"

def voterIdValue (element key text : Text) : Except IrenaError VoterIdV1 :=
  match VoterIdV1.new text with
  | .ok id => .ok id
  | .error (.invalidVoterId _ reason) =>
    rejectValue element key text (VoterIdRejection.reason reason)
  | .error _ => rejectValue element key text []

def u64Text (element key text : Text) : Except IrenaError U64 :=
  spelled element key (lit "must be a decimal integer from 0 to 18446744073709551615") text
    (parseU64 text)

section Readers

variable [Scanner]

/-- Content problems of an embedded element join the running set. -/
def embed {α : Type} (issues : Finset IssueV1) (p : IrenaParse α) :
    IrenaParse (Option α × Finset IssueV1) := do
  match ← p.attempt with
  | .ok a => return (some a, issues)
  | .error found => return (none, issues ∪ found)

def repeatedIf (present : Bool) (parent element : Text) (issues : Finset IssueV1) :
    Finset IssueV1 :=
  if present then insert (.repeatedElement parent element) issues else issues

/-- The leaf children of an element, all of one name; the limit is checked before each. -/
def parseLeaves {α : Type} (parent item : Text) (limit : Option (ℕ × IssueV1))
    (body : Reading IssueV1 (Option α)) (isEmpty : Bool) (issues : Finset IssueV1) :
    IrenaParse (List α × Finset IssueV1) :=
  if isEmpty then pure ([], issues)
  else
    Parse.children (reasonsIn parent)
      (fun (items, issues) tag leafIsEmpty =>
        if tag.name ≠ item then unknownChild parent tag.name
        else do
          match limit with
          | some (max, issue) => if max ≤ items.length then Parse.invalid {issue} else pure ()
          | none => pure ()
          let (value, issues) ← readAttributes item tag issues body
          expectLeaf item leafIsEmpty
          return (items ++ value.toList, issues))
      ([], issues)

def notarisationAttributes : Reading IssueV1 (Option NotarisationV1) := do
  let id ← require (lit "id")
  let name ← require (lit "name")
  let address ← Attributes.take (lit "address")
  let at_ ← require (lit "at")
  let statement ← Attributes.take (lit "statement")
  let sourceDigest ← Attributes.take (lit "source-digest")
  let id ← andThen id fun text => collect (NotaryIdV1.new text)
  let at_ ← andThen at_ fun text => collect (NotaryTimeV1.parse text)
  let sourceDigest ← andThen sourceDigest fun text =>
    collect (hashValue (lit "notarisation") (lit "source-digest") text)
  match name with
  | some name =>
    if trim name = [] then
      Attributes.push (.invalidValue (lit "notarisation") (lit "name") name
        (lit "must not be empty"))
  | none => pure ()
  match id, name, at_ with
  | some id, some name, some at_ => return some { id, name, address, at_, statement, sourceDigest }
  | _, _, _ => return none

/-- Parses a `<notarisation>` element's attributes; the caller consumes its end tag. -/
def readNotarisation (tag : Tag) : IrenaParse NotarisationV1 := do
  let (notarisation, issues) ←
    readAttributes (lit "notarisation") tag ∅ notarisationAttributes
  finishIssues issues
  expectSome notarisation

def identityAttributes : Reading IssueV1 (Option IdentityV1) := do
  let name ← require (lit "name")
  let jurisdiction ← Attributes.take (lit "jurisdiction")
  let registeredNumber ← Attributes.take (lit "registered-number")
  match name with
  | some name =>
    let identity : IdentityV1 := { name, jurisdiction, registeredNumber }
    let _ ← collect identity.validate
    return some identity
  | none => return none

def holderAttributes : Reading IssueV1 (Option HolderV1) := do
  let id ← require (lit "id")
  let name ← Attributes.take (lit "name")
  let shares ← require (lit "shares")
  let id ← andThen id fun text => collect (voterIdValue (lit "holder") (lit "id") text)
  let shares ← andThen shares fun text => collect (u64Text (lit "holder") (lit "shares") text)
  match id, shares with
  | some id, some shares => return some { id, name, shares }
  | _, _ => return none

def parseShareStructure (tag : Tag) (isEmpty : Bool) : IrenaParse ShareStructureV1 := do
  noAttributes (lit "share-structure") tag
  let (holders, issues) ← parseLeaves (lit "share-structure") (lit "holder")
    (some (maxHolders, .tooManyHolders maxHolders)) holderAttributes isEmpty ∅
  finishIssues issues
  Parse.answer (ShareStructureV1.new holders)

def personAttributes : Reading IssueV1 (Option PersonV1) := do
  let id ← require (lit "id")
  let name ← Attributes.take (lit "name")
  let documentId ← Attributes.take (lit "document-id")
  let key ← Attributes.take (lit "key")
  let id ← andThen id fun text => collect (voterIdValue (lit "person") (lit "id") text)
  let key : Option (Option PublicKey) ←
    match key with
    | none => pure (some none)
    | some text =>
      let key ← collect (spelled (lit "person") (lit "key")
        (hexReason (lit "public key") 64 text) text (PublicKey.fromHex text))
      pure (key.map some)
  match id, key with
  | some id, some key => return some { id, name, documentId, key }
  | _, _ => return none

def parseIdentities (tag : Tag) (isEmpty : Bool) : IrenaParse IdentitiesV1 := do
  noAttributes (lit "identities") tag
  let (persons, issues) ← parseLeaves (lit "identities") (lit "person")
    (some (maxPersons, .tooManyPersons maxPersons)) personAttributes isEmpty ∅
  finishIssues issues
  Parse.answer (IdentitiesV1.new persons)

def signerAttributes : Reading IssueV1 (Option SignerV1) := do
  let person ← require (lit "person")
  let records ← require (lit "records")
  let person ← andThen person fun text => collect (voterIdValue (lit "signer") (lit "person") text)
  let family ← andThen records fun text =>
    collect (spelled (lit "signer") (lit "records") (lit "must be company or governance") text
      (RecordFamilyV1.parse text))
  match person, family with
  | some person, some family => return some { person, family }
  | _, _ => return none

def parseAuthorisation (tag : Tag) (isEmpty : Bool) : IrenaParse AuthorisationV1 := do
  noAttributes (lit "authorisation") tag
  let (signers, issues) ← parseLeaves (lit "authorisation") (lit "signer") none signerAttributes
    isEmpty ∅
  finishIssues issues
  Parse.answer (AuthorisationV1.new signers)

def memberAttributes : Reading IssueV1 (Option MemberV1) := do
  let id ← require (lit "id")
  let name ← Attributes.take (lit "name")
  let weight ← Attributes.take (lit "weight")
  let id ← andThen id fun text => collect (voterIdValue (lit "member") (lit "id") text)
  let weight : Option U64 ←
    match weight with
    | none => pure (some ⟨1, u64Max_pos⟩)
    | some text => collect (u64Text (lit "member") (lit "weight") text)
  match id, weight with
  | some id, some weight => return some { id, name, weight }
  | _, _ => return none

/-- Whether a source attribute names a roster; anything else is read as the share register. -/
def sourceAttributes : Reading IssueV1 Bool := do
  match ← require (lit "source") with
  | none => return false
  | some source =>
    if source = lit "share-register" then return false
    else if source = lit "roster" then return true
    else
      Attributes.push (.invalidValue (lit "actors") (lit "source") source
        (lit "must be share-register or roster"))
      return false

def parseActors (channel : ChannelIdV1) (tag : Tag) (isEmpty : Bool) : IrenaParse ActorSourceV1 := do
  let (roster, issues) ← readAttributes (lit "actors") tag ∅ sourceAttributes
  let (members, issues) ← parseLeaves (lit "actors") (lit "member")
    (some (maxMembers, .tooManyMembers channel maxMembers)) memberAttributes isEmpty issues
  finishIssues <|
    if !roster ∧ members ≠ [] then
      insert (.unexpectedElement channel (lit "share-register") (lit "member")) issues
    else issues
  if roster then
    let roster ← Parse.answer (RosterV1.new channel members)
    return .roster roster
  else return .shareRegister

def amendAttributes : Reading IssueV1 (Option RecordKindV1) := do
  andThen (← require (lit "part")) fun text =>
    collect (spelled (lit "amend") (lit "part")
      (lit "must be identity, share-structure, decision-channels, identities or authorisation")
      text (RecordKindV1.parse text))

def parseScope (channel : ChannelIdV1) (tag : Tag) (isEmpty : Bool) : IrenaParse ChannelScopeV1 := do
  noAttributes (lit "scope") tag
  let (parts, issues) ← parseLeaves (lit "scope") (lit "amend") none amendAttributes isEmpty ∅
  finishIssues issues
  Parse.answer (ChannelScopeV1.new channel parts)

/-- Consumes events up to the end tag of the element just opened. -/
def skipElement : IrenaParse Unit := do
  let _ ← Parse.walk
    ⟨.malformed .illFormed, fun _ => .malformed (.message (lit "unexpected end of document"))⟩
    fun _ => false

/-- The children of a channel met so far; presence is tracked apart from validity. -/
structure ChannelSlots where
  actors : Option ActorSourceV1
  rules : Option VotingRulesV1
  scope : Option ChannelScopeV1
  actorsSeen : Bool
  rulesSeen : Bool
  scopeSeen : Bool
  issues : Finset IssueV1

def parseChannelChild (id : ChannelIdV1) (s : ChannelSlots) (tag : Tag) (isEmpty : Bool) :
    IrenaParse ChannelSlots :=
  if tag.name = lit "actors" then do
    let issues := repeatedIf s.actorsSeen (lit "channel") (lit "actors") s.issues
    let (found, issues) ← embed issues (parseActors id tag isEmpty)
    return { s with actors := found.or s.actors, actorsSeen := true, issues }
  else if tag.name = lit "scope" then do
    let issues := repeatedIf s.scopeSeen (lit "channel") (lit "scope") s.issues
    let (found, issues) ← embed issues (parseScope id tag isEmpty)
    return { s with scope := found.or s.scope, scopeSeen := true, issues }
  else if tag.name = lit "voting-rules" then do
    let issues := repeatedIf s.rulesSeen (lit "channel") (lit "voting-rules") s.issues
    if isEmpty then Parse.fatal (.malformed (.message (lit "<voting-rules> must have content")))
    else
      let (found, issues) ← embed issues
        ((parseVotingRules tag).mapRefusal IrenaFault.ofXml fun found => found.image .xml)
      return { s with rules := found.or s.rules, rulesSeen := true, issues }
  else unknownChild (lit "channel") tag.name

/-- Whether the mode attribute says individual, where it says either. -/
def modeAttribute (mode : Option Text) : Option Bool × Finset IssueV1 :=
  match mode with
  | none => (none, ∅)
  | some mode =>
    if mode = lit "individual" then (some true, ∅)
    else if mode = lit "collective" then (some false, ∅)
    else
      (none, {.invalidValue (lit "channel") (lit "mode") mode
        (lit "must be individual or collective")})

/-- The mode of a channel from its attribute and its rules, and what is wrong between them. -/
def channelMode (id : ChannelIdV1) (individual : Option Bool) (rulesSeen : Bool)
    (rules : Option VotingRulesV1) : Option ChannelModeV1 × Finset IssueV1 :=
  match individual, rulesSeen, rules with
  | some true, false, _ => (some .individual, ∅)
  | some true, true, _ =>
    (none, {.unexpectedElement id (lit "individual") (lit "voting-rules")})
  | some false, _, some rules => (some (.collective rules), ∅)
  | some false, false, none => (none, {.missingElement (lit "channel") (lit "voting-rules")})
  | some false, true, none => (none, ∅)
  | none, _, _ => (none, ∅)

def channelAttributes : Reading IssueV1 (Option ChannelIdV1 × Option Text) := do
  let id ← require (lit "id")
  let mode ← require (lit "mode")
  let id ← andThen id fun text => collect (ChannelIdV1.new text)
  return (id, mode)

/-- The rest of a channel whose id is known. -/
def parseChannelBody (id : ChannelIdV1) (individual : Option Bool) (issues : Finset IssueV1)
    (isEmpty : Bool) : IrenaParse DecisionChannelV1 :=
  if isEmpty then Parse.invalid (insert (.missingElement (lit "channel") (lit "actors")) issues)
  else do
    let s ← Parse.children (reasonsIn (lit "channel")) (parseChannelChild id)
      ⟨none, none, none, false, false, false, issues⟩
    let missing := missingElements .missingElement (lit "channel") [(s.actorsSeen, lit "actors")]
    let (mode, modeIssues) := channelMode id individual s.rulesSeen s.rules
    finishIssues (s.issues ∪ missing ∪ modeIssues)
    return { id, actors := ← expectSome s.actors, mode := ← expectSome mode, scope := s.scope }

/-- Parses one `<channel>`. Without an id the element is consumed and refused. -/
def parseChannel (tag : Tag) (isEmpty : Bool) : IrenaParse DecisionChannelV1 := do
  let ((id, mode), issues) ← readAttributes (lit "channel") tag ∅ channelAttributes
  match id with
  | none =>
    if isEmpty then pure () else skipElement
    Parse.invalid issues
  | some id =>
    let (individual, modeIssues) := modeAttribute mode
    parseChannelBody id individual (issues ∪ modeIssues) isEmpty

def parseDecisionChannels (tag : Tag) (isEmpty : Bool) : IrenaParse DecisionChannelsV1 := do
  noAttributes (lit "decision-channels") tag
  let (channels, issues) ←
    if isEmpty then pure ([], ∅)
    else
      Parse.children (reasonsIn (lit "decision-channels"))
        (fun ((channels, issues) : List DecisionChannelV1 × Finset IssueV1) child childIsEmpty =>
          if child.name ≠ lit "channel" then unknownChild (lit "decision-channels") child.name
          else if maxChannels ≤ channels.length then
            Parse.invalid {.tooManyChannels maxChannels}
          else do
            let (channel, issues) ← embed issues (parseChannel child childIsEmpty)
            return (channels ++ channel.toList, issues))
        ([], ∅)
  finishIssues issues
  Parse.answer (DecisionChannelsV1.new channels)

/-- The inside of `<governance>`: exactly one channel set, consumed whole even when refused. -/
def parseGovernance : IrenaParse DecisionChannelsV1 := do
  let (channels, seen, issues) ←
    Parse.children (reasonsIn (lit "governance"))
      (fun ((channels, seen, issues) : Option DecisionChannelsV1 × Bool × Finset IssueV1) child
          childIsEmpty =>
        if child.name ≠ lit "decision-channels" then
          Parse.fatal ((reasonsIn (lit "governance")).unexpected (.start child))
        else do
          let issues := repeatedIf seen (lit "governance") (lit "decision-channels") issues
          let (found, issues) ← embed issues (parseDecisionChannels child childIsEmpty)
          return (found.or channels, true, issues))
      (none, false, ∅)
  finishIssues (issues ∪
    missingElements .missingElement (lit "governance") [(seen, lit "decision-channels")])
  expectSome channels

/-- The children of a genesis met so far. -/
structure GenesisSlots where
  identity : Option IdentityV1
  incorporation : Option (Option Hash)
  shares : Option ShareStructureV1
  channels : Option DecisionChannelsV1
  identities : Option IdentitiesV1
  authorisation : Option AuthorisationV1
  sharesSeen : Bool
  governanceSeen : Bool
  identitiesSeen : Bool
  authorisationSeen : Bool
  issues : Finset IssueV1

def GenesisSlots.empty : GenesisSlots :=
  ⟨none, none, none, none, none, none, false, false, false, false, ∅⟩

def incorporationAttributes : Reading IssueV1 (Option Hash) := do
  andThen (← Attributes.take (lit "document-digest")) fun text =>
    collect (hashValue (lit "incorporation") (lit "document-digest") text)

def parseGenesisChild (s : GenesisSlots) (tag : Tag) (isEmpty : Bool) : IrenaParse GenesisSlots :=
  let again (present : Bool) (element : Text) : Finset IssueV1 :=
    repeatedIf present (lit "company-genesis") element s.issues
  if tag.name = lit "identity" then do
    let (found, issues) ← readAttributes (lit "identity") tag
      (again s.identity.isSome (lit "identity")) identityAttributes
    expectLeaf (lit "identity") isEmpty
    return { s with identity := found.or s.identity, issues }
  else if tag.name = lit "incorporation" then do
    let (digest, issues) ← readAttributes (lit "incorporation") tag
      (again s.incorporation.isSome (lit "incorporation")) incorporationAttributes
    expectLeaf (lit "incorporation") isEmpty
    return { s with incorporation := some digest, issues }
  else if tag.name = lit "share-structure" then do
    let (found, issues) ← embed (again s.sharesSeen (lit "share-structure"))
      (parseShareStructure tag isEmpty)
    return { s with shares := found.or s.shares, sharesSeen := true, issues }
  else if tag.name = lit "governance" then do
    noAttributes (lit "governance") tag
    if isEmpty then
      Parse.fatal (.malformed (.message (lit "<governance> must hold <decision-channels>")))
    else
      let (found, issues) ← embed (again s.governanceSeen (lit "governance")) parseGovernance
      return { s with channels := found.or s.channels, governanceSeen := true, issues }
  else if tag.name = lit "identities" then do
    let (found, issues) ← embed (again s.identitiesSeen (lit "identities"))
      (parseIdentities tag isEmpty)
    return { s with identities := found.or s.identities, identitiesSeen := true, issues }
  else if tag.name = lit "authorisation" then do
    let (found, issues) ← embed (again s.authorisationSeen (lit "authorisation"))
      (parseAuthorisation tag isEmpty)
    return { s with authorisation := found.or s.authorisation, authorisationSeen := true, issues }
  else unknownChild (lit "company-genesis") tag.name

def GenesisSlots.missing (s : GenesisSlots) : Finset IssueV1 :=
  missingElements .missingElement (lit "company-genesis")
    [(s.identity.isSome, lit "identity"), (s.sharesSeen, lit "share-structure"),
      (s.identitiesSeen, lit "identities"), (s.governanceSeen, lit "governance"),
      (s.authorisationSeen, lit "authorisation")]

/-- Parses a `<company-genesis>` element whose start tag has been read. -/
def parseCompanyGenesis (tag : Tag) : IrenaParse CompanyGenesisV1 := do
  noAttributes (lit "company-genesis") tag
  let s ← Parse.children (reasonsIn (lit "company-genesis")) parseGenesisChild .empty
  finishIssues (s.issues ∪ s.missing)
  return {
    identity := ← expectSome s.identity
    incorporationDigest := s.incorporation.join
    shares := ← expectSome s.shares
    channels := ← expectSome s.channels
    identities := ← expectSome s.identities
    authorisation := ← expectSome s.authorisation }

def parseIdentity (tag : Tag) (isEmpty : Bool) : IrenaParse IdentityV1 := do
  let (identity, issues) ← readAttributes (lit "identity") tag ∅ identityAttributes
  expectLeaf (lit "identity") isEmpty
  finishIssues issues
  expectSome identity

/-- A document whose root may be an empty-element tag. -/
def readDocument {α : Type} (name : Text) (parse : Tag → Bool → IrenaParse α) (xml : Text) :
    Except IrenaError α := do
  checkSize xml defaultMaxDocumentBytes
  let (root, isEmpty, r) ← rootOf name (openDocument xml)
  let (value, r) ← (parse root isEmpty).exec r
  expectEof r
  return value

def readCompanyGenesisDocument (xml : Text) : Except IrenaError CompanyGenesisV1 := do
  checkSize xml defaultMaxDocumentBytes
  let (root, r) ← rootStart (lit "company-genesis") (openDocument xml)
  let (genesis, r) ← (parseCompanyGenesis root).exec r
  expectEof r
  return genesis

/-- The end of the document is checked before the collected issues are reported. -/
def readIdentityDocument (xml : Text) : Except IrenaError IdentityV1 := do
  checkSize xml defaultMaxDocumentBytes
  let (root, isEmpty, r) ← rootOf (lit "identity") (openDocument xml)
  let ((identity, issues), r) ←
    (readAttributes (lit "identity") root ∅ identityAttributes : IrenaParse _).exec r
  let (_, r) ← (expectLeaf (lit "identity") isEmpty : IrenaParse Unit).exec r
  expectEof r
  ensure (issues = ∅) (.invalid issues)
  orError identity (.fatal .panicked)

def readShareStructureDocument : Text → Except IrenaError ShareStructureV1 :=
  readDocument (lit "share-structure") parseShareStructure

def readDecisionChannelsDocument : Text → Except IrenaError DecisionChannelsV1 :=
  readDocument (lit "decision-channels") parseDecisionChannels

def readIdentitiesDocument : Text → Except IrenaError IdentitiesV1 :=
  readDocument (lit "identities") parseIdentities

def readAuthorisationDocument : Text → Except IrenaError AuthorisationV1 :=
  readDocument (lit "authorisation") parseAuthorisation

/-- The standalone document of a kind, as a record body. -/
def readBodyDocument (kind : RecordKindV1) (xml : Text) : Except IrenaError RecordBodyV1 :=
  match kind with
  | .companyGenesis => (readCompanyGenesisDocument xml).map .companyGenesis
  | .identity => (readIdentityDocument xml).map .identity
  | .shareStructure => (readShareStructureDocument xml).map .shareStructure
  | .decisionChannels => (readDecisionChannelsDocument xml).map .decisionChannels
  | .identities => (readIdentitiesDocument xml).map .identities
  | .authorisation => (readAuthorisationDocument xml).map .authorisation

/-- What a record's root says: its kind, its company and what it supersedes. -/
structure Envelope where
  kind : RecordKindV1
  company : CompanyIdV1
  supersedes : Option TxId
deriving DecidableEq

structure EnvelopeTexts where
  version : Option Text
  kind : Option Text
  company : Option Text
  supersedes : Option Text

def envelopeAttributes : Reading IssueV1 EnvelopeTexts := do
  let version ← require (lit "version")
  let kind ← require (lit "kind")
  let company ← require (lit "company")
  let supersedes ← Attributes.take (lit "supersedes")
  return { version, kind, company, supersedes }

def readEnvelope (root : Tag) : IrenaParse Envelope := do
  let (texts, issues) ← readAttributes (lit "irena-record") root ∅ envelopeAttributes
  finishIssues issues
  let version ← expectSome texts.version
  if version ≠ recordVersion then Parse.fatal (.unsupportedVersion version) else
  let kindText ← expectSome texts.kind
  match RecordKindV1.parse kindText with
  | none => Parse.fatal (.malformed (.unknownKind kindText))
  | some kind =>
    let company ← Parse.answer (CompanyIdV1.new (← expectSome texts.company))
    match texts.supersedes with
    | none => return { kind, company, supersedes := none }
    | some text =>
      let supersedes ← Parse.answer (spelled (lit "irena-record") (lit "supersedes")
        (hexReason (lit "transaction id") 64 text) text (TxId.fromHex text))
      return { kind, company, supersedes := some supersedes }

structure RecordSlots where
  notarisation : Option NotarisationV1
  body : Option RecordBodyV1

/-- The body element of a kind, read where it stands in a record. -/
def parseBody (kind : RecordKindV1) (tag : Tag) (isEmpty : Bool) : IrenaParse RecordBodyV1 :=
  match kind with
  | .companyGenesis => do
    if isEmpty then
      Parse.fatal (.malformed (.message (lit "<company-genesis> must have content")))
    else return .companyGenesis (← parseCompanyGenesis tag)
  | .identity => do return .identity (← parseIdentity tag isEmpty)
  | .shareStructure => do return .shareStructure (← parseShareStructure tag isEmpty)
  | .decisionChannels => do return .decisionChannels (← parseDecisionChannels tag isEmpty)
  | .identities => do return .identities (← parseIdentities tag isEmpty)
  | .authorisation => do return .authorisation (← parseAuthorisation tag isEmpty)

def parseRecordChild (s : RecordSlots) (tag : Tag) (isEmpty : Bool) : IrenaParse RecordSlots :=
  if tag.name = lit "notarisation" then
    if s.notarisation.isSome ∨ s.body.isSome then
      Parse.fatal (.malformed (.message
        (lit "notarisation must appear once, before the element it attests to")))
    else do
      let notarisation ← readNotarisation tag
      expectLeaf (lit "notarisation") isEmpty
      return { s with notarisation := some notarisation }
  else
    match RecordKindV1.parse tag.name with
    | none => unknownChild (lit "irena-record") tag.name
    | some kind =>
      if s.body.isSome then
        Parse.fatal (.malformed (.message (lit "a record carries exactly one element")))
      else do
        let body ← parseBody kind tag isEmpty
        return { s with body := some body }

/-- What the whole document must amount to once its content has been read. -/
def assemble (envelope : Envelope) (s : RecordSlots) : Except IrenaError IrenaRecordV1 := do
  let notarisation ← orError s.notarisation
    (invalidIssues [.missingElement (lit "irena-record") (lit "notarisation")])
  let body ← orError s.body
    (invalidIssues [.missingElement (lit "irena-record") envelope.kind.element])
  ensure (body.kind = envelope.kind) (.fatal (.kindMismatch envelope.kind body.kind))
  return ⟨envelope.company, envelope.supersedes, notarisation, body⟩

/-- Reads an `<irena-record>` document, refusing input larger than `maxBytes`. -/
def readRecordWithLimit (xml : Text) (maxBytes : ℕ) : Except IrenaError IrenaRecordV1 := do
  checkSize xml maxBytes
  let (root, r) ← rootStart (lit "irena-record") (openDocument xml)
  let (envelope, r) ← (readEnvelope root).exec r
  let (slots, r) ←
    (Parse.children (reasonsIn (lit "irena-record")) parseRecordChild ⟨none, none⟩).exec r
  expectEof r
  assemble envelope slots

def readRecord (xml : Text) : Except IrenaError IrenaRecordV1 :=
  readRecordWithLimit xml defaultMaxDocumentBytes

end Readers

/-- Escapes text for use inside a double-quoted attribute value. -/
def escapeAttribute (text : Text) : Text :=
  text.flatMap fun c =>
    if c = '&' then lit "&amp;"
    else if c = '"' then lit "&quot;"
    else if c = '<' then lit "&lt;"
    else if c = '>' then lit "&gt;"
    else [c]

/-- One written attribute with the blank before it. -/
def writeAttribute (name value : Text) : Text :=
  lit " " ++ name ++ lit "=\"" ++ value ++ lit "\""

/-- One written attribute where there is a value. -/
def writeOptional (name : Text) (value : Option Text) : Text :=
  match value with
  | some value => writeAttribute name value
  | none => []

/-- Renders a notarisation as one empty element. -/
def writeNotarisation (n : NotarisationV1) : Text :=
  lit "<notarisation" ++ writeAttribute (lit "id") n.id.value ++
    writeAttribute (lit "name") (escapeAttribute n.name) ++
    writeOptional (lit "address") (n.address.map escapeAttribute) ++
    writeAttribute (lit "at") n.at_.value ++
    writeOptional (lit "statement") (n.statement.map escapeAttribute) ++
    writeOptional (lit "source-digest") (n.sourceDigest.map Hash.toHex) ++ lit "/>"

def declarationStart : Text := lit "<?xml"
def declarationEnd : Text := lit "?>"

/-- Removes a leading XML declaration and surrounding whitespace. -/
def stripDeclaration (text : Text) : Text :=
  let trimmed := trim text
  match stripPrefix trimmed declarationStart with
  | none => trimmed
  | some rest =>
    match afterFirst declarationEnd rest with
    | some element => trim element
    | none => trimmed

def normaliseBody (text : Text) : Text := stripDeclaration text

/-- The text around an embedded body. -/
def recordText (kind : RecordKindV1) (company : CompanyIdV1) (supersedes : Option TxId)
    (notarisation : NotarisationV1) (element : Text) : Text :=
  lit "<irena-record" ++ writeAttribute (lit "version") recordVersion ++
    writeAttribute (lit "kind") kind.asStr ++ writeAttribute (lit "company") company.value ++
    writeOptional (lit "supersedes") (supersedes.map TxId.toHex) ++ lit ">\n  " ++
    writeNotarisation notarisation ++ lit "\n  " ++ element ++ lit "\n</irena-record>"

/-- Composes a record around a body element, and reads it back before it is returned. -/
def composeRecord [Scanner] (kind : RecordKindV1) (company : CompanyIdV1) (supersedes : Option TxId)
    (notarisation : NotarisationV1) (body : Text) : Except IrenaError Text := do
  notarisation.validate
  let element := stripDeclaration body
  let _ ← readBodyDocument kind element
  let xml := recordText kind company supersedes notarisation element
  let readBack ← readRecord xml
  ensure (readBack.kind = kind ∧ readBack.company = company ∧ readBack.supersedes = supersedes ∧
      readBack.notarisation = notarisation)
    (.fatal (.malformed (.message (lit "composed record did not read back as written"))))
  return xml

end Irena.Core
