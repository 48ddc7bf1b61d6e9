import Irena.Resolution.Demotion

/-! # The life of a resolution

Draft, finalized, executed. Finalizing checks the authority against the chain and publishes the
resolution; executing publishes the amendment it authorises and then the record that links the
two. Reads that follow one another between two appends are one access of the chain. -/

namespace Irena.Resolution

open Irena.Library Irena.Library.Outcome Irena.Library.Strings Irena.Library.Utf8
open Irena.Core Irena.Bornite Irena.Prunella Irena.Prunella.LocalChainStore Irena.Ledger
open Irena.Decision Irena.Vote Irena.Meeting

/-- Where an executed resolution landed. -/
structure ExecutedV1 where
  amendmentTx : TxId
  amendmentHeight : ℕ
  executionTx : TxId
  executionHeight : ℕ
  replacedTx : TxId
deriving DecidableEq

structure ResolutionV1 where
  status : ResolutionStatusV1
  company : Text
  title : Text
  authority : AuthorityV1
  kind : ResolutionKindV1
  finalized : Option (TxId × ℕ)
  executed : Option ExecutedV1
deriving DecidableEq

def resolutionFaults : ChainFaults ResolutionError :=
  ⟨.store, .core, fun height => .chain (.missingHead height)⟩

/-- The names of the checks that failed. -/
def failedNames {ν : Type} (checks : List (Check ν)) : List ν :=
  (checks.filter fun check => !check.passed).map Check.name

/-- The vote items of a final record by number; only the first item of a number is looked at. -/
def voteItemOf (record : MeetingFinalRecordV1) (number : ℕ) : Option FinalItemV1 :=
  (record.items.find? fun entry => entry.item.number == number).filter
    fun entry => entry.item.body.isVote

variable [Platform]

/-- The vote that answered the item a resolution names, checked. -/
def checkVote (s : LocalChainStore) (channel : Text) (meetingTx : TxId) (itemNumber : ℕ)
    (voteTx : TxId) : Except ResolutionError FinalVoteRecordV1 := do
  let meeting ← mapErr .meeting (verifyMeeting s meetingTx)
  ensure (meeting.isValid = true) (.meetingUnverified meetingTx (failedNames meeting.checks))
  let record ← orError meeting.record (.meetingUnverified meetingTx [])
  let entry ← orError (voteItemOf record itemNumber) (.noSuchVoteItem meetingTx itemNumber)
  let answered ← orError entry.voteTxId (.noSuchVoteItem meetingTx itemNumber)
  ensure (answered = voteTx) (.wrongVote meetingTx itemNumber answered voteTx)
  let verification ← mapErr .vote (verify s voteTx)
  ensure (verification.isValid = true) (.voteUnverified voteTx (failedNames verification.checks))
  let vote ← orError verification.record (.voteUnverified voteTx [])
  ensure (vote.evaluation.accepted = true) (.voteRejected voteTx vote.evaluation.reason)
  ensure (vote.snapshot.channel = channel) (.wrongChannel channel vote.snapshot.channel voteTx)
  return vote

/-- The decision a resolution names, checked. -/
def checkDecision (s : LocalChainStore) (channel : Text) (decisionTx : TxId) :
    Except ResolutionError FinalDecisionRecordV1 := do
  let verification ← mapErr .decision (verifyDecision s decisionTx)
  ensure (verification.isValid = true)
    (.decisionUnverified decisionTx (failedNames verification.checks))
  let decision ← orError verification.record (.decisionUnverified decisionTx [])
  ensure (decision.snapshot.channel = channel)
    (.wrongChannel channel decision.snapshot.channel decisionTx)
  return decision

/-- What the authority established, before what it covers is judged. -/
def approvalOf (s : LocalChainStore) : AuthorityV1 → Except ResolutionError ApprovalV1
  | .collective channel meetingTx itemNumber voteTx => do
    let vote ← checkVote s channel meetingTx itemNumber voteTx
    let frozen ← mapErr .ledger (reconstruct s vote.snapshot.height)
    return .ofVote channel voteTx vote.snapshot frozen
  | .individual channel decisionTx => do
    let decision ← checkDecision s channel decisionTx
    let frozen ← mapErr .ledger (reconstruct s decision.snapshot.height)
    return .ofDecision channel decisionTx decision.snapshot frozen

/-- Whether the channel was scoped to a part, in the channel set it decided under. -/
def checkScope (s : LocalChainStore) (approval : ApprovalV1) (target : AmendmentTargetV1) :
    Except ResolutionError Unit := do
  let frozen ← mapErr .ledger (reconstruct s approval.height)
  let channelId ← mapErr .record (ChannelIdV1.new approval.channel)
  let channel ← orError (frozen.channels.value.get channelId)
    (.chain (.channelNotInForce channelId approval.height))
  ensure (channel.mayAmend target.recordKind = true)
    (.outOfScope approval.channel target channel.scope)

/-- The first execution of a resolution on the chain; what does not read is passed over. -/
def executes (resolutionTx : TxId) (t : Transaction) : Bool :=
  if t.namespace_.value ≠ executionNamespace then false
  else
    match fromUtf8 t.payload with
    | none => false
    | some text =>
      match readExecutionRecord text with
      | .ok record => record.execution.resolutionId.txId = resolutionTx
      | .error _ => false

def findExecution (s : LocalChainStore) (resolutionTx : TxId) : Option (TxId × ℕ) :=
  (s.iterBlocks s.head.height).findSome? fun block =>
    (block.transactions.find? (executes resolutionTx)).map fun t => (t.id, block.header.height)

/-- The demotion rule of a target, applied to an approved body. -/
def demotionOf (signer : VoterIdV1) (state : CompanyStateV1) (target : AmendmentTargetV1)
    (body : Text) : Except ResolutionError (Option SelfDemotionV1) :=
  match target with
  | .shareStructure => .ok none
  | .decisionChannels => do
    let new ← mapErr .record (readDecisionChannelsDocument body)
    let verdict ← selfDemotion signer state.channels.value new state.shares.value
      state.identities.value
    return some verdict
  | .identities => do
    let new ← mapErr .record (readIdentitiesDocument body)
    return some (identityDemotion signer state.identities.value new)
  | .authorisation => do
    let new ← mapErr .record (readAuthorisationDocument body)
    return some (authorisationDemotion signer state.authorisation.value new)

/-- An amendment on one person's decision must satisfy the demotion rule of its target. -/
def checkDemotion (approval : ApprovalV1) (state : CompanyStateV1) (target : AmendmentTargetV1)
    (body : Text) : Except ResolutionError Unit :=
  match approval.actor with
  | none => .ok ()
  | some actor => do
    let signer ← mapErr (fun e => .chain (.actorNotAVoter e)) (VoterIdV1.new actor)
    match ← demotionOf signer state target body with
    | some verdict =>
      ensure (verdict.holds = true) (.selfPromotion approval.channel actor verdict.detail)
    | none => return ()

namespace ResolutionV1

omit [Platform] in
def draft (title : Text) (authority : AuthorityV1) (kind : ResolutionKindV1) : ResolutionV1 :=
  ⟨.draft, [], title, authority, kind, none, none⟩

omit [Platform] in
def id (r : ResolutionV1) : Option ResolutionIdV1 := r.finalized.map fun (txId, _) => ⟨txId⟩

omit [Platform] in
def expectStatus (r : ResolutionV1) (wanted : ResolutionStatusV1) (target : Text) :
    Except ResolutionError Unit :=
  ensure (r.status = wanted) (.invalidTransition r.status target)

/-- Checks the authority and returns what it established. -/
def checkAuthority (r : ResolutionV1) (s : LocalChainStore) : Except ResolutionError ApprovalV1 := do
  let approval ← approvalOf s r.authority
  match r.kind.target with
  | some target => checkScope s approval target
  | none => pure ()
  ensure (r.kind.approvedDigest = approval.proposalDigest)
    (.proposalMismatch approval.proposalDigest r.kind.approvedDigest)
  return approval

/-- What finalizing publishes, judged against the chain. -/
def resolutionPayload (r : ResolutionV1) (s : LocalChainStore) (key : SigningKey)
    (notarisation : NotarisationV1) : Except ResolutionError (CompanyIdV1 × Text) := do
  r.expectStatus .draft (lit "finalize")
  let approval ← r.checkAuthority s
  let state ← mapErr .ledger (companyNow s)
  let _ ← mapErr .ledger (authorisedSigner state .governance (Platform.publicKey key))
  ensure (approval.company = state.company.value)
    (.companyMismatch state.company.value approval.company)
  let payload ← composeResolution state.company notarisation r.title r.authority r.kind
  return (state.company, payload)

/-- Finalises the resolution: checks its authority, then records it. -/
def finalize (r : ResolutionV1) (key : SigningKey) (notarisation : NotarisationV1)
    (timestampMillis : ℕ) : ChainProgram ResolutionError (ResolutionV1 × ResolutionIdV1) := do
  let (company, payload) ← Program.read fun s => r.resolutionPayload s key notarisation
  let (txId, height) ←
    appendTransaction resolutionFaults key resolutionNamespace (utf8 payload) timestampMillis
  return ({ r with
    status := .finalized
    company := company.value
    finalized := some (txId, height) }, ⟨txId⟩)

/-- What an execution carries out. -/
structure Mandate where
  resolutionId : ResolutionIdV1
  target : AmendmentTargetV1
  body : Text
  approved : TxId

/-- The mandate of a finalised amendment resolution, judged against the chain: it has not been
executed, its authority stands, its base is in force, and the demotion rule holds. -/
def mandate (r : ResolutionV1) (s : LocalChainStore) (key : SigningKey) :
    Except ResolutionError Mandate := do
  r.expectStatus .finalized (lit "execute")
  match r.kind with
  | .declarative _ => .error .nothingToExecute
  | .amendment target body => do
    let resolutionId ← orError r.id .panicked
    match findExecution s resolutionId.txId with
    | some (executionTx, height) =>
      .error (.alreadyExecuted resolutionId.txId executionTx height)
    | none => do
      let approval ← r.checkAuthority s
      let approved := approval.baseOf target
      let state ← mapErr .ledger (companyNow s)
      let _ ← mapErr .ledger (authorisedSigner state .governance (Platform.publicKey key))
      let current := state.providerOf target.recordKind
      ensure (current = approved) (.staleBase target approved current)
      checkDemotion approval state target body
      return ⟨resolutionId, target, body, approved⟩

/-- The payload of the execution record. -/
def executionPayload (r : ResolutionV1) (notarisation : NotarisationV1)
    (execution : ResolutionExecutionV1) : Except ResolutionError Text := do
  let company ← mapErr .record (CompanyIdV1.new r.company)
  composeExecution company notarisation execution

/-- Executes an amendment resolution: publishes the amendment, then the execution record. -/
def execute (r : ResolutionV1) (key : SigningKey) (notarisation : NotarisationV1)
    (timestampMillis : ℕ) : ChainProgram ResolutionError (ResolutionV1 × ExecutedV1) := do
  let m ← Program.read fun s => r.mandate s key
  let amendment ← (publish key m.target.recordKind m.body (some m.approved) notarisation
    timestampMillis).mapError .ledger
  let payload ← Program.lift (r.executionPayload notarisation
    ⟨m.resolutionId, amendment.txId, m.target, m.approved, r.kind.approvedDigest⟩)
  let (executionTx, executionHeight) ←
    appendTransaction resolutionFaults key executionNamespace (utf8 payload) timestampMillis
  let executed : ExecutedV1 :=
    ⟨amendment.txId, amendment.height, executionTx, executionHeight, m.approved⟩
  return ({ r with status := .executed, executed := some executed }, executed)

end ResolutionV1

end Irena.Resolution
