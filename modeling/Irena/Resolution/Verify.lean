import Irena.Resolution.Lifecycle

/-! # Verifying resolutions and executions

Every check of a resolution record and of an execution record, judged from the chain alone. -/

namespace Irena.Resolution

open Irena.Library Irena.Library.Outcome Irena.Library.Strings Irena.Library.Utf8
open Irena.Core Irena.Bornite Irena.Prunella Irena.Prunella.LocalChainStore Irena.Ledger
open Irena.Decision Irena.Vote Irena.Meeting

/-- The namespaces of the records that are about the company and do not make it. -/
def governanceNamespaces : List Text :=
  [Decision.decisionNamespace, Vote.voteNamespace, Meeting.meetingNamespace, resolutionNamespace,
    executionNamespace]

theorem kindOfNamespace_governance {namespace_ : Text} (h : namespace_ ∈ governanceNamespaces) :
    kindOfNamespace namespace_ = none := by
  have hall : ∀ n ∈ governanceNamespaces, kindOfNamespace n = none := by decide +kernel
  exact hall namespace_ h

inductive ResolutionCheckNameV1 where
  | decodes
  | meetingVerifies
  | itemIsAVote
  | voteAnsweredTheItem
  | voteVerifies
  | votePassed
  | decisionVerifies
  | channelMatches
  | withinChannelScope
  | proposalMatches
  | companyMatches
  | heightsOrdered
  | signerAuthorised
deriving DecidableEq

inductive ExecutionCheckNameV1 where
  | decodes
  | resolutionVerifies
  | resolutionAuthorisesThis
  | amendmentExists
  | amendmentMatchesResolution
  | amendmentReplacedApprovedBase
  | selfDemotionHolds
  | amendmentApplied
  | heightsOrdered
  | signerAuthorised
  | executedOnce
deriving DecidableEq

structure ResolutionVerificationV1 where
  txId : TxId
  height : ℕ
  record : Option ResolutionRecordV1
  checks : List (Check ResolutionCheckNameV1)
deriving DecidableEq

def ResolutionVerificationV1.isValid (v : ResolutionVerificationV1) : Bool := allPassed v.checks

structure ExecutionVerificationV1 where
  txId : TxId
  height : ℕ
  record : Option ResolutionExecutionV1
  checks : List (Check ExecutionCheckNameV1)
  resolution : Option ResolutionVerificationV1
deriving DecidableEq

def ExecutionVerificationV1.isValid (v : ExecutionVerificationV1) : Bool :=
  allPassed v.checks && v.resolution.any ResolutionVerificationV1.isValid

variable [Platform]

def decodeResolution (t : Transaction) : Option ResolutionRecordV1 := do
  guard (t.namespace_.value = resolutionNamespace)
  let text ← fromUtf8 t.payload
  (readResolutionRecord text).toOption

def decodeExecution (t : Transaction) : Option ResolutionExecutionV1 := do
  guard (t.namespace_.value = executionNamespace)
  let text ← fromUtf8 t.payload
  let record ← (readExecutionRecord text).toOption
  return record.execution

/-- The checks of a collective authority, with the vote where they leave one to go on with. -/
def collectiveChecks (s : LocalChainStore) (meetingTx : TxId) (itemNumber : ℕ) (voteTx : TxId) :
    Except ResolutionError (List (Check ResolutionCheckNameV1) × Option FinalVoteRecordV1) := do
  let meeting ← mapErr .meeting (verifyMeeting s meetingTx)
  if !meeting.isValid then return ([⟨.meetingVerifies, false⟩], none)
  match meeting.record with
  | none => return ([⟨.meetingVerifies, true⟩, ⟨.itemIsAVote, false⟩], none)
  | some final =>
    match voteItemOf final itemNumber with
    | none => return ([⟨.meetingVerifies, true⟩, ⟨.itemIsAVote, false⟩], none)
    | some entry =>
      let item : List (Check ResolutionCheckNameV1) :=
        [⟨.meetingVerifies, true⟩, ⟨.itemIsAVote, true⟩]
      if entry.voteTxId ≠ some voteTx then return (item ++ [⟨.voteAnsweredTheItem, false⟩], none)
      let answered := item ++ [⟨.voteAnsweredTheItem, true⟩]
      let verification ← mapErr .vote (verify s voteTx)
      if !verification.isValid then return (answered ++ [⟨.voteVerifies, false⟩], none)
      match verification.record with
      | none => return (answered ++ [⟨.voteVerifies, true⟩, ⟨.votePassed, false⟩], none)
      | some vote =>
        return (answered ++ [⟨.voteVerifies, true⟩, ⟨.votePassed, vote.evaluation.accepted⟩],
          some vote)

/-- What an authority rests on: the approval, when it was recorded, and through which channel. -/
structure Decided where
  approval : ApprovalV1
  height : Option ℕ
  channel : Text

/-- The checks of an authority, with what it rests on where they leave that to go on with. -/
def decidedChecks (s : LocalChainStore) :
    AuthorityV1 → Except ResolutionError (List (Check ResolutionCheckNameV1) × Option Decided)
  | .collective channel meetingTx itemNumber voteTx => do
    let (checks, vote) ← collectiveChecks s meetingTx itemNumber voteTx
    match vote with
    | none => return (checks, none)
    | some vote => do
      let frozen ← mapErr .ledger (reconstruct s vote.snapshot.height)
      return (checks, some {
        approval := .ofVote channel voteTx vote.snapshot frozen
        height := (s.getTransaction meetingTx).map LocatedTransaction.height
        channel := vote.snapshot.channel })
  | .individual channel decisionTx => do
    let verification ← mapErr .decision (verifyDecision s decisionTx)
    if !verification.isValid then return ([⟨.decisionVerifies, false⟩], none)
    match verification.record with
    | none => return ([⟨.decisionVerifies, true⟩, ⟨.channelMatches, false⟩], none)
    | some decision => do
      let frozen ← mapErr .ledger (reconstruct s decision.snapshot.height)
      return ([⟨.decisionVerifies, true⟩], some {
        approval := .ofDecision channel decisionTx decision.snapshot frozen
        height := some verification.height
        channel := decision.snapshot.channel })

/-- Whether the channel was scoped to the part a resolution amends, if it amends one. -/
def withinScope (s : LocalChainStore) (approval : ApprovalV1) (target : Option AmendmentTargetV1) :
    Bool :=
  match target with
  | none => true
  | some target =>
    match checkScope s approval target with
    | .ok () => true
    | .error _ => false

/-- The checks of a resolution's authority, and the approval where there is one. -/
def authorityChecks (s : LocalChainStore) (record : ResolutionRecordV1) (at_ : ℕ)
    (signer : PublicKey) :
    Except ResolutionError (List (Check ResolutionCheckNameV1) × Option ApprovalV1) := do
  let (checks, decided) ← decidedChecks s record.authority
  match decided with
  | none => return (checks, none)
  | some decided => do
    let approval := decided.approval
    let chain ← mapErr .ledger (reconstruct s at_)
    return (checks ++
      [⟨.channelMatches, decided.channel = approval.channel⟩,
        ⟨.withinChannelScope, withinScope s approval record.kind.target⟩,
        ⟨.proposalMatches, record.kind.approvedDigest = approval.proposalDigest⟩,
        ⟨.companyMatches,
          record.company = chain.company && approval.company = chain.company.value⟩,
        ⟨.heightsOrdered, decided.height.any (· < at_)⟩,
        ⟨.signerAuthorised, signerAuthorisedAt s at_ signer⟩], some approval)

/-- A resolution's report, and the approval where there is one. -/
def resolutionReport (s : LocalChainStore) (located : LocatedTransaction) :
    Except ResolutionError (ResolutionVerificationV1 × Option ApprovalV1) :=
  match decodeResolution located.transaction with
  | none =>
    .ok (⟨located.transaction.id, located.height, none, [⟨.decodes, false⟩]⟩, none)
  | some record => do
    let (checks, approval) ←
      authorityChecks s record located.height located.transaction.signer
    return (⟨located.transaction.id, located.height, some record, ⟨.decodes, true⟩ :: checks⟩,
      approval)

/-- Verifies the resolution a transaction records. -/
def verifyResolution (s : LocalChainStore) (txId : TxId) :
    Except ResolutionError ResolutionVerificationV1 := do
  let located ← orError (s.getTransaction txId) (.noSuchTransaction txId)
  let (report, _) ← resolutionReport s located
  return report

omit [Platform] in
/-- Whether the amendment record's text contains the body the resolution carries. -/
def publishedBody (recordText body : Text) : Bool := contains recordText body

/-- The company record a transaction holds, with its text. -/
def amendmentOf (t : Transaction) : Option (Text × IrenaRecordV1) := do
  let text ← fromUtf8 t.payload
  let record ← (readRecord text).toOption
  return (text, record)

/-- Whether the body published is of a kind that a resolution can carry, and contains it. -/
def publishes (text : Text) (body : RecordBodyV1) (approvedBody : Text) : Bool :=
  match body with
  | .shareStructure _ => publishedBody text approvedBody
  | .decisionChannels _ => publishedBody text approvedBody
  | .identities _ => publishedBody text approvedBody
  | .authorisation _ => publishedBody text approvedBody
  | _ => false

/-- The demotion rule of a target between a company and a published body. -/
def demotionBetween (signer : VoterIdV1) (state : CompanyStateV1) (target : AmendmentTargetV1)
    (body : RecordBodyV1) : Except ResolutionError (Option SelfDemotionV1) :=
  match target, body with
  | .decisionChannels, .decisionChannels new => do
    let verdict ← selfDemotion signer state.channels.value new state.shares.value
      state.identities.value
    return some verdict
  | .identities, .identities new =>
    .ok (some (identityDemotion signer state.identities.value new))
  | .authorisation, .authorisation new =>
    .ok (some (authorisationDemotion signer state.authorisation.value new))
  | _, _ => .ok none

/-- The rule judged against the company just before the amendment's block. -/
def demotionVerdict (s : LocalChainStore) (actor : Text) (amendmentHeight : ℕ)
    (target : AmendmentTargetV1) (body : RecordBodyV1) :
    Except ResolutionError (Option SelfDemotionV1) := do
  ensure (amendmentHeight ≠ 0) (.chain .amendmentInGenesis)
  let state ← mapErr .ledger (reconstruct s (amendmentHeight - 1))
  let signer ← mapErr (fun e => .chain (.actorNotAVoter e)) (VoterIdV1.new actor)
  demotionBetween signer state target body

/-- Whether the demotion rule of the target holds, where one applies. -/
def demotionHolds (s : LocalChainStore) (approval : ApprovalV1) (amendmentHeight : ℕ)
    (target : AmendmentTargetV1) (body : RecordBodyV1) : Bool :=
  match approval.actor with
  | none => true
  | some actor =>
    match demotionVerdict s actor amendmentHeight target body with
    | .ok (some verdict) => verdict.holds
    | .ok none => true
    | .error _ => false

/-- Whether an amendment is part of the company at a height. -/
def applied (s : LocalChainStore) (height : ℕ) (execution : ResolutionExecutionV1) : Bool :=
  match reconstruct s height with
  | .ok state =>
    (state.historyOf execution.target.recordKind).any fun found =>
      found.txId = execution.amendmentTx
  | .error _ => false

/-- The checks of an amendment that is a record of the right kind and company. -/
def amendmentChecks (s : LocalChainStore) (located resolution amended : LocatedTransaction)
    (execution : ResolutionExecutionV1) (approval : ApprovalV1) (body : Text)
    (amendment : Text × IrenaRecordV1) : List (Check ExecutionCheckNameV1) :=
  let approved := approval.baseOf execution.target
  [⟨.amendmentMatchesResolution,
      publishes amendment.1 amendment.2.body body &&
        (proposalDigest body = execution.bodyDigest &&
          execution.bodyDigest = approval.proposalDigest)⟩,
    ⟨.amendmentReplacedApprovedBase,
      amendment.2.supersedes = some approved && execution.replacedTx = approved⟩,
    ⟨.selfDemotionHolds,
      demotionHolds s approval amended.height execution.target amendment.2.body⟩,
    ⟨.amendmentApplied, applied s located.height execution⟩,
    ⟨.heightsOrdered,
      resolution.height < amended.height && amended.height ≤ located.height⟩,
    ⟨.signerAuthorised, signerAuthorisedAt s located.height located.transaction.signer⟩,
    ⟨.executedOnce,
      (findExecution s execution.resolutionId.txId).any fun (found, _) =>
        found = located.transaction.id⟩]

/-- The checks of an execution whose resolution verifies. -/
def executionChecks (s : LocalChainStore) (located resolution : LocatedTransaction)
    (execution : ResolutionExecutionV1) (record : ResolutionRecordV1) (approval : ApprovalV1) :
    List (Check ExecutionCheckNameV1) :=
  match record.kind with
  | .declarative _ => [⟨.resolutionAuthorisesThis, false⟩]
  | .amendment target body =>
    if target ≠ execution.target then [⟨.resolutionAuthorisesThis, false⟩]
    else
      match s.getTransaction execution.amendmentTx with
      | none => [⟨.resolutionAuthorisesThis, true⟩, ⟨.amendmentExists, false⟩]
      | some amended =>
        match amendmentOf amended.transaction with
        | none => [⟨.resolutionAuthorisesThis, true⟩, ⟨.amendmentExists, false⟩]
        | some amendment =>
          if amendment.2.kind = execution.target.recordKind ∧
              amendment.2.company = record.company then
            [⟨.resolutionAuthorisesThis, true⟩, ⟨.amendmentExists, true⟩] ++
              amendmentChecks s located resolution amended execution approval body amendment
          else [⟨.resolutionAuthorisesThis, true⟩, ⟨.amendmentExists, false⟩]

/-- Verifies the execution a transaction records. -/
def verifyExecution (s : LocalChainStore) (txId : TxId) :
    Except ResolutionError ExecutionVerificationV1 := do
  let located ← orError (s.getTransaction txId) (.noSuchTransaction txId)
  match decodeExecution located.transaction with
  | none => return ⟨txId, located.height, none, [⟨.decodes, false⟩], none⟩
  | some execution =>
    match s.getTransaction execution.resolutionId.txId with
    | none =>
      return ⟨txId, located.height, some execution,
        [⟨.decodes, true⟩, ⟨.resolutionVerifies, false⟩], none⟩
    | some resolution => do
      let (report, approval) ← resolutionReport s resolution
      if !report.isValid then
        return ⟨txId, located.height, some execution,
          [⟨.decodes, true⟩, ⟨.resolutionVerifies, false⟩], some report⟩
      else do
        let record ← orError report.record .panicked
        let approval ← orError approval .panicked
        return ⟨txId, located.height, some execution,
          [⟨.decodes, true⟩, ⟨.resolutionVerifies, true⟩] ++
            executionChecks s located resolution execution record approval, some report⟩

end Irena.Resolution
