import Irena.Vote.Lifecycle

/-! # Verifying a vote

Every check of a final vote record, judged from the chain and the record alone. -/

namespace Irena.Vote

open Irena.Library Irena.Library.Outcome Irena.Library.Strings
open Irena.Core Irena.Bornite Irena.Prunella Irena.Prunella.LocalChainStore Irena.Ledger
open Irena.Decision

inductive CheckNameV1 where
  | decodes
  | voteIdDerives
  | snapshotPrecedesRecord
  | recordsResolve
  | signerAuthorised
  | channelIsCollective
  | electorateDerives
  | ballotsVerify
  | ballotsOrdered
  | commitmentDerives
  | resultReproduces
deriving DecidableEq

structure VerificationV1 where
  txId : TxId
  height : ℕ
  record : Option FinalVoteRecordV1
  checks : List (Check CheckNameV1)
deriving DecidableEq

def VerificationV1.isValid (v : VerificationV1) : Bool := allPassed v.checks

variable [Platform]

/-- The record of a transaction, where it is a canonical one of the version and namespace. -/
def decodeVote (t : Transaction) : Option FinalVoteRecordV1 := do
  guard (t.namespace_.value = voteNamespace)
  let record ← FinalVoteRecordV1.codec.read t.payload
  guard (record.version = recordVersion)
  guard (FinalVoteRecordV1.codec.encode record = t.payload)
  return record

/-- The company at the snapshot's height, where the snapshot names it. -/
def voteState (s : LocalChainStore) (snapshot : VoteSnapshotV1) : Option CompanyStateV1 :=
  match CompanyIdV1.new snapshot.company, reconstruct s snapshot.height with
  | .ok company, .ok state => if state.company = company then some state else none
  | _, _ => none

def VoteSnapshotV1.pins (snapshot : VoteSnapshotV1) (state : CompanyStateV1) : Bool :=
  state.genesisTxId = snapshot.genesisTxId && state.shares.txId = snapshot.sharesTxId &&
    state.channels.txId = snapshot.channelsTxId && state.identities.txId = snapshot.identitiesTxId

/-- What the snapshot's channel resolves to, where it is a collective one. -/
def voteChannel (state : CompanyStateV1) (snapshot : VoteSnapshotV1) :
    Option (ResolvedChannelV1 × VotingRulesV1) :=
  match ChannelIdV1.new snapshot.channel with
  | .error _ => none
  | .ok channel =>
    match resolveChannel state channel with
    | .error _ => none
    | .ok resolved => resolved.rules.map fun rules => (resolved, rules)

/-- The checks of the channel: that it is collective, and that its actors are the electorate. -/
def channelChecks (state : CompanyStateV1) (snapshot : VoteSnapshotV1) : List (Check CheckNameV1) :=
  match voteChannel state snapshot with
  | none => [⟨.channelIsCollective, false⟩]
  | some (resolved, _) =>
    [⟨.channelIsCollective, true⟩,
      ⟨.electorateDerives, resolved.actors.actors.map entryOf = snapshot.electorate⟩]

def ballotChecks (record : FinalVoteRecordV1) : List (Check CheckNameV1) :=
  [⟨.ballotsVerify, record.ballots.all fun ballot =>
      match ballot.check record.snapshot with
      | .ok _ => true
      | .error _ => false⟩,
    ⟨.ballotsOrdered, record.ballotsAreSorted⟩,
    ⟨.commitmentDerives, ballotCommitment record.ballots = record.ballotCommitment⟩]

/-- The rerun of the evaluation; without rules there is nothing to rerun. -/
def resultChecks (state : CompanyStateV1) (record : FinalVoteRecordV1) : List (Check CheckNameV1) :=
  match voteChannel state record.snapshot with
  | none => []
  | some (_, rules) =>
    [⟨.resultReproduces,
      match evaluateBallots rules record.snapshot record.ballots with
      | .ok evaluation => EvaluationSummaryV1.of evaluation = record.evaluation
      | .error _ => false⟩]

def voteChecks (s : LocalChainStore) (located : LocatedTransaction) (record : FinalVoteRecordV1) :
    List (Check CheckNameV1) :=
  [⟨.voteIdDerives, record.snapshot.id = record.voteId⟩,
    ⟨.snapshotPrecedesRecord, record.snapshot.height < located.height⟩] ++
  match voteState s record.snapshot with
  | none => [⟨.recordsResolve, false⟩]
  | some state =>
    if !record.snapshot.pins state then [⟨.recordsResolve, false⟩]
    else
      [⟨.recordsResolve, true⟩,
        ⟨.signerAuthorised, signerAuthorisedAt s located.height located.transaction.signer⟩] ++
      channelChecks state record.snapshot ++ ballotChecks record ++ resultChecks state record

/-- Verifies the vote a transaction records. -/
def verify (s : LocalChainStore) (txId : TxId) : Except VoteError VerificationV1 := do
  let located ← orError (s.getTransaction txId) (.noSuchTransaction txId)
  match decodeVote located.transaction with
  | none => return ⟨txId, located.height, none, [⟨.decodes, false⟩]⟩
  | some record =>
    return ⟨txId, located.height, some record, ⟨.decodes, true⟩ :: voteChecks s located record⟩

end Irena.Vote
