import Irena.Decision.Decision
import Irena.Library.Report

/-! # Verifying a decision

Every check of the record a transaction holds, judged from the chain alone. A check that leaves the
later ones nothing to judge ends the report. -/

namespace Irena.Decision

open Irena.Library Irena.Library.Outcome Irena.Library.Strings
open Irena.Core Irena.Bornite Irena.Prunella Irena.Prunella.LocalChainStore Irena.Ledger

inductive DecisionCheckNameV1 where
  | decodes
  | decisionIdDerives
  | snapshotPrecedesRecord
  | recordsResolve
  | signerAuthorised
  | channelIsIndividual
  | actorResolves
  | signatureVerifies
deriving DecidableEq

structure DecisionVerificationV1 where
  txId : TxId
  height : ℕ
  record : Option FinalDecisionRecordV1
  checks : List (Check DecisionCheckNameV1)
deriving DecidableEq

def DecisionVerificationV1.isValid (v : DecisionVerificationV1) : Bool := allPassed v.checks

variable [Platform]

/-- Whether a key was a governance signer's in the company at a height. -/
def signerAuthorisedAt (s : LocalChainStore) (height : ℕ) (signer : PublicKey) : Bool :=
  match reconstruct s height with
  | .ok state =>
    match authorisedSigner state .governance signer with
    | .ok _ => true
    | .error _ => false
  | .error _ => false

/-- The record of a transaction, where it is a canonical one of the version and namespace. -/
def decodeDecision (t : Transaction) : Option FinalDecisionRecordV1 := do
  guard (t.namespace_.value = decisionNamespace)
  let record ← FinalDecisionRecordV1.codec.read t.payload
  guard (record.version = recordVersion)
  guard (FinalDecisionRecordV1.codec.encode record = t.payload)
  return record

/-- The company at the snapshot's height, where the snapshot names it and its labels are valid. -/
def decisionState (s : LocalChainStore) (snapshot : DecisionSnapshotV1) :
    Option (ChannelIdV1 × CompanyStateV1) :=
  match CompanyIdV1.new snapshot.company, ChannelIdV1.new snapshot.channel,
    reconstruct s snapshot.height with
  | .ok company, .ok channel, .ok state =>
    if state.company = company then some (channel, state) else none
  | _, _, _ => none

def DecisionSnapshotV1.pins (snapshot : DecisionSnapshotV1) (state : CompanyStateV1) : Bool :=
  state.genesisTxId = snapshot.genesisTxId && state.shares.txId = snapshot.sharesTxId &&
    state.channels.txId = snapshot.channelsTxId && state.identities.txId = snapshot.identitiesTxId

/-- The checks of the channel: that it is individual, and that its actor is the frozen one. -/
def actorChecks (state : CompanyStateV1) (channel : ChannelIdV1) (snapshot : DecisionSnapshotV1) :
    List (Check DecisionCheckNameV1) :=
  match resolveChannel state channel with
  | .error _ => [⟨.channelIsIndividual, false⟩]
  | .ok resolved =>
    match resolved.soleActor with
    | none => [⟨.channelIsIndividual, false⟩]
    | some actor =>
      [⟨.channelIsIndividual, true⟩,
        ⟨.actorResolves, actor.id.value = snapshot.actor && actor.key = some snapshot.key⟩]

def decisionChecks (s : LocalChainStore) (located : LocatedTransaction)
    (record : FinalDecisionRecordV1) : List (Check DecisionCheckNameV1) :=
  [⟨.decisionIdDerives, record.snapshot.id = record.decisionId⟩,
    ⟨.snapshotPrecedesRecord, record.snapshot.height < located.height⟩] ++
  match decisionState s record.snapshot with
  | none => [⟨.recordsResolve, false⟩]
  | some (channel, state) =>
    if !record.snapshot.pins state then [⟨.recordsResolve, false⟩]
    else
      [⟨.recordsResolve, true⟩,
        ⟨.signerAuthorised, signerAuthorisedAt s located.height located.transaction.signer⟩] ++
      actorChecks state channel record.snapshot ++
      [⟨.signatureVerifies, record.checkSignature = .ok ()⟩]

/-- Verifies the decision a transaction records. -/
def verifyDecision (s : LocalChainStore) (txId : TxId) :
    Except DecisionError DecisionVerificationV1 := do
  let located ← orError (s.getTransaction txId) (.noSuchTransaction txId)
  match decodeDecision located.transaction with
  | none => return ⟨txId, located.height, none, [⟨.decodes, false⟩]⟩
  | some record =>
    return ⟨txId, located.height, some record, ⟨.decodes, true⟩ :: decisionChecks s located record⟩

end Irena.Decision
