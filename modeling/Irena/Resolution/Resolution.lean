import Irena.Meeting.Verify

/-! # Resolutions: kinds, authority, approval and refusals

A resolution records a document or carries the body of an amendment, and rests on a meeting's vote
or on an individual decision. -/

namespace Irena.Resolution

open Irena.Library Irena.Library.Outcome Irena.Library.Strings Irena.Library.Utf8
open Irena.Core Irena.Bornite Irena.Prunella Irena.Ledger Irena.Decision Irena.Vote Irena.Meeting

structure ResolutionIdV1 where
  txId : TxId
deriving DecidableEq

inductive AmendmentTargetV1 where
  | shareStructure
  | decisionChannels
  | identities
  | authorisation
deriving DecidableEq

namespace AmendmentTargetV1

def all : List AmendmentTargetV1 := [shareStructure, decisionChannels, identities, authorisation]

def recordKind : AmendmentTargetV1 → RecordKindV1
  | shareStructure => .shareStructure
  | decisionChannels => .decisionChannels
  | identities => .identities
  | authorisation => .authorisation

def asStr : AmendmentTargetV1 → Text
  | shareStructure => lit "share-structure"
  | decisionChannels => lit "decision-channels"
  | identities => lit "identities"
  | authorisation => lit "authorisation"

def parse (text : Text) : Option AmendmentTargetV1 := all.find? fun target => target.asStr == text

@[simp] theorem parse_asStr (target : AmendmentTargetV1) : parse target.asStr = some target := by
  cases target <;> decide

theorem recordKind_ne (target : AmendmentTargetV1) : target.recordKind ≠ .companyGenesis := by
  cases target <;> decide

theorem recordKind_injective : Function.Injective recordKind := by
  intro a b
  cases a <;> cases b <;> decide

end AmendmentTargetV1

inductive ResolutionKindV1 where
  | declarative (documentDigest : Hash)
  | amendment (target : AmendmentTargetV1) (body : Text)
deriving DecidableEq

/-- The digest a channel decides on for an amendment body. -/
def proposalDigest [Platform] (body : Text) : Hash :=
  hashDomain (lit "IRENA/resolution/v1/proposal") (utf8 (normaliseBody body))

namespace ResolutionKindV1

def asStr : ResolutionKindV1 → Text
  | declarative _ => lit "declarative"
  | amendment _ _ => lit "amendment"

def approvedDigest [Platform] : ResolutionKindV1 → Hash
  | declarative digest => digest
  | amendment _ body => proposalDigest body

def target : ResolutionKindV1 → Option AmendmentTargetV1
  | declarative _ => none
  | amendment target _ => some target

def body : ResolutionKindV1 → Option Text
  | declarative _ => none
  | amendment _ body => some body

end ResolutionKindV1

inductive ResolutionStatusV1 where
  | draft
  | finalized
  | executed
deriving DecidableEq

inductive AuthorityV1 where
  | collective (channel : Text) (meetingTx : TxId) (itemNumber : ℕ) (voteTx : TxId)
  | individual (channel : Text) (decisionTx : TxId)
deriving DecidableEq

def AuthorityV1.channel : AuthorityV1 → Text
  | .collective channel _ _ _ => channel
  | .individual channel _ => channel

/-- What an authority established on the chain. -/
structure ApprovalV1 where
  channel : Text
  actor : Option Text
  company : Text
  proposalDigest : Hash
  height : ℕ
  sharesTxId : TxId
  channelsTxId : TxId
  identitiesTxId : TxId
  authorisationTxId : TxId
  throughTx : TxId
deriving DecidableEq

/-- The record approved for replacement. -/
def ApprovalV1.baseOf (a : ApprovalV1) : AmendmentTargetV1 → TxId
  | .shareStructure => a.sharesTxId
  | .decisionChannels => a.channelsTxId
  | .identities => a.identitiesTxId
  | .authorisation => a.authorisationTxId

/-- The approval a vote gives through a channel. -/
def ApprovalV1.ofVote (channel : Text) (voteTx : TxId) (snapshot : VoteSnapshotV1)
    (frozen : CompanyStateV1) : ApprovalV1 where
  channel := channel
  actor := none
  company := snapshot.company
  proposalDigest := snapshot.proposalDigest
  height := snapshot.height
  sharesTxId := snapshot.sharesTxId
  channelsTxId := snapshot.channelsTxId
  identitiesTxId := snapshot.identitiesTxId
  authorisationTxId := frozen.authorisation.txId
  throughTx := voteTx

/-- The approval a decision gives through a channel. -/
def ApprovalV1.ofDecision (channel : Text) (decisionTx : TxId) (snapshot : DecisionSnapshotV1)
    (frozen : CompanyStateV1) : ApprovalV1 where
  channel := channel
  actor := some snapshot.actor
  company := snapshot.company
  proposalDigest := snapshot.proposalDigest
  height := snapshot.height
  sharesTxId := snapshot.sharesTxId
  channelsTxId := snapshot.channelsTxId
  identitiesTxId := snapshot.identitiesTxId
  authorisationTxId := frozen.authorisation.txId
  throughTx := decisionTx

/-- What a demotion rule found, by the part amended. -/
inductive DemotionDetail where
  | seats (gained changed kept givenUp : List ChannelIdV1)
  | identities (changed removed added : List VoterIdV1)
  | families (gained kept givenUp : List RecordFamilyV1)
deriving DecidableEq

inductive ResolutionChain where
  | missingHead (height : ℕ)
  | resolutionNotReadBack
  | executionNotReadBack
  | channelNotInForce (channel : ChannelIdV1) (height : ℕ)
  | actorNotAVoter (error : Bornite.CoreError)
  | amendmentInGenesis
deriving DecidableEq

inductive ResolutionError where
  | invalidTransition (source : ResolutionStatusV1) (target : Text)
  | nothingToExecute
  | meetingUnverified (meetingTx : TxId) (failed : List MeetingCheckNameV1)
  | noSuchVoteItem (meetingTx : TxId) (itemNumber : ℕ)
  | wrongVote (meetingTx : TxId) (itemNumber : ℕ) (expected found : TxId)
  | voteUnverified (voteTx : TxId) (failed : List CheckNameV1)
  | decisionUnverified (decisionTx : TxId) (failed : List DecisionCheckNameV1)
  | wrongChannel (expected found : Text) (through : TxId)
  | outOfScope (channel : Text) (target : AmendmentTargetV1) (allowed : Option ChannelScopeV1)
  | selfPromotion (channel actor : Text) (detail : DemotionDetail)
  | voteRejected (voteTx : TxId) (reason : Text)
  | proposalMismatch (expected found : Hash)
  | companyMismatch (expected found : Text)
  | staleBase (target : AmendmentTargetV1) (approved current : TxId)
  | alreadyExecuted (resolutionTx executionTx : TxId) (height : ℕ)
  | meeting (error : MeetingError)
  | vote (error : VoteError)
  | decision (error : DecisionError)
  | ledger (error : LedgerError)
  | record (error : IrenaError)
  | store (error : StoreError)
  | core (error : Prunella.CoreError)
  | noSuchTransaction (txId : TxId)
  | chain (detail : ResolutionChain)
  | panicked
deriving DecidableEq

end Irena.Resolution
