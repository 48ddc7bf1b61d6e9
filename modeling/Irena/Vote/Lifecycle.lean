import Irena.Vote.Record

/-! # The life of a vote

Draft, frozen, open, closed, evaluated, finalized. A vote freezes its channel's electorate at a
height; ballots are cast while it is open; the evaluation is rerun before the record is published. -/

namespace Irena.Vote

open Irena.Library Irena.Library.Outcome Irena.Library.Strings
open Irena.Core Irena.Bornite Irena.Prunella Irena.Prunella.LocalChainStore Irena.Ledger
open Irena.Decision

inductive VoteStatusV1 where
  | draft
  | frozen
  | open_
  | closed
  | evaluated
  | finalized
deriving DecidableEq

inductive VoteError where
  | invalidTransition (source : VoteStatusV1) (target : Text)
  | ballot (rejection : BallotRejectionV1)
  | ledger (error : LedgerError)
  | derivation (error : Bornite.CoreError)
  | decision (error : DecisionError)
  | notCollective (channel : Text)
  | evaluation (error : EvaluationErrorV1)
  | store (error : StoreError)
  | core (error : Prunella.CoreError)
  | missingHead (height : ℕ)
  | noSuchTransaction (txId : TxId)
  | channelsMoved (height : ℕ) (expected found : TxId)
  | company (error : IrenaError)
  | resultMismatch
  | panicked
deriving DecidableEq

/-- The ballots of a vote, by the text of their voter. -/
abbrev BallotBox := SortedTable (Prod.fst : Text × SignedBallotV1 → Text)

def BallotBox.ballots (box : BallotBox) : List SignedBallotV1 := box.entries.map Prod.snd

structure VoteV1 where
  status : VoteStatusV1
  company : Text
  subject : Text
  proposalDigest : Hash
  snapshot : Option VoteSnapshotV1
  box : BallotBox
  evaluation : Option EvaluationSummaryV1
  finalized : Option (TxId × ℕ)
deriving DecidableEq

structure FinalizedV1 where
  txId : TxId
  height : ℕ
  record : FinalVoteRecordV1
deriving DecidableEq

def borniteBallot (ballot : SignedBallotV1) : Except Bornite.CoreError BallotV1 := do
  let voter ← VoterIdV1.new ballot.body.voter
  return ⟨voter, ballot.body.choice.toBornite⟩

def borniteBallots (ballots : List SignedBallotV1) : Except VoteError BallotSetV1 := do
  let ballots ← mapErr .derivation (ballots.mapM borniteBallot)
  mapErr .derivation (BallotSetV1.new ballots)

/-- Bornite's evaluation of ballots for a frozen electorate. -/
def evaluateBallots (rules : VotingRulesV1) (snapshot : VoteSnapshotV1)
    (ballots : List SignedBallotV1) : Except VoteError VoteEvaluationV1 := do
  let electorate ← mapErr .derivation snapshot.toElectorate
  let ballots ← borniteBallots ballots
  mapErr .evaluation (evaluate rules electorate ballots)

variable [Platform]

namespace VoteV1

omit [Platform] in
def draft (subject : Text) (proposalDigest : Hash) : VoteV1 :=
  ⟨.draft, [], subject, proposalDigest, none, .empty, none, none⟩

def id (v : VoteV1) : Option VoteIdV1 := v.snapshot.map VoteSnapshotV1.id

omit [Platform] in
def expectStatus (v : VoteV1) (wanted : VoteStatusV1) (target : Text) : Except VoteError Unit :=
  ensure (v.status = wanted) (.invalidTransition v.status target)

/-- What a channel of a company freezes at a height. -/
def snapshotOf (v : VoteV1) (state : CompanyStateV1) (at_ : ℕ) (channel : ChannelIdV1)
    (resolved : ResolvedChannelV1) : VoteSnapshotV1 where
  company := state.company.value
  subject := v.subject
  proposalDigest := v.proposalDigest
  height := at_
  genesisTxId := state.genesisTxId
  sharesTxId := state.shares.txId
  channelsTxId := state.channels.txId
  identitiesTxId := state.identities.txId
  channel := channel.value
  electorate := resolved.actors.actors.map entryOf

/-- Pins the company at a height and the electorate of a collective channel. -/
def freeze (v : VoteV1) (s : LocalChainStore) (at_ : ℕ) (channel : ChannelIdV1) :
    Except VoteError VoteV1 := do
  v.expectStatus .draft (lit "freeze")
  let state ← mapErr .ledger (reconstruct s at_)
  let resolved ← mapErr .decision (resolveChannel state channel)
  ensure (resolved.rules ≠ none) (.notCollective channel.value)
  return { v with
    status := .frozen
    company := state.company.value
    snapshot := some (v.snapshotOf state at_ channel resolved) }

omit [Platform] in
def opens (v : VoteV1) : Except VoteError VoteV1 := do
  v.expectStatus .frozen (lit "open")
  return { v with status := .open_ }

/-- Accepts one ballot; a voter's second ballot is refused. -/
def cast (v : VoteV1) (ballot : SignedBallotV1) : Except VoteError VoteV1 := do
  v.expectStatus .open_ (lit "cast a ballot in")
  let snapshot ← orError v.snapshot .panicked
  let voter ← mapErr .ballot (ballot.check snapshot)
  ensure (v.box.get voter.value = none) (.ballot (.alreadyVoted voter))
  return { v with box := v.box.insert (voter.value, ballot) }

omit [Platform] in
def close (v : VoteV1) : Except VoteError VoteV1 := do
  v.expectStatus .open_ (lit "close")
  return { v with status := .closed }

/-- The evaluation of the ballots under the rules of the pinned channel. -/
def evaluateNow (v : VoteV1) (s : LocalChainStore) : Except VoteError VoteEvaluationV1 := do
  let snapshot ← orError v.snapshot .panicked
  let state ← mapErr .ledger (reconstruct s snapshot.height)
  ensure (state.channels.txId = snapshot.channelsTxId ∧ state.company.value = snapshot.company)
    (.channelsMoved snapshot.height snapshot.channelsTxId state.channels.txId)
  let channel ← mapErr .company (ChannelIdV1.new snapshot.channel)
  let resolved ← mapErr .decision (resolveChannel state channel)
  let rules ← orError resolved.rules (.notCollective snapshot.channel)
  evaluateBallots rules snapshot v.box.ballots

def evaluates (v : VoteV1) (s : LocalChainStore) : Except VoteError (VoteV1 × VoteEvaluationV1) := do
  v.expectStatus .closed (lit "evaluate")
  let evaluation ← v.evaluateNow s
  return ({ v with status := .evaluated, evaluation := some (.of evaluation) }, evaluation)

def finalRecord (v : VoteV1) : Except VoteError FinalVoteRecordV1 := do
  ensure (v.status = .evaluated ∨ v.status = .finalized)
    (.invalidTransition v.status (lit "build the final record of"))
  let snapshot ← orError v.snapshot .panicked
  let evaluation ← orError v.evaluation .panicked
  return .assemble snapshot v.box.ballots evaluation

def voteFaults : ChainFaults VoteError := ⟨.store, .core, .missingHead⟩

/-- The evaluation as the store is accessed. -/
def evaluatingNow (v : VoteV1) : ChainProgram VoteError VoteEvaluationV1 := do
  let snapshot ← Program.lift (orError v.snapshot .panicked)
  let state ← (reconstructing snapshot.height).mapError .ledger
  Program.lift do
    ensure (state.channels.txId = snapshot.channelsTxId ∧ state.company.value = snapshot.company)
      (.channelsMoved snapshot.height snapshot.channelsTxId state.channels.txId)
    let channel ← mapErr .company (ChannelIdV1.new snapshot.channel)
    let resolved ← mapErr .decision (resolveChannel state channel)
    let rules ← orError resolved.rules (.notCollective snapshot.channel)
    evaluateBallots rules snapshot v.box.ballots

/-- Reruns the evaluation and publishes the final record. -/
def finalize (v : VoteV1) (key : SigningKey) (timestampMillis : ℕ) :
    ChainProgram VoteError (VoteV1 × FinalizedV1) := do
  Program.lift (v.expectStatus .evaluated (lit "finalize"))
  let rerun ← v.evaluatingNow
  Program.lift (ensure (some (EvaluationSummaryV1.of rerun) = v.evaluation) .resultMismatch)
  let now ← readCompanyNow.mapError .ledger
  let _ ← Program.lift (mapErr .ledger (authorisedSigner now .governance (Platform.publicKey key)))
  let record ← Program.lift v.finalRecord
  let (txId, height) ← appendTransaction voteFaults key voteNamespace
    (FinalVoteRecordV1.codec.encode record) timestampMillis
  return ({ v with status := .finalized, finalized := some (txId, height) }, ⟨txId, height, record⟩)

@[simp] theorem run_evaluatingNow (v : VoteV1) (s : LocalChainStore) :
    v.evaluatingNow.run s = (v.evaluateNow s, s) := by
  unfold evaluatingNow evaluateNow
  cases v.snapshot with
  | none => rfl
  | some snapshot =>
    simp only [orError_some, Program.run_bind, Program.run_lift, Program.run_mapError,
      run_reconstructing, ok_bind]
    cases reconstruct s snapshot.height <;> rfl

end VoteV1

end Irena.Vote
