import Irena.Decision.Verify

/-! # Votes: snapshot, ballots and the final record

The frozen electorate, the signed ballots that are checked against it, the commitment to them and
the record that is published. -/

namespace Irena.Vote

open Irena.Library Irena.Library.Outcome Irena.Library.Strings
open Irena.Core Irena.Bornite Irena.Prunella Irena.Ledger Irena.Decision

structure VoteIdV1 where
  hash : Hash
deriving DecidableEq, Inhabited

structure ElectorateEntryV1 where
  id : Text
  weight : U64
  excluded : Bool
  key : Option PublicKey
deriving DecidableEq

structure VoteSnapshotV1 where
  company : Text
  subject : Text
  proposalDigest : Hash
  height : ℕ
  genesisTxId : TxId
  sharesTxId : TxId
  channelsTxId : TxId
  identitiesTxId : TxId
  channel : Text
  electorate : List ElectorateEntryV1
deriving DecidableEq

def VoteIdV1.codec : Codec VoteIdV1 :=
  Hash.codec.iso VoteIdV1.hash VoteIdV1.mk (fun _ => rfl) fun _ => rfl

def ElectorateEntryV1.codec : Codec ElectorateEntryV1 :=
  (Codec.text.pair <| Codec.word64.pair <| Codec.bool.pair PublicKey.codec.option).iso
    (fun e => (e.id, e.weight, e.excluded, e.key)) (fun (i, w, x, k) => ⟨i, w, x, k⟩)
    (fun _ => rfl) fun _ => rfl

def VoteSnapshotV1.codec : Codec VoteSnapshotV1 :=
  (Codec.text.pair <| Codec.text.pair <| Hash.codec.pair <| Codec.u64.pair <| TxId.codec.pair <|
    TxId.codec.pair <| TxId.codec.pair <| TxId.codec.pair <| Codec.text.pair
    ElectorateEntryV1.codec.vec).iso
    (fun s => (s.company, s.subject, s.proposalDigest, s.height, s.genesisTxId, s.sharesTxId,
      s.channelsTxId, s.identitiesTxId, s.channel, s.electorate))
    (fun (c, s, p, h, g, sh, ch, i, n, e) => ⟨c, s, p, h, g, sh, ch, i, n, e⟩)
    (fun _ => rfl) fun _ => rfl

namespace VoteSnapshotV1

/-- The entry of a voter, found by halving in a list whose order nothing here establishes. -/
def entry (s : VoteSnapshotV1) (id : VoterIdV1) : Option ElectorateEntryV1 :=
  SortedTable.binarySearch ElectorateEntryV1.id id.value s.electorate

def voterOf (entry : ElectorateEntryV1) : Except Bornite.CoreError VoterV1 := do
  let id ← VoterIdV1.new entry.id
  let weight ← WeightV1.new entry.weight
  return ⟨id, weight, entry.excluded⟩

/-- The electorate as Bornite evaluates it. -/
def toElectorate (s : VoteSnapshotV1) : Except Bornite.CoreError ElectorateV1 := do
  let voters ← s.electorate.mapM voterOf
  ElectorateV1.new voters

end VoteSnapshotV1

/-- The frozen entry of an actor. -/
def entryOf (actor : ActorV1) : ElectorateEntryV1 :=
  ⟨actor.id.value, ⟨actor.weight.value, actor.weight.le⟩, false, actor.key⟩

inductive BallotChoiceV1 where
  | yes
  | no
  | abstain
deriving DecidableEq

def BallotChoiceV1.toBornite : BallotChoiceV1 → ChoiceV1
  | .yes => .yes
  | .no => .no
  | .abstain => .abstain

structure BallotBodyV1 where
  voteId : VoteIdV1
  voter : Text
  choice : BallotChoiceV1
deriving DecidableEq

structure SignedBallotV1 where
  body : BallotBodyV1
  signature : Signature
deriving DecidableEq

inductive BallotRejectionV1 where
  | wrongVote (expected found : VoteIdV1)
  | invalidVoter (error : Bornite.CoreError)
  | notInElectorate (voter : VoterIdV1)
  | excluded (voter : VoterIdV1)
  | noKey (voter : VoterIdV1)
  | badSignature (voter : VoterIdV1) (error : CryptoError)
  | alreadyVoted (voter : VoterIdV1)
deriving DecidableEq

def BallotChoiceV1.codec : Codec BallotChoiceV1 :=
  Codec.enum (fun | .yes => 0 | .no => 1 | .abstain => 2)
    (fun | 0 => some .yes | 1 => some .no | 2 => some .abstain | _ => none)
    (fun choice => by cases choice <;> rfl) fun {n choice} h => by
      split at h <;> first | (obtain rfl := Option.some.inj h; rfl) | cases h

def BallotBodyV1.codec : Codec BallotBodyV1 :=
  (VoteIdV1.codec.pair <| Codec.text.pair BallotChoiceV1.codec).iso
    (fun b => (b.voteId, b.voter, b.choice)) (fun (i, v, c) => ⟨i, v, c⟩) (fun _ => rfl) fun _ => rfl

def SignedBallotV1.codec : Codec SignedBallotV1 :=
  (BallotBodyV1.codec.pair Signature.codec).iso (fun b => (b.body, b.signature))
    (fun (b, s) => ⟨b, s⟩) (fun _ => rfl) fun _ => rfl

def commitmentTags : TreeTags where
  leaf := lit "IRENA/vote/v1/leaf"
  node := lit "IRENA/vote/v1/node"
  empty := lit "IRENA/vote/v1/empty"

inductive StoredOutcomeV1 where
  | accepted
  | rejected
deriving DecidableEq

inductive StoredComparisonV1 where
  | above
  | exactly
  | below
deriving DecidableEq

structure EvaluationSummaryV1 where
  outcome : StoredOutcomeV1
  reason : Text
  voterCount : ℕ
  excludedCount : ℕ
  effectiveVoterCount : ℕ
  totalWeight : ℕ
  effectiveWeight : ℕ
  ballotCount : ℕ
  participationWeight : ℕ
  nonParticipantCount : ℕ
  nonParticipantWeight : ℕ
  yesWeight : ℕ
  noWeight : ℕ
  abstainWeight : ℕ
  yesCount : ℕ
  noCount : ℕ
  abstainCount : ℕ
  quorumRequiredWeight : Option ℕ
  quorumActualWeight : ℕ
  quorumMet : Bool
  thresholdDenominatorWeight : ℕ
  thresholdNumerator : ℕ
  thresholdDenominator : ℕ
  abstentionsAffectedDenominator : Bool
  thresholdYesWeight : ℕ
  comparison : StoredComparisonV1
  thresholdMet : Bool
deriving DecidableEq

/-- The smallest weight that meets a requirement. -/
def requiredWeight : QuorumRequirementV1 → Option ℕ
  | .none => none
  | .absolute weight => some weight.value
  | .fraction fraction _ basisWeight =>
    let product := basisWeight.value * fraction.numerator
    some (min ((product + fraction.denominator - 1) / fraction.denominator) u64Max)

def EvaluationSummaryV1.of (e : VoteEvaluationV1) : EvaluationSummaryV1 where
  outcome := match e.outcome with
    | .accepted => .accepted
    | .rejected => .rejected
  reason := e.reason.asStr
  voterCount := e.electorate.voterCount
  excludedCount := e.electorate.excludedCount
  effectiveVoterCount := e.electorate.effectiveVoterCount
  totalWeight := e.electorate.totalWeight.value
  effectiveWeight := e.electorate.effectiveWeight.value
  ballotCount := e.participation.ballotCount
  participationWeight := e.participation.weight.value
  nonParticipantCount := e.participation.nonParticipantCount
  nonParticipantWeight := e.participation.nonParticipantWeight.value
  yesWeight := e.tally.yesWeight.value
  noWeight := e.tally.noWeight.value
  abstainWeight := e.tally.abstainWeight.value
  yesCount := e.tally.yesCount
  noCount := e.tally.noCount
  abstainCount := e.tally.abstainCount
  quorumRequiredWeight := requiredWeight e.quorum.requirement
  quorumActualWeight := e.quorum.actualWeight.value
  quorumMet := e.quorum.met
  thresholdDenominatorWeight := e.threshold.denominatorWeight.value
  thresholdNumerator := e.threshold.requiredFraction.numerator
  thresholdDenominator := e.threshold.requiredFraction.denominator
  abstentionsAffectedDenominator := e.threshold.abstentionsAffectedDenominator
  thresholdYesWeight := e.threshold.yesWeight.value
  comparison := match e.threshold.comparison with
    | .above => .above
    | .exactly => .exactly
    | .below => .below
  thresholdMet := e.threshold.met

def EvaluationSummaryV1.accepted (e : EvaluationSummaryV1) : Bool := e.outcome = .accepted

def StoredOutcomeV1.codec : Codec StoredOutcomeV1 :=
  Codec.enum (fun | .accepted => 0 | .rejected => 1)
    (fun | 0 => some .accepted | 1 => some .rejected | _ => none)
    (fun outcome => by cases outcome <;> rfl) fun {n outcome} h => by
      split at h <;> first | (obtain rfl := Option.some.inj h; rfl) | cases h

def StoredComparisonV1.codec : Codec StoredComparisonV1 :=
  Codec.enum (fun | .above => 0 | .exactly => 1 | .below => 2)
    (fun | 0 => some .above | 1 => some .exactly | 2 => some .below | _ => none)
    (fun comparison => by cases comparison <;> rfl) fun {n comparison} h => by
      split at h <;> first | (obtain rfl := Option.some.inj h; rfl) | cases h

/-- Everything after the outcome and its reason, in declaration order. -/
def EvaluationSummaryV1.codec : Codec EvaluationSummaryV1 :=
  (StoredOutcomeV1.codec.pair <| Codec.text.pair <| Codec.u64.pair <| Codec.u64.pair <|
    Codec.u64.pair <| Codec.u64.pair <| Codec.u64.pair <| Codec.u64.pair <| Codec.u64.pair <|
    Codec.u64.pair <| Codec.u64.pair <| Codec.u64.pair <| Codec.u64.pair <| Codec.u64.pair <|
    Codec.u64.pair <| Codec.u64.pair <| Codec.u64.pair <| Codec.u64.option.pair <|
    Codec.u64.pair <| Codec.bool.pair <| Codec.u64.pair <| Codec.u64.pair <| Codec.u64.pair <|
    Codec.bool.pair <| Codec.u64.pair <| StoredComparisonV1.codec.pair Codec.bool).iso
    (fun e => (e.outcome, e.reason, e.voterCount, e.excludedCount, e.effectiveVoterCount,
      e.totalWeight, e.effectiveWeight, e.ballotCount, e.participationWeight,
      e.nonParticipantCount, e.nonParticipantWeight, e.yesWeight, e.noWeight, e.abstainWeight,
      e.yesCount, e.noCount, e.abstainCount, e.quorumRequiredWeight, e.quorumActualWeight,
      e.quorumMet, e.thresholdDenominatorWeight, e.thresholdNumerator, e.thresholdDenominator,
      e.abstentionsAffectedDenominator, e.thresholdYesWeight, e.comparison, e.thresholdMet))
    (fun (outcome, reason, voterCount, excludedCount, effectiveVoterCount, totalWeight,
        effectiveWeight, ballotCount, participationWeight, nonParticipantCount,
        nonParticipantWeight, yesWeight, noWeight, abstainWeight, yesCount, noCount, abstainCount,
        quorumRequiredWeight, quorumActualWeight, quorumMet, thresholdDenominatorWeight,
        thresholdNumerator, thresholdDenominator, abstentionsAffectedDenominator,
        thresholdYesWeight, comparison, thresholdMet) =>
      { outcome, reason, voterCount, excludedCount, effectiveVoterCount, totalWeight,
        effectiveWeight, ballotCount, participationWeight, nonParticipantCount,
        nonParticipantWeight, yesWeight, noWeight, abstainWeight, yesCount, noCount, abstainCount,
        quorumRequiredWeight, quorumActualWeight, quorumMet, thresholdDenominatorWeight,
        thresholdNumerator, thresholdDenominator, abstentionsAffectedDenominator,
        thresholdYesWeight, comparison, thresholdMet })
    (fun _ => rfl) fun _ => rfl

def voteNamespace : Text := lit "irena.vote.v1"

def recordVersion : ℕ := 1

structure FinalVoteRecordV1 where
  version : ℕ
  voteId : VoteIdV1
  snapshot : VoteSnapshotV1
  ballotCommitment : Hash
  ballots : List SignedBallotV1
  evaluation : EvaluationSummaryV1
deriving DecidableEq

def FinalVoteRecordV1.codec : Codec FinalVoteRecordV1 :=
  (Codec.u16.pair <| VoteIdV1.codec.pair <| VoteSnapshotV1.codec.pair <| Hash.codec.pair <|
    SignedBallotV1.codec.vec.pair EvaluationSummaryV1.codec).iso
    (fun r => (r.version, r.voteId, r.snapshot, r.ballotCommitment, r.ballots, r.evaluation))
    (fun (v, i, s, c, b, e) => ⟨v, i, s, c, b, e⟩) (fun _ => rfl) fun _ => rfl

/-- Whether the ballots stand in strictly growing order of their voters. -/
def FinalVoteRecordV1.ballotsAreSorted (r : FinalVoteRecordV1) : Bool :=
  (r.ballots.zip r.ballots.tail).all fun (a, b) => a.body.voter < b.body.voter

/-- What a vote's id is the digest of. -/
def VoteSnapshotV1.idBytes (s : VoteSnapshotV1) : Bytes :=
  canonicalBytes (lit "IRENA/vote/v1/id") VoteSnapshotV1.codec s

variable [Platform]

def VoteSnapshotV1.id (s : VoteSnapshotV1) : VoteIdV1 := ⟨Platform.blake3 s.idBytes⟩

/-- A vote's id determines what was frozen, unless the snapshots are a collision. -/
theorem VoteSnapshotV1.eq_of_id_eq {s t : VoteSnapshotV1} (h : s.id = t.id) :
    s = t ∨ Collision s.idBytes t.idBytes :=
  hashCanonical_eq (congrArg VoteIdV1.hash h)

def BallotBodyV1.signingMessage (b : BallotBodyV1) : Hash :=
  hashCanonical (lit "IRENA/vote/v1/ballot-sign") BallotBodyV1.codec b

namespace SignedBallotV1

def sign (key : SigningKey) (voteId : VoteIdV1) (voter : VoterIdV1) (choice : BallotChoiceV1) :
    SignedBallotV1 :=
  let body : BallotBodyV1 := ⟨voteId, voter.value, choice⟩
  ⟨body, Platform.sign key body.signingMessage.asBytes⟩

def digest (b : SignedBallotV1) : Hash :=
  hashCanonical (lit "IRENA/vote/v1/ballot") SignedBallotV1.codec b

/-- Checks a ballot against a frozen vote, and answers whose it is. -/
def check (b : SignedBallotV1) (snapshot : VoteSnapshotV1) : Except BallotRejectionV1 VoterIdV1 := do
  ensure (b.body.voteId = snapshot.id) (.wrongVote snapshot.id b.body.voteId)
  let voter ← mapErr .invalidVoter (VoterIdV1.new b.body.voter)
  let entry ← orError (snapshot.entry voter) (.notInElectorate voter)
  ensure (entry.excluded = false) (.excluded voter)
  let key ← orError entry.key (.noKey voter)
  mapErr (.badSignature voter) (verifySignature key b.body.signingMessage.asBytes b.signature)
  return voter

end SignedBallotV1

def ballotCommitment (ballots : List SignedBallotV1) : Hash :=
  root commitmentTags (ballots.map SignedBallotV1.digest)

def FinalVoteRecordV1.assemble (snapshot : VoteSnapshotV1) (ballots : List SignedBallotV1)
    (evaluation : EvaluationSummaryV1) : FinalVoteRecordV1 :=
  ⟨recordVersion, snapshot.id, snapshot, Vote.ballotCommitment ballots, ballots, evaluation⟩

end Irena.Vote
