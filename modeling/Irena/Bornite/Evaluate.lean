import Irena.Bornite.Rules

/-! # Evaluating a vote

The algorithm in its fixed order: validation, exclusions, weights, ballots, quorum, tally,
denominator, threshold. Nothing is skipped when an earlier step decides the outcome. -/

namespace Irena.Bornite

open Irena.Library Irena.Library.Outcome Irena.Library.Strings

inductive BallotIssueV1 where
  | unknownVoter (voter : VoterIdV1)
  | excludedVoter (voter : VoterIdV1)
deriving DecidableEq

/-- Why no evaluation was produced; `panicked` stands for a failed internal expectation. -/
inductive EvaluationErrorV1 where
  | validation (error : ValidationErrorV1)
  | ballots (issues : Finset BallotIssueV1)
  | weightOverflow
  | panicked
deriving DecidableEq

structure ElectorateSummaryV1 where
  voterCount : ℕ
  excludedCount : ℕ
  effectiveVoterCount : ℕ
  totalWeight : WeightTotalV1
  effectiveWeight : WeightTotalV1
deriving DecidableEq

structure ParticipationV1 where
  ballotCount : ℕ
  weight : WeightTotalV1
  nonParticipantCount : ℕ
  nonParticipantWeight : WeightTotalV1
deriving DecidableEq

structure TallyV1 where
  yesWeight : WeightTotalV1
  noWeight : WeightTotalV1
  abstainWeight : WeightTotalV1
  yesCount : ℕ
  noCount : ℕ
  abstainCount : ℕ
deriving DecidableEq

inductive QuorumRequirementV1 where
  | none
  | absolute (weight : WeightV1)
  | fraction (fraction : FractionV1) (basis : QuorumBasisV1) (basisWeight : WeightTotalV1)
deriving DecidableEq

structure QuorumOutcomeV1 where
  requirement : QuorumRequirementV1
  actualWeight : WeightTotalV1
  met : Bool
deriving DecidableEq

inductive ComparisonV1 where
  | above
  | exactly
  | below
deriving DecidableEq

structure ThresholdOutcomeV1 where
  basis : ThresholdBasisV1
  denominatorWeight : WeightTotalV1
  requiredFraction : FractionV1
  abstentionsAffectedDenominator : Bool
  yesWeight : WeightTotalV1
  comparison : ComparisonV1
  met : Bool
deriving DecidableEq

inductive OutcomeV1 where
  | accepted
  | rejected
deriving DecidableEq

inductive ReasonCodeV1 where
  | thresholdMet
  | thresholdNotMet
  | tieAccepted
  | tieRejected
  | quorumNotMet
  | emptyThresholdBasis
deriving DecidableEq

def ReasonCodeV1.asStr : ReasonCodeV1 → Text
  | .thresholdMet => lit "threshold_met"
  | .thresholdNotMet => lit "threshold_not_met"
  | .tieAccepted => lit "tie_accepted"
  | .tieRejected => lit "tie_rejected"
  | .quorumNotMet => lit "quorum_not_met"
  | .emptyThresholdBasis => lit "empty_threshold_basis"

/-- The complete result of one vote. -/
structure VoteEvaluationV1 where
  version : ℕ
  rules : VotingRulesV1
  electorate : ElectorateSummaryV1
  participation : ParticipationV1
  tally : TallyV1
  quorum : QuorumOutcomeV1
  threshold : ThresholdOutcomeV1
  outcome : OutcomeV1
  reason : ReasonCodeV1
deriving DecidableEq

def VoteEvaluationV1.accepted (e : VoteEvaluationV1) : Bool := e.outcome = .accepted

def VERSION : ℕ := 1

def overflow (_ : CoreError) : EvaluationErrorV1 := .weightOverflow

def sumWeights (weights : List WeightV1) : Except EvaluationErrorV1 WeightTotalV1 :=
  mapErr overflow (WeightTotalV1.sum weights)

/-- Whether a voter remains after the exclusion rule. -/
def VotingRulesV1.isEffective (rules : VotingRulesV1) (voter : VoterV1) : Bool :=
  !(rules.exclusionsEnabled && voter.excluded)

def ballotIssue (rules : VotingRulesV1) (electorate : ElectorateV1) (ballot : BallotV1) :
    Option BallotIssueV1 :=
  match electorate.get ballot.voter with
  | none => some (.unknownVoter ballot.voter)
  | some voter => if rules.isEffective voter then none else some (.excludedVoter ballot.voter)

/-- The choice of a ballot and what its voter counts. -/
def ballotWeight (rules : VotingRulesV1) (electorate : ElectorateV1) (ballot : BallotV1) :
    Except EvaluationErrorV1 (ChoiceV1 × WeightV1) := do
  let voter ← orError (electorate.get ballot.voter) .panicked
  return (ballot.choice, rules.weightOf voter)

def QuorumRuleV1.requirement (rule : QuorumRuleV1) (total effective : WeightTotalV1) :
    QuorumRequirementV1 :=
  match rule with
  | .none => .none
  | .absolute weight => .absolute weight
  | .fraction share basis =>
    .fraction share basis
      (match basis with
        | .totalElectorate => total
        | .effectiveElectorate => effective)

def QuorumRequirementV1.met (requirement : QuorumRequirementV1) (participating : WeightTotalV1) :
    Bool :=
  match requirement with
  | .none => true
  | .absolute weight => weight.value ≤ participating.value
  | .fraction share _ basisWeight =>
    share.compareShare participating.value basisWeight.value != .lt

def TallyV1.empty : TallyV1 := ⟨.zero, .zero, .zero, 0, 0, 0⟩

/-- Adds one ballot to the bucket of its choice. -/
def TallyV1.add (tally : TallyV1) (ballot : ChoiceV1 × WeightV1) :
    Except EvaluationErrorV1 TallyV1 := do
  let (choice, weight) := ballot
  match choice with
  | .yes =>
    let yesWeight ← mapErr overflow (tally.yesWeight.checkedAdd weight)
    return { tally with yesWeight, yesCount := tally.yesCount + 1 }
  | .no =>
    let noWeight ← mapErr overflow (tally.noWeight.checkedAdd weight)
    return { tally with noWeight, noCount := tally.noCount + 1 }
  | .abstain =>
    let abstainWeight ← mapErr overflow (tally.abstainWeight.checkedAdd weight)
    return { tally with abstainWeight, abstainCount := tally.abstainCount + 1 }

/-- What the YES weight is measured against. -/
def VotingRulesV1.denominator (rules : VotingRulesV1) (tally : TallyV1)
    (participating effective total : WeightTotalV1) : Except EvaluationErrorV1 WeightTotalV1 :=
  match rules.threshold.basis with
  | .votesCast =>
    match rules.abstentions with
    | .excluded => mapErr overflow (tally.yesWeight.checkedAddTotal tally.noWeight)
    | .included => .ok participating
  | .effectiveElectorate => .ok effective
  | .totalElectorate => .ok total

def ComparisonV1.of : Ordering → ComparisonV1
  | .gt => .above
  | .eq => .exactly
  | .lt => .below

def verdict (quorumMet : Bool) (denominator : WeightTotalV1) (comparison : ComparisonV1)
    (tie : TieTreatmentV1) : OutcomeV1 × ReasonCodeV1 :=
  if !quorumMet then (.rejected, .quorumNotMet)
  else if denominator.isZero then (.rejected, .emptyThresholdBasis)
  else
    match comparison, tie with
    | .above, _ => (.accepted, .thresholdMet)
    | .below, _ => (.rejected, .thresholdNotMet)
    | .exactly, .accept => (.accepted, .tieAccepted)
    | .exactly, .reject => (.rejected, .tieRejected)

/-- Evaluates one vote. -/
def evaluate (rules : VotingRulesV1) (electorate : ElectorateV1) (ballots : BallotSetV1) :
    Except EvaluationErrorV1 VoteEvaluationV1 := do
  mapErr .validation (validate rules electorate)
  let totalWeight ← sumWeights (electorate.voters.map rules.weightOf)
  let effective := electorate.voters.filter rules.isEffective
  let effectiveWeight ← sumWeights (effective.map rules.weightOf)
  let issues := ballots.ballots.filterMap (ballotIssue rules electorate)
  ensure (issues = []) (.ballots issues.toFinset)
  let ballotWeights ← ballots.ballots.mapM (ballotWeight rules electorate)
  let participatingWeight ← sumWeights (ballotWeights.map Prod.snd)
  let ballotCount := ballots.ballots.length
  -- A difference below zero would abort the evaluation.
  ensure (ballotCount ≤ effective.length) .panicked
  let nonParticipantWeight ←
    orError (effectiveWeight.checkedSubTotal participatingWeight) .panicked
  let requirement := rules.quorum.requirement totalWeight effectiveWeight
  let quorumMet := requirement.met participatingWeight
  let tally ← ballotWeights.foldlM TallyV1.add TallyV1.empty
  let denominatorWeight ←
    rules.denominator tally participatingWeight effectiveWeight totalWeight
  let requiredFraction := rules.threshold.share
  let comparison := ComparisonV1.of
    (requiredFraction.compareShare tally.yesWeight.value denominatorWeight.value)
  let thresholdMet :=
    (match comparison with
      | .above => true
      | .below => false
      | .exactly => rules.tie == .accept) && !denominatorWeight.isZero
  let (outcome, reason) := verdict quorumMet denominatorWeight comparison rules.tie
  return {
    version := VERSION
    rules := rules
    electorate := {
      voterCount := electorate.voters.length
      excludedCount := electorate.voters.length - effective.length
      effectiveVoterCount := effective.length
      totalWeight := totalWeight
      effectiveWeight := effectiveWeight }
    participation := {
      ballotCount := ballotCount
      weight := participatingWeight
      nonParticipantCount := effective.length - ballotCount
      nonParticipantWeight := nonParticipantWeight }
    tally := tally
    quorum := ⟨requirement, participatingWeight, quorumMet⟩
    threshold := {
      basis := rules.threshold.basis
      denominatorWeight := denominatorWeight
      requiredFraction := requiredFraction
      abstentionsAffectedDenominator := rules.abstentionsAffectDenominator
      yesWeight := tally.yesWeight
      comparison := comparison
      met := thresholdMet }
    outcome := outcome
    reason := reason }

end Irena.Bornite
