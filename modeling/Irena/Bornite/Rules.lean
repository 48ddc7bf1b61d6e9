import Irena.Bornite.Core
import Mathlib.Data.Finset.Dedup

/-! # Voting rules

The typed rules of one vote, and the contradictions between rules and the electorate they are to be
applied to. A report of issues is a set: the source sorts it and drops repetitions. -/

namespace Irena.Bornite

open Irena.Library Irena.Library.Outcome

inductive WeightRuleV1 where
  | equal
  | electorate
deriving DecidableEq

inductive QuorumBasisV1 where
  | totalElectorate
  | effectiveElectorate
deriving DecidableEq

inductive QuorumRuleV1 where
  | none
  | absolute (weight : WeightV1)
  | fraction (fraction : FractionV1) (basis : QuorumBasisV1)
deriving DecidableEq

inductive ThresholdBasisV1 where
  | votesCast
  | effectiveElectorate
  | totalElectorate
deriving DecidableEq

inductive ThresholdRuleV1 where
  | simpleMajority (basis : ThresholdBasisV1)
  | fraction (fraction : FractionV1) (basis : ThresholdBasisV1)
deriving DecidableEq

def ThresholdRuleV1.share : ThresholdRuleV1 → FractionV1
  | .simpleMajority _ => FractionV1.half
  | .fraction share _ => share

def ThresholdRuleV1.basis : ThresholdRuleV1 → ThresholdBasisV1
  | .simpleMajority basis => basis
  | .fraction _ basis => basis

inductive AbstentionTreatmentV1 where
  | excluded
  | included
deriving DecidableEq

inductive TieTreatmentV1 where
  | reject
  | accept
deriving DecidableEq

/-- A complete set of voting rules. -/
structure VotingRulesV1 where
  weight : WeightRuleV1
  exclusionsEnabled : Bool
  quorum : QuorumRuleV1
  threshold : ThresholdRuleV1
  abstentions : AbstentionTreatmentV1
  tie : TieTreatmentV1
deriving DecidableEq

def VotingRulesV1.abstentionsAffectDenominator (rules : VotingRulesV1) : Bool :=
  rules.threshold.basis = .votesCast

/-- What a voter counts under the weight rule. -/
def VotingRulesV1.weightOf (rules : VotingRulesV1) (voter : VoterV1) : WeightV1 :=
  match rules.weight with
  | .equal => WeightV1.one
  | .electorate => voter.weight

inductive RuleName where
  | quorum
  | threshold
deriving DecidableEq

inductive ValidationIssueV1 where
  | contradictoryWeight (voter : VoterIdV1) (weight : WeightV1)
  | contradictoryExclusion (voter : VoterIdV1)
  | unachievableQuorum (required : WeightV1) (total : WeightTotalV1)
  | improperFraction (rule : RuleName) (fraction : FractionV1)
  | weightOverflow
deriving DecidableEq

structure ValidationErrorV1 where
  issues : Finset ValidationIssueV1
deriving DecidableEq

def fractionIssues (rules : VotingRulesV1) : List ValidationIssueV1 :=
  (match rules.quorum with
    | .fraction fraction _ =>
      if fraction.isProportion then [] else [.improperFraction .quorum fraction]
    | _ => []) ++
  match rules.threshold with
    | .fraction fraction _ =>
      if fraction.isProportion then [] else [.improperFraction .threshold fraction]
    | _ => []

def voterIssues (rules : VotingRulesV1) (voter : VoterV1) : List ValidationIssueV1 :=
  (if rules.weight = .equal ∧ voter.weight ≠ WeightV1.one then
    [.contradictoryWeight voter.id voter.weight] else []) ++
  if !rules.exclusionsEnabled ∧ voter.excluded then [.contradictoryExclusion voter.id] else []

def quorumIssues (rules : VotingRulesV1) (electorate : ElectorateV1) : List ValidationIssueV1 :=
  match rules.quorum with
  | .absolute required =>
    match WeightTotalV1.sum (electorate.voters.map rules.weightOf) with
    | .ok total =>
      if total.value < required.value then [.unachievableQuorum required total] else []
    | .error _ => [.weightOverflow]
  | _ => []

/-- Checks a rule set against the electorate it will be applied to. -/
def validate (rules : VotingRulesV1) (electorate : ElectorateV1) : Except ValidationErrorV1 Unit :=
  let issues := fractionIssues rules ++ electorate.voters.flatMap (voterIssues rules) ++
    quorumIssues rules electorate
  ensure (issues = []) ⟨issues.toFinset⟩

end Irena.Bornite
