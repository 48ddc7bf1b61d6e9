import Irena.Bornite.Specification

/-! # Which votes can be counted

An electorate whose weights fit in a total can be counted under the rules exactly when the rules are
valid for it. No set of its ballots makes the count fail. -/

namespace Irena.Bornite

open Irena.Library Irena.Library.Outcome

variable {rules : VotingRulesV1} {electorate : ElectorateV1} {ballots : BallotSetV1}

/-- Rules that are valid for an electorate count each voter at the weight it has there. -/
theorem weightOf_of_validate (h : validate rules electorate = .ok ()) :
    ∀ voter ∈ electorate.voters, rules.weightOf voter = voter.weight := by
  intro voter hvoter
  unfold VotingRulesV1.weightOf
  cases hrule : rules.weight with
  | electorate => rfl
  | equal =>
    by_contra hne
    exact validate_eq_ok_iff.mp h (.contradictoryWeight voter.id voter.weight)
      ⟨hrule, fun heq => hne heq.symm, voter, hvoter, rfl, rfl⟩

/-- Ballots of voters who are listed and not excluded are not refused. -/
theorem not_refuses (hincluded : ∀ voter ∈ electorate.voters, voter.excluded = false)
    (hballots : ∀ b ∈ ballots.ballots, (electorate.get b.voter).isSome = true)
    (issue : BallotIssueV1) : ¬ Refuses rules electorate ballots issue := by
  cases issue with
  | unknownVoter id =>
    rintro ⟨⟨b, hb, rfl⟩, hunknown⟩
    obtain ⟨voter, hvoter⟩ := Option.isSome_iff_exists.mp (hballots b hb)
    obtain ⟨hmem, hid⟩ := SortedTable.get_eq_some.mp hvoter
    exact hunknown voter hmem hid
  | excludedVoter id =>
    rintro ⟨-, -, voter, hvoter, -, hexcluded⟩
    rw [hincluded voter hvoter] at hexcluded
    cases hexcluded

/-- An electorate without exclusions whose weights fit in a total can be counted, whatever its
ballots, exactly when the rules are valid for it. -/
theorem evaluate_isOk_iff (hincluded : ∀ voter ∈ electorate.voters, voter.excluded = false)
    (htotal : (electorate.voters.map fun voter => voter.weight.value).sum ≤ u64Max)
    (hballots : ∀ b ∈ ballots.ballots, (electorate.get b.voter).isSome = true) :
    (∃ evaluation, evaluate rules electorate ballots = .ok evaluation) ↔
      validate rules electorate = .ok () := by
  constructor
  · rintro ⟨evaluation, h⟩
    cases hvalid : validate rules electorate with
    | ok => rfl
    | error e => simp only [evaluate, hvalid, mapErr, error_bind, reduceCtorEq] at h
  · intro hvalid
    have hweigh : rules.weigh electorate.voters =
        (electorate.voters.map fun voter => voter.weight.value).sum :=
      congrArg List.sum (List.map_congr_left fun voter hvoter =>
        congrArg WeightV1.value (weightOf_of_validate hvalid voter hvoter))
    obtain ⟨report, hreport, -⟩ := @evaluate_of_countable rules electorate ballots
      ⟨validate_eq_ok_iff.mp hvalid, hweigh.le.trans htotal, not_refuses hincluded hballots⟩
    exact ⟨report, hreport⟩

end Irena.Bornite
