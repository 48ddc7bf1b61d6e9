import Irena.Bornite.Monotone

/-! # The order of voters and ballots

An electorate and a ballot set are built from lists, and a vote is counted over what was built. The
order of neither list is seen again. -/

namespace Irena.Bornite

open Irena.Library Irena.Library.Outcome

/-- Why a vote given by its lists was not counted. -/
inductive VoteErrorV1 where
  | construction (error : CoreError)
  | evaluation (error : EvaluationErrorV1)
deriving DecidableEq

/-- Builds the electorate and the ballot set and counts the vote. -/
def evaluateLists (rules : VotingRulesV1) (voters : List VoterV1) (ballots : List BallotV1) :
    Except VoteErrorV1 VoteEvaluationV1 := do
  let electorate ← mapErr .construction (ElectorateV1.new voters)
  let ballots ← mapErr .construction (BallotSetV1.new ballots)
  mapErr .evaluation (evaluate rules electorate ballots)

/-- Neither the order of the voters nor that of the ballots matters to a count: what is built, what
is reported and what is refused stay the same. -/
theorem evaluateLists_perm (rules : VotingRulesV1) {voters voters' : List VoterV1}
    {ballots ballots' : List BallotV1} (hvoters : voters.Perm voters')
    (hballots : ballots.Perm ballots') :
    ElectorateV1.new voters = ElectorateV1.new voters' ∧
      BallotSetV1.new ballots = BallotSetV1.new ballots' ∧
        evaluateLists rules voters ballots = evaluateLists rules voters' ballots' := by
  have helectorate : ElectorateV1.new voters = ElectorateV1.new voters' := by
    rw [ElectorateV1.new, ElectorateV1.new, SortedTable.ofList_perm hvoters]
  have hset : BallotSetV1.new ballots = BallotSetV1.new ballots' := by
    rw [BallotSetV1.new, BallotSetV1.new, SortedTable.ofList_perm hballots]
  refine ⟨helectorate, hset, ?_⟩
  rw [evaluateLists, evaluateLists, helectorate, hset]

theorem evaluateLists_perm_swap :
    evaluateLists plainMajority [firstVoter, secondVoter]
        [⟨firstVoter.id, .yes⟩, ⟨secondVoter.id, .no⟩] =
      evaluateLists plainMajority [secondVoter, firstVoter]
        [⟨secondVoter.id, .no⟩, ⟨firstVoter.id, .yes⟩] :=
  (evaluateLists_perm _ (.swap ..) (.swap ..)).2.2

end Irena.Bornite
