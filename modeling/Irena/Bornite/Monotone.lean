import Irena.Bornite.Specification
import Mathlib.Logic.Relation
import Mathlib.Tactic.Linarith

/-! # More support

A YES ballot of a voter who had none, or in place of another, never defeats a motion. -/

namespace Irena.Bornite

open Irena.Library Irena.Library.Strings

/-- The YES weight gains `gain`, partly from the weights already cast. -/
structure Weighing.Gains (w w' : Weighing) (gain : ℕ) : Prop where
  total : w'.total = w.total
  effective : w'.effective = w.effective
  yes : w'.yes = w.yes + gain
  participating : w.participating ≤ w'.participating ∧ w'.participating ≤ w.participating + gain
  cast : w.yes + w.no ≤ w'.yes + w'.no ∧ w'.yes + w'.no ≤ w.yes + w.no + gain

namespace Weighing

variable {w w' : Weighing} {gain : ℕ} {rules : VotingRulesV1}

theorem Gains.quorumReached (h : w.Gains w' gain) {rule : QuorumRuleV1}
    (hreached : w.QuorumReached rule) : w'.QuorumReached rule := by
  cases rule with
  | none => trivial
  | absolute weight => exact le_trans hreached h.participating.1
  | fraction share basis =>
    have hbasis : w'.quorumBasis basis = w.quorumBasis basis := by
      cases basis
      · exact h.total
      · exact h.effective
    simp only [QuorumReached, hbasis] at hreached ⊢
    exact hreached.trans (Nat.cast_le.mpr h.participating.1)

/-- The denominator gains no more than the YES weight. -/
theorem Gains.denominator (h : w.Gains w' gain) :
    w.denominator rules ≤ w'.denominator rules ∧
      w'.denominator rules ≤ w.denominator rules + gain := by
  unfold Weighing.denominator
  cases rules.threshold.basis with
  | votesCast =>
    cases rules.abstentions with
    | excluded => exact h.cast
    | included => exact h.participating
  | effectiveElectorate => exact ⟨h.effective.ge, h.effective.le.trans (Nat.le_add_right _ _)⟩
  | totalElectorate => exact ⟨h.total.ge, h.total.le.trans (Nat.le_add_right _ _)⟩

theorem Gains.required_le (h : w.Gains w' gain) (hshare : rules.threshold.share.share ≤ 1) :
    w'.required rules ≤ w.required rules + gain := by
  have hdenominator : (w'.denominator rules : ℚ) ≤ w.denominator rules + gain := by
    exact_mod_cast h.denominator.2
  calc w'.required rules
      ≤ rules.threshold.share.share * (w.denominator rules + gain) :=
        mul_le_mul_of_nonneg_left hdenominator (FractionV1.share_nonneg _)
    _ = w.required rules + rules.threshold.share.share * gain := mul_add _ _ _
    _ ≤ w.required rules + gain :=
        add_le_add_right (mul_le_of_le_one_left (Nat.cast_nonneg _) hshare) _

/-- A share of at most one that was passed is passed after the gain. -/
theorem Gains.thresholdReached (h : w.Gains w' gain) (hshare : rules.threshold.share.share ≤ 1)
    (hreached : w.ThresholdReached rules) : w'.ThresholdReached rules := by
  obtain ⟨hsome, hpassed⟩ := hreached
  have hrequired := h.required_le hshare
  have hyes : (w'.yes : ℚ) = w.yes + gain := by exact_mod_cast h.yes
  have hdenominator := (@Gains.denominator _ _ _ rules h).1
  refine ⟨by omega, ?_⟩
  rcases hpassed with habove | ⟨htie, haccept⟩
  · left
    linarith
  · have hle : w'.required rules ≤ w'.yes := by linarith
    rcases hle.lt_or_eq with hlt | heq
    · exact .inl hlt
    · exact .inr ⟨heq, haccept⟩

end Weighing

/-- A ballot put in, in place of the one of its voter. -/
def BallotSetV1.put (ballots : BallotSetV1) (ballot : BallotV1) : BallotSetV1 :=
  SortedTable.insert ballots ballot

theorem BallotSetV1.mem_put {ballots : BallotSetV1} {ballot b : BallotV1} :
    b ∈ (ballots.put ballot).ballots ↔ b = ballot ∨ b ∈ ballots.ballots ∧ b.voter ≠ ballot.voter :=
  SortedTable.mem_insert

/-- One more YES: of an effective voter who had not voted, or in place of another choice. -/
inductive Supports (rules : VotingRulesV1) (electorate : ElectorateV1) :
    BallotSetV1 → BallotSetV1 → Prop
  | added {ballots : BallotSetV1} {voter : VoterV1}
      (heffective : voter ∈ effectiveVoters rules electorate)
      (hnew : ∀ b ∈ ballots.ballots, b.voter ≠ voter.id) :
      Supports rules electorate ballots (ballots.put ⟨voter.id, .yes⟩)
  | turned {ballots : BallotSetV1} {b : BallotV1} (hb : b ∈ ballots.ballots)
      (hother : b.choice ≠ .yes) :
      Supports rules electorate ballots (ballots.put ⟨b.voter, .yes⟩)

section Ballots

variable {rules : VotingRulesV1} {electorate : ElectorateV1} {ballots after : BallotSetV1}

/-- Two selections that differ at one voter differ by that voter's weight. -/
theorem weigh_filter_of_agree {p q : VoterV1 → Bool} {voters : List VoterV1} {voter : VoterV1}
    (hnodup : voters.Nodup) (hmem : voter ∈ voters)
    (hagree : ∀ other ∈ voters, other ≠ voter → p other = q other) :
    rules.weigh (voters.filter p) + (if q voter then (rules.weightOf voter).value else 0) =
      rules.weigh (voters.filter q) + if p voter then (rules.weightOf voter).value else 0 := by
  have hperm := List.perm_cons_erase hmem
  have hsplit : ∀ r : VoterV1 → Bool, rules.weigh (voters.filter r) =
      (if r voter then (rules.weightOf voter).value else 0) +
        rules.weigh ((voters.erase voter).filter r) := by
    intro r
    rw [rules.weigh_perm (hperm.filter r), List.filter_cons]
    split
    · exact List.sum_cons
    · exact (Nat.zero_add _).symm
  have hrest : (voters.erase voter).filter p = (voters.erase voter).filter q :=
    List.filter_congr fun other hother =>
      hagree other (List.mem_of_mem_erase hother) fun heq =>
        hnodup.not_mem_erase (heq ▸ hother)
  rw [hsplit p, hsplit q, hrest]
  omega

/-- A ballot put in moves its voter's weight to its choice. -/
theorem weigh_voted_put {voter : VoterV1} {choice : ChoiceV1} (hmem : voter ∈ electorate.voters)
    (p : ChoiceV1 → Bool) {old : Bool}
    (hold : (∃ b ∈ ballots.ballots, b.voter = voter.id ∧ p b.choice = true) ↔ old = true) :
    rules.weigh (voted electorate (ballots.put ⟨voter.id, choice⟩) p) +
        (if old = true then (rules.weightOf voter).value else 0) =
      rules.weigh (voted electorate ballots p) +
        if p choice = true then (rules.weightOf voter).value else 0 := by
  have hself : (∃ b ∈ (ballots.put ⟨voter.id, choice⟩).ballots,
      b.voter = voter.id ∧ p b.choice = true) ↔ p choice = true := by
    constructor
    · rintro ⟨b, hb, hid, hp⟩
      rcases BallotSetV1.mem_put.mp hb with rfl | ⟨-, hne⟩
      · exact hp
      · exact absurd hid hne
    · exact fun hp => ⟨_, BallotSetV1.mem_put.mpr (.inl rfl), rfl, hp⟩
  have hothers : ∀ other ∈ electorate.voters, other ≠ voter →
      decide (∃ b ∈ (ballots.put ⟨voter.id, choice⟩).ballots,
        b.voter = other.id ∧ p b.choice = true) =
      decide (∃ b ∈ ballots.ballots, b.voter = other.id ∧ p b.choice = true) := by
    intro other hother hne
    have hid : other.id ≠ voter.id := fun heq => hne (electorate.eq_of_key_eq hother hmem heq)
    rw [decide_eq_decide]
    constructor
    · rintro ⟨b, hb, hvoter, hp⟩
      rcases BallotSetV1.mem_put.mp hb with rfl | ⟨hb, -⟩
      · exact absurd hvoter.symm hid
      · exact ⟨b, hb, hvoter, hp⟩
    · rintro ⟨b, hb, hvoter, hp⟩
      exact ⟨b, BallotSetV1.mem_put.mpr (.inr ⟨hb, hvoter ▸ hid⟩), hvoter, hp⟩
  have hmoved := @weigh_filter_of_agree rules _ _ _ _ electorate.nodup.of_map hmem hothers
  simp only [decide_eq_true_eq, hself, hold] at hmoved
  exact hmoved

/-- A ballot of an effective voter leaves a countable vote countable. -/
theorem Countable.put (h : Countable rules electorate ballots) {voter : VoterV1}
    (heffective : voter ∈ effectiveVoters rules electorate) (choice : ChoiceV1) :
    Countable rules electorate (ballots.put ⟨voter.id, choice⟩) := by
  obtain ⟨hmem, hincluded⟩ := List.mem_filter.mp heffective
  refine ⟨h.valid, h.fits, fun issue hissue => ?_⟩
  cases issue with
  | unknownVoter id =>
    obtain ⟨⟨b, hb, rfl⟩, hunknown⟩ := hissue
    rcases BallotSetV1.mem_put.mp hb with rfl | ⟨hb, -⟩
    · exact hunknown voter hmem rfl
    · exact h.known (.unknownVoter b.voter) ⟨⟨b, hb, rfl⟩, hunknown⟩
  | excludedVoter id =>
    obtain ⟨⟨b, hb, rfl⟩, hexclusions, other, hother, hid, hexcluded⟩ := hissue
    rcases BallotSetV1.mem_put.mp hb with rfl | ⟨hb, -⟩
    · obtain rfl := electorate.eq_of_key_eq hother hmem hid
      rw [isEffective_eq_false.mpr ⟨hexclusions, hexcluded⟩] at hincluded
      cases hincluded
    · exact h.known (.excludedVoter b.voter)
        ⟨⟨b, hb, rfl⟩, hexclusions, other, hother, hid, hexcluded⟩

/-- One more YES leaves the vote countable and its YES weight gains. -/
theorem Supports.gains (hstep : Supports rules electorate ballots after)
    (h : Countable rules electorate ballots) :
    Countable rules electorate after ∧
      ∃ gain, (weighing rules electorate ballots).Gains (weighing rules electorate after) gain := by
  cases hstep with
  | added heffective hnew =>
    rename_i voter
    have hmem := (List.mem_filter.mp heffective).1
    have hnone : ∀ p : ChoiceV1 → Bool,
        (∃ b ∈ ballots.ballots, b.voter = voter.id ∧ p b.choice = true) ↔ false = true := by
      intro p
      simp only [Bool.false_eq_true, iff_false]
      exact fun ⟨b, hb, hid, _⟩ => hnew b hb hid
    have hmoved := fun p => @weigh_voted_put rules electorate ballots voter .yes hmem p _ (hnone p)
    have hyes := hmoved (· = .yes)
    have hno := hmoved (· = .no)
    have hall := hmoved fun _ => true
    simp only [Bool.false_eq_true, if_false, decide_true, if_true, reduceCtorEq, decide_false,
      Nat.add_zero] at hyes hno hall
    refine ⟨h.put heffective _, (rules.weightOf voter).value, ?_⟩
    constructor <;> simp only [weighing, participants] <;> omega
  | turned hb hother =>
    rename_i b
    obtain ⟨heffective, hid, -⟩ := voterOf_spec h.known hb
    generalize hvoter : voterOf electorate b = voter at heffective hid
    have hmem := (List.mem_filter.mp heffective).1
    have hone : ∀ p : ChoiceV1 → Bool,
        (∃ c ∈ ballots.ballots, c.voter = voter.id ∧ p c.choice = true) ↔ p b.choice = true := by
      intro p
      constructor
      · rintro ⟨c, hc, hcid, hp⟩
        rwa [ballots.eq_of_key_eq hc hb (hcid.trans hid)] at hp
      · exact fun hp => ⟨b, hb, hid.symm, hp⟩
    have hmoved := fun p => @weigh_voted_put rules electorate ballots voter .yes hmem p _ (hone p)
    have hyes := hmoved (· = .yes)
    have hno := hmoved (· = .no)
    have hall := hmoved fun _ => true
    simp only [hother, decide_false, Bool.false_eq_true, if_false, decide_true, if_true,
      reduceCtorEq, Nat.add_zero, decide_eq_true_eq, Nat.add_right_cancel_iff] at hyes hno hall
    rw [← hid]
    refine ⟨h.put heffective _, (rules.weightOf voter).value, ?_⟩
    constructor <;> simp only [weighing, participants] <;> split at hno <;> omega

/-- Valid rules ask for a share of at most one. -/
theorem Countable.share_le_one (h : Countable rules electorate ballots) :
    rules.threshold.share.share ≤ 1 := by
  cases hthreshold : rules.threshold with
  | simpleMajority basis => exact (FractionV1.isProportion_iff _).mp rfl
  | fraction fraction basis =>
    by_contra hover
    exact h.valid (.improperFraction .threshold fraction) ⟨not_le.mp hover, basis, hthreshold⟩

/-- What accepts a motion still accepts it after more support. -/
theorem Supports.preserves (hstep : Supports rules electorate ballots after)
    (h : Countable rules electorate ballots)
    (hquorum : (weighing rules electorate ballots).QuorumReached rules.quorum)
    (hthreshold : (weighing rules electorate ballots).ThresholdReached rules) :
    Countable rules electorate after ∧
      (weighing rules electorate after).QuorumReached rules.quorum ∧
        (weighing rules electorate after).ThresholdReached rules := by
  obtain ⟨hafter, gain, hgains⟩ := hstep.gains h
  exact ⟨hafter, hgains.quorumReached hquorum, hgains.thresholdReached h.share_le_one hthreshold⟩

theorem evaluate_accepted_iff :
    (∃ report, evaluate rules electorate ballots = .ok report ∧ report.accepted = true) ↔
      Countable rules electorate ballots ∧
        (weighing rules electorate ballots).QuorumReached rules.quorum ∧
          (weighing rules electorate ballots).ThresholdReached rules := by
  constructor
  · rintro ⟨report, hreport, haccepted⟩
    rcases @countable_or_fails rules electorate ballots with h | ⟨e, hfails⟩
    · obtain ⟨counted, hcounted, hreports⟩ := evaluate_of_countable h
      obtain rfl := Except.ok.inj (hreport.symm.trans hcounted)
      refine ⟨h, (Weighing.decides_accepted_iff _).mp ⟨report.reason, ?_⟩⟩
      have hdecided := hreports.decided
      rwa [of_decide_eq_true haccepted] at hdecided
    · rw [evaluate_of_fails hfails] at hreport
      cases hreport
  · rintro ⟨h, hreached⟩
    obtain ⟨report, hreport, hreports⟩ := evaluate_of_countable h
    exact ⟨report, hreport, decide_eq_true ((hreports.audited h).accepted.mpr
      ⟨hreports.quorumMet.mpr hreached.1, hreports.thresholdMet.mpr hreached.2⟩)⟩

end Ballots

/-- More support never defeats a motion. -/
theorem more_support_accepts {rules : VotingRulesV1} {electorate : ElectorateV1}
    {first second : BallotSetV1} {report : VoteEvaluationV1}
    (hsteps : Relation.ReflTransGen (Supports rules electorate) first second)
    (hreport : evaluate rules electorate first = .ok report) (haccepted : report.accepted = true) :
    ∃ report', evaluate rules electorate second = .ok report' ∧ report'.accepted = true := by
  have hfirst := evaluate_accepted_iff.mp ⟨report, hreport, haccepted⟩
  refine evaluate_accepted_iff.mpr ?_
  induction hsteps with
  | refl => exact hfirst
  | tail _ hstep ih => exact hstep.preserves ih.1 ih.2.1 ih.2.2

section Samples

def plainMajority : VotingRulesV1 :=
  ⟨.equal, false, .none, .simpleMajority .votesCast, .excluded, .reject⟩

def firstVoter : VoterV1 := ⟨⟨lit "ann", by decide⟩, .one, false⟩

def secondVoter : VoterV1 := ⟨⟨lit "bob", by decide⟩, .one, false⟩

def twoVoters : ElectorateV1 := ⟨[firstVoter, secondVoter], by decide⟩

def firstFor : BallotSetV1 := ⟨[⟨firstVoter.id, .yes⟩], .cons (by simp) .nil⟩

theorem more_support_accepts_second : ∃ report,
    evaluate plainMajority twoVoters (firstFor.put ⟨secondVoter.id, .yes⟩) = .ok report ∧
      report.accepted = true := by
  have hcounted : ((evaluate plainMajority twoVoters firstFor).toOption.any
      VoteEvaluationV1.accepted) = true := by
    decide +kernel
  have hstep : Supports plainMajority twoVoters firstFor (firstFor.put ⟨secondVoter.id, .yes⟩) :=
    .added (by decide +kernel) (by decide +kernel)
  cases hevaluate : evaluate plainMajority twoVoters firstFor with
  | error e =>
    rw [hevaluate] at hcounted
    cases hcounted
  | ok report =>
    rw [hevaluate] at hcounted
    exact more_support_accepts (.single hstep) hevaluate hcounted

end Samples

end Irena.Bornite
