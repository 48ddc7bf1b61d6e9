import Irena.Bornite.Monotone
import Irena.Vote.Record

/-! # The stored quorum

The summary recomputes the weight that a share of the quorum's basis amounts to, rounded up and
clamped. No clamping happens, and the weight tells what the evaluation decided. -/

namespace Irena.Vote

open Irena.Library Irena.Library.Outcome Irena.Library.Strings Irena.Bornite

section Shares

variable {share : FractionV1} {basis weight : ℕ}

/-- A share of a weight, rounded up. -/
def ceilShare (share : FractionV1) (basis : ℕ) : ℕ :=
  (basis * share.numerator + share.denominator - 1) / share.denominator

theorem ceilShare_le_iff :
    ceilShare share basis ≤ weight ↔ basis * share.numerator ≤ weight * share.denominator := by
  have hpos := share.pos
  rw [ceilShare, Nat.div_le_iff_le_mul_add_pred hpos, Nat.mul_comm share.denominator]
  omega

/-- A share rounded up is the least weight that meets it. -/
theorem isLeast_ceilShare : IsLeast {w : ℕ | share.share * basis ≤ w} (ceilShare share basis) := by
  have hpos : (0 : ℚ) < share.denominator := Nat.cast_pos.mpr share.pos
  have hmeets (w : ℕ) : share.share * basis ≤ w ↔ ceilShare share basis ≤ w := by
    rw [ceilShare_le_iff, FractionV1.share, div_mul_eq_mul_div, div_le_iff₀ hpos, ← Nat.cast_mul,
      ← Nat.cast_mul, Nat.cast_le, Nat.mul_comm basis]
  exact ⟨(hmeets _).mpr le_rfl, fun w hw => (hmeets w).mp hw⟩

theorem ceilShare_le (h : share.isProportion = true) : ceilShare share basis ≤ basis := by
  have hle : share.numerator ≤ share.denominator := of_decide_eq_true h
  exact ceilShare_le_iff.mpr (Nat.mul_le_mul_left basis hle)

end Shares

/-- The share of a proportion is not clamped. -/
theorem requiredWeight_fraction {share : FractionV1} {basis : QuorumBasisV1} {total : WeightTotalV1}
    (h : share.isProportion = true) :
    requiredWeight (.fraction share basis total) = some (ceilShare share total.value) := by
  have hfits : ceilShare share total.value ≤ u64Max := (ceilShare_le h).trans total.le
  exact congrArg some (Nat.min_eq_left hfits)

/-- A requirement is met by the weights that are not below what is stored for it. -/
theorem met_iff {requirement : QuorumRequirementV1} {participating : WeightTotalV1}
    (h : ∀ share basis total, requirement = .fraction share basis total →
      share.isProportion = true) :
    requirement.met participating = true ↔ requiredWeight requirement = none ∨
      ∃ required, requiredWeight requirement = some required ∧ required ≤ participating.value := by
  cases requirement with
  | none => simp [QuorumRequirementV1.met, requiredWeight]
  | absolute weight => simp [QuorumRequirementV1.met, requiredWeight]
  | fraction share basis total =>
    rw [requiredWeight_fraction (h share basis total rfl)]
    have hmet : QuorumRequirementV1.met (.fraction share basis total) participating = true ↔
        total.value * share.numerator ≤ participating.value * share.denominator := by
      rw [QuorumRequirementV1.met, bne_iff_ne, ne_eq, FractionV1.compareShare, compare_lt_iff_lt,
        not_lt, Nat.mul_comm share.numerator]
    rw [hmet, ← ceilShare_le_iff]
    simp

section Evaluation

variable {rules : VotingRulesV1} {electorate : ElectorateV1} {ballots : BallotSetV1}
  {e : VoteEvaluationV1}

theorem counted (h : evaluate rules electorate ballots = .ok e) :
    Countable rules electorate ballots ∧ Reports rules electorate ballots e := by
  rcases @countable_or_fails rules electorate ballots with hcountable | ⟨error, hfails⟩
  · obtain ⟨report, hreport, hreports⟩ := evaluate_of_countable hcountable
    obtain rfl := Except.ok.inj (h.symm.trans hreport)
    exact ⟨hcountable, hreports⟩
  · rw [evaluate_of_fails hfails] at h
    cases h

/-- The share that a quorum asks for is a proportion. -/
theorem isProportion_of_countable (h : Countable rules electorate ballots) {share : FractionV1}
    {basis : QuorumBasisV1} (hquorum : rules.quorum = .fraction share basis) :
    share.isProportion = true := by
  by_contra hover
  rw [Bool.not_eq_true, FractionV1.not_isProportion_iff] at hover
  exact h.valid (.improperFraction .quorum share) ⟨hover, basis, hquorum⟩

/-- What a summary stores of a quorum is what was decided: a share of a weight is multiplied within
128 bits and stored, unclamped, as the least weight that meets it, which does not exceed the weight
it is a share of; and the quorum is met exactly where no weight is required or the required weight
took part. -/
theorem summary_tells_quorum (h : evaluate rules electorate ballots = .ok e) :
    (∀ share basis total, e.quorum.requirement = .fraction share basis total →
      total.value * share.numerator < 2 ^ 128 ∧ ceilShare share total.value ≤ u64Max ∧
        (EvaluationSummaryV1.of e).quorumRequiredWeight = some (ceilShare share total.value) ∧
        IsLeast {w : ℕ | share.share * total.value ≤ w} (ceilShare share total.value) ∧
        ceilShare share total.value ≤ total.value) ∧
    (∀ required ∈ (EvaluationSummaryV1.of e).quorumRequiredWeight,
      required ≤ (EvaluationSummaryV1.of e).totalWeight) ∧
    ((EvaluationSummaryV1.of e).quorumMet = true ↔
      (EvaluationSummaryV1.of e).quorumRequiredWeight = none ∨
        ∃ required, (EvaluationSummaryV1.of e).quorumRequiredWeight = some required ∧
          required ≤ (EvaluationSummaryV1.of e).quorumActualWeight) := by
  obtain ⟨hcountable, hreports⟩ := counted h
  have hshare (share : FractionV1) (basis : QuorumBasisV1) (total : WeightTotalV1)
      (hrequirement : e.quorum.requirement = .fraction share basis total) :
      share.isProportion = true ∧ total.value ≤ e.electorate.totalWeight.value := by
    rw [hreports.requirement] at hrequirement
    cases hquorum : rules.quorum with
    | none => rw [hquorum] at hrequirement; cases hrequirement
    | absolute weight => rw [hquorum] at hrequirement; cases hrequirement
    | fraction proportion on =>
      rw [hquorum] at hrequirement
      obtain ⟨rfl, rfl, rfl⟩ := QuorumRequirementV1.fraction.inj hrequirement
      refine ⟨isProportion_of_countable hcountable hquorum, ?_⟩
      cases on with
      | totalElectorate => exact le_rfl
      | effectiveElectorate =>
        rw [hreports.effectiveWeight, hreports.totalWeight]
        exact weigh_filter_le rules _ _
  refine ⟨?_, ?_, ?_⟩
  · intro share basis total hrequirement
    have hproportion := (hshare share basis total hrequirement).1
    refine ⟨mul_lt_of_le total.le share.numerator_le, (ceilShare_le hproportion).trans total.le, ?_,
      isLeast_ceilShare, ceilShare_le hproportion⟩
    change requiredWeight e.quorum.requirement = _
    rw [hrequirement, requiredWeight_fraction hproportion]
  · intro required hrequired
    change requiredWeight e.quorum.requirement = some required at hrequired
    change required ≤ e.electorate.totalWeight.value
    cases hrequirement : e.quorum.requirement with
    | none => rw [hrequirement] at hrequired; cases hrequired
    | absolute weight =>
      rw [hrequirement] at hrequired
      obtain rfl := Option.some.inj hrequired
      have hquorum : rules.quorum = .absolute weight := by
        rw [hreports.requirement] at hrequirement
        cases hquorum : rules.quorum <;> rw [hquorum] at hrequirement <;> cases hrequirement
        rfl
      by_contra hover
      refine hcountable.valid (.unachievableQuorum weight e.electorate.totalWeight)
        ⟨hquorum, hreports.totalWeight, not_le.mp hover⟩
    | fraction share basis total =>
      obtain ⟨hproportion, htotal⟩ := hshare share basis total hrequirement
      rw [hrequirement, requiredWeight_fraction hproportion] at hrequired
      obtain rfl := Option.some.inj hrequired
      exact (ceilShare_le hproportion).trans htotal
  · change e.quorum.met = true ↔ requiredWeight e.quorum.requirement = none ∨
      ∃ required, requiredWeight e.quorum.requirement = some required ∧
        required ≤ e.quorum.actualWeight.value
    rw [← met_iff fun share basis total hrequirement => (hshare share basis total hrequirement).1,
      hreports.quorumMet, hreports.requirement, hreports.actualWeight]
    exact (requirement_met_iff hreports.totalWeight hreports.effectiveWeight
      hreports.participating).symm

end Evaluation

section Samples

/-- A majority of the votes, if a third of the electorate takes part. -/
def thirdQuorum : VotingRulesV1 :=
  { plainMajority with
    quorum := .fraction ⟨1, 3, by decide, u64Max_pos, by decide⟩ .totalElectorate }

theorem summary_tells_third : ∃ e, evaluate thirdQuorum twoVoters firstFor = .ok e ∧
    ((EvaluationSummaryV1.of e).quorumMet = true ↔
      (EvaluationSummaryV1.of e).quorumRequiredWeight = none ∨
        ∃ required, (EvaluationSummaryV1.of e).quorumRequiredWeight = some required ∧
          required ≤ (EvaluationSummaryV1.of e).quorumActualWeight) := by
  obtain ⟨e, he⟩ : ∃ e, evaluate thirdQuorum twoVoters firstFor = .ok e :=
    ⟨_, eq_ok_of_toOption (by decide +kernel)⟩
  exact ⟨e, he, (summary_tells_quorum he).2.2⟩

end Samples

end Irena.Vote
