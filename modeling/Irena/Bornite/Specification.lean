import Irena.Bornite.Evaluate
import Mathlib.Data.List.Perm.Subperm
import Mathlib.Algebra.BigOperators.Group.List.Basic
import Mathlib.Algebra.Order.Field.Basic
import Mathlib.Algebra.Order.Ring.Rat
import Mathlib.Data.Rat.Cast.Order

/-! # The written rules of a count

What a count reports, over the voters of an electorate and in exact rational arithmetic, and when it
is refused. The evaluation is compared with it. -/

namespace Irena.Bornite

attribute [ext] WeightTotalV1 ElectorateSummaryV1 ParticipationV1 TallyV1 QuorumOutcomeV1
  ThresholdOutcomeV1 VoteEvaluationV1

open Irena.Library Irena.Library.Outcome Irena.Library.Strings

def FractionV1.share (f : FractionV1) : ℚ := f.numerator / f.denominator

theorem compare_eq_of_iff {α β : Type} [LinearOrder α] [LinearOrder β] {a b : α} {c d : β}
    (hlt : a < b ↔ c < d) (heq : a = b ↔ c = d) : compare a b = compare c d := by
  simp only [LinearOrder.compare_eq_compareOfLessAndEq, compareOfLessAndEq, hlt, heq]

/-- Cross-multiplication compares the value with the share. -/
theorem FractionV1.compareShare_eq (f : FractionV1) (value basis : ℕ) :
    f.compareShare value basis = compare (value : ℚ) (f.share * basis) := by
  have hpos : (0 : ℚ) < f.denominator := Nat.cast_pos.mpr f.pos
  have hshare : f.share * basis = (f.numerator * basis : ℕ) / f.denominator := by
    rw [share, div_mul_eq_mul_div, Nat.cast_mul]
  rw [hshare]
  refine compare_eq_of_iff ?_ ?_
  · rw [lt_div_iff₀ hpos, ← Nat.cast_mul, Nat.cast_lt]
  · rw [eq_div_iff hpos.ne', ← Nat.cast_mul, Nat.cast_inj]

theorem FractionV1.isProportion_iff (f : FractionV1) : f.isProportion = true ↔ f.share ≤ 1 := by
  have hpos : (0 : ℚ) < f.denominator := Nat.cast_pos.mpr f.pos
  rw [isProportion, decide_eq_true_iff, share, div_le_one hpos, Nat.cast_le]

theorem FractionV1.share_nonneg (f : FractionV1) : 0 ≤ f.share :=
  div_nonneg (Nat.cast_nonneg _) (Nat.cast_nonneg _)

def VotingRulesV1.weigh (rules : VotingRulesV1) (voters : List VoterV1) : ℕ :=
  (voters.map fun voter => (rules.weightOf voter).value).sum

section Voters

variable (rules : VotingRulesV1) (electorate : ElectorateV1) (ballots : BallotSetV1)

def effectiveVoters : List VoterV1 := electorate.voters.filter rules.isEffective

/-- The voters of an electorate who cast a ballot with one of some choices. -/
def voted (p : ChoiceV1 → Bool) : List VoterV1 :=
  electorate.voters.filter fun voter =>
    ∃ b ∈ ballots.ballots, b.voter = voter.id ∧ p b.choice = true

def participants : List VoterV1 := voted electorate ballots fun _ => true

def nonParticipants : List VoterV1 :=
  (effectiveVoters rules electorate).filter fun voter =>
    ∀ b ∈ ballots.ballots, b.voter ≠ voter.id

end Voters

/-- The weights a vote is decided by. -/
structure Weighing where
  total : ℕ
  effective : ℕ
  participating : ℕ
  yes : ℕ
  no : ℕ
  abstain : ℕ

def weighing (rules : VotingRulesV1) (electorate : ElectorateV1) (ballots : BallotSetV1) :
    Weighing where
  total := rules.weigh electorate.voters
  effective := rules.weigh (effectiveVoters rules electorate)
  participating := rules.weigh (participants electorate ballots)
  yes := rules.weigh (voted electorate ballots (· = .yes))
  no := rules.weigh (voted electorate ballots (· = .no))
  abstain := rules.weigh (voted electorate ballots (· = .abstain))

namespace Weighing

variable (w : Weighing)

def quorumBasis : QuorumBasisV1 → ℕ
  | .totalElectorate => w.total
  | .effectiveElectorate => w.effective

/-- The quorum is inclusive. -/
def QuorumReached : QuorumRuleV1 → Prop
  | .none => True
  | .absolute weight => weight.value ≤ w.participating
  | .fraction fraction basis => fraction.share * w.quorumBasis basis ≤ w.participating

/-- The stated denominator of the threshold. -/
def denominator (rules : VotingRulesV1) : ℕ :=
  match rules.threshold.basis, rules.abstentions with
  | .votesCast, .excluded => w.yes + w.no
  | .votesCast, .included => w.participating
  | .effectiveElectorate, _ => w.effective
  | .totalElectorate, _ => w.total

/-- The weight a motion has to pass. -/
def required (rules : VotingRulesV1) : ℚ := rules.threshold.share.share * w.denominator rules

def ThresholdReached (rules : VotingRulesV1) : Prop :=
  w.denominator rules ≠ 0 ∧
    (w.required rules < w.yes ∨ w.required rules = w.yes ∧ rules.tie = .accept)

def Compares (rules : VotingRulesV1) : ComparisonV1 → Prop
  | .above => w.required rules < w.yes
  | .exactly => w.required rules = w.yes
  | .below => w.yes < w.required rules

/-- The outcome and its reason, in their order of precedence. -/
inductive Decides (rules : VotingRulesV1) : OutcomeV1 → ReasonCodeV1 → Prop
  | quorumNotMet (hquorum : ¬ w.QuorumReached rules.quorum) : Decides rules .rejected .quorumNotMet
  | emptyThresholdBasis (hquorum : w.QuorumReached rules.quorum)
      (hempty : w.denominator rules = 0) : Decides rules .rejected .emptyThresholdBasis
  | thresholdMet (hquorum : w.QuorumReached rules.quorum) (hsome : w.denominator rules ≠ 0)
      (habove : w.required rules < w.yes) : Decides rules .accepted .thresholdMet
  | thresholdNotMet (hquorum : w.QuorumReached rules.quorum) (hsome : w.denominator rules ≠ 0)
      (hbelow : w.yes < w.required rules) : Decides rules .rejected .thresholdNotMet
  | tieAccepted (hquorum : w.QuorumReached rules.quorum) (hsome : w.denominator rules ≠ 0)
      (htie : w.required rules = w.yes) (haccept : rules.tie = .accept) :
      Decides rules .accepted .tieAccepted
  | tieRejected (hquorum : w.QuorumReached rules.quorum) (hsome : w.denominator rules ≠ 0)
      (htie : w.required rules = w.yes) (hreject : rules.tie = .reject) :
      Decides rules .rejected .tieRejected

/-- A motion is accepted exactly when quorum and threshold are met. -/
theorem decides_accepted_iff {rules : VotingRulesV1} :
    (∃ reason, w.Decides rules .accepted reason) ↔
      w.QuorumReached rules.quorum ∧ w.ThresholdReached rules := by
  constructor
  · rintro ⟨reason, hdecides⟩
    cases hdecides with
    | thresholdMet hquorum hsome habove => exact ⟨hquorum, hsome, .inl habove⟩
    | tieAccepted hquorum hsome htie haccept => exact ⟨hquorum, hsome, .inr ⟨htie, haccept⟩⟩
  · rintro ⟨hquorum, hsome, habove | ⟨htie, haccept⟩⟩
    · exact ⟨_, .thresholdMet hquorum hsome habove⟩
    · exact ⟨_, .tieAccepted hquorum hsome htie haccept⟩

end Weighing

section Refusals

variable (rules : VotingRulesV1) (electorate : ElectorateV1) (ballots : BallotSetV1)

/-- The contradictions between rules and an electorate. -/
def Contradicts : ValidationIssueV1 → Prop
  | .contradictoryWeight id weight =>
    rules.weight = .equal ∧ weight ≠ WeightV1.one ∧
      ∃ voter ∈ electorate.voters, voter.id = id ∧ voter.weight = weight
  | .contradictoryExclusion id =>
    rules.exclusionsEnabled = false ∧
      ∃ voter ∈ electorate.voters, voter.id = id ∧ voter.excluded = true
  | .unachievableQuorum required total =>
    rules.quorum = .absolute required ∧ total.value = rules.weigh electorate.voters ∧
      total.value < required.value
  | .improperFraction .quorum fraction =>
    1 < fraction.share ∧ ∃ basis, rules.quorum = .fraction fraction basis
  | .improperFraction .threshold fraction =>
    1 < fraction.share ∧ ∃ basis, rules.threshold = .fraction fraction basis
  | .weightOverflow =>
    (∃ required, rules.quorum = .absolute required) ∧ u64Max < rules.weigh electorate.voters

/-- The ballots that cannot be counted. -/
def Refuses : BallotIssueV1 → Prop
  | .unknownVoter id =>
    (∃ b ∈ ballots.ballots, b.voter = id) ∧ ∀ voter ∈ electorate.voters, voter.id ≠ id
  | .excludedVoter id =>
    (∃ b ∈ ballots.ballots, b.voter = id) ∧ rules.exclusionsEnabled = true ∧
      ∃ voter ∈ electorate.voters, voter.id = id ∧ voter.excluded = true

/-- The error of a vote that cannot be counted; the checks come in this order. -/
inductive Fails : EvaluationErrorV1 → Prop
  | validation {error : ValidationErrorV1} (hsome : ∃ issue, Contradicts rules electorate issue)
      (hissues : ∀ issue, issue ∈ error.issues ↔ Contradicts rules electorate issue) :
      Fails (.validation error)
  | weightOverflow (hvalid : ∀ issue, ¬ Contradicts rules electorate issue)
      (hover : u64Max < rules.weigh electorate.voters) : Fails .weightOverflow
  | ballots {issues : Finset BallotIssueV1} (hvalid : ∀ issue, ¬ Contradicts rules electorate issue)
      (hfits : rules.weigh electorate.voters ≤ u64Max)
      (hsome : ∃ issue, Refuses rules electorate ballots issue)
      (hissues : ∀ issue, issue ∈ issues ↔ Refuses rules electorate ballots issue) :
      Fails (.ballots issues)

/-- Nothing stands against the count. -/
structure Countable : Prop where
  valid : ∀ issue, ¬ Contradicts rules electorate issue
  fits : rules.weigh electorate.voters ≤ u64Max
  known : ∀ issue, ¬ Refuses rules electorate ballots issue

end Refusals

theorem VotingRulesV1.sum_map_weightOf (rules : VotingRulesV1) (voters : List VoterV1) :
    ((voters.map rules.weightOf).map WeightV1.value).sum = rules.weigh voters := by
  rw [List.map_map]
  rfl

theorem sum_weights_ok {rules : VotingRulesV1} {voters : List VoterV1} {total : WeightTotalV1} :
    WeightTotalV1.sum (voters.map rules.weightOf) = .ok total ↔ total.value = rules.weigh voters := by
  rw [WeightTotalV1.sum_eq_ok, rules.sum_map_weightOf]

theorem sum_weights_error {rules : VotingRulesV1} {voters : List VoterV1}
    (h : u64Max < rules.weigh voters) :
    ∃ e, WeightTotalV1.sum (voters.map rules.weightOf) = .error e := by
  cases hsum : WeightTotalV1.sum (voters.map rules.weightOf) with
  | error e => exact ⟨e, rfl⟩
  | ok total =>
    rw [sum_weights_ok] at hsum
    exact absurd total.le (by omega)

theorem sum_weights_of_le {rules : VotingRulesV1} {voters : List VoterV1}
    (h : rules.weigh voters ≤ u64Max) :
    WeightTotalV1.sum (voters.map rules.weightOf) = .ok ⟨rules.weigh voters, h⟩ :=
  sum_weights_ok.mpr rfl

theorem VotingRulesV1.weigh_perm (rules : VotingRulesV1) {vs ws : List VoterV1} (h : vs.Perm ws) :
    rules.weigh vs = rules.weigh ws :=
  (h.map _).sum_eq

theorem VotingRulesV1.weigh_filter_add (rules : VotingRulesV1) (p : VoterV1 → Bool)
    (voters : List VoterV1) :
    rules.weigh (voters.filter p) + rules.weigh (voters.filter fun voter => !p voter) =
      rules.weigh voters := by
  unfold weigh
  induction voters with
  | nil => rfl
  | cons voter voters ih =>
    rw [List.map_cons, List.sum_cons, ← ih]
    cases hp : p voter
    · simp only [List.filter_cons, hp, Bool.not_false, if_true, List.map_cons, List.sum_cons,
        Bool.false_eq_true, if_false]
      omega
    · simp only [List.filter_cons, hp, Bool.not_true, if_true, List.map_cons, List.sum_cons,
        Bool.false_eq_true, if_false]
      omega

/-- Every voter weighs something. -/
theorem VotingRulesV1.length_le_weigh (rules : VotingRulesV1) (voters : List VoterV1) :
    voters.length ≤ rules.weigh voters := by
  unfold weigh
  induction voters with
  | nil => exact Nat.zero_le _
  | cons voter voters ih =>
    rw [List.map_cons, List.sum_cons, List.length_cons]
    have hpos := (rules.weightOf voter).pos
    omega

section Validation

variable {rules : VotingRulesV1} {electorate : ElectorateV1}

theorem FractionV1.not_isProportion_iff (f : FractionV1) :
    f.isProportion = false ↔ 1 < f.share := by
  rw [← not_le, ← f.isProportion_iff, Bool.not_eq_true]

theorem mem_fractionIssues {issue : ValidationIssueV1} :
    issue ∈ fractionIssues rules ↔
      ∃ rule fraction, issue = .improperFraction rule fraction ∧ Contradicts rules electorate issue := by
  obtain ⟨_, _, quorum, threshold, _, _⟩ := rules
  unfold fractionIssues
  cases issue with
  | improperFraction rule fraction =>
    cases rule <;> cases quorum <;> cases threshold <;>
      simp [Contradicts, ← FractionV1.not_isProportion_iff] <;> grind
  | _ => cases quorum <;> cases threshold <;> simp

/-- The issues of the voters are those the rules contradict. -/
theorem mem_voterIssues {issue : ValidationIssueV1} :
    issue ∈ electorate.voters.flatMap (voterIssues rules) ↔
      ((∃ id weight, issue = .contradictoryWeight id weight) ∨
        ∃ id, issue = .contradictoryExclusion id) ∧ Contradicts rules electorate issue := by
  rw [List.mem_flatMap]
  unfold voterIssues
  cases issue with
  | contradictoryWeight id weight => simp [Contradicts]; grind
  | contradictoryExclusion id => simp [Contradicts]; grind
  | _ => simp

theorem mem_quorumIssues {issue : ValidationIssueV1} :
    issue ∈ quorumIssues rules electorate ↔
      ((∃ required total, issue = .unachievableQuorum required total) ∨ issue = .weightOverflow) ∧
        Contradicts rules electorate issue := by
  unfold quorumIssues
  cases hquorum : rules.quorum with
  | absolute required =>
    rcases Nat.lt_or_ge u64Max (rules.weigh electorate.voters) with hover | hfits
    · obtain ⟨e, he⟩ := sum_weights_error hover
      rw [he]
      cases issue <;> simp [Contradicts, hquorum, hover]
      rename_i required total
      intro _ heq
      have := total.le
      omega
    · rw [sum_weights_of_le hfits]
      cases issue <;> simp [Contradicts, hquorum, hfits]
      rename_i required total
      constructor
      · rintro ⟨hlt, rfl, rfl⟩
        exact ⟨rfl, rfl, hlt⟩
      · rintro ⟨rfl, htotal, hlt⟩
        obtain ⟨value, hle⟩ := total
        dsimp only at htotal hlt
        subst htotal
        exact ⟨hlt, rfl, rfl⟩
  | none => cases issue <;> simp [Contradicts, hquorum]
  | fraction => cases issue <;> simp [Contradicts, hquorum]

/-- What validation reports is what contradicts. -/
theorem mem_issues {issue : ValidationIssueV1} :
    issue ∈ fractionIssues rules ++ electorate.voters.flatMap (voterIssues rules) ++
      quorumIssues rules electorate ↔ Contradicts rules electorate issue := by
  rw [List.mem_append, List.mem_append, @mem_fractionIssues rules electorate, mem_voterIssues, mem_quorumIssues]
  cases issue <;> simp

theorem validate_eq_ok_iff :
    validate rules electorate = .ok () ↔ ∀ issue, ¬ Contradicts rules electorate issue := by
  simp only [validate, ensure_eq_ok, List.eq_nil_iff_forall_not_mem, mem_issues]

theorem validate_eq_error {error : ValidationErrorV1} (h : validate rules electorate = .error error) :
    (∃ issue, Contradicts rules electorate issue) ∧
      ∀ issue, issue ∈ error.issues ↔ Contradicts rules electorate issue := by
  simp only [validate, ensure_eq_error, List.eq_nil_iff_forall_not_mem, mem_issues, not_forall,
    not_not] at h
  obtain ⟨hsome, rfl⟩ := h
  exact ⟨hsome, fun issue => by rw [List.mem_toFinset, mem_issues]⟩

end Validation

section Ballots

variable {rules : VotingRulesV1} {electorate : ElectorateV1} {ballots : BallotSetV1}

theorem isEffective_eq_false {voter : VoterV1} :
    rules.isEffective voter = false ↔ rules.exclusionsEnabled = true ∧ voter.excluded = true := by
  simp [VotingRulesV1.isEffective]

theorem mem_ballotIssues {issue : BallotIssueV1} :
    issue ∈ ballots.ballots.filterMap (ballotIssue rules electorate) ↔
      Refuses rules electorate ballots issue := by
  have hissue : ∀ b : BallotV1, ballotIssue rules electorate b = some issue ↔
      match issue with
      | .unknownVoter id => b.voter = id ∧ ∀ voter ∈ electorate.voters, voter.id ≠ id
      | .excludedVoter id => b.voter = id ∧ rules.exclusionsEnabled = true ∧
          ∃ voter ∈ electorate.voters, voter.id = id ∧ voter.excluded = true := by
    intro b
    unfold ballotIssue
    cases hget : electorate.get b.voter with
    | none =>
      have hnone := SortedTable.get_eq_none.mp hget
      cases issue with
      | unknownVoter id =>
        simp only [Option.some.injEq, BallotIssueV1.unknownVoter.injEq]
        exact ⟨fun h => ⟨h, h ▸ hnone⟩, And.left⟩
      | excludedVoter id =>
        simp only [Option.some.injEq, reduceCtorEq, false_iff]
        rintro ⟨rfl, -, voter, hvoter, hid, -⟩
        exact hnone voter hvoter hid
    | some voter =>
      obtain ⟨hmem, hid⟩ := SortedTable.get_eq_some.mp hget
      cases issue with
      | unknownVoter id =>
        constructor
        · intro h
          dsimp only at h
          split at h <;> simp at h
        · rintro ⟨rfl, hall⟩
          exact absurd hid (hall voter hmem)
      | excludedVoter id =>
        cases heffective : rules.isEffective voter with
        | true =>
          simp only [heffective, if_true, reduceCtorEq, false_iff]
          rintro ⟨rfl, hexclusions, other, hother, hotherId, hexcluded⟩
          obtain rfl := electorate.eq_of_key_eq hother hmem (hotherId.trans hid.symm)
          rw [isEffective_eq_false.mpr ⟨hexclusions, hexcluded⟩] at heffective
          cases heffective
        | false =>
          obtain ⟨hexclusions, hexcluded⟩ := isEffective_eq_false.mp heffective
          simp only [heffective, Bool.false_eq_true, if_false, Option.some.injEq,
            BallotIssueV1.excludedVoter.injEq]
          exact ⟨fun h => ⟨h, hexclusions, voter, hmem, hid.trans h, hexcluded⟩, And.left⟩
  rw [List.mem_filterMap]
  simp only [hissue]
  cases issue with
  | unknownVoter id => simp only [Refuses, ← and_assoc, exists_and_right]
  | excludedVoter id => simp only [Refuses, ← and_assoc, exists_and_right]

/-- The voter of a ballot, where the electorate has one. -/
def voterOf (electorate : ElectorateV1) (ballot : BallotV1) : VoterV1 :=
  (electorate.get ballot.voter).getD ⟨ballot.voter, WeightV1.one, false⟩

theorem voterOf_spec {ballot : BallotV1} (hknown : ∀ issue, ¬ Refuses rules electorate ballots issue)
    (hballot : ballot ∈ ballots.ballots) :
    voterOf electorate ballot ∈ effectiveVoters rules electorate ∧
      (voterOf electorate ballot).id = ballot.voter ∧
      electorate.get ballot.voter = some (voterOf electorate ballot) := by
  cases hget : electorate.get ballot.voter with
  | none =>
    have hnone := SortedTable.get_eq_none.mp hget
    exact absurd ⟨⟨ballot, hballot, rfl⟩, hnone⟩ (hknown (.unknownVoter ballot.voter))
  | some voter =>
    obtain ⟨hmem, hid⟩ := SortedTable.get_eq_some.mp hget
    have hvoter : voterOf electorate ballot = voter := by rw [voterOf, hget, Option.getD_some]
    rw [hvoter]
    refine ⟨List.mem_filter.mpr ⟨hmem, ?_⟩, hid, rfl⟩
    rw [← Bool.not_eq_false, isEffective_eq_false]
    rintro ⟨hexclusions, hexcluded⟩
    exact hknown (.excludedVoter ballot.voter)
      ⟨⟨ballot, hballot, rfl⟩, hexclusions, voter, hmem, hid, hexcluded⟩

/-- The voters of the ballots with some choices are the voters who cast such a ballot. -/
theorem perm_voted (hknown : ∀ issue, ¬ Refuses rules electorate ballots issue)
    (p : ChoiceV1 → Bool) :
    ((ballots.ballots.filter fun b => p b.choice).map (voterOf electorate)).Perm
      (voted electorate ballots p) := by
  have hspec := fun b => @voterOf_spec _ _ _ b hknown
  refine (List.perm_ext_iff_of_nodup ?_ ?_).mpr fun voter => ?_
  · refine List.Nodup.of_map VoterV1.id ?_
    have hids : ((ballots.ballots.filter fun b => p b.choice).map (voterOf electorate)).map
        VoterV1.id = (ballots.ballots.filter fun b => p b.choice).map BallotV1.voter := by
      rw [List.map_map]
      exact List.map_congr_left fun b hb => (hspec b (List.mem_filter.mp hb).1).2.1
    rw [hids]
    exact ballots.nodup.sublist (List.filter_sublist.map _)
  · exact (electorate.nodup.of_map).filter _
  · simp only [List.mem_map, List.mem_filter, voted, decide_eq_true_eq]
    constructor
    · rintro ⟨b, ⟨hb, hp⟩, rfl⟩
      obtain ⟨hmem, hid, -⟩ := hspec b hb
      exact ⟨(List.mem_filter.mp hmem).1, b, hb, hid.symm, hp⟩
    · rintro ⟨hvoter, b, hb, hid, hp⟩
      obtain ⟨hmem, hvoterId, -⟩ := hspec b hb
      exact ⟨b, ⟨hb, hp⟩,
        electorate.eq_of_key_eq (List.mem_filter.mp hmem).1 hvoter (hvoterId.trans hid)⟩

end Ballots

def TallyV1.weightFor (tally : TallyV1) : ChoiceV1 → WeightTotalV1
  | .yes => tally.yesWeight
  | .no => tally.noWeight
  | .abstain => tally.abstainWeight

def TallyV1.countFor (tally : TallyV1) : ChoiceV1 → ℕ
  | .yes => tally.yesCount
  | .no => tally.noCount
  | .abstain => tally.abstainCount

/-- A ballot that fits goes to the bucket of its choice and to no other. -/
theorem TallyV1.add_isOk {tally : TallyV1} {choice : ChoiceV1} {weight : WeightV1}
    (h : (tally.weightFor choice).value + weight.value ≤ u64Max) :
    ∃ next, tally.add (choice, weight) = .ok next ∧
      (∀ c, (next.weightFor c).value =
        (tally.weightFor c).value + if choice = c then weight.value else 0) ∧
      ∀ c, next.countFor c = tally.countFor c + if choice = c then 1 else 0 := by
  have hadd : (tally.weightFor choice).checkedAdd weight = .ok ⟨_, h⟩ :=
    WeightTotalV1.checked_eq_ok.mpr rfl
  cases choice <;>
    (simp only [TallyV1.weightFor] at hadd
     refine ⟨_, by simp only [TallyV1.add, hadd, mapErr_ok, ok_bind, pure_eq_ok]; rfl, ?_, ?_⟩ <;>
       intro c <;> cases c <;> rfl)

theorem TallyV1.foldlM_isOk {ballots : List (ChoiceV1 × WeightV1)} {tally : TallyV1}
    (h : ∀ c, (tally.weightFor c).value +
      ((ballots.filter fun b => b.1 = c).map fun b => b.2.value).sum ≤ u64Max) :
    ∃ total, ballots.foldlM TallyV1.add tally = .ok total ∧
      (∀ c, (total.weightFor c).value = (tally.weightFor c).value +
        ((ballots.filter fun b => b.1 = c).map fun b => b.2.value).sum) ∧
      ∀ c, total.countFor c = tally.countFor c + (ballots.filter fun b => b.1 = c).length := by
  induction ballots generalizing tally with
  | nil => exact ⟨tally, rfl, fun _ => rfl, fun _ => rfl⟩
  | cons ballot ballots ih =>
    obtain ⟨choice, weight⟩ := ballot
    have hfilter : ∀ c, (((choice, weight) :: ballots).filter fun b => b.1 = c) =
        (if choice = c then [(choice, weight)] else []) ++ ballots.filter fun b => b.1 = c := by
      intro c
      by_cases heq : choice = c <;> simp [heq]
    have hsum : ∀ c, ((((choice, weight) :: ballots).filter fun b => b.1 = c).map
        fun b => b.2.value).sum = (if choice = c then weight.value else 0) +
          ((ballots.filter fun b => b.1 = c).map fun b => b.2.value).sum := by
      intro c
      rw [hfilter]
      split <;> simp
    have hfits : (tally.weightFor choice).value + weight.value ≤ u64Max := by
      have := h choice
      rw [hsum, if_pos rfl] at this
      omega
    obtain ⟨next, hnext, hweight, hcount⟩ := TallyV1.add_isOk hfits
    obtain ⟨total, htotal, hweights, hcounts⟩ := @ih next fun c => by
      have := h c
      rw [hsum] at this
      rw [hweight]
      omega
    refine ⟨total, by rw [List.foldlM_cons, hnext, ok_bind, htotal], fun c => ?_, fun c => ?_⟩
    · rw [hweights, hweight, hsum]
      omega
    · rw [hcounts, hcount, hfilter, List.length_append]
      split <;> simp
      omega

section Steps

variable {rules : VotingRulesV1} {electorate : ElectorateV1} {ballots : BallotSetV1}

theorem weigh_filter_le (rules : VotingRulesV1) (p : VoterV1 → Bool) (voters : List VoterV1) :
    rules.weigh (voters.filter p) ≤ rules.weigh voters := by
  have := rules.weigh_filter_add p voters
  omega

/-- The choices partition what the ballots count. -/
theorem sum_by_choice (f : BallotV1 → ℕ) (bs : List BallotV1) :
    ((bs.filter fun b => b.choice = .yes).map f).sum +
      ((bs.filter fun b => b.choice = .no).map f).sum +
        ((bs.filter fun b => b.choice = .abstain).map f).sum = (bs.map f).sum := by
  induction bs with
  | nil => rfl
  | cons b bs ih =>
    rw [List.map_cons, List.sum_cons, ← ih]
    cases hchoice : b.choice <;> simp [hchoice] <;> omega

theorem perm_participants (hknown : ∀ issue, ¬ Refuses rules electorate ballots issue) :
    (ballots.ballots.map (voterOf electorate)).Perm (participants electorate ballots) := by
  have h := perm_voted hknown fun _ => true
  rwa [List.filter_true] at h

/-- Only effective voters take part. -/
theorem participants_eq (hknown : ∀ issue, ¬ Refuses rules electorate ballots issue) :
    participants electorate ballots = (effectiveVoters rules electorate).filter fun voter =>
      !decide (∀ b ∈ ballots.ballots, b.voter ≠ voter.id) := by
  rw [effectiveVoters, List.filter_filter]
  refine List.filter_congr fun voter hvoter => ?_
  have heffective : (∃ b ∈ ballots.ballots, b.voter = voter.id) →
      rules.isEffective voter = true := by
    rintro ⟨b, hb, hid⟩
    obtain ⟨hmem, hvoterId, -⟩ := voterOf_spec hknown hb
    obtain ⟨hother, heffective⟩ := List.mem_filter.mp hmem
    rwa [electorate.eq_of_key_eq hother hvoter (hvoterId.trans hid)] at heffective
  rw [Bool.eq_iff_iff]
  simp only [decide_eq_true_eq, and_true, Bool.and_eq_true, Bool.not_eq_true',
    decide_eq_false_iff_not, not_forall, not_not, exists_prop]
  exact ⟨fun h => ⟨h, heffective h⟩, And.left⟩

theorem weigh_participants_add (hknown : ∀ issue, ¬ Refuses rules electorate ballots issue) :
    rules.weigh (participants electorate ballots) +
      rules.weigh (nonParticipants rules electorate ballots) =
        rules.weigh (effectiveVoters rules electorate) := by
  rw [participants_eq hknown, nonParticipants, Nat.add_comm]
  exact rules.weigh_filter_add _ _

theorem length_participants_add (hknown : ∀ issue, ¬ Refuses rules electorate ballots issue) :
    (participants electorate ballots).length +
      (nonParticipants rules electorate ballots).length =
        (effectiveVoters rules electorate).length := by
  rw [participants_eq hknown, nonParticipants, Nat.add_comm]
  exact (List.length_eq_length_filter_add _).symm

theorem weigh_by_choice (hknown : ∀ issue, ¬ Refuses rules electorate ballots issue) :
    (weighing rules electorate ballots).yes + (weighing rules electorate ballots).no +
      (weighing rules electorate ballots).abstain =
        (weighing rules electorate ballots).participating := by
  have hvoted := fun c : ChoiceV1 => rules.weigh_perm (perm_voted hknown (· = c))
  have hsum := sum_by_choice (fun b => (rules.weightOf (voterOf electorate b)).value)
    ballots.ballots
  unfold weighing
  dsimp only
  rw [← hvoted .yes, ← hvoted .no, ← hvoted .abstain,
    ← rules.weigh_perm (perm_participants hknown)]
  simp only [VotingRulesV1.weigh, List.map_map]
  exact hsum

theorem length_by_choice (hknown : ∀ issue, ¬ Refuses rules electorate ballots issue) :
    (voted electorate ballots (· = .yes)).length + (voted electorate ballots (· = .no)).length +
      (voted electorate ballots (· = .abstain)).length =
        (participants electorate ballots).length := by
  have hvoted := fun c : ChoiceV1 => (perm_voted hknown (· = c)).length_eq
  have hsum := sum_by_choice (fun _ => 1) ballots.ballots
  simp only [← hvoted, ← (perm_participants hknown).length_eq, List.length_map]
  simpa using hsum

theorem mapM_ballotWeight (hknown : ∀ issue, ¬ Refuses rules electorate ballots issue) :
    ballots.ballots.mapM (ballotWeight rules electorate) =
      .ok (ballots.ballots.map fun b => (b.choice, rules.weightOf (voterOf electorate b))) := by
  refine mapM_of_forall fun b hb => ?_
  obtain ⟨-, -, hget⟩ := voterOf_spec hknown hb
  simp only [ballotWeight, hget, orError_some, ok_bind, pure_eq_ok]

/-- The buckets of the tally hold what was voted. -/
theorem tally_isOk (h : Countable rules electorate ballots) :
    ∃ tally, (ballots.ballots.map fun b =>
        (b.choice, rules.weightOf (voterOf electorate b))).foldlM TallyV1.add TallyV1.empty =
          .ok tally ∧
      (∀ c, (tally.weightFor c).value = rules.weigh (voted electorate ballots (· = c))) ∧
      ∀ c, tally.countFor c = (voted electorate ballots (· = c)).length := by
  have hvoted := fun c : ChoiceV1 => perm_voted h.known (· = c)
  have hfilter : ∀ c : ChoiceV1, (ballots.ballots.map fun b =>
      (b.choice, rules.weightOf (voterOf electorate b))).filter (fun b => b.1 = c) =
        (ballots.ballots.filter fun b => b.choice = c).map fun b =>
          (b.choice, rules.weightOf (voterOf electorate b)) := fun c => by
    rw [List.filter_map]
    rfl
  have hsum : ∀ c : ChoiceV1, (((ballots.ballots.map fun b =>
      (b.choice, rules.weightOf (voterOf electorate b))).filter fun b => b.1 = c).map
        fun b => b.2.value).sum = rules.weigh (voted electorate ballots (· = c)) := fun c => by
    rw [hfilter, ← rules.weigh_perm (hvoted c), VotingRulesV1.weigh, List.map_map, List.map_map]
    rfl
  have hempty : ∀ c, (TallyV1.empty.weightFor c).value = 0 := fun c => by cases c <;> rfl
  have hnone : ∀ c, TallyV1.empty.countFor c = 0 := fun c => by cases c <;> rfl
  obtain ⟨tally, htally, hweights, hcounts⟩ := @TallyV1.foldlM_isOk (ballots.ballots.map fun b =>
      (b.choice, rules.weightOf (voterOf electorate b))) TallyV1.empty fun c => by
    rw [hsum, hempty, Nat.zero_add]
    exact (weigh_filter_le _ _ _).trans h.fits
  refine ⟨tally, htally, fun c => ?_, fun c => ?_⟩
  · rw [hweights, hsum, hempty, Nat.zero_add]
  · rw [hcounts, hnone, Nat.zero_add, hfilter, List.length_map, ← (hvoted c).length_eq,
      List.length_map]

end Steps

section Decision

variable {rules : VotingRulesV1} {w : Weighing}

theorem requirement_met_iff {total effective participating : WeightTotalV1}
    (htotal : total.value = w.total) (heffective : effective.value = w.effective)
    (hparticipating : participating.value = w.participating) :
    (rules.quorum.requirement total effective).met participating = true ↔
      w.QuorumReached rules.quorum := by
  unfold QuorumRuleV1.requirement
  cases rules.quorum with
  | none => simp [QuorumRequirementV1.met, Weighing.QuorumReached]
  | absolute weight => simp [QuorumRequirementV1.met, Weighing.QuorumReached, hparticipating]
  | fraction share basis =>
    simp only [QuorumRequirementV1.met, Weighing.QuorumReached, bne_iff_ne, ne_eq,
      FractionV1.compareShare_eq, compare_lt_iff_lt, not_lt, hparticipating]
    cases basis
    · rw [htotal]
      rfl
    · rw [heffective]
      rfl

theorem denominator_isOk {tally : TallyV1} {total effective participating : WeightTotalV1}
    (htotal : total.value = w.total) (heffective : effective.value = w.effective)
    (hparticipating : participating.value = w.participating)
    (hyes : tally.yesWeight.value = w.yes) (hno : tally.noWeight.value = w.no)
    (hfits : w.yes + w.no ≤ u64Max) :
    ∃ d, rules.denominator tally participating effective total = .ok d ∧
      d.value = w.denominator rules := by
  unfold VotingRulesV1.denominator Weighing.denominator
  cases rules.threshold.basis with
  | votesCast =>
    cases rules.abstentions with
    | excluded =>
      have hadd : tally.yesWeight.checkedAddTotal tally.noWeight = .ok ⟨_, hfits⟩ :=
        WeightTotalV1.checked_eq_ok.mpr (by rw [hyes, hno])
      exact ⟨⟨_, hfits⟩, by simp only [hadd, mapErr_ok], rfl⟩
    | included => exact ⟨participating, rfl, hparticipating⟩
  | effectiveElectorate => exact ⟨effective, rfl, heffective⟩
  | totalElectorate => exact ⟨total, rfl, htotal⟩

theorem compares_of {yes denominator : ℕ} (hyes : yes = w.yes)
    (hdenominator : denominator = w.denominator rules) :
    w.Compares rules (ComparisonV1.of (rules.threshold.share.compareShare yes denominator)) := by
  rw [FractionV1.compareShare_eq, hyes, hdenominator]
  have hrequired : rules.threshold.share.share * (w.denominator rules : ℚ) = w.required rules := rfl
  rw [hrequired]
  cases hcompare : compare (w.yes : ℚ) (w.required rules) with
  | lt => exact compare_lt_iff_lt.mp hcompare
  | eq => exact (compare_eq_iff_eq.mp hcompare).symm
  | gt => exact compare_gt_iff_gt.mp hcompare

theorem compares_unique {c d : ComparisonV1} (hc : w.Compares rules c) (hd : w.Compares rules d) :
    c = d := by
  cases c <;> cases d <;> grind [Weighing.Compares]

/-- Whether the threshold is met, as the comparison tells. -/
theorem thresholdMet_iff {comparison : ComparisonV1} {d : WeightTotalV1} :
    w.Compares rules comparison → d.value = w.denominator rules →
    (((match comparison with
      | .above => true
      | .below => false
      | .exactly => rules.tie == .accept) && !d.isZero) = true ↔ w.ThresholdReached rules) := by
  intro hcompares hd
  have hzero : (!d.isZero) = true ↔ w.denominator rules ≠ 0 := by
    rw [← hd]
    simp [WeightTotalV1.isZero]
  rw [Bool.and_eq_true, hzero, Weighing.ThresholdReached, and_comm]
  refine and_congr_right fun _ => ?_
  cases comparison with
  | above => exact ⟨fun _ => .inl hcompares, fun _ => rfl⟩
  | below =>
    simp only [Bool.false_eq_true, false_iff]
    rintro (h | ⟨h, -⟩)
    · exact lt_asymm h hcompares
    · exact (ne_of_lt hcompares).symm h
  | exactly =>
    rw [beq_iff_eq]
    constructor
    · exact fun htie => .inr ⟨hcompares, htie⟩
    · rintro (h | ⟨-, htie⟩)
      · exact absurd hcompares (ne_of_lt h)
      · exact htie

/-- The verdict is the decision of the written rules. -/
theorem decides_iff {quorumMet : Bool} {d : WeightTotalV1} {comparison : ComparisonV1}
    (hquorum : quorumMet = true ↔ w.QuorumReached rules.quorum)
    (hd : d.value = w.denominator rules) (hcompares : w.Compares rules comparison)
    {outcome : OutcomeV1} {reason : ReasonCodeV1} :
    w.Decides rules outcome reason ↔
      verdict quorumMet d comparison rules.tie = (outcome, reason) := by
  have hzero : d.isZero = true ↔ w.denominator rules = 0 := by
    rw [← hd]
    simp [WeightTotalV1.isZero]
  have hnonzero : w.denominator rules ≠ 0 → d.isZero = false := fun h => by
    rwa [← Bool.not_eq_true, hzero]
  constructor
  · intro hdecides
    cases hdecides with
    | quorumNotMet h =>
      rw [← hquorum, Bool.not_eq_true] at h
      simp [verdict, h]
    | emptyThresholdBasis h hempty => simp [verdict, hquorum.mpr h, hzero.mpr hempty]
    | thresholdMet h hsome habove =>
      obtain rfl := compares_unique hcompares (d := .above) habove
      simp [verdict, hquorum.mpr h, hnonzero hsome]
    | thresholdNotMet h hsome hbelow =>
      obtain rfl := compares_unique hcompares (d := .below) hbelow
      simp [verdict, hquorum.mpr h, hnonzero hsome]
    | tieAccepted h hsome htie haccept =>
      obtain rfl := compares_unique hcompares (d := .exactly) htie
      simp [verdict, hquorum.mpr h, hnonzero hsome, haccept]
    | tieRejected h hsome htie hreject =>
      obtain rfl := compares_unique hcompares (d := .exactly) htie
      simp [verdict, hquorum.mpr h, hnonzero hsome, hreject]
  · intro hverdict
    unfold verdict at hverdict
    cases hmet : quorumMet with
    | false =>
      simp only [hmet, Bool.not_false, if_true, Prod.mk.injEq] at hverdict
      obtain ⟨rfl, rfl⟩ := hverdict
      exact .quorumNotMet fun h => by simp [hquorum.mpr h] at hmet
    | true =>
      have h := hquorum.mp hmet
      simp only [hmet, Bool.not_true, Bool.false_eq_true, if_false] at hverdict
      split at hverdict
      · rename_i hempty
        obtain ⟨rfl, rfl⟩ := Prod.mk.inj hverdict
        exact .emptyThresholdBasis h (hzero.mp hempty)
      · rename_i hsome
        rw [hzero] at hsome
        cases comparison with
        | above =>
          obtain ⟨rfl, rfl⟩ := Prod.mk.inj hverdict
          exact .thresholdMet h hsome hcompares
        | below =>
          obtain ⟨rfl, rfl⟩ := Prod.mk.inj hverdict
          exact .thresholdNotMet h hsome hcompares
        | exactly =>
          cases htie : rules.tie <;> rw [htie] at hverdict <;>
            obtain ⟨rfl, rfl⟩ := Prod.mk.inj hverdict
          · exact .tieRejected h hsome hcompares htie
          · exact .tieAccepted h hsome hcompares htie

end Decision

/-- What a count reports. -/
structure Reports (rules : VotingRulesV1) (electorate : ElectorateV1) (ballots : BallotSetV1)
    (report : VoteEvaluationV1) : Prop where
  version : report.version = 1
  echoed : report.rules = rules
  voterCount : report.electorate.voterCount = electorate.voters.length
  effectiveVoterCount :
    report.electorate.effectiveVoterCount = (effectiveVoters rules electorate).length
  excludedCount : report.electorate.excludedCount =
    (electorate.voters.filter fun voter => !rules.isEffective voter).length
  totalWeight : report.electorate.totalWeight.value = (weighing rules electorate ballots).total
  effectiveWeight :
    report.electorate.effectiveWeight.value = (weighing rules electorate ballots).effective
  ballotCount : report.participation.ballotCount = (participants electorate ballots).length
  participating :
    report.participation.weight.value = (weighing rules electorate ballots).participating
  nonParticipantCount : report.participation.nonParticipantCount =
    (nonParticipants rules electorate ballots).length
  nonParticipantWeight : report.participation.nonParticipantWeight.value =
    rules.weigh (nonParticipants rules electorate ballots)
  yesWeight : report.tally.yesWeight.value = (weighing rules electorate ballots).yes
  noWeight : report.tally.noWeight.value = (weighing rules electorate ballots).no
  abstainWeight : report.tally.abstainWeight.value = (weighing rules electorate ballots).abstain
  yesCount : report.tally.yesCount = (voted electorate ballots (· = .yes)).length
  noCount : report.tally.noCount = (voted electorate ballots (· = .no)).length
  abstainCount : report.tally.abstainCount = (voted electorate ballots (· = .abstain)).length
  requirement : report.quorum.requirement =
    rules.quorum.requirement report.electorate.totalWeight report.electorate.effectiveWeight
  actualWeight : report.quorum.actualWeight = report.participation.weight
  quorumMet : report.quorum.met = true ↔
    (weighing rules electorate ballots).QuorumReached rules.quorum
  basis : report.threshold.basis = rules.threshold.basis
  denominatorWeight : report.threshold.denominatorWeight.value =
    (weighing rules electorate ballots).denominator rules
  requiredFraction : report.threshold.requiredFraction = rules.threshold.share
  abstentions : report.threshold.abstentionsAffectedDenominator = true ↔
    rules.threshold.basis = .votesCast
  thresholdYes : report.threshold.yesWeight = report.tally.yesWeight
  comparison : (weighing rules electorate ballots).Compares rules report.threshold.comparison
  thresholdMet : report.threshold.met = true ↔
    (weighing rules electorate ballots).ThresholdReached rules
  decided : (weighing rules electorate ballots).Decides rules report.outcome report.reason

section Count

variable {rules : VotingRulesV1} {electorate : ElectorateV1} {ballots : BallotSetV1}

theorem weigh_effective_le (h : Countable rules electorate ballots) :
    rules.weigh (effectiveVoters rules electorate) ≤ u64Max :=
  (weigh_filter_le rules _ _).trans h.fits

/-- A vote nothing stands against is counted by the written rules. -/
theorem evaluate_of_countable (h : Countable rules electorate ballots) :
    ∃ report, evaluate rules electorate ballots = .ok report ∧
      Reports rules electorate ballots report := by
  have hknown := h.known
  have hvalid := validate_eq_ok_iff.mpr h.valid
  have hall := sum_weights_of_le h.fits
  have heffective := sum_weights_of_le (weigh_effective_le h)
  have hissues : ballots.ballots.filterMap (ballotIssue rules electorate) = [] :=
    List.eq_nil_iff_forall_not_mem.mpr fun issue => by
      rw [mem_ballotIssues]
      exact hknown issue
  have hweights := mapM_ballotWeight hknown
  have hsnd : (ballots.ballots.map fun b =>
      (b.choice, rules.weightOf (voterOf electorate b))).map Prod.snd =
        (ballots.ballots.map (voterOf electorate)).map rules.weightOf := by
    rw [List.map_map, List.map_map]
    rfl
  have hparticipants := weigh_participants_add hknown
  have hlengths := length_participants_add hknown
  have hpart : rules.weigh (ballots.ballots.map (voterOf electorate)) =
      rules.weigh (participants electorate ballots) :=
    rules.weigh_perm (perm_participants hknown)
  have hfits : rules.weigh (ballots.ballots.map (voterOf electorate)) ≤ u64Max := by
    have := weigh_effective_le h
    rw [rules.weigh_perm (perm_participants hknown)]
    omega
  have hlength : ballots.ballots.length = (participants electorate ballots).length := by
    rw [← (perm_participants hknown).length_eq, List.length_map]
  have hcount : ballots.ballots.length ≤ (effectiveVoters rules electorate).length := by omega
  have hle : rules.weigh (ballots.ballots.map (voterOf electorate)) ≤
      rules.weigh (effectiveVoters rules electorate) := by
    rw [rules.weigh_perm (perm_participants hknown)]
    omega
  have hrest : WeightTotalV1.checkedSubTotal ⟨_, weigh_effective_le h⟩ ⟨_, hfits⟩ =
      some ⟨_, (Nat.sub_le _ _).trans (weigh_effective_le h)⟩ := if_pos hle
  obtain ⟨tally, htally, hbuckets, hcounts⟩ := tally_isOk h
  have hchoices := weigh_by_choice hknown
  have hvoted : (weighing rules electorate ballots).participating ≤ u64Max :=
    hpart.symm.le.trans hfits
  obtain ⟨d, hdenominator, hd⟩ := @denominator_isOk rules (weighing rules electorate ballots) tally
    ⟨_, h.fits⟩ ⟨_, weigh_effective_le h⟩ ⟨_, hfits⟩ rfl rfl hpart (hbuckets .yes) (hbuckets .no)
    (by omega)
  have hmet := @requirement_met_iff rules (weighing rules electorate ballots)
    ⟨_, h.fits⟩ ⟨_, weigh_effective_le h⟩ ⟨_, hfits⟩ rfl rfl hpart
  have hcompares := @compares_of rules (weighing rules electorate ballots) tally.yesWeight.value
    d.value (hbuckets .yes) hd
  have hexcluded := List.length_eq_length_filter_add rules.isEffective (l := electorate.voters)
  unfold effectiveVoters at heffective hcount hrest hdenominator hmet hlengths hparticipants
  simp only [evaluate, hvalid, mapErr_ok, ok_bind, sumWeights, hall, heffective, hissues,
    ensure_of, hweights, hsnd, sum_weights_of_le hfits, hcount, hrest, orError_some, htally,
    hdenominator, pure_eq_ok, Except.ok.injEq]
  refine ⟨_, rfl, ?_⟩
  exact {
    version := rfl
    echoed := rfl
    voterCount := rfl
    effectiveVoterCount := rfl
    excludedCount := by
      dsimp only
      omega
    totalWeight := rfl
    effectiveWeight := rfl
    ballotCount := hlength
    participating := hpart
    nonParticipantCount := by
      dsimp only
      omega
    nonParticipantWeight := by
      dsimp only
      omega
    yesWeight := hbuckets .yes
    noWeight := hbuckets .no
    abstainWeight := hbuckets .abstain
    yesCount := hcounts .yes
    noCount := hcounts .no
    abstainCount := hcounts .abstain
    requirement := rfl
    actualWeight := rfl
    quorumMet := hmet
    basis := rfl
    denominatorWeight := hd
    requiredFraction := rfl
    abstentions := by simp [VotingRulesV1.abstentionsAffectDenominator]
    thresholdYes := rfl
    comparison := hcompares
    thresholdMet := thresholdMet_iff hcompares hd
    decided := (decides_iff hmet hd hcompares).mpr rfl }

/-- The error of a vote that something stands against. -/
theorem evaluate_of_fails {e : EvaluationErrorV1} (h : Fails rules electorate ballots e) :
    evaluate rules electorate ballots = .error e := by
  cases h with
  | validation hsome hissues =>
    rename_i error
    cases hvalid : validate rules electorate with
    | ok =>
      obtain ⟨issue, hissue⟩ := hsome
      exact absurd hissue (validate_eq_ok_iff.mp hvalid issue)
    | error found =>
      have hsame : found = error := by
        obtain ⟨found⟩ := found
        obtain ⟨issues⟩ := error
        refine congrArg _ (Finset.ext fun issue => ?_)
        exact ((validate_eq_error hvalid).2 issue).trans (hissues issue).symm
      simp only [evaluate, hvalid, mapErr, error_bind, hsame]
  | weightOverflow hvalid hover =>
    obtain ⟨e, he⟩ := sum_weights_error hover
    simp only [evaluate, validate_eq_ok_iff.mpr hvalid, mapErr, ok_bind, sumWeights, he, overflow,
      error_bind]
  | ballots hvalid hfits hsome hissues =>
    rename_i issues
    have heffective := sum_weights_of_le ((weigh_filter_le rules rules.isEffective _).trans hfits)
    have hne : ballots.ballots.filterMap (ballotIssue rules electorate) ≠ [] := by
      obtain ⟨issue, hissue⟩ := hsome
      exact List.ne_nil_of_mem (mem_ballotIssues.mpr hissue)
    have hsame : (ballots.ballots.filterMap (ballotIssue rules electorate)).toFinset = issues := by
      ext issue
      rw [List.mem_toFinset, mem_ballotIssues, hissues]
    simp only [evaluate, validate_eq_ok_iff.mpr hvalid, mapErr_ok, ok_bind, sumWeights,
      sum_weights_of_le hfits, heffective, ensure_of_not hne, error_bind, hsame]

/-- Every vote is counted, or refused for what stands against it. -/
theorem countable_or_fails :
    Countable rules electorate ballots ∨ ∃ e, Fails rules electorate ballots e := by
  by_cases hvalid : ∃ issue, Contradicts rules electorate issue
  · cases hvalidate : validate rules electorate with
    | ok =>
      obtain ⟨issue, hissue⟩ := hvalid
      exact absurd hissue (validate_eq_ok_iff.mp hvalidate issue)
    | error error => exact .inr ⟨_, .validation hvalid (validate_eq_error hvalidate).2⟩
  · rw [not_exists] at hvalid
    rcases Nat.lt_or_ge u64Max (rules.weigh electorate.voters) with hover | hfits
    · exact .inr ⟨_, .weightOverflow hvalid hover⟩
    · by_cases hknown : ∃ issue, Refuses rules electorate ballots issue
      · refine .inr ⟨.ballots (ballots.ballots.filterMap (ballotIssue rules electorate)).toFinset,
          .ballots hvalid hfits hknown fun issue => ?_⟩
        rw [List.mem_toFinset, mem_ballotIssues]
      · exact .inl ⟨hvalid, hfits, not_exists.mp hknown⟩

theorem Countable.not_fails (h : Countable rules electorate ballots) (e : EvaluationErrorV1) :
    ¬ Fails rules electorate ballots e := by
  intro hfails
  obtain ⟨report, hreport, -⟩ := evaluate_of_countable h
  rw [evaluate_of_fails hfails] at hreport
  cases hreport

/-- The written rules leave one report. -/
theorem Reports.unique {a b : VoteEvaluationV1} (ha : Reports rules electorate ballots a)
    (hb : Reports rules electorate ballots b) : a = b := by
  have helectorate : a.electorate = b.electorate := ElectorateSummaryV1.ext
    (ha.voterCount.trans hb.voterCount.symm) (ha.excludedCount.trans hb.excludedCount.symm)
    (ha.effectiveVoterCount.trans hb.effectiveVoterCount.symm)
    (WeightTotalV1.ext (ha.totalWeight.trans hb.totalWeight.symm))
    (WeightTotalV1.ext (ha.effectiveWeight.trans hb.effectiveWeight.symm))
  have hparticipation : a.participation = b.participation := ParticipationV1.ext
    (ha.ballotCount.trans hb.ballotCount.symm)
    (WeightTotalV1.ext (ha.participating.trans hb.participating.symm))
    (ha.nonParticipantCount.trans hb.nonParticipantCount.symm)
    (WeightTotalV1.ext (ha.nonParticipantWeight.trans hb.nonParticipantWeight.symm))
  have htally : a.tally = b.tally := TallyV1.ext
    (WeightTotalV1.ext (ha.yesWeight.trans hb.yesWeight.symm))
    (WeightTotalV1.ext (ha.noWeight.trans hb.noWeight.symm))
    (WeightTotalV1.ext (ha.abstainWeight.trans hb.abstainWeight.symm))
    (ha.yesCount.trans hb.yesCount.symm) (ha.noCount.trans hb.noCount.symm)
    (ha.abstainCount.trans hb.abstainCount.symm)
  have hquorum : a.quorum = b.quorum := QuorumOutcomeV1.ext
    (by rw [ha.requirement, hb.requirement, helectorate])
    (by rw [ha.actualWeight, hb.actualWeight, hparticipation])
    (Bool.eq_iff_iff.mpr (ha.quorumMet.trans hb.quorumMet.symm))
  have hthreshold : a.threshold = b.threshold := ThresholdOutcomeV1.ext
    (ha.basis.trans hb.basis.symm)
    (WeightTotalV1.ext (ha.denominatorWeight.trans hb.denominatorWeight.symm))
    (ha.requiredFraction.trans hb.requiredFraction.symm)
    (Bool.eq_iff_iff.mpr (ha.abstentions.trans hb.abstentions.symm))
    (by rw [ha.thresholdYes, hb.thresholdYes, htally])
    (compares_unique ha.comparison hb.comparison)
    (Bool.eq_iff_iff.mpr (ha.thresholdMet.trans hb.thresholdMet.symm))
  have hverdict := @decides_iff _ _ _ _ _ ha.quorumMet ha.denominatorWeight ha.comparison
  have hdecided := (hverdict.mp ha.decided).symm.trans (hverdict.mp hb.decided)
  exact VoteEvaluationV1.ext (ha.version.trans hb.version.symm) (ha.echoed.trans hb.echoed.symm)
    helectorate hparticipation htally hquorum hthreshold (congrArg Prod.fst hdecided)
    (congrArg Prod.snd hdecided)

/-- What an auditor checks on a result alone. -/
structure Audited (report : VoteEvaluationV1) : Prop where
  counts : report.tally.yesCount + report.tally.noCount + report.tally.abstainCount =
    report.participation.ballotCount
  weights : report.tally.yesWeight.value + report.tally.noWeight.value +
    report.tally.abstainWeight.value = report.participation.weight.value
  effectiveWeight : report.participation.weight.value +
    report.participation.nonParticipantWeight.value = report.electorate.effectiveWeight.value
  effectiveCount : report.participation.ballotCount + report.participation.nonParticipantCount =
    report.electorate.effectiveVoterCount
  voterCount : report.electorate.effectiveVoterCount + report.electorate.excludedCount =
    report.electorate.voterCount
  accepted : report.outcome = .accepted ↔
    report.quorum.met = true ∧ report.threshold.met = true

/-- The counts of a report fit in 64 bits and its products in 128. -/
structure InRange (report : VoteEvaluationV1) : Prop where
  voters : report.electorate.voterCount ≤ u64Max
  yes : report.tally.yesWeight.value * report.threshold.requiredFraction.denominator < 2 ^ 128
  required : report.threshold.requiredFraction.numerator *
    report.threshold.denominatorWeight.value < 2 ^ 128
  quorum : ∀ fraction basis basisWeight,
    report.quorum.requirement = .fraction fraction basis basisWeight →
      report.participation.weight.value * fraction.denominator < 2 ^ 128 ∧
        fraction.numerator * basisWeight.value < 2 ^ 128

theorem Reports.audited {report : VoteEvaluationV1} (h : Countable rules electorate ballots)
    (hreports : Reports rules electorate ballots report) : Audited report where
  counts := by
    rw [hreports.yesCount, hreports.noCount, hreports.abstainCount, hreports.ballotCount]
    exact length_by_choice h.known
  weights := by
    rw [hreports.yesWeight, hreports.noWeight, hreports.abstainWeight, hreports.participating]
    exact weigh_by_choice h.known
  effectiveWeight := by
    rw [hreports.participating, hreports.nonParticipantWeight, hreports.effectiveWeight]
    exact weigh_participants_add h.known
  effectiveCount := by
    rw [hreports.ballotCount, hreports.nonParticipantCount, hreports.effectiveVoterCount]
    exact length_participants_add h.known
  voterCount := by
    rw [hreports.effectiveVoterCount, hreports.excludedCount, hreports.voterCount]
    exact (List.length_eq_length_filter_add _).symm
  accepted := by
    rw [hreports.quorumMet, hreports.thresholdMet, ← Weighing.decides_accepted_iff]
    have hverdict := @decides_iff _ _ _ _ _ hreports.quorumMet hreports.denominatorWeight
      hreports.comparison
    constructor
    · intro haccepted
      exact ⟨report.reason, haccepted ▸ hreports.decided⟩
    · rintro ⟨reason, hdecides⟩
      exact congrArg Prod.fst ((hverdict.mp hreports.decided).symm.trans (hverdict.mp hdecides))

theorem mul_lt_of_le {a b : ℕ} (ha : a ≤ u64Max) (hb : b ≤ u64Max) : a * b < 2 ^ 128 :=
  (Nat.mul_le_mul ha hb).trans_lt (by decide)

theorem Reports.inRange {report : VoteEvaluationV1} (h : Countable rules electorate ballots)
    (hreports : Reports rules electorate ballots report) : InRange report where
  voters := by
    rw [hreports.voterCount]
    exact (rules.length_le_weigh _).trans h.fits
  yes := mul_lt_of_le report.tally.yesWeight.le report.threshold.requiredFraction.denominator_le
  required := mul_lt_of_le report.threshold.requiredFraction.numerator_le
    report.threshold.denominatorWeight.le
  quorum fraction _ basisWeight _ :=
    ⟨mul_lt_of_le report.participation.weight.le fraction.denominator_le,
      mul_lt_of_le fraction.numerator_le basisWeight.le⟩

/-- Evaluation meets the written rules: it fails exactly for what they refuse and reports what they
give, and none of its steps overflows. -/
theorem evaluate_meets_specification (rules : VotingRulesV1) (electorate : ElectorateV1)
    (ballots : BallotSetV1) :
    ((∃ e, evaluate rules electorate ballots = .error e) ↔
      (∃ issue, Contradicts rules electorate issue) ∨
        (∃ issue, Refuses rules electorate ballots issue) ∨
          u64Max < rules.weigh electorate.voters) ∧
    (∀ e, evaluate rules electorate ballots = .error e ↔ Fails rules electorate ballots e) ∧
    (∀ report, evaluate rules electorate ballots = .ok report ↔
      Countable rules electorate ballots ∧ Reports rules electorate ballots report) ∧
    (∀ report, evaluate rules electorate ballots = .ok report → Audited report ∧ InRange report) ∧
    evaluate rules electorate ballots ≠ .error .panicked := by
  have herror : ∀ e, evaluate rules electorate ballots = .error e ↔
      Fails rules electorate ballots e := by
    refine fun e => ⟨fun he => ?_, evaluate_of_fails⟩
    rcases @countable_or_fails rules electorate ballots with h | ⟨e', hfails⟩
    · obtain ⟨report, hreport, -⟩ := evaluate_of_countable h
      rw [he] at hreport
      cases hreport
    · obtain rfl := Except.error.inj (he.symm.trans (evaluate_of_fails hfails))
      exact hfails
  have hok : ∀ report, evaluate rules electorate ballots = .ok report ↔
      Countable rules electorate ballots ∧ Reports rules electorate ballots report := by
    intro report
    rcases @countable_or_fails rules electorate ballots with h | ⟨e, hfails⟩
    · obtain ⟨counted, hcounted, hreports⟩ := evaluate_of_countable h
      rw [hcounted, Except.ok.injEq]
      constructor
      · rintro rfl
        exact ⟨h, hreports⟩
      · exact fun ⟨_, hreport⟩ => hreports.unique hreport
    · rw [evaluate_of_fails hfails]
      simp only [reduceCtorEq, false_iff]
      exact fun ⟨h, _⟩ => h.not_fails e hfails
  refine ⟨?_, herror, hok, fun report hreport => ?_, fun hpanicked => ?_⟩
  · constructor
    · rintro ⟨e, he⟩
      cases (herror e).mp he with
      | validation hsome _ => exact .inl hsome
      | weightOverflow _ hover => exact .inr (.inr hover)
      | ballots _ _ hsome _ => exact .inr (.inl hsome)
    · intro hagainst
      rcases @countable_or_fails rules electorate ballots with h | ⟨e, hfails⟩
      · rcases hagainst with ⟨issue, hissue⟩ | ⟨issue, hissue⟩ | hover
        · exact absurd hissue (h.valid issue)
        · exact absurd hissue (h.known issue)
        · exact absurd h.fits (Nat.not_le.mpr hover)
      · exact ⟨e, evaluate_of_fails hfails⟩
  · obtain ⟨h, hreports⟩ := (hok report).mp hreport
    exact ⟨hreports.audited h, hreports.inRange h⟩
  · cases (herror _).mp hpanicked

end Count

end Irena.Bornite
