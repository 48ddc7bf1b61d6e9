import Irena.Vote.Established

/-! # Two records of one vote

What two records of one vote have in common when both verify, and in what they may differ. -/

namespace Irena.Vote

open Irena.Library Irena.Library.Outcome Irena.Library.Strings
open Irena.Core Irena.Bornite Irena.Prunella Irena.Prunella.LocalChainStore Irena.Ledger
open Irena.Decision

/-- Ballots of the same voters with the same choices reach the evaluation alike. -/
theorem borniteBallots_congr {ballots ballots' : List SignedBallotV1}
    (h : ballots.map SignedBallotV1.counted = ballots'.map SignedBallotV1.counted) :
    borniteBallots ballots = borniteBallots ballots' := by
  have hballot : ∀ b : SignedBallotV1, borniteBallot b =
      (do let voter ← VoterIdV1.new b.counted.1
          return ⟨voter, b.counted.2⟩) := fun _ => rfl
  have hmap (bs : List SignedBallotV1) : bs.mapM borniteBallot =
      (bs.map SignedBallotV1.counted).mapM fun c => do
        let voter ← VoterIdV1.new c.1
        return ⟨voter, c.2⟩ := by
    rw [List.mapM_map]
    exact congrArg (fun f => bs.mapM f) (funext hballot)
  rw [borniteBallots, borniteBallots, hmap, hmap, h]

section Rules

variable [Platform]

section Pair

variable {s : LocalChainStore} {located located' : LocatedTransaction}
  {record record' : FinalVoteRecordV1} {state state' : CompanyStateV1}
  {channel channel' : ChannelIdV1} {resolved resolved' : ResolvedChannelV1}
  {rules rules' : VotingRulesV1} {evaluation evaluation' : VoteEvaluationV1}

/-- The same frozen vote is judged by the same rules. -/
theorem Passes.rules_eq (h : Passes s located record state channel resolved rules evaluation)
    (k : Passes s located' record' state' channel' resolved' rules' evaluation')
    (heq : record.snapshot = record'.snapshot) : rules = rules' := by
  obtain rfl : state = state' := by
    have hstate := h.reconstructs
    rw [heq, k.reconstructs] at hstate
    exact (Except.ok.inj hstate).symm
  obtain rfl : channel = channel' :=
    ChannelIdV1.value_injective (h.label.trans ((congrArg _ heq).trans k.label.symm))
  obtain rfl := Except.ok.inj (h.resolves.symm.trans k.resolves)
  exact Option.some.inj (h.collective.symm.trans k.collective)

/-- The same frozen vote and the same choices have the same result. -/
theorem Passes.evaluation_eq (h : Passes s located record state channel resolved rules evaluation)
    (k : Passes s located' record' state' channel' resolved' rules' evaluation')
    (heq : record.snapshot = record'.snapshot)
    (hcounted : record.ballots.map SignedBallotV1.counted =
      record'.ballots.map SignedBallotV1.counted) : record.evaluation = record'.evaluation := by
  have heval := h.evaluates
  rw [h.rules_eq k heq, evaluateBallots, borniteBallots_congr hcounted, heq, ← evaluateBallots,
    k.evaluates] at heval
  rw [h.result, k.result, Except.ok.inj heval]

/-- Votes that froze the same channel at the same height about the same proposal froze the same. -/
theorem Passes.snapshot_eq (h : Passes s located record state channel resolved rules evaluation)
    (k : Passes s located' record' state' channel' resolved' rules' evaluation')
    (hheight : record.snapshot.height = record'.snapshot.height)
    (hchannel : record.snapshot.channel = record'.snapshot.channel)
    (hsubject : record.snapshot.subject = record'.snapshot.subject)
    (hdigest : record.snapshot.proposalDigest = record'.snapshot.proposalDigest) :
    record.snapshot = record'.snapshot := by
  obtain rfl : state = state' := by
    have hstate := h.reconstructs
    rw [hheight, k.reconstructs] at hstate
    exact (Except.ok.inj hstate).symm
  obtain rfl : channel = channel' :=
    ChannelIdV1.value_injective (h.label.trans (hchannel.trans k.label.symm))
  obtain rfl := Except.ok.inj (h.resolves.symm.trans k.resolves)
  have hpins := h.pins
  have hpins' := k.pins
  simp only [VoteSnapshotV1.pins, Bool.and_eq_true, decide_eq_true_eq] at hpins hpins'
  obtain ⟨⟨⟨hgenesis, hshares⟩, hchannels⟩, hidentities⟩ := hpins
  obtain ⟨⟨⟨hgenesis', hshares'⟩, hchannels'⟩, hidentities'⟩ := hpins'
  have hext : ∀ a b : VoteSnapshotV1, a.company = b.company → a.subject = b.subject →
      a.proposalDigest = b.proposalDigest → a.height = b.height → a.genesisTxId = b.genesisTxId →
      a.sharesTxId = b.sharesTxId → a.channelsTxId = b.channelsTxId →
      a.identitiesTxId = b.identitiesTxId → a.channel = b.channel →
      a.electorate = b.electorate → a = b := by
    rintro ⟨⟩ ⟨⟩ rfl rfl rfl rfl rfl rfl rfl rfl rfl rfl
    rfl
  exact hext _ _ (h.company.symm.trans k.company) hsubject hdigest hheight
    (hgenesis.symm.trans hgenesis') (hshares.symm.trans hshares')
    (hchannels.symm.trans hchannels') (hidentities.symm.trans hidentities') hchannel
    (h.electorate.trans k.electorate.symm)

end Pair

/-- Two records of one vote that verify froze the same, hold only ballots cast in it, one of each
voter, and where their ballots say the same so do their results. -/
theorem verified_agree {s : LocalChainStore} {first second : TxId} {v w : VerificationV1}
    {record record' : FinalVoteRecordV1} (h : Verified s first v record)
    (k : Verified s second w record') (hid : record.voteId = record'.voteId) :
    record.snapshot = record'.snapshot ∧
      (∀ b ∈ record.ballots ++ record'.ballots, ∃ entry key, Cast record b entry key) ∧
      (record.ballots.map fun b => b.body.voter).Nodup ∧
      (record'.ballots.map fun b => b.body.voter).Nodup ∧
      (record.ballots.map SignedBallotV1.counted = record'.ballots.map SignedBallotV1.counted →
        record.evaluation = record'.evaluation) ∨
    Collision record.snapshot.idBytes record'.snapshot.idBytes := by
  obtain ⟨located, state, channel, resolved, rules, evaluation, -, -, -, hpasses⟩ := h.passes
  obtain ⟨located', state', channel', resolved', rules', evaluation', -, -, -, hpasses'⟩ := k.passes
  have hsame := hpasses.voteId.trans (hid.trans hpasses'.voteId.symm)
  rcases VoteSnapshotV1.eq_of_id_eq hsame with heq | hcollision
  · refine .inl ⟨heq, fun b hb => ?_, List.pairwise_map.mpr (hpasses.ordered.imp ne_of_lt),
      List.pairwise_map.mpr (hpasses'.ordered.imp ne_of_lt), hpasses.evaluation_eq hpasses' heq⟩
    rcases List.mem_append.mp hb with hb | hb
    · exact hpasses.cast b hb
    · obtain ⟨entry, key, hcast⟩ := hpasses'.cast b hb
      exact ⟨entry, key, { hcast with
        voteId := hcast.voteId.trans hid.symm
        listed := heq ▸ hcast.listed
        only := heq ▸ hcast.only }⟩
  · exact .inr hcollision

end Rules

section Samples

open Irena.Sample

attribute [local instance] platform

/-- What the two records of the shareholder's vote have in common. -/
theorem verified_agree_voted : ∃ v w record record', Verified voted carried.id v record ∧
    Verified voted dropped.id w record' ∧
    (record.snapshot = record'.snapshot ∨
      Collision record.snapshot.idBytes record'.snapshot.idBytes) := by
  obtain ⟨⟨v, hcarried⟩, w, hdropped⟩ := voted_verified
  exact ⟨v, w, _, _, hcarried, hdropped, (verified_agree hcarried hdropped rfl).imp_left And.left⟩

/-- One vote is recorded as accepted with its ballot and as rejected without it. -/
theorem verified_disagree : voted.WellFormed ∧ ∃ v w record record',
    Verified voted carried.id v record ∧ Verified voted dropped.id w record' ∧
    record.voteId = record'.voteId ∧ record.ballots ≠ record'.ballots ∧
    record.evaluation.outcome = .accepted ∧ record'.evaluation.outcome = .rejected := by
  obtain ⟨⟨v, hcarried⟩, w, hdropped⟩ := voted_verified
  refine ⟨voted_wellFormed, v, w, _, _, hcarried, hdropped, rfl, List.cons_ne_nil _ _, ?_⟩
  obtain ⟨haccepted, hrejected⟩ := outcomes
  constructor
  · rw [FinalVoteRecordV1.assemble, EvaluationSummaryV1.of, haccepted]
  · rw [FinalVoteRecordV1.assemble, EvaluationSummaryV1.of, hrejected]

end Samples

end Irena.Vote
