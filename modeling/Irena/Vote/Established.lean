import Irena.Sample.Voted

/-! # What a vote that verifies proves

A final record without a failed check says only what holds of the chain. -/

namespace Irena.Vote

open Irena.Library Irena.Library.Outcome Irena.Library.Strings
open Irena.Core Irena.Bornite Irena.Prunella Irena.Prunella.LocalChainStore Irena.Ledger
open Irena.Decision

section Rules

variable [Platform]

/-- A ballot for the vote whose signature verifies under the one key frozen for its voter. -/
structure Cast (record : FinalVoteRecordV1) (b : SignedBallotV1) (entry : ElectorateEntryV1)
    (key : PublicKey) : Prop where
  voteId : b.body.voteId = record.voteId
  listed : entry ∈ record.snapshot.electorate
  voter : entry.id = b.body.voter
  only : ∀ other ∈ record.snapshot.electorate, other.id = b.body.voter → other = entry
  included : entry.excluded = false
  holds : entry.key = some key
  signature : Platform.verifyStrict key b.body.signingMessage.asBytes b.signature = some true

/-- What a final vote record says holds of the chain: the parts it pins are in force at its height,
its electorate is the one its collective channel resolves to, each ballot was cast in it, and the
commitment and the result are those of its ballots. -/
structure Established (s : LocalChainStore) (record : FinalVoteRecordV1) (state : CompanyStateV1)
    (channel : ChannelIdV1) (resolved : ResolvedChannelV1) (rules : VotingRulesV1)
    (ballots : BallotSetV1) (evaluation : VoteEvaluationV1) : Prop where
  voteId : record.voteId = record.snapshot.id
  reconstructs : reconstruct s record.snapshot.height = .ok state
  company : state.company.value = record.snapshot.company
  genesis : record.snapshot.genesisTxId = state.genesisTxId
  shares : record.snapshot.sharesTxId = state.shares.txId
  channels : record.snapshot.channelsTxId = state.channels.txId
  identities : record.snapshot.identitiesTxId = state.identities.txId
  label : channel.value = record.snapshot.channel
  resolves : resolveChannel state channel = .ok resolved
  collective : resolved.channel.mode = .collective rules
  electorate : record.snapshot.electorate = resolved.actors.actors.map entryOf
  cast : ∀ b ∈ record.ballots, ∃ entry key, Cast record b entry key
  voters : (record.ballots.map fun b => b.body.voter).Nodup
  commitment : record.ballotCommitment = root commitmentTags (record.ballots.map SignedBallotV1.digest)
  counted : ballots.ballots.map (fun b => (b.voter.value, b.choice)) =
    record.ballots.map fun b => (b.body.voter, b.body.choice.toBornite)
  evaluates : evaluate rules resolved.actors.electorate ballots = .ok evaluation
  result : record.evaluation = .of evaluation

theorem Passes.cast {s : LocalChainStore} {located : LocatedTransaction}
    {record : FinalVoteRecordV1} {state : CompanyStateV1} {channel : ChannelIdV1}
    {resolved : ResolvedChannelV1} {rules : VotingRulesV1} {evaluation : VoteEvaluationV1}
    (h : Passes s located record state channel resolved rules evaluation) :
    ∀ b ∈ record.ballots, ∃ entry key, Cast record b entry key := by
  intro b hb
  obtain ⟨voter, hvoter⟩ := h.ballots b hb
  obtain ⟨hid, hvalue, entry, key, hentry, hincluded, hkey, hsig⟩ :=
    SignedBallotV1.check_eq_ok.mp hvoter
  have hsorted : record.snapshot.electorate.Pairwise fun a b => a.id < b.id :=
    h.electorate ▸ entries_sorted h.resolves
  obtain ⟨hmem, hentryId⟩ := (VoteSnapshotV1.entry_eq_some hsorted).mp hentry
  refine ⟨entry, key, hid.trans h.voteId, hmem, hentryId.trans hvalue, fun other hother heq => ?_,
    hincluded, hkey, verifySignature_eq_ok.mp hsig⟩
  have hfound := (VoteSnapshotV1.entry_eq_some hsorted).mpr ⟨hother, heq.trans hvalue.symm⟩
  exact Option.some.inj (hfound.symm.trans hentry)

theorem Passes.established {s : LocalChainStore} {located : LocatedTransaction}
    {record : FinalVoteRecordV1} {state : CompanyStateV1} {channel : ChannelIdV1}
    {resolved : ResolvedChannelV1} {rules : VotingRulesV1} {evaluation : VoteEvaluationV1}
    (h : Passes s located record state channel resolved rules evaluation) :
    ∃ ballots, Established s record state channel resolved rules ballots evaluation := by
  obtain ⟨electorate, ballots, helectorate, hballots, heval⟩ := evaluateBallots_eq_ok.mp h.evaluates
  have hresolved := VoteSnapshotV1.toElectorate_of_resolves h.resolves h.electorate
  obtain rfl := Except.ok.inj (helectorate.symm.trans hresolved)
  have hpins := h.pins
  simp only [VoteSnapshotV1.pins, Bool.and_eq_true, decide_eq_true_eq] at hpins
  obtain ⟨⟨⟨hgenesis, hshares⟩, hchannels⟩, hidentities⟩ := hpins
  have hcollective : resolved.channel.mode = .collective rules := by
    have hrules := h.collective
    unfold ResolvedChannelV1.rules at hrules
    cases hmode : resolved.channel.mode with
    | individual =>
      rw [hmode] at hrules
      cases hrules
    | collective found =>
      rw [hmode] at hrules
      rw [Option.some.inj hrules]
  exact ⟨ballots, {
    voteId := h.voteId.symm
    reconstructs := h.reconstructs
    company := h.company
    genesis := hgenesis.symm
    shares := hshares.symm
    channels := hchannels.symm
    identities := hidentities.symm
    label := h.label
    resolves := h.resolves
    collective := hcollective
    electorate := h.electorate
    cast := h.cast
    voters := List.pairwise_map.mpr (h.ordered.imp ne_of_lt)
    commitment := h.commitment
    counted := borniteBallots_eq_ok h.ordered hballots
    evaluates := heval
    result := h.result }⟩

/-- Soundness of the verifier: a report without a failed check is about a record that says only
what holds of the chain. -/
theorem verify_sound {s : LocalChainStore} {txId : TxId} {v : VerificationV1}
    (h : verify s txId = .ok v) (hpass : NoneFailed v.checks) :
    ∃ located record state channel resolved rules ballots evaluation,
      s.getTransaction txId = some located ∧
      FinalVoteRecordV1.codec.encode record = located.transaction.payload ∧
      v.record = some record ∧ record.snapshot.height < located.height ∧
      Established s record state channel resolved rules ballots evaluation := by
  obtain ⟨record, hverified⟩ := verified_of_noneFailed h hpass
  obtain ⟨located, state, channel, resolved, rules, evaluation, hlocated, -, hdecode, hpasses⟩ :=
    hverified.passes
  obtain ⟨ballots, hestablished⟩ := hpasses.established
  obtain ⟨-, -, -, hpayload⟩ := decodeVote_eq_some.mp hdecode
  exact ⟨located, record, state, channel, resolved, rules, ballots, evaluation, hlocated, hpayload,
    hverified.record, hpasses.precedes, hestablished⟩

end Rules

section Samples

open Irena.Sample

attribute [local instance] platform

/-- What the shareholder's vote says of the chain. -/
theorem verify_sound_voted : ∃ v record state channel resolved rules ballots evaluation,
    verify voted carried.id = .ok v ∧ NoneFailed v.checks ∧
      v.record = some record ∧
      Established voted record state channel resolved rules ballots evaluation := by
  obtain ⟨v, hverified⟩ := voted_verified.1
  obtain ⟨-, record, state, channel, resolved, rules, ballots, evaluation, -, -, hrecord, -,
    hestablished⟩ := verify_sound hverified.report (allPassed_iff.mp hverified.valid).2
  exact ⟨v, record, state, channel, resolved, rules, ballots, evaluation, hverified.report,
    (allPassed_iff.mp hverified.valid).2, hrecord, hestablished⟩

end Samples

end Irena.Vote
