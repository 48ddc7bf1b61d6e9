import Irena.Sample.Resolved

/-! # What a resolution that verifies proves

The evidence for a verified resolution, read off the records it names: the vote that carried or the
decision that was signed, by whom, and through which channel. -/

namespace Irena.Resolution

open Irena.Library Irena.Library.Outcome Irena.Library.Strings Irena.Library.Utf8
open Irena.Core Irena.Bornite Irena.Prunella Irena.Prunella.LocalChainStore Irena.Ledger
open Irena.Decision (signerAuthorisedAt FinalDecisionRecordV1 DecisionVerificationV1 verifyDecision
  resolveChannel ResolvedChannelV1 ActorV1 actorsOf)
open Irena.Vote (FinalVoteRecordV1 VerificationV1 verify)
open Irena.Meeting (MeetingFinalRecordV1 MeetingVerificationV1 FinalItemV1 verifyMeeting)

section Rules

variable [Platform]

/-- A vote on a digest through a channel carried in a meeting recorded before a height, and the
company it was taken in. -/
structure VoteEvidence (s : LocalChainStore) (before : ℕ) (channel : Text) (meetingTx : TxId)
    (itemNumber : ℕ) (voteTx : TxId) (digest : Hash) (frozen : CompanyStateV1)
    (meeting : MeetingVerificationV1) (final : MeetingFinalRecordV1) (entry : FinalItemV1)
    (report : VerificationV1) (vote : FinalVoteRecordV1) : Prop where
  held : Meeting.Verified s meetingTx meeting final
  earlier : meeting.height < before
  listed : entry ∈ final.items
  number : entry.item.number = itemNumber
  asks : entry.item.body = .vote digest
  answered : entry.voteTxId = some voteTx
  taken : Vote.Verified s voteTx report vote
  accepted : vote.evaluation.accepted = true
  through : vote.snapshot.channel = channel
  approves : vote.snapshot.proposalDigest = digest
  frozenAt : reconstruct s vote.snapshot.height = .ok frozen

/-- A decision for a digest through an individual channel, recorded before a height and signed by
the key the company gave the channel's one actor. -/
structure DecisionEvidence (s : LocalChainStore) (before : ℕ) (channel : ChannelIdV1)
    (decisionTx : TxId) (digest : Hash) (frozen : CompanyStateV1) (report : DecisionVerificationV1)
    (decision : FinalDecisionRecordV1) (resolved : ResolvedChannelV1) (actor : ActorV1)
    (key : PublicKey) : Prop where
  recorded : Decision.Verified s decisionTx report decision
  earlier : report.height < before
  through : decision.snapshot.channel = channel.value
  approves : decision.snapshot.proposalDigest = digest
  frozenAt : reconstruct s decision.snapshot.height = .ok frozen
  resolves : resolveChannel frozen channel = .ok resolved
  individual : resolved.channel.mode = .individual
  sole : resolved.actors.actors = [actor]
  holds : frozen.identities.value.keyOf actor.id = some key
  signed : Platform.verifyStrict key decision.snapshot.signingMessage.asBytes decision.signature =
    some true

/-- The channel of a name in the company has a part in its scope. -/
def InScope (frozen : CompanyStateV1) (channel : Text) (part : RecordKindV1) : Prop :=
  ∃ found ∈ frozen.channels.value.channels, found.id.value = channel ∧
    ∃ scope, found.scope = some scope ∧ part ∈ scope.parts

theorem Carried.evidence {s : LocalChainStore} {before : ℕ} {meetingTx : TxId} {itemNumber : ℕ}
    {voteTx : TxId} {meeting : MeetingVerificationV1} {final : MeetingFinalRecordV1}
    {entry : FinalItemV1} {report : VerificationV1} {vote : FinalVoteRecordV1}
    {frozen : CompanyStateV1}
    (h : Carried s meetingTx itemNumber voteTx meeting final entry report vote)
    (hearlier : meeting.height < before)
    (hfrozen : reconstruct s vote.snapshot.height = .ok frozen) :
    VoteEvidence s before vote.snapshot.channel meetingTx itemNumber voteTx
      vote.snapshot.proposalDigest frozen meeting final entry report vote := by
  obtain ⟨hmem, hnumber, -⟩ := voteItemOf_eq_some h.item
  obtain ⟨hbody, -, -, -⟩ := h.answers
  exact ⟨h.held, hearlier, hmem, hnumber, hbody, h.answered, h.taken, h.accepted, rfl, rfl, hfrozen⟩

theorem decisionEvidence {s : LocalChainStore} {before : ℕ} {decisionTx : TxId}
    {report : DecisionVerificationV1} {decision : FinalDecisionRecordV1} {frozen : CompanyStateV1}
    (h : Decision.Verified s decisionTx report decision) (hearlier : report.height < before)
    (hfrozen : reconstruct s decision.snapshot.height = .ok frozen) :
    ∃ channel resolved actor key, channel.value = decision.snapshot.channel ∧
      DecisionEvidence s before channel decisionTx decision.snapshot.proposalDigest frozen report
        decision resolved actor key := by
  obtain ⟨located, state, channel, resolved, actor, -, -, hpasses⟩ := h.passes
  obtain rfl := Except.ok.inj (hfrozen.symm.trans hpasses.reconstructs)
  have hsole := Decision.actors_of_soleActor hpasses.resolves hpasses.sole
  obtain ⟨found, actors, -, hactors, -, rfl⟩ := Decision.resolveChannel_eq_ok.mp hpasses.resolves
  have hkey := Decision.key_of_actorsOf hactors actor (by
    dsimp only at hsole
    rw [hsole]
    exact List.mem_singleton_self actor)
  exact ⟨channel, _, actor, decision.snapshot.key, hpasses.label, h, hearlier, hpasses.label.symm,
    rfl, hfrozen, hpasses.resolves, (Decision.soleActor_eq_some.mp hpasses.sole).1, hsole,
    hkey.symm.trans hpasses.holds, Decision.checkSignature_eq_ok.mp hpasses.signature⟩

/-- Soundness of the verifier: a resolution without a failed check was approved, by a vote that
carried or by a signed decision, through its channel, for exactly what it carries, and within the
scope its channel had when it decided. -/
theorem verifyResolution_sound {s : LocalChainStore} {txId : TxId} {v : ResolutionVerificationV1}
    (h : verifyResolution s txId = .ok v) (hpass : NoneFailed v.checks) :
    ∃ located record frozen, s.getTransaction txId = some located ∧
      decodeResolution located.transaction = some record ∧ v.record = some record ∧
      (∀ target, record.kind.target = some target →
        InScope frozen record.authority.channel target.recordKind) ∧
      ((∃ channel meetingTx itemNumber voteTx meeting final entry report vote,
          record.authority = .collective channel meetingTx itemNumber voteTx ∧
          VoteEvidence s located.height channel meetingTx itemNumber voteTx
            record.kind.approvedDigest frozen meeting final entry report vote) ∨
        ∃ channel decisionTx report decision resolved actor key,
          record.authority = .individual channel.value decisionTx ∧
          DecisionEvidence s located.height channel decisionTx record.kind.approvedDigest frozen
            report decision resolved actor key) := by
  simp only [verifyResolution, bind_eq_ok, orError_eq_ok, pure_eq_ok, Except.ok.injEq] at h
  obtain ⟨located, hlocated, ⟨report, found⟩, hreport, rfl⟩ := h
  obtain ⟨record, approval, height, state, rfl, hrecord, hdecode, hpasses⟩ :=
    verified_of_noneFailed hreport hpass
  have hscope : ∀ frozen, reconstruct s approval.height = .ok frozen → ∀ target,
      record.kind.target = some target →
        InScope frozen record.authority.channel target.recordKind := by
    intro frozen hfrozen target htarget
    obtain ⟨frozen', channel, scope, hfrozen', hmem, hid, hscope, hpart⟩ :=
      checkScope_eq_ok.mp (hpasses.inScope target htarget)
    obtain rfl := Except.ok.inj (hfrozen.symm.trans hfrozen')
    exact ⟨channel, hmem, hid.trans hpasses.approved.channel, scope, hscope, hpart⟩
  have hdigest := hpasses.digest
  have hearlier := hpasses.earlier
  obtain ⟨company, notarisation, title, authority, kind⟩ := record
  cases hpasses.approved with
  | @collective _ _ _ _ meeting final entry report vote frozen carried through frozenAt =>
    subst through
    refine ⟨located, _, _, hlocated, hdecode, hrecord, hscope _ frozenAt, .inl ?_⟩
    have hevidence := carried.evidence hearlier frozenAt
    rw [show vote.snapshot.proposalDigest = kind.approvedDigest from hdigest.symm] at hevidence
    exact ⟨_, _, _, _, meeting, final, entry, report, vote, rfl, hevidence⟩
  | @individual _ _ report decision frozen signed through frozenAt =>
    subst through
    refine ⟨located, _, _, hlocated, hdecode, hrecord, hscope _ frozenAt, .inr ?_⟩
    obtain ⟨channel, resolved, actor, key, hlabel, hevidence⟩ :=
      decisionEvidence signed hearlier frozenAt
    rw [show decision.snapshot.proposalDigest = kind.approvedDigest from hdigest.symm] at hevidence
    exact ⟨channel, _, _, _, resolved, actor, key, by rw [hlabel], hevidence⟩

end Rules

section Samples

open Irena.Sample

attribute [local instance] platform

/-- What stands behind a resolution of the director's. -/
theorem verifyResolution_sound_twice : ∃ v located record frozen,
    verifyResolution twice (resolutionTransaction .shareStructure widenedXml 0).id = .ok v ∧
    NoneFailed v.checks ∧
    twice.getTransaction (resolutionTransaction .shareStructure widenedXml 0).id = some located ∧
    decodeResolution located.transaction = some record ∧
    (∀ target, record.kind.target = some target →
      InScope frozen record.authority.channel target.recordKind) := by
  obtain ⟨⟨_, hexecuted⟩, -⟩ := twice_executed
  obtain ⟨height, state, hpasses⟩ := hexecuted.verifies
  obtain ⟨v, hverified⟩ := hpasses.verified hexecuted.resolved
  obtain ⟨hv, hpass⟩ := hverified.verifies hexecuted.executes.named
  obtain ⟨located, record, frozen, hlocated, hdecode, -, hscope, -⟩ :=
    verifyResolution_sound hv hpass
  exact ⟨v, located, record, frozen, hv, hpass, hlocated, hdecode, hscope⟩

end Samples

end Irena.Resolution
