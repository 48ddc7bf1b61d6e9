import Irena.Sample.Met

/-! # What a meeting that verifies proves

A valid report says only what holds of the chain: which agenda was convened, and that each of its
vote items was answered by a vote of its own, recorded before the meeting. -/

namespace Irena.Meeting

open Irena.Library Irena.Library.Outcome Irena.Library.Strings
open Irena.Core Irena.Bornite Irena.Prunella Irena.Prunella.LocalChainStore Irena.Ledger Irena.Vote

section Rules

variable [Platform]

/-- What a final meeting record says holds of the chain. -/
structure Established (s : LocalChainStore) (located convening : LocatedTransaction)
    (company : CompanyIdV1) (record : MeetingFinalRecordV1) (agenda : AgendaV1) : Prop where
  final : finalOf located.transaction = some (company, record)
  meetingId : s.getTransaction record.meetingId.txId = some convening
  convened : conveningOf convening.transaction = some (company, record.metadata, agenda)
  agenda : record.items.map FinalItemV1.item = agenda.items
  answered : ∀ entry ∈ record.items, ∀ proposalDigest, entry.item.body = .vote proposalDigest →
    ∃ voteTx report vote, Answers s
      ⟨company, record.metadata.channel, record.openedAtHeight, located.height⟩ entry
      proposalDigest voteTx report vote
  informational : ∀ entry ∈ record.items, ∀ document, entry.item.body = .informational document →
    entry.voteTxId = none ∧ entry.outcome = none
  apart : record.items.Pairwise fun a b => ∀ voteTx, a.voteTxId = some voteTx →
    b.voteTxId ≠ some voteTx
  distinct : record.items.Pairwise fun a b => ∀ digest digest' voteTx voteTx' report report'
    vote vote', Answers s ⟨company, record.metadata.channel, record.openedAtHeight, located.height⟩ a
      digest voteTx report vote →
    Answers s ⟨company, record.metadata.channel, record.openedAtHeight, located.height⟩ b
      digest' voteTx' report' vote' →
    vote.voteId = vote'.voteId → Collision vote.snapshot.idBytes vote'.snapshot.idBytes

/-- A vote that answers two items has one subject. -/
theorem Answers.subject_eq {s : LocalChainStore} {c c' : MeetingContext} {a b : FinalItemV1}
    {digest digest' : Hash} {voteTx : TxId} {report report' : VerificationV1}
    {vote vote' : FinalVoteRecordV1} (h : Answers s c a digest voteTx report vote)
    (k : Answers s c' b digest' voteTx report' vote') : subjectOf a.item = subjectOf b.item := by
  obtain ⟨-, rfl⟩ := h.verified.unique k.verified
  exact h.subject.symm.trans k.subject

/-- Two records of one vote have one subject. -/
theorem Answers.subject_eq_of_voteId {s : LocalChainStore} {c c' : MeetingContext}
    {a b : FinalItemV1} {digest digest' : Hash} {voteTx voteTx' : TxId}
    {report report' : VerificationV1} {vote vote' : FinalVoteRecordV1}
    (h : Answers s c a digest voteTx report vote)
    (k : Answers s c' b digest' voteTx' report' vote') (hid : vote.voteId = vote'.voteId) :
    subjectOf a.item = subjectOf b.item ∨ Collision vote.snapshot.idBytes vote'.snapshot.idBytes := by
  obtain ⟨_, _, _, _, _, _, -, -, -, hpasses⟩ := h.verified.passes
  obtain ⟨_, _, _, _, _, _, -, -, -, hpasses'⟩ := k.verified.passes
  have hsame := hpasses.voteId.trans (hid.trans hpasses'.voteId.symm)
  refine (VoteSnapshotV1.eq_of_id_eq hsame).imp_left fun heq => ?_
  exact h.subject.symm.trans ((congrArg VoteSnapshotV1.subject heq).trans k.subject)

theorem Passes.established {s : LocalChainStore} {located convening : LocatedTransaction}
    {company : CompanyIdV1} {record : MeetingFinalRecordV1} {agenda : AgendaV1}
    (h : Passes s located company record convening agenda)
    (hfinal : finalOf located.transaction = some (company, record)) :
    Established s located convening company record agenda := by
  have hitems : record.items.map FinalItemV1.item = agenda.items :=
    (AgendaV1.new_eq_ok.mp h.agenda).symm
  have hnumbers : record.items.Pairwise fun a b => a.item.number ≠ b.item.number := by
    have hpairwise := agenda.numbers_pairwise
    rw [← hitems, List.pairwise_map] at hpairwise
    exact hpairwise
  refine ⟨hfinal, h.meetingId, h.convened, hitems, h.answered, h.informational, ?_, ?_⟩
  · refine hnumbers.imp_of_mem fun {a b} ha hb hne voteTx hfirst hsecond => hne ?_
    obtain ⟨_, _, _, -, hanswers⟩ := h.answers_of_names ha hfirst
    obtain ⟨_, _, _, -, hanswers'⟩ := h.answers_of_names hb hsecond
    exact (subjectOf_inj (hanswers.subject_eq hanswers')).1
  · refine hnumbers.imp ?_
    intro a b hne digest digest' voteTx voteTx' report report' vote vote' hfirst hsecond hid
    exact (hfirst.subject_eq_of_voteId hsecond hid).resolve_left fun heq =>
      hne (subjectOf_inj heq).1

/-- Soundness of the verifier: a valid report is about a record that says only what holds of the
chain. -/
theorem verifyMeeting_sound {s : LocalChainStore} {txId : TxId} {v : MeetingVerificationV1}
    (h : verifyMeeting s txId = .ok v) (hvalid : v.isValid = true) :
    ∃ located convening company record agenda, s.getTransaction txId = some located ∧
      v.record = some record ∧ Established s located convening company record agenda := by
  obtain ⟨record, hverified⟩ := verified_of_isValid h hvalid
  obtain ⟨located, company, convening, agenda, hlocated, -, hfinal, hpasses⟩ := hverified.passes
  exact ⟨located, convening, company, record, agenda, hlocated, hverified.record,
    hpasses.established hfinal⟩

end Rules

section Samples

open Irena.Sample

attribute [local instance] platform

/-- What the final record of the meeting in spring says of the chain. -/
theorem verifyMeeting_sound_met : ∃ v located convening company record agenda,
    verifyMeeting met (finalTransaction spring).id = .ok v ∧ v.isValid = true ∧
      v.record = some record ∧ Established met located convening company record agenda := by
  obtain ⟨v, hverified⟩ := meeting_verified List.mem_cons_self
  obtain ⟨located, convening, company, record, agenda, -, hrecord, hestablished⟩ :=
    verifyMeeting_sound hverified.report hverified.valid
  exact ⟨v, located, convening, company, record, agenda, hverified.report, hverified.valid, hrecord,
    hestablished⟩

end Samples

end Irena.Meeting
