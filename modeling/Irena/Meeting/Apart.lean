import Irena.Meeting.Established
import Irena.Vote.Agreement

/-! # Two meetings with one vote

Nothing in the id of a vote names the meeting it was opened for. Two meetings that put the same item
to the same channel at the same height therefore share its vote, and no others do. -/

namespace Irena.Meeting

open Irena.Library Irena.Library.Outcome Irena.Library.Strings Irena.Library.Utf8
open Irena.Core Irena.Bornite Irena.Prunella Irena.Prunella.LocalChainStore Irena.Ledger Irena.Vote

/-- Two meetings were opened at one height through one channel, with a vote item in common. -/
def Coincide (a b : MeetingFinalRecordV1) : Prop :=
  a.metadata.channel = b.metadata.channel ∧ a.openedAtHeight = b.openedAtHeight ∧
    ∃ x ∈ a.items, ∃ y ∈ b.items, x.item = y.item ∧ x.item.body.isVote = true

section Rules

variable [Platform]

/-- A vote answers some item of a final record. -/
def VoteOf (s : LocalChainStore) (located : LocatedTransaction) (company : CompanyIdV1)
    (record : MeetingFinalRecordV1) (vote : FinalVoteRecordV1) : Prop :=
  ∃ entry ∈ record.items, ∃ digest voteTx report, entry.item.body = .vote digest ∧
    Answers s ⟨company, record.metadata.channel, record.openedAtHeight, located.height⟩ entry digest
      voteTx report vote

section Pair

variable {s : LocalChainStore} {c c' : MeetingContext} {a b : FinalItemV1} {digest digest' : Hash}
  {voteTx voteTx' : TxId} {report report' : VerificationV1} {vote vote' : FinalVoteRecordV1}

/-- Two answers froze the same exactly when the same item was put to the same channel at the same
height. -/
theorem Answers.snapshot_eq_iff (h : Answers s c a digest voteTx report vote)
    (k : Answers s c' b digest' voteTx' report' vote') (ha : a.item.body = .vote digest)
    (hb : b.item.body = .vote digest') :
    vote.snapshot = vote'.snapshot ↔
      c.channel = c'.channel ∧ c.openedAtHeight = c'.openedAtHeight ∧ a.item = b.item := by
  obtain ⟨located, state, channel, resolved, rules, evaluation, -, -, -, hpasses⟩ := h.verified.passes
  obtain ⟨located', state', channel', resolved', rules', evaluation', -, -, -, hpasses'⟩ :=
    k.verified.passes
  constructor
  · intro heq
    have hsubject : subjectOf a.item = subjectOf b.item := by
      rw [← h.subject, heq, k.subject]
    have hdigest : digest = digest' := by
      rw [← h.digest, heq, k.digest]
    obtain ⟨hnumber, htitle⟩ := subjectOf_inj hsubject
    refine ⟨by rw [← h.channel, heq, k.channel], by rw [← h.opened, heq, k.opened], ?_⟩
    have hbody : a.item.body = b.item.body := by
      rw [ha, hb, hdigest]
    rcases hx : a.item with ⟨number, title, body⟩
    rcases hy : b.item with ⟨number', title', body'⟩
    rw [hx, hy] at hnumber htitle hbody
    dsimp only at hnumber htitle hbody
    rw [hnumber, htitle, hbody]
  · rintro ⟨hchannel, hheight, hitem⟩
    have hdigest : digest = digest' := by
      rw [hitem, hb] at ha
      exact (AgendaBodyV1.vote.inj ha).symm
    exact hpasses.snapshot_eq hpasses' (h.opened.trans (hheight.trans k.opened.symm))
      (h.channel.trans (hchannel.trans k.channel.symm))
      (h.subject.trans ((congrArg subjectOf hitem).trans k.subject.symm))
      (h.digest.trans (hdigest.trans k.digest.symm))

/-- Two answers are one vote exactly when they froze the same, unless they are a collision. -/
theorem Answers.voteId_eq_iff (h : Answers s c a digest voteTx report vote)
    (k : Answers s c' b digest' voteTx' report' vote') :
    (vote.voteId = vote'.voteId ↔ vote.snapshot = vote'.snapshot) ∨
      Collision vote.snapshot.idBytes vote'.snapshot.idBytes := by
  obtain ⟨_, _, _, _, _, _, -, -, -, hpasses⟩ := h.verified.passes
  obtain ⟨_, _, _, _, _, _, -, -, -, hpasses'⟩ := k.verified.passes
  by_cases hsame : vote.snapshot = vote'.snapshot
  · refine .inl (iff_of_true ?_ hsame)
    rw [← hpasses.voteId, ← hpasses'.voteId, hsame]
  · by_cases hid : vote.voteId = vote'.voteId
    · have hids := hpasses.voteId.trans (hid.trans hpasses'.voteId.symm)
      exact .inr ((VoteSnapshotV1.eq_of_id_eq hids).resolve_left hsame)
    · exact .inl (iff_of_false hid hsame)

end Pair

/-- Two meetings that verify share no vote, neither its id nor its transaction, exactly when they do
not coincide, unless two of their votes are a collision. -/
theorem meetings_apart {s : LocalChainStore} {first second : TxId} {v w : MeetingVerificationV1}
    (hfirst : verifyMeeting s first = .ok v) (hv : v.isValid = true)
    (hsecond : verifyMeeting s second = .ok w) (hw : w.isValid = true) :
    ∃ located located' company company' record record', s.getTransaction first = some located ∧
      s.getTransaction second = some located' ∧ v.record = some record ∧ w.record = some record' ∧
      (¬ Coincide record record' → ∀ a ∈ record.items, ∀ b ∈ record'.items, ∀ voteTx,
        a.voteTxId = some voteTx → b.voteTxId ≠ some voteTx) ∧
      (((∀ vote vote', VoteOf s located company record vote →
            VoteOf s located' company' record' vote' → vote.voteId ≠ vote'.voteId) ↔
          ¬ Coincide record record') ∨
        ∃ vote vote', VoteOf s located company record vote ∧
          VoteOf s located' company' record' vote' ∧
          Collision vote.snapshot.idBytes vote'.snapshot.idBytes) := by
  obtain ⟨record, hverified⟩ := verified_of_isValid hfirst hv
  obtain ⟨record', hverified'⟩ := verified_of_isValid hsecond hw
  obtain ⟨located, company, convening, agenda, hlocated, -, hfinal, hpasses⟩ := hverified.passes
  obtain ⟨located', company', convening', agenda', hlocated', -, hfinal', hpasses'⟩ :=
    hverified'.passes
  refine ⟨located, located', company, company', record, record', hlocated, hlocated',
    hverified.record, hverified'.record, ?_, ?_⟩
  · intro hapart a ha b hb voteTx hnamed hnamed'
    obtain ⟨digest, report, vote, hbody, hanswers⟩ := hpasses.answers_of_names ha hnamed
    obtain ⟨digest', report', vote', hbody', hanswers'⟩ := hpasses'.answers_of_names hb hnamed'
    obtain ⟨-, rfl⟩ := hanswers.verified.unique hanswers'.verified
    obtain ⟨hchannel, hheight, hitem⟩ := (hanswers.snapshot_eq_iff hanswers' hbody hbody').mp rfl
    exact hapart ⟨hchannel, hheight, a, ha, b, hb, hitem, by rw [hbody]; rfl⟩
  · by_cases hcollision : ∃ vote vote', VoteOf s located company record vote ∧
        VoteOf s located' company' record' vote' ∧
        Collision vote.snapshot.idBytes vote'.snapshot.idBytes
    · exact .inr hcollision
    · refine .inl ⟨?_, ?_⟩
      · rintro hids ⟨hchannel, hheight, a, ha, b, hb, hitem, hvote⟩
        obtain ⟨digest, hbody⟩ := AgendaBodyV1.isVote_iff.mp hvote
        have hbody' : b.item.body = .vote digest := hitem ▸ hbody
        obtain ⟨voteTx, report, vote, hanswers⟩ := hpasses.answered a ha digest hbody
        obtain ⟨voteTx', report', vote', hanswers'⟩ := hpasses'.answered b hb digest hbody'
        have hsame := (hanswers.snapshot_eq_iff hanswers' hbody hbody').mpr
          ⟨hchannel, hheight, hitem⟩
        have hone : VoteOf s located company record vote :=
          ⟨a, ha, digest, voteTx, report, hbody, hanswers⟩
        have htwo : VoteOf s located' company' record' vote' :=
          ⟨b, hb, digest, voteTx', report', hbody', hanswers'⟩
        refine hids vote vote' hone htwo ?_
        rcases hanswers.voteId_eq_iff hanswers' with hiff | hfound
        · exact hiff.mpr hsame
        · exact absurd ⟨vote, vote', hone, htwo, hfound⟩ hcollision
      · rintro hapart vote vote' ⟨a, ha, digest, voteTx, report, hbody, hanswers⟩
          ⟨b, hb, digest', voteTx', report', hbody', hanswers'⟩ hid
        rcases hanswers.voteId_eq_iff hanswers' with hiff | hfound
        · obtain ⟨hchannel, hheight, hitem⟩ :=
            (hanswers.snapshot_eq_iff hanswers' hbody hbody').mp (hiff.mp hid)
          exact hapart ⟨hchannel, hheight, a, ha, b, hb, hitem, by rw [hbody]; rfl⟩
        · exact hcollision ⟨vote, vote', ⟨a, ha, digest, voteTx, report, hbody, hanswers⟩,
            ⟨b, hb, digest', voteTx', report', hbody', hanswers'⟩, hfound⟩

end Rules

section Samples

open Irena.Sample

attribute [local instance] platform signaturesVerify

/-- A meeting with the same agenda, convened once the others are over, which has a vote of its own. -/
def winter : Text := lit "Winter"

def winterSnapshot : VoteSnapshotV1 := voteSnapshot (subjectOf budgetItem) ⟨7⟩ 4

def winterVote : Transaction := voteTransaction winterSnapshot [yes winterSnapshot] inFavour

def winterRecord : MeetingFinalRecordV1 :=
  ⟨⟨(conveningTransaction winter).id⟩, metadata winter, 4,
    [⟨budgetItem, some winterVote.id, some (lit "accepted")⟩]⟩

def winterXml : Text := finalText Sample.company notarisation winterRecord

def winterFinal : Transaction := signed ann meetingNamespace (utf8 winterXml) 0

def winterBlocks : List (List Transaction) :=
  metBlocks ++ [[conveningTransaction winter], [winterVote], [winterFinal]]

def wintered : LocalChainStore := grown founded winterBlocks

theorem winter_reads : ((founded.transactions ++ winterBlocks.flatten).map Transaction.id).Nodup ∧
    readMeetingRecord (conveningXml winter) =
      .ok ⟨Sample.company, notarisation, .convened (metadata winter) agenda⟩ ∧
    readMeetingRecord winterXml = .ok ⟨Sample.company, notarisation, .final winterRecord⟩ := by
  decide +kernel

theorem wintered_wellFormed : wintered.WellFormed := by
  refine wellFormed_grown founded_wellFormed (by decide) rfl (by decide) ?_ winter_reads.1
  simp only [winterBlocks, metBlocks, List.cons_append, List.nil_append, List.mem_cons,
    List.not_mem_nil, or_false, forall_eq_or_imp, forall_eq]
  exact ⟨⟨sound_signed .., sound_signed ..⟩, sound_signed .., ⟨sound_signed .., sound_signed ..⟩,
    sound_signed .., sound_signed .., sound_signed ..⟩

theorem reconstruct_wintered {n : ℕ} (hn : n ≤ 6) :
    reconstruct wintered n = .ok { acme with at_ := n } := by
  have hforeign : ∀ transactions ∈ winterBlocks, ∀ t ∈ transactions,
      kindOfNamespace t.namespace_.value = none := by
    simp only [winterBlocks, metBlocks, List.cons_append, List.nil_append, List.mem_cons,
      List.not_mem_nil, or_false, forall_eq_or_imp, forall_eq]
    exact ⟨⟨meeting_foreign _, meeting_foreign _⟩, vote_foreign .., ⟨meeting_foreign _,
      meeting_foreign _⟩, meeting_foreign _, vote_foreign .., meeting_foreign _⟩
  have hlength : winterBlocks.length = 6 := rfl
  have h := reconstruct_grown (winterBlocks.take n) (winterBlocks.drop n)
    fun b hb => hforeign b (List.mem_of_mem_take hb)
  rw [List.take_append_drop, List.length_take, hlength, Nat.min_eq_left hn] at h
  exact h

theorem signer_wintered {n : ℕ} (hn : n ≤ 6) :
    Decision.signerAuthorisedAt wintered n (publicKeyOf ann) = true :=
  Decision.signerAuthorisedAt_iff.mpr ⟨_, _, reconstruct_wintered hn, authorisedSigner_acme n⟩

/-- The meeting in winter verifies. -/
theorem winter_verified : ∃ v, Verified wintered winterFinal.id v winterRecord := by
  have hvote : ∃ v, Vote.Verified wintered winterVote.id v
      (.assemble winterSnapshot [yes winterSnapshot] (.of inFavour)) ∧ v.height = 5 :=
    (@vote_passes _ (subjectOf budgetItem) ⟨7⟩ _ _ _ _ 0 (reconstruct_wintered (by decide))
      (by decide : 4 < 5) (signer_wintered (by decide)) (.inl ⟨rfl, rfl⟩)).verified
        (getTransaction_grown wintered_wellFormed (i := 4) (j := 0) rfl rfl)
        (decodeVote_voteTransaction _)
  obtain ⟨report, hverified, hheight⟩ := hvote
  have hconvening : wintered.getTransaction (conveningTransaction winter).id =
      some ⟨4, 0, conveningTransaction winter⟩ :=
    getTransaction_grown wintered_wellFormed (i := 3) (j := 0) rfl rfl
  have hpasses : Passes wintered ⟨6, 0, winterFinal⟩ Sample.company winterRecord
      ⟨4, 0, conveningTransaction winter⟩ agenda := {
    meetingId := hconvening
    convened := conveningOf_eq_some.mpr ⟨notarisation, meetingRecordOf_eq_some.mpr
      ⟨rfl, _, fromUtf8_utf8 _, winter_reads.2.1⟩⟩
    opened := Nat.le_refl 4
    closed := by
      change 4 < 6
      decide
    agenda := AgendaV1.new_eq_ok.mpr rfl
    companyIs := by
      rw [companyIs, reconstruct_wintered (by decide)]
      exact decide_eq_true rfl
    convener := signer_wintered (by decide)
    signer := signer_wintered (by decide)
    answered := by
      intro entry hentry proposalDigest hbody
      rw [List.mem_singleton.mp hentry] at hbody ⊢
      obtain rfl := AgendaBodyV1.vote.inj hbody
      exact ⟨winterVote.id, report, _, {
        names := rfl
        verified := hverified
        company := rfl
        channel := rfl
        subject := rfl
        digest := rfl
        opened := rfl
        recorded := by
          rw [hheight]
          exact Nat.lt_succ_self 5
        outcome := by
          change some (lit "accepted") = some (outcomeText (EvaluationSummaryV1.of inFavour))
          decide +kernel }⟩
    informational := by
      intro entry hentry document hbody
      rw [List.mem_singleton.mp hentry] at hbody
      cases hbody }
  obtain ⟨v, hv, -⟩ := hpasses.verified
    (getTransaction_grown wintered_wellFormed (i := 5) (j := 0) rfl rfl)
    (finalOf_eq_some.mpr ⟨notarisation, meetingRecordOf_eq_some.mpr
      ⟨rfl, _, fromUtf8_utf8 _, winter_reads.2.2⟩⟩)
  exact ⟨v, hv⟩

/-- The meetings in spring and in winter, opened at two heights, share no vote. -/
theorem meetings_apart_met : ∃ v w record record',
    verifyMeeting wintered (finalTransaction spring).id = .ok v ∧
    verifyMeeting wintered winterFinal.id = .ok w ∧ v.record = some record ∧
    w.record = some record' ∧ ¬ Coincide record record' ∧ ∀ a ∈ record.items,
      ∀ b ∈ record'.items, ∀ voteTx, a.voteTxId = some voteTx → b.voteTxId ≠ some voteTx := by
  have hext : met.Extends wintered := by
    rw [wintered, winterBlocks, grown_append]
    exact extends_grown _ _
  obtain ⟨_, hmet⟩ := @meeting_verified spring (by decide)
  obtain ⟨v, hv, -⟩ := hmet.extends hext
  obtain ⟨w, hw⟩ := winter_verified
  obtain ⟨-, -, -, -, record, record', -, -, hrecord, hrecord', hapart, -⟩ :=
    meetings_apart hv.report hv.valid hw.report hw.valid
  obtain rfl := Option.some.inj (hv.record.symm.trans hrecord)
  obtain rfl := Option.some.inj (hw.record.symm.trans hrecord')
  have hnot : ¬ Coincide (finalRecord spring) winterRecord := by
    rintro ⟨-, hheight, -⟩
    change 1 = 4 at hheight
    cases hheight
  exact ⟨v, w, _, _, hv.report, hw.report, hrecord, hrecord', hnot, hapart hnot⟩

/-- One vote answers an item of each of two meetings that were convened apart. -/
theorem meetings_met : met.WellFormed ∧ ∃ v w, ∃ record record' : MeetingFinalRecordV1,
    ∃ a ∈ record.items, ∃ b ∈ record'.items,
    verifyMeeting met (finalTransaction spring).id = .ok v ∧ v.isValid = true ∧
    verifyMeeting met (finalTransaction autumn).id = .ok w ∧ w.isValid = true ∧
    v.record = some record ∧ w.record = some record' ∧ record.meetingId ≠ record'.meetingId ∧
    a.voteTxId = some itemTransaction.id ∧ b.voteTxId = some itemTransaction.id := by
  obtain ⟨v, hv⟩ := @meeting_verified spring (by decide)
  obtain ⟨w, hw⟩ := @meeting_verified autumn (by decide)
  have hne : (conveningTransaction spring).id ≠ (conveningTransaction autumn).id := by
    have hnodup := met_reads.1
    simp only [show founded.transactions = [genesisTransaction] from rfl, metBlocks,
      List.flatten_cons, List.flatten_nil, List.cons_append, List.nil_append, List.map_cons,
      List.map_nil, List.nodup_cons, List.mem_cons, not_or] at hnodup
    exact hnodup.2.1.1
  exact ⟨met_wellFormed, v, w, _, _, _, List.mem_cons_self, _, List.mem_cons_self, hv.report,
    hv.valid, hw.report, hw.valid, hv.record, hw.record,
    fun heq => hne (MeetingIdV1.mk.inj heq), rfl, rfl⟩

end Samples

end Irena.Meeting
