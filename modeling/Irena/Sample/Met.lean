import Irena.Meeting.Soundness
import Irena.Sample.Voted

/-! # Meetings to run on

Two meetings of the shareholders with the same agenda, convened in one block and opened at the same
height, one vote, and the final record of each. -/

namespace Irena.Sample

open Irena.Library Irena.Library.Outcome Irena.Library.Strings Irena.Library.Utf8
open Irena.Core Irena.Bornite Irena.Prunella Irena.Prunella.LocalChainStore Irena.Ledger
open Irena.Decision (signerAuthorisedAt signerAuthorisedAt_iff)
open Irena.Vote Irena.Meeting

attribute [local instance] platform signaturesVerify

def metadata (title : Text) : MeetingMetadataV1 :=
  ⟨shareholders.id.value, title, lit "2026-01-01T00:00:00Z", none⟩

def budgetItem : AgendaItemV1 := ⟨1, lit "Budget", .vote ⟨7⟩⟩

def agenda : AgendaV1 := ⟨[budgetItem], List.cons_ne_nil _ _, by decide⟩

def conveningXml (title : Text) : Text :=
  convenedText Sample.company notarisation (metadata title) agenda

def conveningTransaction (title : Text) : Transaction :=
  signed ann meetingNamespace (utf8 (conveningXml title)) 0

/-- What the vote on the item freezes. -/
def itemSnapshot : VoteSnapshotV1 := voteSnapshot (subjectOf budgetItem) ⟨7⟩ 1

def itemVote : FinalVoteRecordV1 := .assemble itemSnapshot [yes itemSnapshot] (.of inFavour)

def itemTransaction : Transaction := voteTransaction itemSnapshot [yes itemSnapshot] inFavour

def finalRecord (title : Text) : MeetingFinalRecordV1 :=
  ⟨⟨(conveningTransaction title).id⟩, metadata title, 1,
    [⟨budgetItem, some itemTransaction.id, some (lit "accepted")⟩]⟩

def finalXml (title : Text) : Text := finalText Sample.company notarisation (finalRecord title)

def finalTransaction (title : Text) : Transaction :=
  signed ann meetingNamespace (utf8 (finalXml title)) 0

def spring : Text := lit "Spring"

def autumn : Text := lit "Autumn"

def metBlocks : List (List Transaction) :=
  [[conveningTransaction spring, conveningTransaction autumn], [itemTransaction],
    [finalTransaction spring, finalTransaction autumn]]

def met : LocalChainStore := grown founded metBlocks

theorem met_reads :
    ((founded.transactions ++ metBlocks.flatten).map Transaction.id).Nodup ∧
    (∀ title ∈ [spring, autumn], readMeetingRecord (conveningXml title) =
      .ok ⟨Sample.company, notarisation, .convened (metadata title) agenda⟩) ∧
    ∀ title ∈ [spring, autumn], readMeetingRecord (finalXml title) =
      .ok ⟨Sample.company, notarisation, .final (finalRecord title)⟩ := by
  decide +kernel

theorem met_wellFormed : met.WellFormed := by
  refine wellFormed_grown founded_wellFormed (by decide) rfl (by decide) ?_ met_reads.1
  simp only [metBlocks, List.mem_cons, List.not_mem_nil, or_false, forall_eq_or_imp, forall_eq]
  exact ⟨⟨sound_signed .., sound_signed ..⟩, sound_signed .., sound_signed .., sound_signed ..⟩

theorem meeting_foreign (payload : Bytes) :
    kindOfNamespace (signed ann meetingNamespace payload 0).namespace_.value = none := by
  change kindOfNamespace meetingNamespace = none
  decide +kernel

/-- The company stays as founded. -/
theorem reconstruct_met :
    reconstruct met 1 = .ok { acme with at_ := 1 } ∧ reconstruct met 2 = .ok { acme with at_ := 2 } ∧
      reconstruct met 3 = .ok { acme with at_ := 3 } := by
  have hconvening : ∀ t ∈ [conveningTransaction spring, conveningTransaction autumn],
      kindOfNamespace t.namespace_.value = none := by
    simp only [List.mem_cons, List.not_mem_nil, or_false, forall_eq_or_imp, forall_eq]
    exact ⟨meeting_foreign _, meeting_foreign _⟩
  have hvote : ∀ t ∈ [itemTransaction], kindOfNamespace t.namespace_.value = none := by
    simp only [List.mem_singleton, forall_eq]
    exact vote_foreign ..
  have hfinal : ∀ t ∈ [finalTransaction spring, finalTransaction autumn],
      kindOfNamespace t.namespace_.value = none := by
    simp only [List.mem_cons, List.not_mem_nil, or_false, forall_eq_or_imp, forall_eq]
    exact ⟨meeting_foreign _, meeting_foreign _⟩
  refine ⟨reconstruct_grown [_] [_, _] ?_, reconstruct_grown [_, _] [_] ?_,
    reconstruct_grown [_, _, _] [] ?_⟩ <;>
    simp only [List.mem_cons, List.not_mem_nil, or_false, forall_eq_or_imp, forall_eq] <;>
    simp only [List.mem_cons, List.not_mem_nil, or_false, forall_eq_or_imp, forall_eq] at *
  · exact hconvening
  · exact ⟨hconvening, hvote⟩
  · exact ⟨hconvening, hvote, hfinal⟩

theorem signer_met {height : ℕ} (h : reconstruct met height = .ok { acme with at_ := height }) :
    signerAuthorisedAt met height (publicKeyOf ann) = true :=
  signerAuthorisedAt_iff.mpr ⟨_, _, h, authorisedSigner_acme height⟩

/-- The vote on the item verifies. -/
theorem itemVote_verified : ∃ v, Vote.Verified met itemTransaction.id v itemVote ∧ v.height = 2 := by
  obtain ⟨hopened, hvoted, -⟩ := reconstruct_met
  have hfound : met.getTransaction itemTransaction.id = some ⟨2, 0, itemTransaction⟩ :=
    getTransaction_grown met_wellFormed (i := 1) (j := 0) rfl rfl
  have hdecode : decodeVote itemTransaction = some itemVote := decodeVote_voteTransaction _
  have hpasses := @vote_passes _ (subjectOf budgetItem) ⟨7⟩ _ _ _ _ 0 hopened Nat.one_lt_two
    (signer_met hvoted) (.inl ⟨rfl, rfl⟩)
  exact hpasses.verified hfound hdecode

theorem conveningOf_met {title : Text} (h : title ∈ [spring, autumn]) :
    conveningOf (conveningTransaction title) = some (Sample.company, metadata title, agenda) :=
  conveningOf_eq_some.mpr ⟨notarisation, meetingRecordOf_eq_some.mpr
    ⟨rfl, _, fromUtf8_utf8 _, met_reads.2.1 title h⟩⟩

theorem finalOf_met {title : Text} (h : title ∈ [spring, autumn]) :
    finalOf (finalTransaction title) = some (Sample.company, finalRecord title) :=
  finalOf_eq_some.mpr ⟨notarisation, meetingRecordOf_eq_some.mpr
    ⟨rfl, _, fromUtf8_utf8 _, met_reads.2.2 title h⟩⟩

/-- Where the records of a meeting stand. -/
theorem found_met {title : Text} (h : title ∈ [spring, autumn]) :
    (∃ i, met.getTransaction (conveningTransaction title).id =
      some ⟨1, i, conveningTransaction title⟩) ∧
    ∃ i, met.getTransaction (finalTransaction title).id = some ⟨3, i, finalTransaction title⟩ := by
  simp only [List.mem_cons, List.not_mem_nil, or_false] at h
  rcases h with rfl | rfl
  · exact ⟨⟨0, getTransaction_grown met_wellFormed (i := 0) (j := 0) rfl rfl⟩,
      0, getTransaction_grown met_wellFormed (i := 2) (j := 0) rfl rfl⟩
  · exact ⟨⟨1, getTransaction_grown met_wellFormed (i := 0) (j := 1) rfl rfl⟩,
      1, getTransaction_grown met_wellFormed (i := 2) (j := 1) rfl rfl⟩

/-- Both meetings verify. -/
theorem meeting_verified {title : Text} (h : title ∈ [spring, autumn]) :
    ∃ v, Meeting.Verified met (finalTransaction title).id v (finalRecord title) := by
  obtain ⟨hopened, -, hfinal⟩ := reconstruct_met
  obtain ⟨⟨i, hconvening⟩, j, hlocated⟩ := found_met h
  obtain ⟨report, hvote, hheight⟩ := itemVote_verified
  have hpasses : Meeting.Passes met ⟨3, j, finalTransaction title⟩ Sample.company
      (finalRecord title) ⟨1, i, conveningTransaction title⟩ agenda := {
    meetingId := hconvening
    convened := conveningOf_met h
    opened := Nat.le_refl 1
    closed := by
      change 1 < 3
      decide
    agenda := AgendaV1.new_eq_ok.mpr rfl
    companyIs := by
      rw [companyIs, hopened]
      exact decide_eq_true rfl
    convener := signer_met hopened
    signer := signer_met hfinal
    answered := by
      intro entry hentry proposalDigest hbody
      rw [List.mem_singleton.mp hentry] at hbody ⊢
      obtain rfl := AgendaBodyV1.vote.inj hbody
      exact ⟨itemTransaction.id, report, itemVote, {
        names := rfl
        verified := hvote
        company := rfl
        channel := rfl
        subject := rfl
        digest := rfl
        opened := rfl
        recorded := by
          rw [hheight]
          exact Nat.lt_succ_self 2
        outcome := by
          change some (lit "accepted") = some (outcomeText (EvaluationSummaryV1.of inFavour))
          decide +kernel }⟩
    informational := by
      intro entry hentry document hbody
      rw [List.mem_singleton.mp hentry] at hbody
      cases hbody }
  obtain ⟨v, hv, -⟩ := Passes.verified hlocated (finalOf_met h) hpasses
  exact ⟨v, hv⟩

end Irena.Sample
