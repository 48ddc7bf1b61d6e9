import Irena.Meeting.Verify
import Irena.Vote.Soundness

/-! # What a meeting that verifies establishes

The checks of a final meeting record as one conjunction of facts about the chain: its convening, its
agenda, and the vote that answered each vote item. -/

namespace Irena.Meeting

open Irena.Library Irena.Library.Outcome Irena.Library.Strings Irena.Library.Utf8
open Irena.Core Irena.Bornite Irena.Prunella Irena.Prunella.LocalChainStore Irena.Ledger
open Irena.Decision (signerAuthorisedAt)
open Irena.Vote

variable [Platform]

theorem meetingRecordOf_eq_some {t : Transaction} {record : MeetingRecordV1} :
    meetingRecordOf t = some record ↔ t.namespace_.value = meetingNamespace ∧
      ∃ text, fromUtf8 t.payload = some text ∧ readMeetingRecord text = .ok record := by
  have htoOption (text : Text) : (readMeetingRecord text).toOption = some record ↔
      readMeetingRecord text = .ok record := by
    cases readMeetingRecord text <;> simp [Except.toOption]
  simp only [meetingRecordOf, Option.bind_eq_bind, Option.bind_eq_some_iff, Option.guard_eq_some',
    htoOption]
  exact ⟨fun ⟨_, hnamespace, text, h⟩ => ⟨hnamespace, text, h⟩,
    fun ⟨hnamespace, text, h⟩ => ⟨(), hnamespace, text, h⟩⟩

theorem finalOf_eq_some {t : Transaction} {company : CompanyIdV1} {final : MeetingFinalRecordV1} :
    finalOf t = some (company, final) ↔
      ∃ notarisation, meetingRecordOf t = some ⟨company, notarisation, .final final⟩ := by
  simp only [finalOf, Option.bind_eq_bind, Option.bind_eq_some_iff]
  constructor
  · rintro ⟨⟨by_, notarisation, body⟩, hrecord, hbody⟩
    cases body with
    | convened => cases hbody
    | final found =>
      simp only [Option.some.injEq, Prod.mk.injEq] at hbody
      obtain ⟨rfl, rfl⟩ := hbody
      exact ⟨notarisation, hrecord⟩
  · rintro ⟨notarisation, hrecord⟩
    exact ⟨_, hrecord, rfl⟩

theorem conveningOf_eq_some {t : Transaction} {company : CompanyIdV1}
    {metadata : MeetingMetadataV1} {agenda : AgendaV1} :
    conveningOf t = some (company, metadata, agenda) ↔
      ∃ notarisation, meetingRecordOf t = some ⟨company, notarisation, .convened metadata agenda⟩ := by
  simp only [conveningOf, Option.bind_eq_bind, Option.bind_eq_some_iff]
  constructor
  · rintro ⟨⟨by_, notarisation, body⟩, hrecord, hbody⟩
    cases body with
    | final => cases hbody
    | convened found items =>
      simp only [Option.some.injEq, Prod.mk.injEq] at hbody
      obtain ⟨rfl, rfl, rfl⟩ := hbody
      exact ⟨notarisation, hrecord⟩
  · rintro ⟨notarisation, hrecord⟩
    exact ⟨_, hrecord, rfl⟩

/-- A vote answers an item: the item names it, it verifies, and it is the one called for. -/
structure Answers (s : LocalChainStore) (c : MeetingContext) (entry : FinalItemV1)
    (proposalDigest : Hash) (voteTx : TxId) (report : VerificationV1) (vote : FinalVoteRecordV1) :
    Prop where
  names : entry.voteTxId = some voteTx
  verified : Vote.Verified s voteTx report vote
  company : vote.snapshot.company = c.company.value
  channel : vote.snapshot.channel = c.channel
  subject : vote.snapshot.subject = subjectOf entry.item
  digest : vote.snapshot.proposalDigest = proposalDigest
  opened : vote.snapshot.height = c.openedAtHeight
  recorded : report.height < c.height
  outcome : entry.outcome = some (outcomeText vote.evaluation)

theorem height_of_verified {s : LocalChainStore} {voteTx : TxId} {report : VerificationV1}
    {vote : FinalVoteRecordV1} (h : Vote.Verified s voteTx report vote) :
    ((s.getTransaction voteTx).map LocatedTransaction.height).getD u64Max = report.height := by
  obtain ⟨located, hlocated, -, rfl, -⟩ := Vote.verified_iff.mp h
  rw [hlocated]
  rfl

/-- A vote item whose finding is clean was answered by a vote. -/
theorem finding_clean {s : LocalChainStore} {c : MeetingContext} {entry : FinalItemV1}
    {proposalDigest : Hash} (hbody : entry.item.body = .vote proposalDigest) :
    (∃ f, c.finding s entry = some f ∧ f.verified = true ∧ f.belongs = true) ↔
      ∃ voteTx report vote, Answers s c entry proposalDigest voteTx report vote := by
  constructor
  · rintro ⟨f, hf, hverified, hbelongs⟩
    simp only [MeetingContext.finding, hbody] at hf
    cases hvote : entry.voteTxId with
    | none =>
      simp only [hvote, Option.some.injEq] at hf
      subst hf
      cases hverified
    | some voteTx =>
      cases hreport : verify s voteTx with
      | error e =>
        simp only [hvote, hreport, Option.some.injEq] at hf
        subst hf
        cases hverified
      | ok report =>
        simp only [hvote, hreport, Option.some.injEq] at hf
        subst hf
        obtain ⟨vote, hvoted⟩ := verified_of_noneFailed hreport (allPassed_iff.mp hverified).2
        simp only [hvoted.record, Option.all_some, MeetingContext.owns, Bool.and_eq_true,
          decide_eq_true_eq, height_of_verified hvoted] at hbelongs
        obtain ⟨⟨⟨⟨⟨⟨hcompany, hchannel⟩, hsubject⟩, hdigest⟩, hopened⟩, hrecorded⟩, houtcome⟩ :=
          hbelongs
        exact ⟨voteTx, report, vote, hvote, hvoted, hcompany, hchannel, hsubject, hdigest, hopened,
          hrecorded, houtcome⟩
  · rintro ⟨voteTx, report, vote, h⟩
    have howns : report.record.all (c.owns s entry proposalDigest voteTx) = true := by
      simp only [h.verified.record, Option.all_some, MeetingContext.owns, Bool.and_eq_true,
        decide_eq_true_eq, height_of_verified h.verified]
      exact ⟨⟨⟨⟨⟨⟨h.company, h.channel⟩, h.subject⟩, h.digest⟩, h.opened⟩, h.recorded⟩, h.outcome⟩
    refine ⟨⟨entry.item.number, report.isValid,
      report.record.all (c.owns s entry proposalDigest voteTx), some report⟩, ?_, h.verified.valid,
      howns⟩
    simp only [MeetingContext.finding, hbody, h.names, h.verified.report]

theorem finding_informational {s : LocalChainStore} {c : MeetingContext} {entry : FinalItemV1}
    {document : Hash} (hbody : entry.item.body = .informational document) :
    c.finding s entry = none := by
  simp only [MeetingContext.finding, hbody]

theorem finding_isSome {s : LocalChainStore} {c : MeetingContext} {entry : FinalItemV1}
    {proposalDigest : Hash} (hbody : entry.item.body = .vote proposalDigest) :
    ∃ f, c.finding s entry = some f := by
  simp only [MeetingContext.finding, hbody]
  cases entry.voteTxId with
  | none => exact ⟨_, rfl⟩
  | some voteTx =>
    dsimp only
    cases verify s voteTx <;> exact ⟨_, rfl⟩

/-- What the checks of a final meeting record decide, with what each of them looked up. -/
structure Passes (s : LocalChainStore) (located : LocatedTransaction) (company : CompanyIdV1)
    (record : MeetingFinalRecordV1) (convening : LocatedTransaction) (agenda : AgendaV1) :
    Prop where
  meetingId : s.getTransaction record.meetingId.txId = some convening
  convened : conveningOf convening.transaction = some (company, record.metadata, agenda)
  opened : convening.height ≤ record.openedAtHeight
  closed : record.openedAtHeight < located.height
  agenda : record.agenda = .ok agenda
  companyIs : companyIs s convening.height company = true
  convener : signerAuthorisedAt s convening.height convening.transaction.signer = true
  signer : signerAuthorisedAt s located.height located.transaction.signer = true
  answered : ∀ entry ∈ record.items, ∀ proposalDigest, entry.item.body = .vote proposalDigest →
    ∃ voteTx report vote, Answers s
      ⟨company, record.metadata.channel, record.openedAtHeight, located.height⟩ entry
      proposalDigest voteTx report vote
  informational : ∀ entry ∈ record.items, ∀ document, entry.item.body = .informational document →
    entry.voteTxId = none ∧ entry.outcome = none

/-- The vote that an item names answers it. -/
theorem Passes.answers_of_names {s : LocalChainStore} {located convening : LocatedTransaction}
    {company : CompanyIdV1} {record : MeetingFinalRecordV1} {agenda : AgendaV1}
    (h : Passes s located company record convening agenda) {entry : FinalItemV1}
    (hentry : entry ∈ record.items) {voteTx : TxId} (hnamed : entry.voteTxId = some voteTx) :
    ∃ digest report vote, entry.item.body = .vote digest ∧ Answers s
      ⟨company, record.metadata.channel, record.openedAtHeight, located.height⟩ entry digest voteTx
      report vote := by
  cases hbody : entry.item.body with
  | informational document =>
    rw [(h.informational entry hentry document hbody).1] at hnamed
    cases hnamed
  | vote digest =>
    obtain ⟨found, report, vote, hanswers⟩ := h.answered entry hentry digest hbody
    obtain rfl := Option.some.inj (hanswers.names.symm.trans hnamed)
    exact ⟨digest, report, vote, rfl, hanswers⟩

omit [Platform] in
theorem agendaIs_iff {record : MeetingFinalRecordV1} {agenda : AgendaV1} :
    agendaIs record agenda = true ↔ record.agenda = .ok agenda := by
  unfold agendaIs
  cases record.agenda <;> simp

omit [Platform] in
theorem consistent_iff {entry : FinalItemV1} :
    entry.consistent = true ↔
      (∀ document, entry.item.body = .informational document →
        entry.voteTxId = none ∧ entry.outcome = none) ∧
      ∀ proposalDigest, entry.item.body = .vote proposalDigest → entry.voteTxId.isSome = true := by
  unfold FinalItemV1.consistent
  cases entry.item.body <;> simp

/-- The checks of the votes are clean exactly when every vote item was answered. -/
theorem findings_clean {s : LocalChainStore} {c : MeetingContext} {items : List FinalItemV1} :
    ((items.filterMap (c.finding s)).all VoteFinding.verified = true ∧
      (items.filterMap (c.finding s)).all VoteFinding.belongs = true) ↔
      ∀ entry ∈ items, ∀ proposalDigest, entry.item.body = .vote proposalDigest →
        ∃ voteTx report vote, Answers s c entry proposalDigest voteTx report vote := by
  simp only [List.all_eq_true, List.mem_filterMap]
  constructor
  · rintro ⟨hverified, hbelongs⟩ entry hentry proposalDigest hbody
    obtain ⟨f, hf⟩ := finding_isSome (s := s) (c := c) hbody
    exact (finding_clean hbody).mp
      ⟨f, hf, hverified f ⟨entry, hentry, hf⟩, hbelongs f ⟨entry, hentry, hf⟩⟩
  · intro h
    have hclean : ∀ f, (∃ entry ∈ items, c.finding s entry = some f) →
        f.verified = true ∧ f.belongs = true := by
      rintro f ⟨entry, hentry, hf⟩
      cases hbody : entry.item.body with
      | informational document =>
        rw [finding_informational hbody] at hf
        cases hf
      | vote proposalDigest =>
        obtain ⟨g, hg, hclean⟩ := (finding_clean hbody).mpr (h entry hentry proposalDigest hbody)
        obtain rfl := Option.some.inj (hf.symm.trans hg)
        exact hclean
    exact ⟨fun f hf => (hclean f hf).1, fun f hf => (hclean f hf).2⟩

/-- The reports of clean findings are valid. -/
theorem reports_valid {s : LocalChainStore} {c : MeetingContext} {items : List FinalItemV1}
    (h : (items.filterMap (c.finding s)).all VoteFinding.verified = true) :
    ((items.filterMap (c.finding s)).filterMap fun f =>
      f.report.map fun report => (f.number, report)).all (fun (_, vote) => vote.isValid) = true := by
  simp only [List.all_eq_true, List.mem_filterMap, Option.map_eq_some_iff] at h ⊢
  rintro p ⟨f, ⟨entry, hentry, hf⟩, report, hreport, rfl⟩
  have hverified := h f ⟨entry, hentry, hf⟩
  cases hbody : entry.item.body with
  | informational document =>
    rw [finding_informational hbody] at hf
    cases hf
  | vote proposalDigest =>
    simp only [MeetingContext.finding, hbody] at hf
    cases hvote : entry.voteTxId with
    | none =>
      simp only [hvote, Option.some.injEq] at hf
      subst hf
      cases hreport
    | some voteTx =>
      cases hresult : verify s voteTx with
      | error e =>
        simp only [hvote, hresult, Option.some.injEq] at hf
        subst hf
        cases hreport
      | ok found =>
        simp only [hvote, hresult, Option.some.injEq] at hf
        subst hf
        obtain rfl := Option.some.inj hreport
        exact hverified

theorem noneFailed_meetingChecks {s : LocalChainStore} {located convening : LocatedTransaction}
    {company : CompanyIdV1} {record : MeetingFinalRecordV1} {metadata : MeetingMetadataV1}
    {agenda : AgendaV1} (hmeeting : s.getTransaction record.meetingId.txId = some convening)
    (hconvened : conveningOf convening.transaction = some (company, metadata, agenda)) :
    NoneFailed (meetingChecks s located convening company record metadata agenda
      (record.items.filterMap (MeetingContext.finding
        ⟨company, metadata.channel, record.openedAtHeight, located.height⟩ s))) ↔
      metadata = record.metadata ∧ Passes s located company record convening agenda := by
  simp only [meetingChecks, noneFailed_cons, noneFailed_nil, and_true, Bool.and_eq_true,
    decide_eq_true_eq, agendaIs_iff]
  constructor
  · rintro ⟨⟨hopened, hclosed⟩, hagenda, rfl, hcompany, ⟨hconvener, hsigner⟩, hverified, hbelongs,
      hconsistent⟩
    have hinformational := fun entry hentry =>
      (consistent_iff.mp (List.all_eq_true.mp hconsistent entry hentry)).1
    exact ⟨rfl, hmeeting, hconvened, hopened, hclosed, hagenda, hcompany, hconvener, hsigner,
      findings_clean.mp ⟨hverified, hbelongs⟩, hinformational⟩
  · rintro ⟨rfl, h⟩
    obtain ⟨hverified, hbelongs⟩ := findings_clean.mpr h.answered
    refine ⟨⟨h.opened, h.closed⟩, h.agenda, rfl, h.companyIs, ⟨h.convener, h.signer⟩, hverified,
      hbelongs, List.all_eq_true.mpr fun entry hentry => consistent_iff.mpr
        ⟨h.informational entry hentry, fun proposalDigest hbody => ?_⟩⟩
    obtain ⟨voteTx, _, _, hanswers⟩ := h.answered entry hentry proposalDigest hbody
    rw [hanswers.names]
    rfl

/-- A meeting verifies: the report has its record, no check of it failed, and every vote is valid. -/
structure Verified (s : LocalChainStore) (txId : TxId) (v : MeetingVerificationV1)
    (record : MeetingFinalRecordV1) : Prop where
  report : verifyMeeting s txId = .ok v
  valid : v.isValid = true
  record : v.record = some record

/-- A valid report has a record. -/
theorem verified_of_isValid {s : LocalChainStore} {txId : TxId} {v : MeetingVerificationV1}
    (h : verifyMeeting s txId = .ok v) (hvalid : v.isValid = true) :
    ∃ record, Verified s txId v record := by
  obtain ⟨hchecks, -⟩ := Bool.and_eq_true_iff.mp hvalid
  have hnone := (allPassed_iff.mp hchecks).2
  have hrecord : v.record ≠ none := by
    intro hmissing
    have hreport := h
    simp only [verifyMeeting, bind_eq_ok, orError_eq_ok] at hreport
    obtain ⟨located, -, hreport⟩ := hreport
    split at hreport
    · obtain rfl := Except.ok.inj hreport
      simp at hnone
    · split at hreport
      · obtain rfl := Except.ok.inj hreport
        cases hmissing
      · split at hreport
        · obtain rfl := Except.ok.inj hreport
          cases hmissing
        · split at hreport <;> obtain rfl := Except.ok.inj hreport <;> cases hmissing
  obtain ⟨record, hsome⟩ := Option.ne_none_iff_exists'.mp hrecord
  exact ⟨record, h, hvalid, hsome⟩

/-- A transaction has one report, and a report one record. -/
theorem Verified.unique {s : LocalChainStore} {txId : TxId} {v v' : MeetingVerificationV1}
    {record record' : MeetingFinalRecordV1} (h : Verified s txId v record)
    (k : Verified s txId v' record') : v = v' ∧ record = record' := by
  obtain rfl := Except.ok.inj (h.report.symm.trans k.report)
  exact ⟨rfl, Option.some.inj (h.record.symm.trans k.record)⟩

/-- A meeting that verifies has a record that passes every check. -/
theorem Verified.passes {s : LocalChainStore} {txId : TxId} {v : MeetingVerificationV1}
    {record : MeetingFinalRecordV1} (h : Verified s txId v record) :
    ∃ located company convening agenda, s.getTransaction txId = some located ∧
      v.height = located.height ∧ finalOf located.transaction = some (company, record) ∧
      Passes s located company record convening agenda := by
  obtain ⟨hreport, hvalid, hrecord⟩ := h
  obtain ⟨hchecks, -⟩ := Bool.and_eq_true_iff.mp hvalid
  have hnone := (allPassed_iff.mp hchecks).2
  simp only [verifyMeeting, bind_eq_ok, orError_eq_ok] at hreport
  obtain ⟨located, hlocated, hreport⟩ := hreport
  rcases hfinal : finalOf located.transaction with _ | ⟨company, final⟩
  · simp only [hfinal, pure_eq_ok, Except.ok.injEq] at hreport
    subst hreport
    cases hrecord
  · cases hmeeting : s.getTransaction final.meetingId.txId with
    | none =>
      simp only [hfinal, hmeeting, pure_eq_ok, Except.ok.injEq] at hreport
      subst hreport
      simp at hnone
    | some convening =>
      rcases hconvened : conveningOf convening.transaction with _ | ⟨by_, metadata, agenda⟩
      · simp only [hfinal, hmeeting, hconvened, pure_eq_ok, Except.ok.injEq] at hreport
        subst hreport
        simp at hnone
      · by_cases hsame : by_ = company
        · subst hsame
          simp only [hfinal, hmeeting, hconvened, ne_eq, not_true_eq_false, if_false, pure_eq_ok,
            Except.ok.injEq] at hreport
          subst hreport
          obtain rfl := Option.some.inj hrecord
          obtain ⟨-, hmeetingChecks⟩ := noneFailed_append.mp hnone
          obtain ⟨rfl, hpasses⟩ := (noneFailed_meetingChecks hmeeting hconvened).mp hmeetingChecks
          exact ⟨located, by_, convening, agenda, hlocated, rfl, hfinal, hpasses⟩
        · simp only [hfinal, hmeeting, hconvened, ne_eq, hsame, not_false_eq_true, if_true,
            pure_eq_ok, Except.ok.injEq] at hreport
          subst hreport
          simp at hnone

theorem Passes.verified {s : LocalChainStore} {txId : TxId} {located convening : LocatedTransaction}
    {company : CompanyIdV1} {record : MeetingFinalRecordV1} {agenda : AgendaV1}
    (hlocated : s.getTransaction txId = some located)
    (hfinal : finalOf located.transaction = some (company, record))
    (h : Passes s located company record convening agenda) :
    ∃ v, Verified s txId v record ∧ v.height = located.height := by
  have hchecks := (noneFailed_meetingChecks h.meetingId h.convened).mpr ⟨rfl, h⟩
  have hreport : ∃ v, verifyMeeting s txId = .ok v ∧ v.height = located.height ∧
      v.record = some record ∧ v.isValid = true := by
    simp only [verifyMeeting, hlocated, orError_some, ok_bind, hfinal, h.meetingId, h.convened, ne_eq,
      not_true_eq_false, if_false, pure_eq_ok, Except.ok.injEq, exists_eq_left', true_and]
    refine Bool.and_eq_true_iff.mpr ⟨allPassed_iff.mpr ⟨List.cons_ne_nil _ _, ?_⟩,
      reports_valid (findings_clean.mpr h.answered).1⟩
    exact noneFailed_append.mpr ⟨by simp, hchecks⟩
  obtain ⟨v, hv, hheight, hrecord, hvalid⟩ := hreport
  exact ⟨v, ⟨hv, hvalid, hrecord⟩, hheight⟩

theorem Answers.extends {s t : LocalChainStore} {c : MeetingContext} {entry : FinalItemV1}
    {proposalDigest : Hash} {voteTx : TxId} {report : VerificationV1} {vote : FinalVoteRecordV1}
    (h : Answers s c entry proposalDigest voteTx report vote) (hext : s.Extends t) :
    ∃ report', Answers t c entry proposalDigest voteTx report' vote := by
  obtain ⟨report', hverified, hheight⟩ := h.verified.extends hext
  exact ⟨report', { h with
    verified := hverified
    recorded := hheight ▸ h.recorded }⟩

/-- A meeting that verifies goes on verifying, with the same record, as the chain grows. -/
theorem Verified.extends {s t : LocalChainStore} {txId : TxId} {v : MeetingVerificationV1}
    {record : MeetingFinalRecordV1} (h : Verified s txId v record) (hext : s.Extends t) :
    ∃ v', Verified t txId v' record ∧ v'.height = v.height := by
  obtain ⟨located, company, convening, agenda, hlocated, hheight, hfinal, hpasses⟩ := h.passes
  obtain ⟨-, b, hb, -⟩ := getTransaction_some hlocated
  have hle := height_le_of_getBlock hb
  have hconvening : convening.height ≤ s.head.height :=
    (hpasses.opened.trans hpasses.closed.le).trans hle
  have hpasses' : Passes t located company record convening agenda :=
    { hpasses with
      meetingId := hext.getTransaction hpasses.meetingId
      companyIs := by
        rw [companyIs, Ledger.Extends.reconstruct hext hconvening]
        exact hpasses.companyIs
      convener := by
        rw [Decision.Extends.signerAuthorisedAt hext hconvening]
        exact hpasses.convener
      signer := by
        rw [Decision.Extends.signerAuthorisedAt hext hle]
        exact hpasses.signer
      answered := fun entry hentry proposalDigest hbody => by
        obtain ⟨voteTx, report, vote, hanswers⟩ := hpasses.answered entry hentry proposalDigest hbody
        obtain ⟨report', hanswers'⟩ := hanswers.extends hext
        exact ⟨voteTx, report', vote, hanswers'⟩ }
  obtain ⟨v', hverified, hheight'⟩ := Passes.verified (hext.getTransaction hlocated) hfinal hpasses'
  exact ⟨v', hverified, hheight'.trans hheight.symm⟩

end Irena.Meeting
