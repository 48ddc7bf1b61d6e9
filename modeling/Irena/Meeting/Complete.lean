import Irena.Meeting.Established
import Irena.Sample.Crossed

/-! # A meeting that finalises verifies

Finalising publishes every vote and then the record of the meeting. In every run of a meeting the
record it leaves verifies, and each ballot it accepted is in the vote of its item and in no other. -/

namespace Irena.Meeting

open Irena.Library Irena.Library.Outcome Irena.Library.Strings Irena.Library.Utf8
open Irena.Core Irena.Bornite Irena.Prunella Irena.Prunella.LocalChainStore Irena.Ledger Irena.Vote
open Irena.Decision (Recorded Governs Leaves recorded_among signerAuthorisedAt
  Extends.signerAuthorisedAt)

section Rules

variable [Platform]

theorem readMeetingRecord_of_composeFinal {company : CompanyIdV1} {n : NotarisationV1}
    {record : MeetingFinalRecordV1} {payload : Text}
    (h : composeFinal company n record = .ok payload) :
    readMeetingRecord payload = .ok ⟨company, n, .final record⟩ := by
  simp only [composeFinal, bind_eq_ok, mapErr_eq_ok, ensure_eq_ok, pure_eq_ok, Except.ok.injEq] at h
  obtain ⟨-, -, -, -, -, -, readBack, hread, -, rfl, rfl⟩ := h
  exact hread

/-- What the final record of a meeting was written as, after its votes. -/
structure Closed (m : MeetingV1) (u t : LocalChainStore) (key : SigningKey) (n : NotarisationV1)
    (time : ℕ) (company : CompanyIdV1) (payload : Text) (finalized : MeetingFinalizedV1) : Prop where
  assembled : m.finalRecord = .ok finalized.record
  label : company.value = m.company
  composed : composeFinal company n finalized.record = .ok payload
  txId : finalized.txId = (nextTransaction u key meetingNamespace (utf8 payload)).id
  height : finalized.height = u.head.height + 1
  recorded : Recorded u t key meetingNamespace (utf8 payload) time

theorem leaves_publishFinal (m : MeetingV1) (signing key : SigningKey) (n : NotarisationV1)
    (time : ℕ) : (m.publishFinal signing n time).Moves (Leaves key) := by
  refine .bind (.lift _) fun _ => .bind (.lift _) fun _ => .bind (.lift _) fun _ => ?_
  exact .bind (Leaves.appendTransaction meetingNamespace_foreign) fun _ => trivial

/-- A meeting that may be finalised among others who leave the key its office is closed, and the key
governs. -/
theorem mayFinalize_among {m : MeetingV1} {key : SigningKey} {s t : LocalChainStore}
    {r : Except MeetingError Unit}
    (h : Program.RunsAmong (Leaves key) (m.mayFinalize key) s r t) :
    Leaves key s t ∧ (r = .ok () → m.status = .closed ∧ Governs t key) := by
  refine ⟨h.moves Leaves.refl Leaves.trans ?_, ?_⟩
  · refine .bind (.lift _) fun _ => .bind (.mapError Leaves.readCompanyNow) fun _ => ?_
    exact .bind (.lift _) fun _ => trivial
  · rintro rfl
    obtain ⟨_, _, hstatus, hreading⟩ := h.bind_ok
    obtain ⟨hclosed, rfl⟩ := hstatus.lift
    obtain ⟨now, _, hread, hsigning⟩ := hreading.bind_ok
    obtain ⟨u, -, hleaves, hnow⟩ := readCompanyNow_among
      (fun _ _ (hothers : Leaves key _ _) => hothers.grows) Leaves.trans hread.mapError_ok
    obtain ⟨person, _, hsigner, hlast⟩ := hsigning.bind_ok
    obtain ⟨hperson, rfl⟩ := hsigner.lift
    obtain ⟨-, rfl⟩ := hlast.pure_ok
    exact ⟨ensure_eq_ok.mp hclosed.symm,
      hleaves.governs ⟨now, person, hnow, mapErr_eq_ok.mp hperson.symm⟩⟩

/-- The final record of a meeting, published among others who leave the key its office. -/
theorem publishFinal_among {m m' : MeetingV1} {key : SigningKey} {n : NotarisationV1} {time : ℕ}
    {s t : LocalChainStore} {finalized : MeetingFinalizedV1} (hs : s.WellFormed)
    (hgoverns : Governs s key)
    (h : Program.RunsAmong (Leaves key) (m.publishFinal key n time) s (.ok (finalized, m')) t) :
    m' = { m with
      status := .finalized
      finalized := some (finalized.txId, finalized.height) } ∧
      ∃ company payload u v, s.Extends u ∧ Closed m u v key n time company payload finalized ∧
        v.Extends t ∧ t.WellFormed := by
  obtain ⟨record, _, hassembling, hnaming⟩ := h.bind_ok
  obtain ⟨hrecord, rfl⟩ := hassembling.lift
  obtain ⟨company, _, hname, hcomposing⟩ := hnaming.bind_ok
  obtain ⟨hcompany, rfl⟩ := hname.lift
  obtain ⟨payload, c, hcompose, hrecording⟩ := hcomposing.bind_ok
  obtain ⟨hpayload, rfl⟩ := hcompose.lift
  obtain ⟨⟨txId, height⟩, _, happend, hlast⟩ := hrecording.bind_ok
  obtain ⟨hresult, rfl⟩ := hlast.pure_ok
  obtain ⟨rfl, rfl⟩ := Prod.mk.inj hresult
  obtain ⟨u, v, hcu, hr, hrecorded, hvt, ht⟩ :=
    recorded_among hs meetingNamespace_foreign hgoverns happend
  obtain ⟨rfl, rfl⟩ := Prod.mk.inj hr
  exact ⟨rfl, company, payload, u, v, hcu, ⟨hrecord.symm,
    CompanyIdV1.new_eq_ok.mp (mapErr_eq_ok.mp hcompany.symm), hpayload.symm, rfl, rfl, hrecorded⟩,
    hvt, ht⟩

/-- Finalising among others who leave the key its office publishes the votes and then, unless one of
them is refused, the record of the meeting; what it did before a refusal is kept. -/
theorem meetingFinalize_among {m m' : MeetingV1} {key : SigningKey} {n : NotarisationV1} {time : ℕ}
    {s t : LocalChainStore} {r : Except MeetingError MeetingFinalizedV1} (hs : s.WellFormed)
    (h : Program.RunsAmong (Leaves key) (m.finalize key n time) s (.ok (r, m')) t) :
    (∃ e, r = .error e ∧ m' = m ∧ Leaves key s t) ∨ m.status = .closed ∧ ∃ votes u,
      Leaves key s u ∧ AllAdvance s u m.votes votes ∧
      ((∃ e, r = .error e ∧ m' = { m with votes } ∧ Leaves key u t) ∨
        (∀ p ∈ votes, p.2.finalized.isSome = true) ∧ ∃ finalized company payload v w,
          r = .ok finalized ∧ m' = { m with
            votes
            status := .finalized
            finalized := some (finalized.txId, finalized.height) } ∧ u.Extends v ∧
          Closed { m with votes } v w key n time company payload finalized ∧ w.Extends t ∧
          t.WellFormed) := by
  obtain ⟨may, a, hattempt, hvoting⟩ := h.bind_ok
  obtain ⟨_, hsame, hmay⟩ := hattempt.attempt
  obtain rfl := Except.ok.inj hsame
  obtain ⟨hsa, hclosed⟩ := mayFinalize_among hmay
  cases may with
  | error e =>
    obtain ⟨hresult, rfl⟩ := hvoting.pure_ok
    obtain ⟨rfl, rfl⟩ := Prod.mk.inj hresult
    exact .inl ⟨e, rfl, rfl, hsa⟩
  | ok =>
    obtain ⟨hstatus, hgoverns⟩ := hclosed rfl
    have ha := hsa.grows.wellFormed hs
    obtain ⟨⟨published, votes⟩, u, hvotes, hrecording⟩ := hvoting.bind_ok
    have hau := hvotes.moves Leaves.refl Leaves.trans (leaves_finalizeVotes key key time m.votes)
    obtain ⟨hadvance, hdone⟩ := finalizeVotes_among ha hvotes
    refine .inr ⟨hstatus, votes, u, hsa.trans _ _ _ hau,
      (AllAdvance.of_extends hsa.grows.extends_ m.votes).trans hadvance, ?_⟩
    cases published with
    | error e =>
      obtain ⟨hresult, rfl⟩ := hrecording.pure_ok
      obtain ⟨rfl, rfl⟩ := Prod.mk.inj hresult
      exact .inl ⟨e, rfl, rfl, .refl _⟩
    | ok =>
      obtain ⟨final, _, hattempt', hlast⟩ := hrecording.bind_ok
      obtain ⟨_, hsame', hpublish⟩ := hattempt'.attempt
      obtain rfl := Except.ok.inj hsame'
      cases final with
      | error e =>
        obtain ⟨hresult, rfl⟩ := hlast.pure_ok
        obtain ⟨rfl, rfl⟩ := Prod.mk.inj hresult
        exact .inl ⟨e, rfl, rfl, hpublish.moves Leaves.refl Leaves.trans
          (leaves_publishFinal _ key key n time)⟩
      | ok found =>
        obtain ⟨finalized, m''⟩ := found
        obtain ⟨hresult, rfl⟩ := hlast.pure_ok
        obtain ⟨rfl, rfl⟩ := Prod.mk.inj hresult
        obtain ⟨rfl, company, payload, v, w, huv, hfinal, hwt, ht⟩ :=
          publishFinal_among (hau.grows.wellFormed ha) (hau.governs hgoverns) hpublish
        exact .inr ⟨hdone rfl, finalized, company, payload, v, w, rfl, rfl, huv, hfinal, hwt, ht⟩

theorem Invariant.finalize {p : Proceedings} (h : Invariant p) {key : SigningKey}
    {n : NotarisationV1} {time : ℕ} {r : Except MeetingError MeetingFinalizedV1} {m : MeetingV1}
    {t : LocalChainStore}
    (hrun : Program.RunsAmong (Leaves key) (p.meeting.finalize key n time) p.chain (.ok (r, m)) t) :
    Invariant { p with meeting := m, chain := t } := by
  rcases meetingFinalize_among h.wellFormed hrun with
    ⟨e, rfl, rfl, hleaves⟩ | ⟨hstatus, votes, u, hleaves, hall, hcases⟩
  · exact h.extends_ hleaves.grows.extends_ (hleaves.grows.wellFormed h.wellFormed)
  have hext := hleaves.grows.extends_
  have hu := hleaves.grows.wellFormed h.wellFormed
  obtain ⟨convening, company, agenda, channel, at_, hunderway⟩ :=
    h.underway (by simp [hstatus]) (by simp [hstatus])
  rcases hcases with ⟨e, rfl, rfl, hafter⟩ |
    ⟨-, finalized, named, payload, v, w, rfl, rfl, huv, hclosed, hwt, ht⟩
  · have hlast := hafter.grows.extends_
    have hlater : Underway ⟨{ p.meeting with votes }, t, p.accepted⟩ convening company agenda channel
      at_ := hunderway.advance (hext.trans hlast) (hall.trans (.of_extends hlast votes)) rfl rfl rfl
        rfl rfl
    exact ⟨hafter.grows.wellFormed hu, hlater.inOrder (by simp [hstatus]) (by simp [hstatus])⟩
  · have hlast := huv.trans (hclosed.recorded.extends_.trans hwt)
    have hlater := hunderway.advance (m := { p.meeting with
      votes
      status := .finalized
      finalized := some (finalized.txId, finalized.height) }) (hext.trans hlast)
      (hall.trans (.of_extends hlast votes)) rfl rfl rfl rfl rfl
    exact ⟨ht, hlater.inOrder (by rintro ⟨⟩) (by rintro ⟨⟩)⟩

/-- The invariant holds in every state that a run of a drafted meeting reaches, while others leave
convening and finalising keys their office. -/
theorem Reaches.invariant {p q : Proceedings} (h : Reaches Leaves p q) (hp : Invariant p) :
    Invariant q := by
  induction h with
  | refl => exact hp
  | others _ hext ht ih => exact ih.extends_ hext ht
  | convened _ hrun ih => exact ih.convene hrun
  | @refused q key n time e t _ hrun ih =>
    have hgrows := (hrun.moves Leaves.refl Leaves.trans
      (leaves_convene q.meeting key key n time)).grows
    exact ih.extends_ hgrows.extends_ (hgrows.wellFormed ih.wellFormed)
  | finalized _ hrun ih => exact ih.finalize hrun
  | @call q _ c ih =>
    cases c with
    | addItem title body =>
      cases hadd : q.meeting.addItem title body with
      | error e => simpa only [Proceedings.perform, hadd] using ih
      | ok m => simpa only [Proceedings.perform, hadd] using ih.addItem hadd
    | opens =>
      rcases hopens : q.meeting.opens q.chain with e | ⟨m, at_⟩
      · simpa only [Proceedings.perform, hopens] using ih
      · simpa only [Proceedings.perform, hopens] using ih.opens hopens
    | cast number ballot =>
      cases hcast : q.meeting.cast number ballot with
      | error e => simpa only [Proceedings.perform, hcast] using ih
      | ok m => simpa only [Proceedings.perform, hcast] using ih.cast hcast
    | close => exact ih.close

omit [Platform] in
theorem finalRecord_eq_ok {m : MeetingV1} {record : MeetingFinalRecordV1} :
    m.finalRecord = .ok record ↔ (m.status = .closed ∨ m.status = .finalized) ∧
      ∃ meetingId openedAtHeight, m.id = some meetingId ∧ m.openedAt = some openedAtHeight ∧
        record = ⟨meetingId, m.metadata, openedAtHeight, m.items.map fun item =>
          ⟨item, (m.vote item.number).bind fun vote => vote.finalized.map Prod.fst,
            (m.vote item.number).bind fun vote => vote.evaluation.map outcomeText⟩⟩ := by
  simp only [MeetingV1.finalRecord, bind_eq_ok, ensure_eq_ok, orError_eq_ok, pure_eq_ok,
    Except.ok.injEq, @eq_comm _ record]
  constructor
  · rintro ⟨-, hstatus, meetingId, hid, openedAtHeight, hopened, h⟩
    exact ⟨hstatus, meetingId, openedAtHeight, hid, hopened, h⟩
  · rintro ⟨hstatus, meetingId, openedAtHeight, hid, hopened, h⟩
    exact ⟨(), hstatus, meetingId, hid, openedAtHeight, hopened, h⟩

/-- A published vote of an item answers its entry in the final record. -/
theorem ItemVote.answers {s : LocalChainStore} {o : Opening} {item : AgendaItemV1}
    {proposalDigest : Hash} {v : VoteV1} {snapshot : VoteSnapshotV1} {company : CompanyIdV1}
    (h : ItemVote s o item proposalDigest v snapshot) (hcompany : company.value = o.company)
    (hpublished : v.finalized.isSome = true) : ∃ voteTx report vote,
      Answers s ⟨company, o.channel.value, o.height, s.head.height + 1⟩
        ⟨item, v.finalized.map Prod.fst, v.evaluation.map outcomeText⟩ proposalDigest voteTx report
        vote ∧ vote.ballots = v.box.ballots := by
  obtain ⟨⟨voteTx, height⟩, hfinalized⟩ := Option.isSome_iff_exists.mp hpublished
  obtain ⟨-, report, evaluation, hevaluation, hheight, hverified⟩ := h.published voteTx height hfinalized
  obtain ⟨state, resolved, rules, hfrozen⟩ := h.frozen
  refine ⟨voteTx, report, .assemble snapshot v.box.ballots (.of evaluation), ?_, rfl⟩
  exact {
    names := by rw [hfinalized]; rfl
    verified := hverified
    company := h.company.trans hcompany.symm
    channel := hfrozen.label.symm
    subject := h.subject
    digest := h.digest
    opened := h.height
    recorded := Nat.lt_succ_iff.mpr hheight
    outcome := by rw [hevaluation]; rfl }

/-- A ballot is in a vote that an item of a number names, and that verifies. -/
def Holds (s : LocalChainStore) (record : MeetingFinalRecordV1) (number : ℕ)
    (ballot : SignedBallotV1) (vote : FinalVoteRecordV1) : Prop :=
  ∃ entry ∈ record.items, entry.item.number = number ∧ ∃ voteTx report,
    entry.voteTxId = some voteTx ∧ Vote.Verified s voteTx report vote ∧ ballot ∈ vote.ballots

/-- A ballot is for the vote of one item, unless two of the votes are a collision. -/
theorem Passes.number_eq {s : LocalChainStore} {located convening : LocatedTransaction}
    {company : CompanyIdV1} {record : MeetingFinalRecordV1} {agenda : AgendaV1}
    (h : Passes s located company record convening agenda) {number number' : ℕ}
    {ballot : SignedBallotV1} {vote vote' : FinalVoteRecordV1}
    (hvote : Holds s record number ballot vote) (hvote' : Holds s record number' ballot vote') :
    number' = number ∨ Collision vote.snapshot.idBytes vote'.snapshot.idBytes := by
  obtain ⟨entry, hentry, rfl, voteTx, report, hnamed, hverified, hballot⟩ := hvote
  obtain ⟨entry', hentry', rfl, voteTx', report', hnamed', hverified', hballot'⟩ := hvote'
  obtain ⟨_, _, found, -, hanswers⟩ := h.answers_of_names hentry hnamed
  obtain ⟨_, _, found', -, hanswers'⟩ := h.answers_of_names hentry' hnamed'
  obtain rfl : found = vote := (hanswers.verified.unique hverified).2
  obtain rfl : found' = vote' := (hanswers'.verified.unique hverified').2
  obtain ⟨_, _, _, _, _, _, -, -, -, hpasses⟩ := hverified.passes
  obtain ⟨_, _, _, _, _, _, -, -, -, hpasses'⟩ := hverified'.passes
  obtain ⟨voter, hvoter⟩ := hpasses.ballots ballot hballot
  obtain ⟨voter', hvoter'⟩ := hpasses'.ballots ballot hballot'
  have hids : found.voteId = found'.voteId := by
    rw [← hpasses.voteId, ← hpasses'.voteId, ← (SignedBallotV1.check_eq_ok.mp hvoter).1,
      ← (SignedBallotV1.check_eq_ok.mp hvoter').1]
  refine (hanswers.subject_eq_of_voteId hanswers' hids).imp_left fun hsubject => ?_
  exact (subjectOf_inj hsubject).1.symm

/-- Completeness of the lifecycle: whatever calls are made of a meeting and whatever others append, if
finalising it succeeds then its record verifies, and each ballot it accepted is in the vote of its
item and in that of no other, unless two of the votes are a collision; as long as what others append
within a call leaves its key the governance of the company. -/
theorem lifecycle_complete {metadata : MeetingMetadataV1} {s t : LocalChainStore} {p : Proceedings}
    {key : SigningKey} {n : NotarisationV1} {time : ℕ} {finalized : MeetingFinalizedV1}
    {m : MeetingV1} (hs : s.WellFormed)
    (hrun : Reaches Leaves ⟨MeetingV1.draft metadata, s, []⟩ p)
    (h : Program.RunsAmong (Leaves key) (p.meeting.finalize key n time) p.chain
      (.ok (.ok finalized, m)) t) :
    (∃ v, verifyMeeting t finalized.txId = .ok v ∧ v.isValid = true ∧
      v.record = some finalized.record) ∧
    ∀ number ballot, (number, ballot) ∈ p.accepted →
      ∃ vote, Holds t finalized.record number ballot vote ∧
        ∀ other vote', Holds t finalized.record other ballot vote' →
          other = number ∨ Collision vote.snapshot.idBytes vote'.snapshot.idBytes := by
  have hinvariant := hrun.invariant ⟨hs, rfl⟩
  rcases meetingFinalize_among hinvariant.wellFormed h with ⟨e, he, -⟩ |
    ⟨hstatus, votes, u, hleaves, hall, ⟨e, he, -⟩ |
      ⟨hpublished, found, company, payload, a, b, hfound, -, hua, hclosed, hbt, ht⟩⟩
  · cases he
  · cases he
  obtain rfl := Except.ok.inj hfound
  obtain ⟨convening, convener, agenda, channel, at_, hunderway⟩ :=
    hinvariant.underway (hstatus ▸ nofun) (hstatus ▸ nofun)
  have hrecorded := hclosed.recorded
  have hafter : Underway ⟨{ p.meeting with votes }, a, p.accepted⟩ convening convener agenda channel
    at_ := hunderway.advance (hleaves.grows.extends_.trans hua) (hall.trans (.of_extends hua votes))
      rfl rfl rfl rfl rfl
  obtain ⟨-, meetingId, openedAtHeight, hid, hopened, hrecord⟩ :=
    finalRecord_eq_ok.mp hclosed.assembled
  obtain rfl : company = convener :=
    CompanyIdV1.value_injective (hclosed.label.trans hafter.convened.label.symm)
  obtain rfl : openedAtHeight = at_ := Option.some.inj (hopened.symm.trans hafter.openedAt)
  have hmeeting : meetingId = ⟨convening.transaction.id⟩ := by
    rw [MeetingV1.id, hafter.convened.id] at hid
    exact (Option.some.inj hid).symm
  have hchannel : channel.value = p.meeting.metadata.channel := by
    have hthrough := hafter.through
    rw [MeetingMetadataV1.channelId, mapErr_eq_ok, ChannelIdV1.new_eq_ok] at hthrough
    exact hthrough
  have hgrows := hrecorded.extends_.trans hbt
  -- each vote item was answered by the vote the meeting holds for it
  have hanswered : ∀ item ∈ p.meeting.items, ∀ digest, item.body = .vote digest → ∃ v,
      ({ p.meeting with votes } : MeetingV1).vote item.number = some v ∧ (item.number, v) ∈ votes ∧
        ∃ voteTx report vote, Answers t ⟨company, p.meeting.metadata.channel, openedAtHeight,
          a.head.height + 1⟩ ⟨item, v.finalized.map Prod.fst, v.evaluation.map outcomeText⟩ digest
          voteTx report vote ∧ vote.ballots = v.box.ballots := by
    intro item hitem digest hbody
    obtain ⟨v, hv, hmem, snapshot, hvote⟩ :=
      hafter.votes.vote_eq hafter.convened.items hitem hbody
    obtain ⟨voteTx, report, vote, hanswers, hballots⟩ :=
      hvote.answers rfl (hpublished _ hmem)
    rw [hchannel] at hanswers
    obtain ⟨report', hanswers'⟩ := hanswers.extends hgrows
    exact ⟨v, hv, hmem, voteTx, report', vote, hanswers', hballots⟩
  have hpasses : Passes t ⟨a.head.height + 1, 0, nextTransaction a key meetingNamespace
      (utf8 payload)⟩ company finalized.record convening agenda := by
    rw [hrecord]
    exact {
      meetingId := by
        rw [hmeeting]
        exact hgrows.getTransaction hafter.convened.found
      convened := hafter.convened.reads
      opened := hafter.follows
      closed := Nat.lt_succ_iff.mpr hafter.reached
      agenda := by
        refine AgendaV1.new_eq_ok.mpr ?_
        simp only [List.map_map, Function.comp_def, List.map_id']
        exact hafter.convened.items
      companyIs := (hafter.convened.extends_ hgrows).owner
      convener := (hafter.convened.extends_ hgrows).convener
      signer := by
        rw [Extends.signerAuthorisedAt hbt hrecorded.height.ge]
        exact hrecorded.signer
      answered := fun entry hentry digest hbody => by
        obtain ⟨item, hitem, rfl⟩ := List.mem_map.mp hentry
        obtain ⟨v, hv, -, voteTx, report, vote, hanswers, -⟩ := hanswered item hitem digest hbody
        refine ⟨voteTx, report, vote, ?_⟩
        rw [hv]
        exact hanswers
      informational := fun entry hentry document hbody => by
        obtain ⟨item, hitem, rfl⟩ := List.mem_map.mp hentry
        have hnone := hafter.votes.vote_eq_none hafter.convened.items hitem hbody
        dsimp only at hnone ⊢
        rw [hnone]
        exact ⟨rfl, rfl⟩ }
  refine ⟨?_, fun number ballot haccepted => ?_⟩
  · have hfound : t.getTransaction finalized.txId = some ⟨a.head.height + 1, 0,
        nextTransaction a key meetingNamespace (utf8 payload)⟩ := by
      rw [hclosed.txId]
      exact hbt.getTransaction hrecorded.found
    have hfinal : finalOf (nextTransaction a key meetingNamespace (utf8 payload)) =
        some (company, finalized.record) := finalOf_eq_some.mpr ⟨n, meetingRecordOf_eq_some.mpr
      ⟨rfl, payload, fromUtf8_utf8 payload, readMeetingRecord_of_composeFinal hclosed.composed⟩⟩
    obtain ⟨v, hv, -⟩ := hpasses.verified hfound hfinal
    exact ⟨v, hv.report, hv.valid, hv.record⟩
  · obtain ⟨w, hw, hballot⟩ := hafter.ballots number ballot haccepted
    obtain ⟨item, hitem, hnumber, digest, -, hbody, -⟩ := hafter.votes.exists_item hw
    obtain rfl : number = item.number := hnumber
    obtain ⟨v, hv, hmem, voteTx, report, vote, hanswers, hballots⟩ :=
      hanswered item hitem digest hbody
    obtain rfl : w = v := congrArg Prod.snd
      (hafter.votes.eq_of_number hafter.convened.items hw hmem rfl)
    have hholds : Holds t finalized.record item.number ballot vote := by
      refine ⟨⟨item, w.finalized.map Prod.fst, w.evaluation.map outcomeText⟩, ?_, rfl, voteTx, report,
        hanswers.names, hanswers.verified, hballots ▸ hballot⟩
      rw [hrecord]
      refine List.mem_map.mpr ⟨item, hitem, ?_⟩
      rw [hv]
      rfl
    exact ⟨vote, hholds, fun other vote' hother => hpasses.number_eq hholds hother⟩

end Rules

section Samples

open Irena.Sample

attribute [local instance] platform signaturesVerify

/-- Each call is accepted in turn. -/
theorem reaches_springClosed {others : SigningKey → LocalChainStore → LocalChainStore → Prop}
    (hrefl : ∀ s, others ann s s) :
    Reaches others ⟨MeetingV1.draft (metadata spring), founded, []⟩
      ⟨springClosed, held 1, [(1, yes itemSnapshot)]⟩ := by
  have hstart : Reaches others ⟨MeetingV1.draft (metadata spring), founded, []⟩
      ⟨MeetingV1.draft (metadata spring), founded, []⟩ := .refl
  have hdrafted := reaches_addItem hstart addItem_spring
  have hconvened := reaches_convene hrefl hdrafted convene_spring
  have hvoted := reaches_cast (reaches_opens hconvened opens_spring) cast_spring
  exact reaches_close hvoted close_spring

/-- The meeting in spring is held while others widen the register within its finalising, and the
shareholder's ballot is in the vote on the budget. -/
theorem lifecycle_complete_held : ∃ finalized m t, ∃ v : MeetingVerificationV1, ∃ vote,
    Program.RunsAmong (Leaves ann) (springClosed.finalize ann notarisation 0) (held 1)
        (.ok (.ok finalized, m)) t ∧
      (crossing .shareStructure widenedXml).Extends t ∧ verifyMeeting t finalized.txId = .ok v ∧
      v.isValid = true ∧ Holds t finalized.record 1 (yes itemSnapshot) vote := by
  obtain ⟨m, t, hfinal, hchain⟩ := finalize_crossing Leaves.refl crossing_reads.1 leaves_crossing
  obtain ⟨⟨v, hv, hvalid, -⟩, hballots⟩ :=
    lifecycle_complete founded_wellFormed (reaches_springClosed Leaves.refl) hfinal
  obtain ⟨vote, hvote, -⟩ := hballots 1 (yes itemSnapshot) (List.mem_singleton_self _)
  exact ⟨_, m, t, v, vote, hfinal, (extends_push _ _).trans (extends_of_sameChain hchain), hv, hvalid,
    hvote⟩

/-- Where others take the director's key from the governance within finalising, it succeeds and leaves
a record that does not verify. -/
theorem lifecycle_incomplete : ∃ p finalized m t,
    Reaches (fun _ => Grows) ⟨MeetingV1.draft (metadata spring), founded, []⟩ p ∧
      Program.RunsAmong Grows (p.meeting.finalize ann notarisation 0) p.chain
        (.ok (.ok finalized, m)) t ∧
      ¬ ∃ v, verifyMeeting t finalized.txId = .ok v ∧ v.isValid = true := by
  obtain ⟨m, t, hfinal, hchain⟩ :=
    finalize_crossing Grows.refl crossing_reads.2.1 (grows_crossing crossing_reads.2.1)
  refine ⟨_, _, m, t, @reaches_springClosed (fun _ => Grows) Grows.refl, hfinal, ?_⟩
  rintro ⟨v, hv, hvalid⟩
  obtain ⟨record, hverified⟩ := verified_of_isValid hv hvalid
  obtain ⟨located, company, convening, agenda, hfound, -, -, hpasses⟩ := hverified.passes
  have hplace := getTransaction_next (crossing_wellFormed crossing_reads.2.1)
    (crossed_next crossing_reads.2.1) hchain
  rw [head_crossing] at hplace
  obtain rfl := Option.some.inj (hplace.symm.trans hfound)
  -- the company that the record found no longer knows the director's key
  obtain ⟨state, signer, hstate, hsigner⟩ := Decision.signerAuthorisedAt_iff.mp hpasses.signer
  have hopen : lockoutAfter rotated acme.authorisation.value = none := by decide +kernel
  obtain ⟨height, hnow⟩ := companyNow_crossing crossing_reads.2.2 rfl fun _ => hopen
  have hafter := reconstruct_crossed hnow hchain
  rw [Except.ok.inj (hstate.symm.trans hafter)] at hsigner
  have hnone : (signerOf rotated acme.authorisation.value .governance (publicKeyOf ann)).toOption =
      none := by decide +kernel
  change signerOf rotated acme.authorisation.value .governance (publicKeyOf ann) = .ok signer
    at hsigner
  rw [hsigner] at hnone
  cases hnone

end Samples

end Irena.Meeting
