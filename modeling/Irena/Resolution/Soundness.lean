import Irena.Meeting.Soundness
import Irena.Resolution.Verify

/-! # What a resolution that verifies establishes

The authority of a resolution as one piece of evidence, which the check made before publishing and
the verifier both amount to: a vote that carried, or a decision that was signed. -/

namespace Irena.Resolution

open Irena.Library Irena.Library.Outcome Irena.Library.Strings Irena.Library.Utf8
open Irena.Core Irena.Bornite Irena.Prunella Irena.Prunella.LocalChainStore Irena.Ledger
open Irena.Decision (signerAuthorisedAt FinalDecisionRecordV1 DecisionVerificationV1 verifyDecision
  resolveChannel ResolvedChannelV1 ActorV1 actorsOf)
open Irena.Vote (FinalVoteRecordV1 VerificationV1 verify)
open Irena.Meeting (MeetingFinalRecordV1 MeetingVerificationV1 FinalItemV1 verifyMeeting)

theorem voteItemOf_eq_some {final : MeetingFinalRecordV1} {number : ℕ} {entry : FinalItemV1}
    (h : voteItemOf final number = some entry) :
    entry ∈ final.items ∧ entry.item.number = number ∧ entry.item.body.isVote = true := by
  obtain ⟨hfind, hvote⟩ := Option.filter_eq_some_iff.mp h
  exact ⟨List.mem_of_find?_eq_some hfind, by simpa using List.find?_some hfind, hvote⟩

variable [Platform]

theorem readResolutionRecord_of_compose {company : CompanyIdV1} {n : NotarisationV1} {title xml : Text}
    {authority : AuthorityV1} {kind : ResolutionKindV1}
    (h : composeResolution company n title authority kind = .ok xml) :
    readResolutionRecord xml = .ok ⟨company, n, title, authority, kind.normalised⟩ := by
  simp only [composeResolution, bind_eq_ok, ensure_eq_ok] at h
  obtain ⟨_, -, _, -, _, -, h⟩ := h
  cases hkind : kind.normalised with
  | declarative digest =>
    simp only [hkind, bind_eq_ok, ensure_eq_ok, pure_eq_ok, Except.ok.injEq] at h
    obtain ⟨readBack, hread, _, rfl, rfl⟩ := h
    exact hread
  | amendment target body =>
    simp only [hkind, bind_eq_ok, ensure_eq_ok, pure_eq_ok, Except.ok.injEq] at h
    obtain ⟨_, -, readBack, hread, _, rfl, rfl⟩ := h
    exact hread

theorem decodeResolution_eq_some {t : Transaction} {record : ResolutionRecordV1} :
    decodeResolution t = some record ↔ t.namespace_.value = resolutionNamespace ∧
      ∃ text, fromUtf8 t.payload = some text ∧ readResolutionRecord text = .ok record := by
  unfold decodeResolution
  by_cases hns : t.namespace_.value = resolutionNamespace
  · simp only [hns, guard_true, Option.bind_eq_bind, Option.pure_def, Option.bind_some,
      Option.bind_eq_some_iff, true_and]
    refine exists_congr fun text => and_congr_right fun _ => ?_
    cases readResolutionRecord text <;> simp [Except.toOption]
  · simp [hns, guard]

/-- A vote carried: a verified meeting has it answer a vote item, and it verifies and was accepted. -/
structure Carried (s : LocalChainStore) (meetingTx : TxId) (itemNumber : ℕ) (voteTx : TxId)
    (meeting : MeetingVerificationV1) (final : MeetingFinalRecordV1) (entry : FinalItemV1)
    (report : VerificationV1) (vote : FinalVoteRecordV1) : Prop where
  held : Meeting.Verified s meetingTx meeting final
  item : voteItemOf final itemNumber = some entry
  answered : entry.voteTxId = some voteTx
  taken : Vote.Verified s voteTx report vote
  accepted : vote.evaluation.accepted = true

/-- What an authority rests on: the approval it gives and the height it was recorded at. -/
inductive Approved (s : LocalChainStore) : AuthorityV1 → ApprovalV1 → ℕ → Prop
  | collective {channel : Text} {meetingTx : TxId} {itemNumber : ℕ} {voteTx : TxId}
    {meeting : MeetingVerificationV1} {final : MeetingFinalRecordV1} {entry : FinalItemV1}
    {report : VerificationV1} {vote : FinalVoteRecordV1} {frozen : CompanyStateV1}
    (carried : Carried s meetingTx itemNumber voteTx meeting final entry report vote)
    (through : vote.snapshot.channel = channel)
    (frozenAt : reconstruct s vote.snapshot.height = .ok frozen) :
    Approved s (.collective channel meetingTx itemNumber voteTx)
      (.ofVote channel voteTx vote.snapshot frozen) meeting.height
  | individual {channel : Text} {decisionTx : TxId} {report : DecisionVerificationV1}
    {decision : FinalDecisionRecordV1} {frozen : CompanyStateV1}
    (signed : Decision.Verified s decisionTx report decision)
    (through : decision.snapshot.channel = channel)
    (frozenAt : reconstruct s decision.snapshot.height = .ok frozen) :
    Approved s (.individual channel decisionTx)
      (.ofDecision channel decisionTx decision.snapshot frozen) report.height

/-- The vote that carried was opened with the item it answers, before the meeting was recorded. -/
theorem Carried.answers {s : LocalChainStore} {meetingTx : TxId} {itemNumber : ℕ} {voteTx : TxId}
    {meeting : MeetingVerificationV1} {final : MeetingFinalRecordV1} {entry : FinalItemV1}
    {report : VerificationV1} {vote : FinalVoteRecordV1}
    (h : Carried s meetingTx itemNumber voteTx meeting final entry report vote) :
    entry.item.body = .vote vote.snapshot.proposalDigest ∧
      vote.snapshot.height = final.openedAtHeight ∧ final.openedAtHeight < meeting.height ∧
      meeting.height ≤ s.head.height := by
  obtain ⟨located, company, convening, agenda, hlocated, hheight, -, hpasses⟩ := h.held.passes
  obtain ⟨-, b, hb, -⟩ := getTransaction_some hlocated
  have hle := height_le_of_getBlock hb
  obtain ⟨hmem, -, hvote⟩ := voteItemOf_eq_some h.item
  cases hbody : entry.item.body with
  | informational document =>
    rw [hbody] at hvote
    cases hvote
  | vote proposalDigest =>
    obtain ⟨voteTx', report', vote', hanswers⟩ := hpasses.answered entry hmem proposalDigest hbody
    obtain rfl := Option.some.inj (h.answered.symm.trans hanswers.names)
    obtain ⟨-, rfl⟩ := h.taken.unique hanswers.verified
    rw [hheight, hanswers.digest]
    exact ⟨rfl, hanswers.opened, hpasses.closed, hle⟩

theorem Approved.channel {s : LocalChainStore} {authority : AuthorityV1} {approval : ApprovalV1}
    {height : ℕ} (h : Approved s authority approval height) :
    approval.channel = authority.channel := by
  cases h <;> rfl

theorem Approved.height_lt {s : LocalChainStore} {authority : AuthorityV1} {approval : ApprovalV1}
    {height : ℕ} (h : Approved s authority approval height) :
    approval.height < height ∧ height ≤ s.head.height := by
  cases h with
  | collective carried through frozenAt =>
    obtain ⟨-, hopened, hlt, hle⟩ := carried.answers
    exact ⟨hopened.trans_lt hlt, hle⟩
  | individual signed through frozenAt =>
    obtain ⟨located, state, channel, resolved, actor, hlocated, hheight, hpasses⟩ := signed.passes
    obtain ⟨-, b, hb, -⟩ := getTransaction_some hlocated
    rw [hheight]
    exact ⟨hpasses.precedes, height_le_of_getBlock hb⟩

theorem Approved.unique {s : LocalChainStore} {authority : AuthorityV1} {a b : ApprovalV1}
    {m n : ℕ} (h : Approved s authority a m) (k : Approved s authority b n) : a = b ∧ m = n := by
  cases h with
  | collective carried through frozenAt =>
    cases k with
    | collective carried' through' frozenAt' =>
      obtain ⟨hmeeting, -⟩ := carried.held.unique carried'.held
      obtain ⟨-, rfl⟩ := carried.taken.unique carried'.taken
      obtain rfl := Except.ok.inj (frozenAt.symm.trans frozenAt')
      exact ⟨rfl, congrArg _ hmeeting⟩
  | individual signed through frozenAt =>
    cases k with
    | individual signed' through' frozenAt' =>
      obtain ⟨rfl, rfl⟩ := signed.unique signed'
      obtain rfl := Except.ok.inj (frozenAt.symm.trans frozenAt')
      exact ⟨rfl, rfl⟩

theorem Approved.extends {s t : LocalChainStore} {authority : AuthorityV1} {approval : ApprovalV1}
    {height : ℕ} (h : Approved s authority approval height) (hext : s.Extends t) :
    Approved t authority approval height := by
  obtain ⟨hlt, hle⟩ := h.height_lt
  cases h with
  | collective carried through frozenAt =>
    obtain ⟨meeting', hheld, hheight⟩ := carried.held.extends hext
    obtain ⟨report', htaken, -⟩ := carried.taken.extends hext
    have hfrozen := Ledger.Extends.reconstruct hext (hlt.le.trans hle)
    rw [← hheight]
    exact .collective { carried with held := hheld, taken := htaken } through
      (hfrozen.trans frozenAt)
  | individual signed through frozenAt =>
    obtain ⟨report', hsigned, hheight⟩ := signed.extends hext
    have hfrozen := Ledger.Extends.reconstruct hext (hlt.le.trans hle)
    rw [← hheight]
    exact .individual hsigned through (hfrozen.trans frozenAt)

theorem checkVote_eq_ok {s : LocalChainStore} {channel : Text} {meetingTx : TxId} {itemNumber : ℕ}
    {voteTx : TxId} {vote : FinalVoteRecordV1} :
    checkVote s channel meetingTx itemNumber voteTx = .ok vote ↔ ∃ meeting final entry report,
      Carried s meetingTx itemNumber voteTx meeting final entry report vote ∧
        vote.snapshot.channel = channel := by
  simp only [checkVote, bind_eq_ok, mapErr_eq_ok, ensure_eq_ok, orError_eq_ok, pure_eq_ok,
    Except.ok.injEq]
  constructor
  · rintro ⟨meeting, hmeeting, _, hheld, final, hfinal, entry, hentry, answered, hanswered, _, rfl,
      report, hreport, _, hvalid, vote, hvote, _, haccepted, _, hchannel, rfl⟩
    exact ⟨meeting, final, entry, report, ⟨⟨hmeeting, hheld, hfinal⟩, hentry, hanswered,
      ⟨hreport, hvalid, hvote⟩, haccepted⟩, hchannel⟩
  · rintro ⟨meeting, final, entry, report, h, hchannel⟩
    exact ⟨meeting, h.held.report, (), h.held.valid, final, h.held.record, entry, h.item, voteTx,
      h.answered, (), rfl, report, h.taken.report, (), h.taken.valid, vote, h.taken.record, (),
      h.accepted, (), hchannel, rfl⟩

theorem checkDecision_eq_ok {s : LocalChainStore} {channel : Text} {decisionTx : TxId}
    {decision : FinalDecisionRecordV1} :
    checkDecision s channel decisionTx = .ok decision ↔ ∃ report,
      Decision.Verified s decisionTx report decision ∧ decision.snapshot.channel = channel := by
  simp only [checkDecision, bind_eq_ok, mapErr_eq_ok, ensure_eq_ok, orError_eq_ok, pure_eq_ok,
    Except.ok.injEq]
  constructor
  · rintro ⟨report, hreport, _, hvalid, decision, hdecision, _, hchannel, rfl⟩
    exact ⟨report, ⟨hreport, hvalid, hdecision⟩, hchannel⟩
  · rintro ⟨report, h, hchannel⟩
    exact ⟨report, h.report, (), h.valid, decision, h.record, (), hchannel, rfl⟩

theorem approvalOf_eq_ok {s : LocalChainStore} {authority : AuthorityV1} {approval : ApprovalV1} :
    approvalOf s authority = .ok approval ↔ ∃ height, Approved s authority approval height := by
  cases authority with
  | collective channel meetingTx itemNumber voteTx =>
    simp only [approvalOf, bind_eq_ok, mapErr_eq_ok, checkVote_eq_ok, pure_eq_ok, Except.ok.injEq]
    constructor
    · rintro ⟨vote, ⟨meeting, final, entry, report, hcarried, hchannel⟩, frozen, hfrozen, rfl⟩
      exact ⟨meeting.height, .collective hcarried hchannel hfrozen⟩
    · rintro ⟨height, h⟩
      cases h with
      | collective carried through frozenAt =>
        exact ⟨_, ⟨_, _, _, _, carried, through⟩, _, frozenAt, rfl⟩
  | individual channel decisionTx =>
    simp only [approvalOf, bind_eq_ok, mapErr_eq_ok, checkDecision_eq_ok, pure_eq_ok,
      Except.ok.injEq]
    constructor
    · rintro ⟨decision, ⟨report, hsigned, hchannel⟩, frozen, hfrozen, rfl⟩
      exact ⟨report.height, .individual hsigned hchannel hfrozen⟩
    · rintro ⟨height, h⟩
      cases h with
      | individual signed through frozenAt => exact ⟨_, ⟨_, signed, through⟩, _, frozenAt, rfl⟩

/-- A channel may amend a part when its scope, in the channel set frozen for it, lists the part. -/
theorem checkScope_eq_ok {s : LocalChainStore} {approval : ApprovalV1}
    {target : AmendmentTargetV1} :
    checkScope s approval target = .ok () ↔ ∃ frozen channel scope,
      reconstruct s approval.height = .ok frozen ∧ channel ∈ frozen.channels.value.channels ∧
        channel.id.value = approval.channel ∧ channel.scope = some scope ∧
        target.recordKind ∈ scope.parts := by
  have hscope : ∀ channel : DecisionChannelV1, channel.mayAmend target.recordKind = true ↔
      ∃ scope, channel.scope = some scope ∧ target.recordKind ∈ scope.parts := by
    intro channel
    unfold DecisionChannelV1.mayAmend
    cases channel.scope <;> simp [ChannelScopeV1.allows]
  simp only [checkScope, bind_eq_ok, mapErr_eq_ok, orError_eq_ok, ensure_eq_ok, hscope,
    ChannelIdV1.new_eq_ok]
  constructor
  · rintro ⟨frozen, hfrozen, id, hid, channel, hget, scope, hallows, hmem⟩
    obtain ⟨hchannel, rfl⟩ := SortedTable.get_eq_some.mp hget
    exact ⟨frozen, channel, scope, hfrozen, hchannel, hid, hallows, hmem⟩
  · rintro ⟨frozen, channel, scope, hfrozen, hchannel, hid, hallows, hmem⟩
    exact ⟨frozen, hfrozen, channel.id, hid, channel, SortedTable.get_eq_some.mpr ⟨hchannel, rfl⟩,
      scope, hallows, hmem⟩

theorem checkAuthority_eq_ok {r : ResolutionV1} {s : LocalChainStore} {approval : ApprovalV1} :
    r.checkAuthority s = .ok approval ↔ (∃ height, Approved s r.authority approval height) ∧
      (∀ target, r.kind.target = some target → checkScope s approval target = .ok ()) ∧
      r.kind.approvedDigest = approval.proposalDigest := by
  cases htarget : r.kind.target with
  | none =>
    simp only [ResolutionV1.checkAuthority, htarget, bind_eq_ok, approvalOf_eq_ok, ensure_eq_ok,
      pure_eq_ok, Except.ok.injEq, reduceCtorEq, false_implies, implies_true, true_and]
    constructor
    · rintro ⟨found, happroved, _, hdigest, rfl⟩
      exact ⟨happroved, hdigest⟩
    · rintro ⟨happroved, hdigest⟩
      exact ⟨approval, happroved, (), hdigest, rfl⟩
  | some target =>
    simp only [ResolutionV1.checkAuthority, htarget, bind_eq_ok, approvalOf_eq_ok, ensure_eq_ok,
      pure_eq_ok, Except.ok.injEq, Option.some.injEq, forall_eq']
    constructor
    · rintro ⟨found, happroved, _, hscope, _, hdigest, rfl⟩
      exact ⟨happroved, hscope, hdigest⟩
    · rintro ⟨happroved, hscope, hdigest⟩
      exact ⟨approval, happroved, (), hscope, (), hdigest, rfl⟩

theorem checkAuthority_extends {r : ResolutionV1} {s t : LocalChainStore} {approval : ApprovalV1}
    (h : r.checkAuthority s = .ok approval) (hext : s.Extends t) :
    r.checkAuthority t = .ok approval := by
  obtain ⟨⟨height, happroved⟩, hscope, hdigest⟩ := checkAuthority_eq_ok.mp h
  obtain ⟨hlt, hle⟩ := happroved.height_lt
  refine checkAuthority_eq_ok.mpr ⟨⟨height, happroved.extends hext⟩, fun target htarget => ?_, hdigest⟩
  rw [checkScope, Ledger.Extends.reconstruct hext (hlt.le.trans hle)]
  exact hscope target htarget

theorem collectiveChecks_passed {s : LocalChainStore} {meetingTx : TxId} {itemNumber : ℕ}
    {voteTx : TxId} {checks : List (Check ResolutionCheckNameV1)}
    {found : Option FinalVoteRecordV1}
    (h : collectiveChecks s meetingTx itemNumber voteTx = .ok (checks, found))
    (hpass : NoneFailed checks) : ∃ vote meeting final entry report, found = some vote ∧
      Carried s meetingTx itemNumber voteTx meeting final entry report vote := by
  simp only [collectiveChecks, bind_eq_ok, mapErr_eq_ok] at h
  obtain ⟨meeting, hmeeting, h⟩ := h
  by_cases hheld : meeting.isValid = true
  · cases hfinal : meeting.record with
    | none =>
      simp only [hheld, hfinal, Bool.not_true, Bool.false_eq_true, if_false, pure_eq_ok,
        Except.ok.injEq, Prod.mk.injEq] at h
      obtain ⟨rfl, -⟩ := h
      simp at hpass
    | some final =>
      cases hentry : voteItemOf final itemNumber with
      | none =>
        simp only [hheld, hfinal, hentry, Bool.not_true, Bool.false_eq_true, if_false, pure_eq_ok,
          Except.ok.injEq, Prod.mk.injEq] at h
        obtain ⟨rfl, -⟩ := h
        simp at hpass
      | some entry =>
        simp only [hheld, hfinal, hentry, Bool.not_true, Bool.false_eq_true, if_false] at h
        by_cases hanswered : entry.voteTxId = some voteTx
        · simp only [hanswered, ne_eq, not_true_eq_false, if_false, bind_eq_ok, mapErr_eq_ok] at h
          obtain ⟨report, hreport, h⟩ := h
          by_cases hvalid : report.isValid = true
          · cases hvote : report.record with
            | none =>
              simp only [hvalid, hvote, Bool.not_true, Bool.false_eq_true, if_false, pure_eq_ok,
                Except.ok.injEq, Prod.mk.injEq] at h
              obtain ⟨rfl, -⟩ := h
              simp at hpass
            | some vote =>
              simp only [hvalid, hvote, Bool.not_true, Bool.false_eq_true, if_false, pure_eq_ok,
                Except.ok.injEq, Prod.mk.injEq] at h
              obtain ⟨rfl, rfl⟩ := h
              have haccepted : vote.evaluation.accepted = true := by simpa using hpass
              exact ⟨vote, meeting, final, entry, report, rfl, ⟨hmeeting, hheld, hfinal⟩, hentry,
                hanswered, ⟨hreport, hvalid, hvote⟩, haccepted⟩
          · simp only [hvalid, Bool.not_false, if_true, pure_eq_ok, Except.ok.injEq,
              Prod.mk.injEq] at h
            obtain ⟨rfl, -⟩ := h
            simp at hpass
        · simp only [hanswered, ne_eq, not_false_eq_true, if_true, pure_eq_ok, Except.ok.injEq,
            Prod.mk.injEq] at h
          obtain ⟨rfl, -⟩ := h
          simp at hpass
  · simp only [hheld, Bool.not_false, if_true, pure_eq_ok, Except.ok.injEq, Prod.mk.injEq] at h
    obtain ⟨rfl, -⟩ := h
    simp at hpass

theorem Carried.checks {s : LocalChainStore} {meetingTx : TxId} {itemNumber : ℕ} {voteTx : TxId}
    {meeting : MeetingVerificationV1} {final : MeetingFinalRecordV1} {entry : FinalItemV1}
    {report : VerificationV1} {vote : FinalVoteRecordV1}
    (h : Carried s meetingTx itemNumber voteTx meeting final entry report vote) :
    ∃ checks, collectiveChecks s meetingTx itemNumber voteTx = .ok (checks, some vote) ∧
      NoneFailed checks := by
  simp only [collectiveChecks, h.held.report, h.held.valid, h.held.record, h.item, h.answered,
    h.taken.report, h.taken.valid, h.taken.record, mapErr_ok, ok_bind, Bool.not_true,
    Bool.false_eq_true, if_false, ne_eq, not_true_eq_false, pure_eq_ok, Except.ok.injEq,
    Prod.mk.injEq, and_true, exists_eq_left']
  simp [h.accepted]

/-- A report goes on to judge what was decided exactly when there is evidence for it. -/
theorem decidedChecks_passed {s : LocalChainStore} {authority : AuthorityV1}
    {checks : List (Check ResolutionCheckNameV1)} {found : Option Decided}
    (h : decidedChecks s authority = .ok (checks, found)) (hpass : NoneFailed checks) :
    ∃ decided height, found = some decided ∧ decided.height = some height ∧
      (decided.channel = decided.approval.channel →
        Approved s authority decided.approval height) := by
  cases authority with
  | collective channel meetingTx itemNumber voteTx =>
    simp only [decidedChecks, bind_eq_ok] at h
    obtain ⟨⟨checks', found'⟩, hchecks, h⟩ := h
    cases found' with
    | none =>
      simp only [pure_eq_ok, Except.ok.injEq, Prod.mk.injEq] at h
      obtain ⟨rfl, -⟩ := h
      obtain ⟨_, _, _, _, _, hnone, -⟩ := collectiveChecks_passed hchecks hpass
      cases hnone
    | some vote =>
      simp only [bind_eq_ok, mapErr_eq_ok, pure_eq_ok, Except.ok.injEq, Prod.mk.injEq] at h
      obtain ⟨frozen, hfrozen, rfl, rfl⟩ := h
      obtain ⟨vote', meeting, final, entry, report, hvote, hcarried⟩ :=
        collectiveChecks_passed hchecks hpass
      obtain rfl := Option.some.inj hvote
      obtain ⟨located, -, -, -, hlocated, hheight, -, -⟩ := hcarried.held.passes
      refine ⟨_, meeting.height, rfl, ?_, fun hchannel => .collective hcarried hchannel hfrozen⟩
      rw [hlocated, hheight]
      rfl
  | individual channel decisionTx =>
    simp only [decidedChecks, bind_eq_ok, mapErr_eq_ok] at h
    obtain ⟨report, hreport, h⟩ := h
    by_cases hvalid : report.isValid = true
    · cases hdecision : report.record with
      | none =>
        simp only [hvalid, hdecision, Bool.not_true, Bool.false_eq_true, if_false, pure_eq_ok,
          Except.ok.injEq, Prod.mk.injEq] at h
        obtain ⟨rfl, -⟩ := h
        simp at hpass
      | some decision =>
        simp only [hvalid, hdecision, Bool.not_true, Bool.false_eq_true, if_false, bind_eq_ok,
          mapErr_eq_ok, pure_eq_ok, Except.ok.injEq, Prod.mk.injEq] at h
        obtain ⟨frozen, hfrozen, rfl, rfl⟩ := h
        exact ⟨_, report.height, rfl, rfl, fun hchannel =>
          .individual ⟨hreport, hvalid, hdecision⟩ hchannel hfrozen⟩
    · simp only [hvalid, Bool.not_false, if_true, pure_eq_ok, Except.ok.injEq, Prod.mk.injEq] at h
      obtain ⟨rfl, -⟩ := h
      simp at hpass

theorem Approved.decidedChecks {s : LocalChainStore} {authority : AuthorityV1}
    {approval : ApprovalV1} {height : ℕ} (h : Approved s authority approval height) :
    ∃ checks, Resolution.decidedChecks s authority =
      .ok (checks, some ⟨approval, some height, approval.channel⟩) ∧ NoneFailed checks := by
  cases h with
  | collective carried through frozenAt =>
    obtain ⟨checks, hchecks, hpass⟩ := carried.checks
    obtain ⟨located, -, -, -, hlocated, hheight, -, -⟩ := carried.held.passes
    refine ⟨checks, ?_, hpass⟩
    simp only [Resolution.decidedChecks, hchecks, frozenAt, mapErr_ok, ok_bind, hlocated,
      Option.map_some, hheight, through, pure_eq_ok]
    rfl
  | individual signed through frozenAt =>
    refine ⟨[⟨.decisionVerifies, true⟩], ?_, by simp⟩
    simp only [Resolution.decidedChecks, signed.report, signed.valid, signed.record, frozenAt,
      mapErr_ok, ok_bind, Bool.not_true, Bool.false_eq_true, if_false, through, pure_eq_ok]
    rfl

/-- What the checks of a resolution decide, with what each of them looked up. -/
structure Passes (s : LocalChainStore) (located : LocatedTransaction) (record : ResolutionRecordV1)
    (approval : ApprovalV1) (height : ℕ) (state : CompanyStateV1) : Prop where
  approved : Approved s record.authority approval height
  earlier : height < located.height
  reconstructs : reconstruct s located.height = .ok state
  inScope : ∀ target, record.kind.target = some target → checkScope s approval target = .ok ()
  digest : record.kind.approvedDigest = approval.proposalDigest
  company : record.company = state.company
  owner : approval.company = state.company.value
  signer : signerAuthorisedAt s located.height located.transaction.signer = true

theorem withinScope_iff {s : LocalChainStore} {approval : ApprovalV1}
    {target : Option AmendmentTargetV1} :
    withinScope s approval target = true ↔
      ∀ part, target = some part → checkScope s approval part = .ok () := by
  unfold withinScope
  cases target with
  | none => simp
  | some part =>
    simp only [Option.some.injEq, forall_eq']
    cases checkScope s approval part <;> simp

theorem authorityChecks_passed {s : LocalChainStore} {located : LocatedTransaction}
    {record : ResolutionRecordV1} {checks : List (Check ResolutionCheckNameV1)}
    {found : Option ApprovalV1}
    (h : authorityChecks s record located.height located.transaction.signer = .ok (checks, found))
    (hpass : NoneFailed checks) : ∃ approval height state, found = some approval ∧
      Passes s located record approval height state := by
  simp only [authorityChecks, bind_eq_ok] at h
  obtain ⟨⟨decidedChecks, decided⟩, hdecided, h⟩ := h
  cases decided with
  | none =>
    simp only [pure_eq_ok, Except.ok.injEq, Prod.mk.injEq] at h
    obtain ⟨rfl, -⟩ := h
    obtain ⟨_, _, hnone, -⟩ := decidedChecks_passed hdecided hpass
    cases hnone
  | some decided =>
    simp only [bind_eq_ok, mapErr_eq_ok, pure_eq_ok, Except.ok.injEq, Prod.mk.injEq] at h
    obtain ⟨state, hstate, rfl, rfl⟩ := h
    simp only [noneFailed_append, noneFailed_cons, noneFailed_nil, and_true, decide_eq_true_eq,
      Bool.and_eq_true, withinScope_iff] at hpass
    obtain ⟨hdecidedPass, hchannel, hscope, hdigest, ⟨hcompany, howner⟩, hearlier, hsigner⟩ := hpass
    obtain ⟨decided', height, hfound, hheight, happroved⟩ :=
      decidedChecks_passed hdecided hdecidedPass
    obtain rfl := Option.some.inj hfound
    have hlt : height < located.height := by simpa [hheight] using hearlier
    exact ⟨_, height, state, rfl, happroved hchannel, hlt, hstate, hscope, hdigest, hcompany, howner,
      hsigner⟩

theorem Passes.checks {s : LocalChainStore} {located : LocatedTransaction}
    {record : ResolutionRecordV1} {approval : ApprovalV1} {height : ℕ} {state : CompanyStateV1}
    (h : Passes s located record approval height state) :
    ∃ checks, authorityChecks s record located.height located.transaction.signer =
      .ok (checks, some approval) ∧ NoneFailed checks := by
  obtain ⟨checks, hchecks, hpass⟩ := h.approved.decidedChecks
  simp only [authorityChecks, hchecks, h.reconstructs, mapErr_ok, ok_bind, pure_eq_ok,
    Except.ok.injEq, Prod.mk.injEq, and_true, exists_eq_left']
  simp only [noneFailed_append, noneFailed_cons, noneFailed_nil, and_true, decide_eq_true_eq,
    Bool.and_eq_true, withinScope_iff, Option.any_some]
  exact ⟨hpass, trivial, h.inScope, h.digest, ⟨h.company, h.owner⟩, h.earlier, h.signer⟩

/-- A resolution verifies with an approval: its report names the record, and no check failed. -/
structure Verified (s : LocalChainStore) (located : LocatedTransaction)
    (report : ResolutionVerificationV1) (record : ResolutionRecordV1) (approval : ApprovalV1) :
    Prop where
  reported : resolutionReport s located = .ok (report, some approval)
  valid : report.isValid = true
  record : report.record = some record

theorem verified_of_noneFailed {s : LocalChainStore} {located : LocatedTransaction}
    {report : ResolutionVerificationV1} {found : Option ApprovalV1}
    (h : resolutionReport s located = .ok (report, found)) (hpass : NoneFailed report.checks) :
    ∃ record approval height state, found = some approval ∧ report.record = some record ∧
      decodeResolution located.transaction = some record ∧
      Passes s located record approval height state := by
  unfold resolutionReport at h
  cases hdecode : decodeResolution located.transaction with
  | none =>
    simp only [hdecode, Except.ok.injEq, Prod.mk.injEq] at h
    obtain ⟨rfl, -⟩ := h
    simp at hpass
  | some record =>
    simp only [hdecode, bind_eq_ok, pure_eq_ok, Except.ok.injEq, Prod.mk.injEq] at h
    obtain ⟨⟨checks, approval⟩, hchecks, rfl, rfl⟩ := h
    obtain ⟨approval, height, state, rfl, hpasses⟩ :=
      authorityChecks_passed hchecks (noneFailed_cons.mp hpass).2
    exact ⟨record, approval, height, state, rfl, rfl, rfl, hpasses⟩

theorem Verified.passes {s : LocalChainStore} {located : LocatedTransaction}
    {report : ResolutionVerificationV1} {record : ResolutionRecordV1} {approval : ApprovalV1}
    (h : Verified s located report record approval) :
    decodeResolution located.transaction = some record ∧
      ∃ height state, Passes s located record approval height state := by
  obtain ⟨record', approval', height, state, happroval, hrecord, hdecode, hpasses⟩ :=
    verified_of_noneFailed h.reported (allPassed_iff.mp h.valid).2
  obtain rfl := Option.some.inj happroval
  obtain rfl := Option.some.inj (h.record.symm.trans hrecord)
  exact ⟨hdecode, height, state, hpasses⟩

theorem Passes.verified {s : LocalChainStore} {located : LocatedTransaction}
    {record : ResolutionRecordV1} {approval : ApprovalV1} {height : ℕ} {state : CompanyStateV1}
    (hdecode : decodeResolution located.transaction = some record)
    (h : Passes s located record approval height state) :
    ∃ report, Verified s located report record approval := by
  obtain ⟨checks, hchecks, hpass⟩ := h.checks
  refine ⟨⟨located.transaction.id, located.height, some record, ⟨.decodes, true⟩ :: checks⟩, ?_,
    allPassed_iff.mpr ⟨List.cons_ne_nil _ _, noneFailed_cons.mpr ⟨rfl, hpass⟩⟩, rfl⟩
  simp only [resolutionReport, hdecode, hchecks, ok_bind, pure_eq_ok]

theorem Passes.extends {s t : LocalChainStore} {located : LocatedTransaction}
    {record : ResolutionRecordV1} {approval : ApprovalV1} {height : ℕ} {state : CompanyStateV1}
    (h : Passes s located record approval height state) (hext : s.Extends t)
    (hlocated : located.height ≤ s.head.height) :
    Passes t located record approval height state := by
  obtain ⟨hlt, hle⟩ := h.approved.height_lt
  exact { h with
    approved := h.approved.extends hext
    reconstructs := by
      rw [Ledger.Extends.reconstruct hext hlocated]
      exact h.reconstructs
    inScope := fun target htarget => by
      rw [checkScope, Ledger.Extends.reconstruct hext (hlt.le.trans hle)]
      exact h.inScope target htarget
    signer := by
      rw [Decision.Extends.signerAuthorisedAt hext hlocated]
      exact h.signer }

theorem Verified.verifies {s : LocalChainStore} {txId : TxId} {located : LocatedTransaction}
    {report : ResolutionVerificationV1} {record : ResolutionRecordV1} {approval : ApprovalV1}
    (hlocated : s.getTransaction txId = some located)
    (h : Verified s located report record approval) :
    verifyResolution s txId = .ok report ∧ NoneFailed report.checks := by
  refine ⟨?_, (allPassed_iff.mp h.valid).2⟩
  simp only [verifyResolution, hlocated, orError_some, ok_bind, h.reported, pure_eq_ok]

end Irena.Resolution
