import Irena.Resolution.Soundness

/-! # What an execution that verifies establishes

The checks of an execution record as one conjunction of facts about the chain: the resolution it
carries out, the amendment it names, and the part that amendment replaced. -/

namespace Irena.Resolution

open Irena.Library Irena.Library.Outcome Irena.Library.Strings Irena.Library.Utf8
open Irena.Core Irena.Bornite Irena.Prunella Irena.Prunella.LocalChainStore Irena.Ledger
open Irena.Decision (signerAuthorisedAt)

variable [Platform]

theorem findExecution_eq_none {s : LocalChainStore} {resolutionTx : TxId} :
    findExecution s resolutionTx = none ↔
      ∀ t ∈ s.transactions, executes resolutionTx t = false := by
  simp only [findExecution, iterBlocks_head, List.findSome?_eq_none_iff, Option.map_eq_none_iff,
    List.find?_eq_none, transactions, List.mem_flatMap, Bool.not_eq_true]
  constructor
  · rintro h t ⟨b, hb, ht⟩
    exact h b hb t ht
  · exact fun h b hb t ht => h t ⟨b, hb, ht⟩

theorem Extends.findExecution {s t : LocalChainStore} (h : s.Extends t) {resolutionTx : TxId}
    {found : TxId × ℕ} (hfound : Resolution.findExecution s resolutionTx = some found) :
    Resolution.findExecution t resolutionTx = some found := by
  obtain ⟨more, hmore⟩ := h.2
  rw [Resolution.findExecution, iterBlocks_head] at hfound ⊢
  rw [← hmore, List.findSome?_append, hfound]
  rfl

theorem decodeExecution_eq_some {t : Transaction} {execution : ResolutionExecutionV1} :
    decodeExecution t = some execution ↔ t.namespace_.value = executionNamespace ∧
      ∃ text record, fromUtf8 t.payload = some text ∧ readExecutionRecord text = .ok record ∧
        record.execution = execution := by
  unfold decodeExecution
  by_cases hns : t.namespace_.value = executionNamespace
  · simp only [hns, guard_true, Option.bind_eq_bind, Option.pure_def, Option.bind_some,
      Option.bind_eq_some_iff, true_and, Option.some.injEq]
    constructor
    · rintro ⟨text, htext, record, hrecord, hexecution⟩
      cases hread : readExecutionRecord text with
      | error e => simp [hread, Except.toOption] at hrecord
      | ok found =>
        rw [hread, Except.toOption, Option.some.injEq] at hrecord
        exact ⟨text, found, htext, hread, hrecord ▸ hexecution⟩
    · rintro ⟨text, record, htext, hread, hexecution⟩
      exact ⟨text, htext, record, by rw [hread]; rfl, hexecution⟩
  · simp [hns, guard]

theorem executes_iff {resolutionTx : TxId} {t : Transaction} :
    executes resolutionTx t = true ↔
      ∃ execution, decodeExecution t = some execution ∧ execution.resolutionId.txId = resolutionTx := by
  unfold executes decodeExecution
  by_cases hns : t.namespace_.value = executionNamespace
  · simp only [hns, ne_eq, not_true_eq_false, if_false, guard_true, Option.bind_eq_bind,
      Option.pure_def]
    cases fromUtf8 t.payload with
    | none => simp
    | some text => cases hrecord : readExecutionRecord text <;> simp [hrecord, Except.toOption]
  · simp [hns, guard]

theorem applied_of_mem {s : LocalChainStore} {height : ℕ} {execution : ResolutionExecutionV1}
    {state : CompanyStateV1} {found : RecordRefV1} (hstate : reconstruct s height = .ok state)
    (hmem : found ∈ state.historyOf execution.target.recordKind)
    (hid : found.txId = execution.amendmentTx) : applied s height execution = true := by
  simp only [applied, hstate]
  exact List.any_eq_true.mpr ⟨found, hmem, decide_eq_true hid⟩

theorem demotionHolds_of_between {s : LocalChainStore} {approval : ApprovalV1} {actor : VoterIdV1}
    {height : ℕ} {target : AmendmentTargetV1} {body : RecordBodyV1} {state : CompanyStateV1}
    {found : Option SelfDemotionV1} (hactor : approval.actor = some actor.value)
    (hstate : reconstruct s height = .ok state)
    (hfound : demotionBetween actor state target body = .ok found)
    (hholds : ∀ verdict, found = some verdict → verdict.holds = true) :
    demotionHolds s approval (height + 1) target body = true := by
  have hverdict : demotionVerdict s actor.value (height + 1) target body = .ok found := by
    simp only [demotionVerdict, bind_eq_ok, mapErr_eq_ok, ensure_eq_ok, VoterIdV1.new_eq_ok]
    exact ⟨(), Nat.succ_ne_zero height, state, hstate, actor, rfl, hfound⟩
  simp only [demotionHolds, hactor, hverdict]
  cases found with
  | none => rfl
  | some verdict => exact hholds verdict rfl

/-- What the checks of an execution decide, with what each of them looked up. -/
structure Executes (s : LocalChainStore) (located resolution amended : LocatedTransaction)
    (execution : ResolutionExecutionV1) (record : ResolutionRecordV1) (approval : ApprovalV1)
    (body : Text) (amendment : Text × IrenaRecordV1) : Prop where
  named : s.getTransaction execution.resolutionId.txId = some resolution
  authorises : record.kind = .amendment execution.target body
  amends : s.getTransaction execution.amendmentTx = some amended
  reads : amendmentOf amended.transaction = some amendment
  kind : amendment.2.kind = execution.target.recordKind
  company : amendment.2.company = record.company
  publishes : publishes amendment.1 amendment.2.body body = true
  bodyDigest : proposalDigest body = execution.bodyDigest
  approved : execution.bodyDigest = approval.proposalDigest
  supersedes : amendment.2.supersedes = some (approval.baseOf execution.target)
  replaced : execution.replacedTx = approval.baseOf execution.target
  demotion : demotionHolds s approval amended.height execution.target amendment.2.body = true
  applied : applied s located.height execution = true
  earlier : resolution.height < amended.height
  notLater : amended.height ≤ located.height
  signer : signerAuthorisedAt s located.height located.transaction.signer = true
  once : ∃ height, findExecution s execution.resolutionId.txId =
    some (located.transaction.id, height)

theorem noneFailed_amendmentChecks {s : LocalChainStore}
    {located resolution amended : LocatedTransaction} {execution : ResolutionExecutionV1}
    {approval : ApprovalV1} {body : Text} {amendment : Text × IrenaRecordV1} :
    NoneFailed (amendmentChecks s located resolution amended execution approval body amendment) ↔
      (publishes amendment.1 amendment.2.body body = true ∧
        proposalDigest body = execution.bodyDigest ∧
        execution.bodyDigest = approval.proposalDigest) ∧
      (amendment.2.supersedes = some (approval.baseOf execution.target) ∧
        execution.replacedTx = approval.baseOf execution.target) ∧
      demotionHolds s approval amended.height execution.target amendment.2.body = true ∧
      applied s located.height execution = true ∧
      (resolution.height < amended.height ∧ amended.height ≤ located.height) ∧
      signerAuthorisedAt s located.height located.transaction.signer = true ∧
      ∃ height, findExecution s execution.resolutionId.txId =
        some (located.transaction.id, height) := by
  simp only [amendmentChecks, noneFailed_cons, noneFailed_nil, and_true, Bool.and_eq_true,
    decide_eq_true_eq]
  have honce : (findExecution s execution.resolutionId.txId).any
      (fun p => p.1 = located.transaction.id) = true ↔
      ∃ height, findExecution s execution.resolutionId.txId =
        some (located.transaction.id, height) := by
    rcases findExecution s execution.resolutionId.txId with _ | ⟨txId, height⟩ <;> simp
  rw [honce]

/-- An execution whose resolution verifies has no failed check exactly when these facts hold. -/
theorem noneFailed_executionChecks {s : LocalChainStore} {located resolution : LocatedTransaction}
    {execution : ResolutionExecutionV1} {record : ResolutionRecordV1} {approval : ApprovalV1}
    (hnamed : s.getTransaction execution.resolutionId.txId = some resolution) :
    NoneFailed (executionChecks s located resolution execution record approval) ↔
      ∃ amended body amendment,
        Executes s located resolution amended execution record approval body amendment := by
  constructor
  · intro h
    unfold executionChecks at h
    cases hkind : record.kind with
    | declarative digest => simp [hkind] at h
    | amendment target body =>
      by_cases htarget : target = execution.target
      · subst htarget
        cases hamended : s.getTransaction execution.amendmentTx with
        | none => simp [hkind, hamended] at h
        | some amended =>
          cases hread : amendmentOf amended.transaction with
          | none => simp [hkind, hamended, hread] at h
          | some amendment =>
            by_cases hsame : amendment.2.kind = execution.target.recordKind ∧
                amendment.2.company = record.company
            · simp only [hkind, hamended, hread, hsame, ne_eq, not_true_eq_false, if_false, and_self,
                if_true, noneFailed_append, noneFailed_amendmentChecks] at h
              obtain ⟨-, ⟨hpublishes, hbody, happroved⟩, ⟨hsupersedes, hreplaced⟩, hdemotion, happlied,
                ⟨hearlier, hle⟩, hsigner, honce⟩ := h
              exact ⟨amended, body, amendment, hnamed, hkind, hamended, hread, hsame.1, hsame.2,
                hpublishes, hbody, happroved, hsupersedes, hreplaced, hdemotion, happlied, hearlier,
                hle, hsigner, honce⟩
            · simp [hkind, hamended, hread, hsame] at h
      · simp [hkind, htarget] at h
  · rintro ⟨amended, body, amendment, h⟩
    have hsame : amendment.2.kind = execution.target.recordKind ∧
        amendment.2.company = record.company := ⟨h.kind, h.company⟩
    simp only [executionChecks, h.authorises, h.amends, h.reads, hsame, ne_eq, not_true_eq_false,
      if_false, and_self, if_true, noneFailed_append, noneFailed_amendmentChecks]
    exact ⟨by simp, ⟨h.publishes, h.bodyDigest, h.approved⟩, ⟨h.supersedes, h.replaced⟩, h.demotion,
      h.applied, ⟨h.earlier, h.notLater⟩, h.signer, h.once⟩

/-- A verified execution: its record, the resolution it names, which verifies too, and the
amendment. -/
structure Executed (s : LocalChainStore) (txId : TxId)
    (located resolution amended : LocatedTransaction) (execution : ResolutionExecutionV1)
    (record : ResolutionRecordV1) (approval : ApprovalV1) (body : Text)
    (amendment : Text × IrenaRecordV1) : Prop where
  found : s.getTransaction txId = some located
  decodes : decodeExecution located.transaction = some execution
  resolved : decodeResolution resolution.transaction = some record
  verifies : ∃ height state, Passes s resolution record approval height state
  executes : Executes s located resolution amended execution record approval body amendment

/-- An execution verifies exactly when it is the execution of a resolution that verifies. -/
theorem verifyExecution_iff {s : LocalChainStore} {txId : TxId} :
    (∃ v, verifyExecution s txId = .ok v ∧ NoneFailed v.checks) ↔
      ∃ located resolution amended execution record approval body amendment,
        Executed s txId located resolution amended execution record approval body amendment := by
  constructor
  · rintro ⟨v, h, hpass⟩
    simp only [verifyExecution, bind_eq_ok, orError_eq_ok] at h
    obtain ⟨located, hlocated, h⟩ := h
    cases hdecode : decodeExecution located.transaction with
    | none =>
      simp only [hdecode, pure_eq_ok, Except.ok.injEq] at h
      subst h
      simp at hpass
    | some execution =>
      cases hnamed : s.getTransaction execution.resolutionId.txId with
      | none =>
        simp only [hdecode, hnamed, pure_eq_ok, Except.ok.injEq] at h
        subst h
        simp at hpass
      | some resolution =>
        simp only [hdecode, hnamed, bind_eq_ok] at h
        obtain ⟨⟨report, found⟩, hreport, h⟩ := h
        by_cases hvalid : report.isValid = true
        · simp only [hvalid, Bool.not_true, Bool.false_eq_true, if_false, bind_eq_ok, orError_eq_ok,
            pure_eq_ok, Except.ok.injEq] at h
          obtain ⟨record, hrecord, approval, rfl, rfl⟩ := h
          have hverified : Verified s resolution report record approval :=
            ⟨hreport, hvalid, hrecord⟩
          obtain ⟨hresolved, hpasses⟩ := hverified.passes
          obtain ⟨amended, body, amendment, hexecutes⟩ :=
            (noneFailed_executionChecks hnamed).mp (noneFailed_append.mp hpass).2
          exact ⟨located, resolution, amended, execution, record, approval, body, amendment,
            hlocated, hdecode, hresolved, hpasses, hexecutes⟩
        · simp only [hvalid, Bool.not_false, if_true, pure_eq_ok, Except.ok.injEq] at h
          subst h
          simp at hpass
  · rintro ⟨located, resolution, amended, execution, record, approval, body, amendment, h⟩
    obtain ⟨height, state, hpasses⟩ := h.verifies
    obtain ⟨report, hverified⟩ := hpasses.verified h.resolved
    have hchecks : NoneFailed (executionChecks s located resolution execution record approval) :=
      (noneFailed_executionChecks h.executes.named).mpr ⟨amended, body, amendment, h.executes⟩
    refine ⟨⟨txId, located.height, some execution, [⟨.decodes, true⟩, ⟨.resolutionVerifies, true⟩] ++
      executionChecks s located resolution execution record approval, some report⟩, ?_,
      noneFailed_append.mpr ⟨by simp, hchecks⟩⟩
    simp only [verifyExecution, h.found, orError_some, ok_bind, h.decodes, h.executes.named,
      hverified.reported, hverified.valid, hverified.record, Bool.not_true, Bool.false_eq_true,
      if_false, pure_eq_ok]

theorem Executed.record_eq {s : LocalChainStore} {txId : TxId} {v : ExecutionVerificationV1}
    {located resolution amended : LocatedTransaction} {execution : ResolutionExecutionV1}
    {record : ResolutionRecordV1} {approval : ApprovalV1} {body : Text}
    {amendment : Text × IrenaRecordV1}
    (h : Executed s txId located resolution amended execution record approval body amendment)
    (hv : verifyExecution s txId = .ok v) : v.record = some execution := by
  simp only [verifyExecution, h.found, h.decodes, h.executes.named, orError_some, ok_bind,
    bind_eq_ok] at hv
  obtain ⟨⟨report, found⟩, -, hv⟩ := hv
  split at hv
  · rw [← Except.ok.inj hv]
  · simp only [bind_eq_ok, pure_eq_ok, Except.ok.injEq] at hv
    obtain ⟨_, -, _, -, rfl⟩ := hv
    rfl

theorem Executed.first {s : LocalChainStore} {txId : TxId}
    {located resolution amended : LocatedTransaction} {execution : ResolutionExecutionV1}
    {record : ResolutionRecordV1} {approval : ApprovalV1} {body : Text}
    {amendment : Text × IrenaRecordV1}
    (h : Executed s txId located resolution amended execution record approval body amendment) :
    ∃ height, findExecution s execution.resolutionId.txId = some (txId, height) := by
  obtain ⟨hid, -⟩ := getTransaction_some h.found
  obtain ⟨height, honce⟩ := h.executes.once
  exact ⟨height, hid ▸ honce⟩

end Irena.Resolution
