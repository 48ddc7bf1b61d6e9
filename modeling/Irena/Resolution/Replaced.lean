import Irena.Ledger.Position
import Irena.Resolution.Execution
import Irena.Sample.Resolved

/-! # What a verified execution replaced

The amendment of a verified execution was applied where its transaction stands, to the company as
the transactions before it made it, and replaced there the very record that was approved for
replacement. -/

namespace Irena.Resolution

open Irena.Library Irena.Library.Outcome Irena.Library.Strings Irena.Library.Utf8
open Irena.Core Irena.Bornite Irena.Prunella Irena.Prunella.LocalChainStore Irena.Ledger
open Irena.Decision (FinalDecisionRecordV1 DecisionVerificationV1)

section Rules

variable [Platform]

theorem Approved.base {s : LocalChainStore} {authority : AuthorityV1} {approval : ApprovalV1}
    {height : ℕ} (h : Approved s authority approval height) :
    ∃ frozen, reconstruct s approval.height = .ok frozen ∧
      ∀ target : AmendmentTargetV1,
        approval.baseOf target = frozen.providerOf target.recordKind := by
  cases h with
  | collective carried through frozenAt =>
    obtain ⟨located, state, channel, resolved, rules, evaluation, -, -, -, hpasses⟩ :=
      carried.taken.passes
    obtain rfl := Except.ok.inj (frozenAt.symm.trans hpasses.reconstructs)
    have hpins := hpasses.pins
    simp only [Vote.VoteSnapshotV1.pins, Bool.and_eq_true, decide_eq_true_eq] at hpins
    obtain ⟨⟨⟨-, hshares⟩, hchannels⟩, hidentities⟩ := hpins
    refine ⟨_, frozenAt, fun target => ?_⟩
    cases target
    · exact hshares.symm
    · exact hchannels.symm
    · exact hidentities.symm
    · rfl
  | individual signed through frozenAt =>
    obtain ⟨located, state, channel, resolved, actor, -, -, hpasses⟩ := signed.passes
    obtain rfl := Except.ok.inj (frozenAt.symm.trans hpasses.reconstructs)
    have hpins := hpasses.pins
    simp only [Decision.DecisionSnapshotV1.pins, Bool.and_eq_true, decide_eq_true_eq] at hpins
    obtain ⟨⟨⟨-, hshares⟩, hchannels⟩, hidentities⟩ := hpins
    refine ⟨_, frozenAt, fun target => ?_⟩
    cases target
    · exact hshares.symm
    · exact hchannels.symm
    · exact hidentities.symm
    · rfl

section Executed

variable {s : LocalChainStore} {txId : TxId} {located resolution amended : LocatedTransaction}
  {execution : ResolutionExecutionV1} {record : ResolutionRecordV1} {approval : ApprovalV1}
  {body : Text} {amendment : Text × IrenaRecordV1}

theorem Executed.appliedAt (hs : s.WellFormed)
    (h : Executed s txId located resolution amended execution record approval body amendment) :
    ∃ found state next, amended ∈ placed s.blocks ∧ found.record = amendment.2 ∧
      AppliedAt s amended found state next ∧
      state.providerOf execution.target.recordKind = approval.baseOf execution.target := by
  have happlied := h.executes.applied
  unfold applied at happlied
  cases hstate : reconstruct s located.height with
  | error e =>
    rw [hstate] at happlied
    cases happlied
  | ok company =>
    rw [hstate] at happlied
    obtain ⟨found, hfound, hid⟩ := List.any_eq_true.mp happlied
    have hmem : found ∈ company.applied := List.mem_of_mem_filter hfound
    obtain ⟨l, hl, hheld⟩ := heldBy_of_applied hstate hmem
    have hplaced : l ∈ placed s.blocks := ((mem_placed_take hs).mp hl).1
    have hlookup := getTransaction_of_placed hs hplaced
    rw [← hheld.txId, of_decide_eq_true hid, h.executes.amends, Option.some.injEq] at hlookup
    subst hlookup
    -- The record applied is the record that the verifier read from the same transaction.
    have hsame : found.record = amendment.2 := by
      obtain ⟨text, htext, hread⟩ := hheld.reads
      have hreads := h.executes.reads
      simp only [amendmentOf, htext, hread, Option.bind_eq_bind, Option.bind_some, Except.toOption,
        Option.pure_def, Option.some.injEq] at hreads
      rw [← hreads]
    have hkind : found.record.kind = execution.target.recordKind := by
      rw [hsame]
      exact h.executes.kind
    have hne : found.record.kind ≠ .companyGenesis := hkind ▸ execution.target.recordKind_ne
    obtain ⟨l, state, next, hl', -, hheld', happliedAt⟩ := appliedAt_of_reconstruct hs hstate hmem hne
    have hlookup' := getTransaction_of_placed hs hl'
    rw [← hheld'.txId, hheld.txId, getTransaction_of_placed hs hplaced, Option.some.injEq] at hlookup'
    subst hlookup'
    refine ⟨found, state, next, hplaced, hsame, happliedAt, ?_⟩
    have hsupersedes := happliedAt.amends.supersedes
    rw [hsame, h.executes.supersedes, h.executes.kind] at hsupersedes
    exact (Option.some.inj hsupersedes).symm

/-- The approval was frozen before the amendment's block. -/
theorem Executed.frozen (h : Executed s txId located resolution amended execution record approval
    body amendment) : ∃ frozen m, reconstruct s approval.height = .ok frozen ∧
      approval.height ≤ m ∧ amended.height = m + 1 ∧
      ∀ target : AmendmentTargetV1,
        approval.baseOf target = frozen.providerOf target.recordKind := by
  obtain ⟨height, state, hpasses⟩ := h.verifies
  obtain ⟨frozen, hfrozen, hbase⟩ := hpasses.approved.base
  have hlt := hpasses.approved.height_lt.1
  have hearlier := hpasses.earlier
  have hamended := h.executes.earlier
  exact ⟨frozen, amended.height - 1, hfrozen, by omega, by omega, hbase⟩

end Executed

/-- Verified executions that are not one and the same rest on different resolutions and name
different amendments, unless both were to replace the same record of the same part. -/
theorem executed_distinct {s : LocalChainStore} (hs : s.WellFormed) {first second : TxId}
    {v w : ExecutionVerificationV1} (hne : first ≠ second)
    (hfirst : verifyExecution s first = .ok v) (hv : NoneFailed v.checks)
    (hsecond : verifyExecution s second = .ok w) (hw : NoneFailed w.checks) :
    ∃ a b, v.record = some a ∧ w.record = some b ∧
      (a.resolutionId ≠ b.resolutionId ∧ a.amendmentTx ≠ b.amendmentTx ↔
        ¬ (a.target = b.target ∧ a.replacedTx = b.replacedTx)) := by
  obtain ⟨located, resolution, amended, a, record, approval, body, amendment, h⟩ :=
    verifyExecution_iff.mp ⟨v, hfirst, hv⟩
  obtain ⟨located', resolution', amended', b, record', approval', body', amendment', h'⟩ :=
    verifyExecution_iff.mp ⟨w, hsecond, hw⟩
  have hresolutions : a.resolutionId ≠ b.resolutionId := by
    intro hsame
    obtain ⟨height, honce⟩ := h.first
    obtain ⟨height', honce'⟩ := h'.first
    rw [hsame, honce'] at honce
    exact hne (congrArg Prod.fst (Option.some.inj honce)).symm
  refine ⟨a, b, h.record_eq hfirst, h'.record_eq hsecond, ?_⟩
  rw [and_iff_right hresolutions]
  refine not_congr ?_
  obtain ⟨found, state, next, hplaced, hfound, happlied, -⟩ := h.appliedAt hs
  obtain ⟨found', state', next', hplaced', hfound', happlied', -⟩ := h'.appliedAt hs
  constructor
  · intro hsame
    have hamended : amended = amended' := by
      have hamends := h.executes.amends
      rw [hsame, h'.executes.amends, Option.some.injEq] at hamends
      exact hamends.symm
    subst hamended
    have hreads := h.executes.reads
    rw [h'.executes.reads, Option.some.injEq] at hreads
    subst hreads
    have htarget : a.target = b.target :=
      AmendmentTargetV1.recordKind_injective (h.executes.kind.symm.trans h'.executes.kind)
    have hbase := h.executes.supersedes.symm.trans h'.executes.supersedes
    exact ⟨htarget, by rw [h.executes.replaced, h'.executes.replaced, Option.some.inj hbase]⟩
  · rintro ⟨htarget, hreplaced⟩
    have hl : amended = amended' := by
      refine happlied.eq_of_supersedes hs hplaced hplaced' happlied' ?_ ?_
      · rw [hfound, hfound', h.executes.kind, h'.executes.kind, htarget]
      · rw [hfound, hfound', h.executes.supersedes, h'.executes.supersedes, ← h.executes.replaced,
          ← h'.executes.replaced, hreplaced]
    rw [← (getTransaction_some h.executes.amends).1, ← (getTransaction_some h'.executes.amends).1,
      hl]

end Rules

section Samples

open Irena.Sample

attribute [local instance] platform

/-- Two executions on one chain, judged together. -/
theorem executed_distinct_twice : ∃ v w a b,
    verifyExecution twice (executionTransaction .shareStructure widenedXml widenedXml 0).id = .ok v ∧
    verifyExecution twice (executionTransaction .shareStructure widenedXml widenedXml 1).id = .ok w ∧
    v.record = some a ∧ w.record = some b ∧
      (a.resolutionId ≠ b.resolutionId ∧ a.amendmentTx ≠ b.amendmentTx ↔
        ¬ (a.target = b.target ∧ a.replacedTx = b.replacedTx)) := by
  obtain ⟨⟨_, hfirst⟩, _, hsecond⟩ := twice_executed
  obtain ⟨v, hv, hvpass⟩ := verifyExecution_iff.mpr ⟨_, _, _, _, _, _, _, _, hfirst⟩
  obtain ⟨w, hw, hwpass⟩ := verifyExecution_iff.mpr ⟨_, _, _, _, _, _, _, _, hsecond⟩
  obtain ⟨a, b, ha, hb, hiff⟩ := executed_distinct twice_wellFormed twice_ne.2 hv hvpass hw hwpass
  exact ⟨v, w, a, b, hv, hw, ha, hb, hiff⟩

/-- One amendment is claimed as the execution of two resolutions. -/
theorem executed_claimed_twice : ∃ first second v w a b, first ≠ second ∧ twice.WellFormed ∧
    verifyExecution twice first = .ok v ∧ NoneFailed v.checks ∧ v.record = some a ∧
    verifyExecution twice second = .ok w ∧ NoneFailed w.checks ∧ w.record = some b ∧
    a.amendmentTx = b.amendmentTx := by
  obtain ⟨⟨_, hfirst⟩, _, hsecond⟩ := twice_executed
  obtain ⟨v, hv, hvpass⟩ := verifyExecution_iff.mpr ⟨_, _, _, _, _, _, _, _, hfirst⟩
  obtain ⟨w, hw, hwpass⟩ := verifyExecution_iff.mpr ⟨_, _, _, _, _, _, _, _, hsecond⟩
  exact ⟨_, _, v, w, _, _, twice_ne.2, twice_wellFormed, hv, hvpass, hfirst.record_eq hv, hw, hwpass,
    hsecond.record_eq hw, rfl⟩

end Samples

end Irena.Resolution
