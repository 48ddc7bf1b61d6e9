import Irena.Sample.Held
import Irena.Sample.Resolved

/-! # Amendments that cross a meeting

The meeting in spring is finalised while others amend the company: their amendment lands once the
vote is published, and the final record follows it. -/

namespace Irena.Sample

open Irena.Library Irena.Library.Outcome Irena.Library.Strings Irena.Library.Utf8
open Irena.Core Irena.Bornite Irena.Prunella Irena.Prunella.LocalChainStore Irena.Ledger
open Irena.Decision (Governs Leaves)
open Irena.Vote Irena.Meeting
open Irena.Resolution (AmendmentTargetV1)

attribute [local instance] platform signaturesVerify

variable {target : AmendmentTargetV1} {published : Text}

/-- The final record where the amendment comes before it. -/
def crossedFinal : Transaction := signed ann meetingNamespace (utf8 heldXml) 4

def crossingBlocks (target : AmendmentTargetV1) (published : Text) : List (List Transaction) :=
  heldBlocks.take 2 ++ [[amendmentTransaction target published]]

/-- The chain that the final record finds. -/
def crossing (target : AmendmentTargetV1) (published : Text) : LocalChainStore :=
  grown founded (crossingBlocks target published)

/-- The transactions have ids of their own. -/
def Distinct (target : AmendmentTargetV1) (published : Text) : Prop :=
  ((founded.transactions ++ (crossingBlocks target published).flatten ++ [crossedFinal]).map
    Transaction.id).Nodup

instance : Decidable (Distinct target published) := by
  unfold Distinct
  infer_instance

theorem crossing_reads : Distinct .shareStructure widenedXml ∧ Distinct .identities (identitiesXml eve) ∧
    readRecord (amendmentXml .identities (identitiesXml eve)) =
      .ok (amendmentRecord (.identities rotated)) := by
  decide +kernel

theorem crossing_wellFormed (h : Distinct target published) :
    (crossing target published).WellFormed := by
  have hall : ∀ transactions ∈ crossingBlocks target published, transactions.length ≤ u32Max ∧
      ∀ t ∈ transactions, t.Sound := by
    simp only [crossingBlocks, heldBlocks, List.take_succ_cons, List.take_zero, List.cons_append,
      List.nil_append, List.mem_cons, List.not_mem_nil, or_false, forall_eq_or_imp, forall_eq,
      List.length_cons, List.length_nil]
    exact ⟨⟨by decide, sound_signed ..⟩, ⟨by decide, sound_signed ..⟩, by decide, sound_signed ..⟩
  refine wellFormed_grown founded_wellFormed (by decide : 3 ≤ u64Max) rfl (fun b hb => (hall b hb).1)
    (fun b hb => (hall b hb).2) ?_
  unfold Distinct at h
  rw [List.map_append] at h
  exact (List.nodup_append.mp h).1

theorem crossing_extends : (held 2).Extends (crossing target published) := by
  rw [crossing, crossingBlocks, grown_append]
  exact extends_push _ _

theorem head_crossing : (crossing target published).head.height = 3 := by
  rw [crossing, head_grown]
  rfl

theorem grows_crossing (h : Distinct target published) : Grows (held 2) (crossing target published) :=
  ⟨crossing_extends, fun _ => crossing_wellFormed h⟩

/-- The final record follows the amendment. -/
theorem crossed_next (h : Distinct target published) :
    ChildOf (crossing target published).networkId (crossing target published).headBlock.header
      (crossing target published).containsTransaction
      (nextBlock (crossing target published) crossedFinal 0) := by
  obtain ⟨-, -, htime⟩ := kept_grown founded (crossingBlocks target published)
  refine (childOf_nextBlock (crossing_wellFormed h)).mpr ⟨?_, (htime rfl).le, sound_signed .., ?_⟩
  · rw [head_crossing]
    decide
  · refine containsTransaction_eq_false.mpr fun hmem => ?_
    rw [crossing, transactions_grown] at hmem
    unfold Distinct at h
    rw [List.map_append] at h
    exact (List.nodup_append.mp h).2.2 _ hmem _ (List.mem_singleton_self _) rfl

theorem finalAfter_crossing : nextTransaction (crossing target published) ann meetingNamespace
    (utf8 heldXml) = crossedFinal := by
  rw [nextTransaction, head_crossing]
  rfl

/-- The company that the final record finds is the amended one. -/
theorem companyNow_crossing {record : RecordBodyV1}
    (hread : readRecord (amendmentXml target published) = .ok (amendmentRecord record))
    (hkind : record.kind = target.recordKind)
    (hopen : ∀ height, lockoutAfter (({ acme with at_ := height } : CompanyStateV1).replace
        (amendmentRef target published record 3 0)).identities.value
      (({ acme with at_ := height } : CompanyStateV1).replace
        (amendmentRef target published record 3 0)).authorisation.value = none) :
    ∃ height, companyNow (crossing target published) =
      .ok { amendedBy { acme with at_ := height } (amendmentRef target published record 3 0) with
        at_ := 3 } := by
  have hforeign : ∀ transactions ∈ heldBlocks.take 2, ∀ t ∈ transactions,
      kindOfNamespace t.namespace_.value = none := by
    simp only [heldBlocks, List.take_succ_cons, List.take_zero, List.mem_cons, List.not_mem_nil,
      or_false, forall_eq_or_imp, forall_eq]
    exact ⟨meetingNamespace_foreign, voteNamespace_foreign⟩
  have hsteps : ∀ height, ([amendmentTransaction target published].zipIdx.map fun p =>
      LocatedTransaction.mk 3 p.2 p.1).foldlM stepAt (some { acme with at_ := height }) =
        .ok (some (amendedBy { acme with at_ := height }
          (amendmentRef target published record 3 0))) := by
    intro height
    have hprovider : ({ acme with at_ := height } : CompanyStateV1).providerOf target.recordKind =
        genesisTransaction.id := by
      cases target <;> rfl
    have hamended := stepAt_amendment (s := { acme with at_ := height }) (n := 3) (i := 0) hread hkind
      (by decide) rfl companySigner_acme hprovider (hopen height)
    simp only [List.zipIdx_cons, List.zipIdx_nil, List.map_cons, List.map_nil]
    rw [List.foldlM_cons, hamended, ok_bind, List.foldlM_nil, pure_eq_ok]
  exact companyNow_steps (heldBlocks.take 2) hforeign hsteps

/-- The final record does not change the company that it finds. -/
theorem reconstruct_crossed {state : CompanyStateV1} {t : LocalChainStore}
    (hnow : companyNow (crossing target published) = .ok state)
    (hchain : SameChain ((crossing target published).push
      (nextBlock (crossing target published) crossedFinal 0)) t) :
    reconstruct t (3 + 1) = .ok { state with at_ := 3 + 1 } := by
  have hafter := companyNow_push_foreign
    (b := nextBlock (crossing target published) crossedFinal 0) hnow
    (List.forall_mem_singleton.mpr meetingNamespace_foreign)
  rw [companyNow, head_push, head_crossing, ← reconstruct_of_sameChain hchain] at hafter
  exact hafter

/-- Widening the register leaves the director the governance. -/
theorem leaves_crossing : Leaves ann (held 2) (crossing .shareStructure widenedXml) := by
  refine ⟨grows_crossing crossing_reads.1, fun _ => ?_⟩
  have hopen : lockoutAfter acme.identities.value acme.authorisation.value = none := by
    decide +kernel
  obtain ⟨height, hnow⟩ := companyNow_crossing twice_reads.2.2.1 rfl fun _ => hopen
  exact ⟨_, person annId ann, hnow, authorisedSigner_acme 0⟩

/-- The meeting is finalised, whatever the amendment is. -/
theorem finalize_crossing {R : LocalChainStore → LocalChainStore → Prop} (hrefl : ∀ s, R s s)
    (h : Distinct target published) (hothers : R (held 2) (crossing target published)) :
    ∃ m t, Program.RunsAmong R (springClosed.finalize ann notarisation 0) (held 1)
        (.ok (.ok ⟨crossedFinal.id, 4, heldRecord⟩, m)) t ∧
      SameChain ((crossing target published).push
        (nextBlock (crossing target published) crossedFinal 0)) t := by
  have hname : Namespace.new meetingNamespace = .ok ⟨meetingNamespace⟩ := by decide +kernel
  have hcompany : CompanyIdV1.new springClosed.company = .ok Sample.company :=
    CompanyIdV1.new_eq_ok.mpr rfl
  have hcommits : (crossing target published).Commits := by
    rw [Commits, crossing, (kept_grown founded (crossingBlocks target published)).2.1]
    exact fun _ h => by cases h
  have happend := @appendTransaction_of_child _ _ meetingFaults ann meetingNamespace (utf8 heldXml) 0 _
    (crossing_wellFormed h) hname (by rw [finalAfter_crossing]; exact crossed_next h) hcommits
  rw [finalAfter_crossing, head_crossing] at happend
  exact ⟨_, _, finalize_crossed hrefl rfl (companyNow_held (by decide)) (authorisedSigner_acme 1)
    finalizeVotes_held finalRecord_spring hcompany held_reads.2.2 hothers happend, rfl, rfl, rfl⟩

end Irena.Sample
