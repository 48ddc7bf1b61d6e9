import Irena.Resolution.Standing

/-! # A resolution to execute

The director has decided on a body and finalised a resolution on it. What the chain that holds the
two offers an execution is settled here for every body that can be decided on. -/

namespace Irena.Sample

open Irena.Library Irena.Library.Outcome Irena.Library.Strings Irena.Library.Utf8
open Irena.Core Irena.Bornite Irena.Prunella Irena.Prunella.LocalChainStore Irena.Ledger
open Irena.Decision Irena.Resolution

attribute [local instance] platform signaturesVerify writingScanner

section Chain

variable (target : AmendmentTargetV1) (body : Text)

/-- The resolution's nonce is the height of its block. -/
def readyBlocks : List (List Transaction) :=
  [[decisionTransaction body], [resolutionTransaction target body 2]]

def ready : LocalChainStore := grown founded (readyBlocks target body)

/-- The resolution as finalizing left it. -/
def finalised : ResolutionV1 where
  status := .finalized
  company := company.value
  title := lit "Amend"
  authority := directorAuthority body
  kind := .amendment target body
  finalized := some ((resolutionTransaction target body 2).id, 2)
  executed := none

def readyMandate : ResolutionV1.Mandate :=
  ⟨⟨(resolutionTransaction target body 2).id⟩, target, body, genesisTransaction.id⟩

/-- The company as founded, seen from the resolution's block. -/
def readyState : CompanyStateV1 := { acme with at_ := 2 }

variable {target body}

theorem ready_foreign : ∀ transactions ∈ readyBlocks target body, ∀ t ∈ transactions,
    kindOfNamespace t.namespace_.value = none := by
  simp only [readyBlocks, List.mem_cons, List.not_mem_nil, or_false, forall_eq_or_imp, forall_eq]
  exact ⟨decision_foreign body, resolution_foreign target body 2⟩

theorem ready_wellFormed
    (hnodup : ((founded.transactions ++ (readyBlocks target body).flatten).map
      Transaction.id).Nodup) : (ready target body).WellFormed := by
  have hroom : founded.head.height + 2 ≤ u64Max := by decide
  refine wellFormed_grown founded_wellFormed hroom rfl ?_ ?_ hnodup <;>
    simp only [readyBlocks, List.mem_cons, List.not_mem_nil, or_false, forall_eq_or_imp, forall_eq]
  · exact ⟨by simp [u32Max], by simp [u32Max]⟩
  · exact ⟨sound_signed .., sound_signed ..⟩

theorem companyNow_ready : companyNow (ready target body) = .ok readyState :=
  companyNow_grown companyNow_founded ready_foreign

theorem findExecution_ready (resolutionTx : TxId) :
    findExecution (ready target body) resolutionTx = none := by
  refine findExecution_eq_none.mpr fun t ht => ?_
  have hne : t.namespace_.value ≠ executionNamespace := by
    rw [ready, transactions_grown, readyBlocks] at ht
    simp only [List.flatten_cons, List.flatten_nil, List.append_nil, List.mem_append,
      List.mem_singleton] at ht
    rcases ht with hgenesis | rfl | rfl
    · rw [List.mem_singleton.mp hgenesis]
      change RecordKindV1.companyGenesis.namespaceOf ≠ executionNamespace
      decide +kernel
    · change decisionNamespace ≠ executionNamespace
      decide +kernel
    · change resolutionNamespace ≠ executionNamespace
      decide +kernel
  rw [executes, if_pos hne]

theorem checkAuthority_ready (hs : (ready target body).WellFormed) :
    (finalised target body).checkAuthority (ready target body) = .ok (directorApproval body) := by
  have hfounding : reconstruct (ready target body) 0 = .ok acme := reconstruct_grown [] _ (by simp)
  exact checkAuthority_eq_ok.mpr ⟨⟨1, approved hs⟩,
    fun part _ => scope_directorApproval hfounding body part, rfl⟩

/-- The resolution verifies, on longer chains as well. -/
theorem verified_ready {s : LocalChainStore} (hs : (ready target body).WellFormed)
    (hext : (ready target body).Extends s)
    (hread : readResolutionRecord (resolutionXml target body) = .ok (resolutionRecord target body)) :
    ∃ v, verifyResolution s (resolutionTransaction target body 2).id = .ok v ∧
      NoneFailed v.checks := by
  have hresolution : ∀ t ∈ [resolutionTransaction target body 2],
      t.namespace_.value = resolutionNamespace := by
    intro t ht
    rw [List.mem_singleton.mp ht]
    rfl
  have hpasses : Passes (ready target body) ⟨2, 0, resolutionTransaction target body 2⟩
      (resolutionRecord target body) (directorApproval body) 1 { acme with at_ := 2 } :=
    @resolution_passes target body [] _ hs hresolution 0 2
  have hdecode : decodeResolution (resolutionTransaction target body 2) =
      some (resolutionRecord target body) :=
    decodeResolution_eq_some.mpr ⟨rfl, _, fromUtf8_utf8 _, hread⟩
  have hhead : (ready target body).head.height = 2 := by
    rw [ready, head_grown]
    rfl
  have hfound : (ready target body).getTransaction (resolutionTransaction target body 2).id =
      some ⟨2, 0, resolutionTransaction target body 2⟩ :=
    getTransaction_grown hs (i := 1) (j := 0) rfl rfl
  have hgrown := hpasses.extends hext (hhead ▸ Nat.le_refl 2)
  obtain ⟨v, hverified⟩ : ∃ v, Verified s ⟨2, 0, resolutionTransaction target body 2⟩ v
      (resolutionRecord target body) (directorApproval body) := hgrown.verified hdecode
  exact ⟨v, hverified.verifies (Extends.getTransaction hext hfound)⟩

/-- The director has the mandate to execute the resolution, if the demotion rule holds. -/
theorem mandated_ready (hs : (ready target body).WellFormed)
    (hdemotes : checkDemotion (directorApproval body) readyState target body = .ok ()) :
    Mandated (finalised target body) (ready target body) ann (readyMandate target body)
      (directorApproval body) readyState where
  finalized := rfl
  kind := rfl
  id := rfl
  fresh := findExecution_ready _
  authority := checkAuthority_ready hs
  approved := (baseOf_directorApproval body target).symm
  now := companyNow_ready
  governs := ⟨_, authorisedSigner_acme 2⟩
  current := by cases target <;> rfl
  demotes := hdemotes

/-- The chain that holds the decision alone. -/
def decided (body : Text) : LocalChainStore := grown founded [[decisionTransaction body]]

/-- The resolution was finalised on the chain that holds the decision. -/
theorem finalizedOn_ready
    (hnodup : ((founded.transactions ++ (readyBlocks target body).flatten).map
      Transaction.id).Nodup)
    (hcompose : composeResolution company notarisation (lit "Amend") (directorAuthority body)
      (.amendment target body) = .ok (resolutionXml target body)) :
    FinalizedOn (finalised target body) (ready target body) := by
  have hroom : founded.head.height + 1 ≤ u64Max := by decide
  have hroom' : 1 < u64Max := by decide
  have hids := hnodup
  rw [readyBlocks, List.flatten_cons, ← List.append_assoc, List.map_append,
    List.nodup_append] at hids
  have hdecided : (decided body).WellFormed := by
    refine wellFormed_grown founded_wellFormed hroom rfl ?_ ?_ (by simpa using hids.1)
    · simp [u32Max]
    · simp only [List.mem_cons, List.not_mem_nil, or_false, forall_eq]
      exact sound_signed ..
  have hhead : (decided body).head.height = 1 := head_grown founded [[decisionTransaction body]]
  have hnow : companyNow (decided body) = .ok { acme with at_ := 1 } :=
    companyNow_grown companyNow_founded (by simpa using decision_foreign body)
  have hauthority : (ResolutionV1.draft (lit "Amend") (directorAuthority body)
      (.amendment target body)).checkAuthority (decided body) = .ok (directorApproval body) :=
    checkAuthority_eq_ok.mpr ⟨⟨1, approved hdecided⟩, fun part _ =>
      scope_directorApproval (reconstruct_grown [] _ (by simp)) body part, rfl⟩
  have hpayload : (ResolutionV1.draft (lit "Amend") (directorAuthority body)
      (.amendment target body)).resolutionPayload (decided body) ann notarisation =
        .ok (company, resolutionXml target body) := by
    simp only [ResolutionV1.resolutionPayload, bind_eq_ok, mapErr_eq_ok, ensure_eq_ok, pure_eq_ok,
      Except.ok.injEq, Prod.mk.injEq]
    exact ⟨(), ensure_of rfl, _, hauthority, _, hnow, _, authorisedSigner_acme 1, (), rfl, _,
      hcompose, rfl, rfl⟩
  have hnext : nextTransaction (decided body) ann resolutionNamespace
      (utf8 (resolutionXml target body)) = resolutionTransaction target body 2 := by
    rw [nextTransaction, hhead]
    rfl
  have hblock : nextBlock (decided body) (resolutionTransaction target body 2) 0 =
      blockOf (decided body) [resolutionTransaction target body 2] := by
    rw [nextBlock, blockOf, hdecided.head_network, ← hdecided.head_height]
    rfl
  have hready : ready target body =
      (decided body).push (blockOf (decided body) [resolutionTransaction target body 2]) :=
    grown_append founded [_] [_]
  have hchild : ChildOf (decided body).networkId (decided body).headBlock.header
      (decided body).containsTransaction
      (nextBlock (decided body) (nextTransaction (decided body) ann resolutionNamespace
        (utf8 (resolutionXml target body))) 0) := by
    rw [hnext]
    refine (childOf_nextBlock hdecided).mpr ⟨hhead ▸ hroom', Nat.le_refl 0, sound_signed .., ?_⟩
    refine containsTransaction_eq_false.mpr fun hmem => ?_
    rw [decided, transactions_grown] at hmem
    exact hids.2.2 _ (by simpa using hmem) _ (by simp) rfl
  obtain ⟨r', id, t, hrun⟩ := finalize_of_payload hdecided hpayload hchild (by
    rintro detail hdetail
    cases hdetail)
  obtain ⟨state, approval, height, payload, hpayable, hid, hchain, -, rfl⟩ :=
    Resolution.finalize_cases hdecided hrun
  obtain rfl := Except.ok.inj (hnow.symm.trans hpayable.now)
  obtain rfl : resolutionXml target body = payload :=
    Except.ok.inj (hcompose.symm.trans hpayable.composes)
  rw [hnext] at hid hchain
  rw [hblock, ← hready] at hchain
  have hdone : finalised target body =
      { (ResolutionV1.draft (lit "Amend") (directorAuthority body) (.amendment target body)) with
        status := .finalized
        company := company.value
        finalized := some (id.txId, (decided body).head.height + 1) } := by
    rw [hid, hhead]
    rfl
  rw [hdone]
  exact ⟨_, ann, notarisation, 0, decided body, t, id, hdecided, hrun,
    extends_of_sameChain ⟨hchain.1.symm, hchain.2.1.symm, hchain.2.2.symm⟩⟩

variable (target body)

/-- The payload of the director's amendment. -/
def readyPayload : Text :=
  recordText target.recordKind company (some genesisTransaction.id) notarisation body

def readyAmendment : Transaction :=
  (readyMandate target body).amendment (ready target body) ann (readyPayload target body)

def readyAmended : LocalChainStore :=
  amendedOn (ready target body) ann 0 (readyMandate target body) (readyPayload target body)

def readyLink : ResolutionExecutionV1 :=
  (readyMandate target body).execution (readyAmendment target body).id (proposalDigest body)

def readyText : Text := executionText company notarisation (readyLink target body)

/-- The documents of a resolution and its execution compose, and its transactions are new. -/
def Carries : Prop :=
  ((founded.transactions ++ (readyBlocks target body).flatten).map Transaction.id).Nodup ∧
    composeResolution company notarisation (lit "Amend") (directorAuthority body)
      (.amendment target body) = .ok (resolutionXml target body) ∧
    readResolutionRecord (resolutionXml target body) = .ok (resolutionRecord target body) ∧
    composeAmendment readyState ann target.recordKind body (some genesisTransaction.id)
      notarisation = .ok (readyPayload target body) ∧
    (ready target body).containsTransaction (readyAmendment target body).id = false ∧
    (finalised target body).executionPayload notarisation (readyLink target body) =
      .ok (readyText target body) ∧
    (readyAmended target body).containsTransaction (nextTransaction (readyAmended target body) ann
      executionNamespace (utf8 (readyText target body))).id = false

instance : Decidable (Carries target body) := inferInstanceAs (Decidable (_ ∧ _))

variable {target body}

theorem Carries.wellFormed (h : Carries target body) : (ready target body).WellFormed :=
  ready_wellFormed h.1

theorem Carries.finalizedOn (h : Carries target body) :
    FinalizedOn (finalised target body) (ready target body) := finalizedOn_ready h.1 h.2.1

theorem Carries.publishable (h : Carries target body)
    (hdemotes : checkDemotion (directorApproval body) readyState target body = .ok ()) :
    Publishable (finalised target body) (ready target body) ann notarisation 0
      (readyMandate target body) (directorApproval body) readyState (readyPayload target body) := by
  have hs := h.wellFormed
  obtain ⟨-, -, -, hamends, hnew, -⟩ := h
  refine ⟨⟨mandated_ready hs hdemotes, hamends⟩, (childOf_nextBlock hs).mpr ⟨?_, ?_, ?_, hnew⟩⟩
  · have hroom : 2 < u64Max := by decide
    rw [ready, head_grown]
    exact hroom
  · exact Nat.le_refl 0
  · exact sound_signTransaction _ _

theorem Carries.recordable (h : Carries target body)
    (hdemotes : checkDemotion (directorApproval body) readyState target body = .ok ()) :
    Recordable (finalised target body) (readyAmended target body) ann notarisation 0
      (readyLink target body) (readyText target body) := by
  have hs : (readyAmended target body).WellFormed :=
    .push h.wellFormed (h.publishable hdemotes).child sameChain_amendedOn
  obtain ⟨-, -, -, -, -, hlinks, hnew⟩ := h
  refine ⟨hlinks, (childOf_nextBlock hs).mpr ⟨?_, ?_, ?_, hnew⟩⟩
  · have hroom : 3 < u64Max := by decide
    rw [readyAmended, height_amendedOn, ready, head_grown]
    exact hroom
  · rw [readyAmended, time_amendedOn]
  · exact sound_signTransaction _ _

theorem Carries.executes (h : Carries target body)
    (hdemotes : checkDemotion (directorApproval body) readyState target body = .ok ()) : ∃ t,
    ((finalised target body).execute ann notarisation 0).run (ready target body) =
      (.ok (executedAs (finalised target body) (ready target body) (readyAmended target body) ann
        (readyMandate target body) (readyPayload target body) (readyText target body)), t) :=
  execute_of_recordable h.wellFormed (h.publishable hdemotes) (fun _ h => by cases h)
    (h.recordable hdemotes) (fun _ h => by cases h)

end Chain

/-- The resolution that makes the director a shareholder. -/
theorem carries_widened : Carries .shareStructure widenedXml := by
  decide +kernel

theorem widened_reads :
    readBodyDocument .shareStructure (normaliseBody widenedXml) = .ok (.shareStructure widened) := by
  decide +kernel

theorem demotes_widened :
    checkDemotion (directorApproval widenedXml) readyState .shareStructure widenedXml = .ok () := rfl

end Irena.Sample
