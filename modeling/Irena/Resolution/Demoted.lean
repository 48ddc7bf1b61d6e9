import Irena.Resolution.Reach
import Irena.Resolution.Replaced

/-! # The demotion rule where the amendment stands

The verifier judges an amendment on an individual decision against the company at the height before
the amendment's block. What the rule then says of the company that the amendment replaced depends
on what the amendments ahead of it in its own block did. -/

namespace Irena.Resolution

open Irena.Library Irena.Library.Outcome Irena.Library.Strings Irena.Library.Utf8
open Irena.Core Irena.Bornite Irena.Prunella Irena.Prunella.LocalChainStore Irena.Ledger
open Irena.Decision (FinalDecisionRecordV1 DecisionVerificationV1)

section Rules

variable [Platform]

/-- The one person on whose decision a resolution rests. -/
structure DecidedBy (s : LocalChainStore) (approval : ApprovalV1) (actor : VoterIdV1)
    (decisionTx : TxId) (report : DecisionVerificationV1) (decision : FinalDecisionRecordV1) :
    Prop where
  verified : Decision.Verified s decisionTx report decision
  named : decision.snapshot.actor = actor.value
  actor : approval.actor = some actor.value

theorem Approved.decidedBy {s : LocalChainStore} {authority : AuthorityV1} {approval : ApprovalV1}
    {height : ℕ} {channel : Text} {decisionTx : TxId} (h : Approved s authority approval height)
    (hauthority : authority = .individual channel decisionTx) :
    ∃ actor report decision, DecidedBy s approval actor decisionTx report decision := by
  rw [hauthority] at h
  cases h with
  | individual signed through frozenAt =>
    obtain ⟨located, state, channel, resolved, actor, -, -, hpasses⟩ := signed.passes
    exact ⟨actor.id, _, _, signed, hpasses.named.symm, congrArg some hpasses.named.symm⟩

section Executed

variable {s : LocalChainStore} {txId : TxId} {located resolution amended : LocatedTransaction}
  {execution : ResolutionExecutionV1} {record : ResolutionRecordV1} {approval : ApprovalV1}
  {body : Text} {amendment : Text × IrenaRecordV1}

theorem Executed.judged {actor : VoterIdV1}
    (h : Executed s txId located resolution amended execution record approval body amendment)
    (hactor : approval.actor = some actor.value) :
    ∃ previous found, reconstruct s (amended.height - 1) = .ok previous ∧
      demotionBetween actor previous execution.target amendment.2.body = .ok found ∧
      ∀ verdict, found = some verdict → verdict.holds = true := by
  have hdemotion := h.executes.demotion
  unfold demotionHolds at hdemotion
  rw [hactor] at hdemotion
  cases hverdict : demotionVerdict s actor.value amended.height execution.target
      amendment.2.body with
  | error e => simp [hverdict] at hdemotion
  | ok found =>
    simp only [hverdict] at hdemotion
    simp only [demotionVerdict, bind_eq_ok, mapErr_eq_ok, ensure_eq_ok, VoterIdV1.new_eq_ok]
      at hverdict
    obtain ⟨_, -, previous, hprevious, signer, hsigner, hbetween⟩ := hverdict
    obtain rfl := VoterIdV1.value_injective hsigner
    refine ⟨previous, found, hprevious, hbetween, ?_⟩
    rintro verdict rfl
    exact hdemotion

theorem Executed.channels_eq {state previous : CompanyStateV1} (hs : s.WellFormed)
    (h : Executed s txId located resolution amended execution record approval body amendment)
    (htarget : execution.target = .decisionChannels) (hplaced : amended ∈ placed s.blocks)
    (hstate : companyBefore s amended = .ok (some state))
    (hbase : state.providerOf execution.target.recordKind = approval.baseOf execution.target)
    (hprevious : reconstruct s (amended.height - 1) = .ok previous) :
    previous.channels = state.channels := by
  obtain ⟨frozen, m, hfrozen, hm, hheight, hproviders⟩ := h.frozen
  rw [htarget] at hbase
  rw [hheight, Nat.add_sub_cancel] at hprevious
  have hsame : SamePart .decisionChannels previous state :=
    samePart_of_provider hs hfrozen hm hheight hplaced hprevious hstate
      (hbase.trans (hproviders .decisionChannels))
  exact hsame

/-- What the rule for the channel set established, of the height before. -/
theorem Executed.demoted {actor : VoterIdV1} {previous : CompanyStateV1} {new : DecisionChannelsV1}
    (h : Executed s txId located resolution amended execution record approval body amendment)
    (hactor : approval.actor = some actor.value) (htarget : execution.target = .decisionChannels)
    (hprevious : reconstruct s (amended.height - 1) = .ok previous)
    (hnew : amendment.2.body = .decisionChannels new) :
    ∀ channel ∈ new.channels, Sits actor previous.shares.value channel →
      channel ∈ previous.channels.value.channels := by
  obtain ⟨previous', found, hprevious', hbetween, hholds⟩ := h.judged hactor
  obtain rfl := Except.ok.inj (hprevious.symm.trans hprevious')
  obtain ⟨verdict, hverdict, hiff⟩ := selfDemotion_holds actor previous.channels.value new
    previous.shares.value previous.identities.value
  rw [htarget, hnew, demotionBetween, hverdict, ok_bind, pure_eq_ok, Except.ok.injEq] at hbetween
  exact hiff.mp (hholds verdict hbetween.symm)

theorem Executed.body_decisionChannels
    (h : Executed s txId located resolution amended execution record approval body amendment)
    (htarget : execution.target = .decisionChannels) :
    ∃ new, amendment.2.body = .decisionChannels new := by
  have hkind := h.executes.kind
  rw [htarget, IrenaRecordV1.kind] at hkind
  cases hbody : amendment.2.body with
  | decisionChannels new => exact ⟨new, rfl⟩
  | _ =>
    rw [hbody] at hkind
    cases hkind

end Executed

/-- A verified execution of a channel set on an individual decision keeps the demotion rule between
the company just before the amendment and the new set, unless its actor became a shareholder ahead
of it in its own block and a channel of the shareholders is new. -/
theorem executed_selfDemotion {s : LocalChainStore} (hs : s.WellFormed) {txId : TxId}
    {v : ExecutionVerificationV1} (h : verifyExecution s txId = .ok v)
    (hpass : NoneFailed v.checks) :
    ∃ located resolution amended execution record approval body amendment,
      Executed s txId located resolution amended execution record approval body amendment ∧
      ∀ channel decisionTx, record.authority = .individual channel decisionTx →
        execution.target = .decisionChannels →
        ∃ actor report decision new previous state,
          DecidedBy s approval actor decisionTx report decision ∧
          amendment.2.body = .decisionChannels new ∧
          reconstruct s (amended.height - 1) = .ok previous ∧
          companyBefore s amended = .ok (some state) ∧
          ((∃ verdict, selfDemotion actor state.channels.value new state.shares.value
              state.identities.value = .ok verdict ∧ verdict.holds = true) ↔
            Holds actor previous.shares.value ∨ ¬ Holds actor state.shares.value ∨
              ∀ channel ∈ new.channels, channel.actors = .shareRegister →
                channel ∈ state.channels.value.channels) := by
  obtain ⟨located, resolution, amended, execution, record, approval, body, amendment, hexecuted⟩ :=
    verifyExecution_iff.mp ⟨v, h, hpass⟩
  refine ⟨located, resolution, amended, execution, record, approval, body, amendment, hexecuted, ?_⟩
  intro channel decisionTx hauthority htarget
  obtain ⟨height, company, hpasses⟩ := hexecuted.verifies
  obtain ⟨actor, report, decision, hdecided⟩ := hpasses.approved.decidedBy hauthority
  obtain ⟨found, state, next, hplaced, -, happlied, hbase⟩ := hexecuted.appliedAt hs
  obtain ⟨previous, -, hprevious, -⟩ := hexecuted.judged hdecided.actor
  obtain ⟨new, hnew⟩ := hexecuted.body_decisionChannels htarget
  refine ⟨actor, report, decision, new, previous, state, hdecided, hnew, hprevious, happlied.before,
    ?_⟩
  have hdemoted := hexecuted.demoted hdecided.actor htarget hprevious hnew
  rw [hexecuted.channels_eq hs htarget hplaced happlied.before hbase hprevious] at hdemoted
  obtain ⟨verdict, hverdict, hiff⟩ := selfDemotion_holds actor state.channels.value new
    state.shares.value state.identities.value
  rw [← demoted_iff_of_register hdemoted, ← hiff]
  constructor
  · rintro ⟨verdict', hverdict', hholds⟩
    obtain rfl := Except.ok.inj (hverdict.symm.trans hverdict')
    exact hholds
  · exact fun hholds => ⟨verdict, hverdict, hholds⟩

/-- An amendment on an individual decision gives its actor no seat by the part it amends, unless
that part is the register: then the seats gained are the shareholders'. For the channel set this
supposes that the actor did not become a shareholder ahead of it in its own block. -/
theorem executed_seats {s : LocalChainStore} (hs : s.WellFormed) {txId : TxId}
    {v : ExecutionVerificationV1} (h : verifyExecution s txId = .ok v)
    (hpass : NoneFailed v.checks) :
    ∃ located resolution amended execution record approval body amendment,
      Executed s txId located resolution amended execution record approval body amendment ∧
      ∀ channel decisionTx, record.authority = .individual channel decisionTx →
        ∃ actor report decision previous state next held kept,
          DecidedBy s approval actor decisionTx report decision ∧
          reconstruct s (amended.height - 1) = .ok previous ∧
          companyBefore s amended = .ok (some state) ∧
          stepAt (some state) amended = .ok (some next) ∧
          seats state.channels.value actor state.shares.value state.identities.value = .ok held ∧
          seats next.channels.value actor next.shares.value next.identities.value = .ok kept ∧
          match execution.target with
          | .shareStructure => ∀ id ∈ kept, id ∉ held → ∃ channel ∈ state.channels.value.channels,
              channel.id = id ∧ channel.actors = .shareRegister
          | .decisionChannels =>
            (Holds actor state.shares.value → Holds actor previous.shares.value) → kept ⊆ held
          | .identities => kept ⊆ held
          | .authorisation => kept ⊆ held := by
  obtain ⟨located, resolution, amended, execution, record, approval, body, amendment, hexecuted⟩ :=
    verifyExecution_iff.mp ⟨v, h, hpass⟩
  refine ⟨located, resolution, amended, execution, record, approval, body, amendment, hexecuted, ?_⟩
  intro channel decisionTx hauthority
  obtain ⟨height, company, hpasses⟩ := hexecuted.verifies
  obtain ⟨actor, report, decision, hdecided⟩ := hpasses.approved.decidedBy hauthority
  obtain ⟨found, state, next, hplaced, hfound, happlied, hbase⟩ := hexecuted.appliedAt hs
  obtain ⟨previous, -, hprevious, -⟩ := hexecuted.judged hdecided.actor
  have hstep : stepAt (some state) amended = .ok (some next) :=
    stepAt_eq_ok.mpr (.inr ⟨found, next, happlied.holds, rfl, .inr ⟨state, rfl, happlied.applies⟩⟩)
  have hkind : found.record.kind = execution.target.recordKind := by
    rw [hfound]
    exact hexecuted.executes.kind
  refine ⟨actor, report, decision, previous, state, next, _, _, hdecided, hprevious, happlied.before,
    hstep, seats_eq .., seats_eq .., ?_⟩
  cases htarget : execution.target with
  | shareStructure =>
    intro id hkept hheld
    rw [htarget] at hkind
    have hchannels : state.channels = next.channels :=
      samePart_apply happlied.applies .decisionChannels (by rw [hkind]; decide)
    obtain ⟨seat, hmem, rfl, hsits⟩ := mem_seatIds.mp hkept
    rw [← hchannels] at hmem
    rcases sits_iff.mp hsits with ⟨hsource, -⟩ | hroster
    · exact ⟨seat, hmem, rfl, hsource⟩
    · exact absurd (mem_seatIds.mpr ⟨seat, hmem, rfl, sits_iff.mpr (.inr hroster)⟩) hheld
  | decisionChannels =>
    intro hholds
    obtain ⟨new, hnew⟩ := hexecuted.body_decisionChannels htarget
    have hdemoted := hexecuted.demoted hdecided.actor htarget hprevious hnew
    rw [hexecuted.channels_eq hs htarget hplaced happlied.before hbase hprevious] at hdemoted
    rw [htarget] at hkind
    have hshares : state.shares = next.shares :=
      samePart_apply happlied.applies .shareStructure (by rw [hkind]; decide)
    have hchannels : next.channels.value = new := by
      obtain ⟨-, rfl⟩ := apply_eq_ok.mp happlied.applies
      simp only [CompanyStateV1.replace, hfound, hnew]
      rfl
    rw [← hshares, hchannels]
    refine seatIds_subset ((demoted_iff_of_register hdemoted).mpr ?_)
    by_cases hstate : Holds actor state.shares.value
    · exact .inl (hholds hstate)
    · exact .inr (.inl hstate)
  | identities =>
    rw [htarget] at hkind
    have hshares : state.shares = next.shares :=
      samePart_apply happlied.applies .shareStructure (by rw [hkind]; decide)
    have hchannels : state.channels = next.channels :=
      samePart_apply happlied.applies .decisionChannels (by rw [hkind]; decide)
    rw [← hshares, ← hchannels]
    exact List.Subset.refl _
  | authorisation =>
    rw [htarget] at hkind
    have hshares : state.shares = next.shares :=
      samePart_apply happlied.applies .shareStructure (by rw [hkind]; decide)
    have hchannels : state.channels = next.channels :=
      samePart_apply happlied.applies .decisionChannels (by rw [hkind]; decide)
    rw [← hshares, ← hchannels]
    exact List.Subset.refl _

end Rules

section Samples

open Irena.Sample

attribute [local instance] platform

/-- The seats that an execution of the director's own decision found and left. -/
theorem executed_seats_twice : ∃ v, twice.WellFormed ∧
    verifyExecution twice (executionTransaction .shareStructure widenedXml widenedXml 0).id = .ok v ∧
    NoneFailed v.checks ∧ ∃ located resolution amended execution record approval body amendment,
      Executed twice (executionTransaction .shareStructure widenedXml widenedXml 0).id located
        resolution amended execution record approval body amendment ∧
      ∀ channel decisionTx, record.authority = .individual channel decisionTx →
        ∃ actor report decision, DecidedBy twice approval actor decisionTx report decision := by
  obtain ⟨⟨_, hfirst⟩, -⟩ := twice_executed
  obtain ⟨v, hv, hpass⟩ := verifyExecution_iff.mpr ⟨_, _, _, _, _, _, _, _, hfirst⟩
  obtain ⟨located, resolution, amended, execution, record, approval, body, amendment, hexecuted,
    hseats⟩ := executed_seats twice_wellFormed hv hpass
  refine ⟨v, twice_wellFormed, hv, hpass, located, resolution, amended, execution, record, approval,
    body, amendment, hexecuted, fun channel decisionTx hauthority => ?_⟩
  obtain ⟨actor, report, decision, _, _, _, _, _, hdecided, -⟩ := hseats channel decisionTx hauthority
  exact ⟨actor, report, decision, hdecided⟩

/-- The director becomes a shareholder on a decision of their own, and gains the shareholders'
channel. -/
theorem executed_seats_gained : ∃ v located resolution amended execution record approval body
    amendment decisionTx state next held kept, twice.WellFormed ∧
      verifyExecution twice (executionTransaction .shareStructure widenedXml widenedXml 0).id = .ok v ∧
      NoneFailed v.checks ∧
      Executed twice (executionTransaction .shareStructure widenedXml widenedXml 0).id located
        resolution amended execution record approval body amendment ∧
      record.authority = .individual directorId.value decisionTx ∧
      approval.actor = some annId.value ∧ companyBefore twice amended = .ok (some state) ∧
      stepAt (some state) amended = .ok (some next) ∧
      seats state.channels.value annId state.shares.value state.identities.value = .ok held ∧
      seats next.channels.value annId next.shares.value next.identities.value = .ok kept ∧
      ¬ kept ⊆ held := by
  obtain ⟨⟨_, hfirst⟩, -⟩ := twice_executed
  obtain ⟨v, hv, hpass⟩ := verifyExecution_iff.mpr ⟨_, _, _, _, _, _, _, _, hfirst⟩
  obtain ⟨height, hbefore⟩ := twice_before
  refine ⟨v, _, _, _, _, _, _, _, _, _, _, _, [directorId], [shareholders.id, directorId],
    twice_wellFormed, hv, hpass, hfirst, rfl, rfl, hbefore, twice_steps height, ?_, ?_, by decide⟩
  · change seats acme.channels.value annId acme.shares.value acme.identities.value = _
    decide +kernel
  · change seats acme.channels.value annId widened acme.identities.value = _
    decide +kernel

/-- A second channel of the shareholders. -/
def assembly : DecisionChannelV1 := { shareholders with id := ⟨lit "any", by decide +kernel⟩ }

def opened : DecisionChannelsV1 :=
  (DecisionChannelsV1.new [shareholders, assembly, director]).toOption.get (by decide +kernel)

def openedXml : Text :=
  channelsXml [shareholdersXml (lit "all"), shareholdersXml (lit "any"), directorXml]

/-- The director becomes a shareholder and opens a channel of the shareholders in one block. -/
def shiftedBlocks : List (List Transaction) :=
  [[decisionTransaction openedXml], [resolutionTransaction .decisionChannels openedXml 0],
    [amendmentTransaction .shareStructure widenedXml,
      amendmentTransaction .decisionChannels openedXml],
    [executionTransaction .decisionChannels openedXml openedXml 0]]

def shifted : LocalChainStore := grown founded shiftedBlocks

theorem shifted_reads :
    ((founded.transactions ++ shiftedBlocks.flatten).map Transaction.id).Nodup ∧
    readResolutionRecord (resolutionXml .decisionChannels openedXml) =
      .ok (resolutionRecord .decisionChannels openedXml) ∧
    readRecord (amendmentXml .decisionChannels openedXml) =
      .ok (amendmentRecord (.decisionChannels opened)) ∧
    readExecutionRecord (executionXml .decisionChannels openedXml openedXml 0) =
      .ok ⟨Sample.company, notarisation, executionOf .decisionChannels openedXml openedXml 0⟩ ∧
    publishes (amendmentXml .decisionChannels openedXml) (.decisionChannels opened) openedXml =
      true := by
  decide +kernel

theorem shifted_wellFormed : shifted.WellFormed := by
  refine wellFormed_grown founded_wellFormed (by decide) rfl (by decide) ?_ shifted_reads.1
  simp only [shiftedBlocks, List.mem_cons, List.not_mem_nil, or_false, forall_eq_or_imp, forall_eq]
  exact ⟨sound_signed .., sound_signed .., ⟨sound_signed .., sound_signed ..⟩, sound_signed ..⟩

/-- The company between the two amendments. -/
def between (height : ℕ) : CompanyStateV1 :=
  amendedBy { acme with at_ := height }
    (amendmentRef .shareStructure widenedXml (.shareStructure widened) 3 0)

theorem shifted_steps (height : ℕ) :
    stepAt (some (between height)) ⟨3, 1, amendmentTransaction .decisionChannels openedXml⟩ =
      .ok (some (amendedBy (between height)
        (amendmentRef .decisionChannels openedXml (.decisionChannels opened) 3 1))) :=
  stepAt_amendment shifted_reads.2.2.1 rfl (by decide) rfl companySigner_acme rfl
    (open_of_companyNow companyNow_founded :)

theorem shifted_before : ∃ height,
    companyBefore shifted ⟨3, 1, amendmentTransaction .decisionChannels openedXml⟩ =
      .ok (some (between height)) := by
  have hforeign : ∀ transactions ∈ [[decisionTransaction openedXml],
      [resolutionTransaction .decisionChannels openedXml 0]], ∀ t ∈ transactions,
        kindOfNamespace t.namespace_.value = none := by
    simp only [List.mem_cons, List.not_mem_nil, or_false, forall_eq_or_imp, forall_eq]
    exact ⟨decision_foreign _, resolution_foreign ..⟩
  obtain ⟨height, hupto⟩ := companyUpTo_grown _
    [[amendmentTransaction .shareStructure widenedXml,
      amendmentTransaction .decisionChannels openedXml],
    [executionTransaction .decisionChannels openedXml openedXml 0]] hforeign
  have hshifted : companyUpTo shifted 2 = .ok (some { acme with at_ := height }) := hupto
  have hearlier : earlierInBlock shifted ⟨3, 1, amendmentTransaction .decisionChannels openedXml⟩ =
      [⟨3, 0, amendmentTransaction .shareStructure widenedXml⟩] :=
    (earlierInBlock_grown [[decisionTransaction openedXml],
      [resolutionTransaction .decisionChannels openedXml 0]]
      [[executionTransaction .decisionChannels openedXml openedXml 0]]
      (amendmentTransaction .shareStructure widenedXml)
      (amendmentTransaction .decisionChannels openedXml) []).2
  refine ⟨height, ?_⟩
  rw [companyBefore_eq shifted_wellFormed (n := 2) rfl, hshifted, ok_bind, hearlier,
    List.foldlM_cons, twice_steps height, ok_bind]
  rfl

theorem shifted_executed : ∃ amendment, Executed shifted
      (executionTransaction .decisionChannels openedXml openedXml 0).id
      ⟨4, 0, executionTransaction .decisionChannels openedXml openedXml 0⟩
      ⟨2, 0, resolutionTransaction .decisionChannels openedXml 0⟩
      ⟨3, 1, amendmentTransaction .decisionChannels openedXml⟩
      (executionOf .decisionChannels openedXml openedXml 0)
      (resolutionRecord .decisionChannels openedXml) (directorApproval openedXml) openedXml amendment := by
  obtain ⟨-, hresolution, hamendment, hexecution, hpublishes⟩ := shifted_reads
  have hrs : ∀ t ∈ [resolutionTransaction .decisionChannels openedXml 0],
      t.namespace_.value = resolutionNamespace := by
    simp only [List.mem_cons, List.not_mem_nil, or_false, forall_eq]
    rfl
  have hes : ∀ t ∈ [executionTransaction .decisionChannels openedXml openedXml 0],
      t.namespace_.value = executionNamespace := by
    simp only [List.mem_cons, List.not_mem_nil, or_false, forall_eq]
    rfl
  have has : ∀ t ∈ [amendmentTransaction .shareStructure widenedXml,
      amendmentTransaction .decisionChannels openedXml],
      t.namespace_.value ≠ executionNamespace := by
    simp only [List.mem_cons, List.not_mem_nil, or_false, forall_eq_or_imp, forall_eq]
    change RecordKindV1.shareStructure.namespaceOf ≠ executionNamespace ∧
      RecordKindV1.decisionChannels.namespaceOf ≠ executionNamespace
    decide +kernel
  have hsteps : ∀ height, ([amendmentTransaction .shareStructure widenedXml,
      amendmentTransaction .decisionChannels openedXml].zipIdx.map
      fun p => LocatedTransaction.mk 3 p.2 p.1).foldlM stepAt (some { acme with at_ := height }) =
        .ok (some (amendedBy (between height)
          (amendmentRef .decisionChannels openedXml (.decisionChannels opened) 3 1))) := by
    intro height
    simp only [List.zipIdx_cons, List.zipIdx_nil, List.map_cons, List.map_nil, zero_add]
    rw [List.foldlM_cons, twice_steps height, ok_bind, List.foldlM_cons, ← between,
      shifted_steps height, ok_bind, List.foldlM_nil, pure_eq_ok]
  obtain ⟨height, hfinal⟩ := reconstruct_steps openedXml hrs hes hsteps
  have hdemotion : ∃ found, demotionBetween annId acme .decisionChannels
      (.decisionChannels opened) = .ok found ∧
        ∀ verdict, found = some verdict → verdict.holds = true :=
    ⟨some ⟨true, .seats [] [] [directorId] []⟩, by decide +kernel, by rintro _ ⟨⟩; rfl⟩
  have hfound : amendmentRef .decisionChannels openedXml (.decisionChannels opened) 3 1 ∈
      ({ amendedBy (between height)
        (amendmentRef .decisionChannels openedXml (.decisionChannels opened) 3 1) with
          at_ := 4 } : CompanyStateV1).historyOf .decisionChannels :=
    List.mem_filter.mpr ⟨List.mem_append_right _ (List.mem_singleton_self _),
      decide_eq_true (.inr rfl)⟩
  refine ⟨_, executed (j := 1) shifted_wellFormed rfl rfl rfl hrs has hresolution hamendment
    hexecution ?_ rfl hpublishes hdemotion hfinal hfound rfl (authorisedSigner_acme 0)⟩
  exact List.find?_cons_of_pos ((executes_execution hexecution).mpr rfl)

/-- The rule as it was applied to the execution, and the companies it was applied between. -/
theorem executed_selfDemotion_shifted : ∃ v, shifted.WellFormed ∧
    verifyExecution shifted (executionTransaction .decisionChannels openedXml openedXml 0).id =
      .ok v ∧ NoneFailed v.checks ∧
    ∃ located resolution amended execution record approval body amendment,
      Executed shifted (executionTransaction .decisionChannels openedXml openedXml 0).id located
        resolution amended execution record approval body amendment ∧
      ∀ channel decisionTx, record.authority = .individual channel decisionTx →
        execution.target = .decisionChannels →
        ∃ actor report decision, DecidedBy shifted approval actor decisionTx report decision := by
  obtain ⟨_, hexecuted⟩ := shifted_executed
  obtain ⟨v, hv, hpass⟩ := verifyExecution_iff.mpr ⟨_, _, _, _, _, _, _, _, hexecuted⟩
  obtain ⟨located, resolution, amended, execution, record, approval, body, amendment, hexecuted,
    hdemotion⟩ := executed_selfDemotion shifted_wellFormed hv hpass
  refine ⟨v, shifted_wellFormed, hv, hpass, located, resolution, amended, execution, record,
    approval, body, amendment, hexecuted, fun channel decisionTx hauthority htarget => ?_⟩
  obtain ⟨actor, report, decision, _, _, _, hdecided, -⟩ :=
    hdemotion channel decisionTx hauthority htarget
  exact ⟨actor, report, decision, hdecided⟩

/-- A verified execution whose amendment gains its actor a channel over the company it replaced. -/
theorem executed_selfDemotion_broken : ∃ v located resolution amended execution record approval body
    amendment decisionTx new state verdict, shifted.WellFormed ∧
      verifyExecution shifted (executionTransaction .decisionChannels openedXml openedXml 0).id =
        .ok v ∧ NoneFailed v.checks ∧
      Executed shifted (executionTransaction .decisionChannels openedXml openedXml 0).id located
        resolution amended execution record approval body amendment ∧
      record.authority = .individual directorId.value decisionTx ∧
      approval.actor = some annId.value ∧ amendment.2.body = .decisionChannels new ∧
      companyBefore shifted amended = .ok (some state) ∧
      selfDemotion annId state.channels.value new state.shares.value state.identities.value =
        .ok verdict ∧ verdict.holds = false := by
  obtain ⟨amendment, hexecuted⟩ := shifted_executed
  obtain ⟨v, hv, hpass⟩ := verifyExecution_iff.mpr ⟨_, _, _, _, _, _, _, _, hexecuted⟩
  obtain ⟨height, hbefore⟩ := shifted_before
  have hread : amendment = (amendmentXml .decisionChannels openedXml,
      amendmentRecord (.decisionChannels opened)) := by
    have htext : fromUtf8 (amendmentTransaction .decisionChannels openedXml).payload =
        some (amendmentXml .decisionChannels openedXml) := fromUtf8_utf8 _
    have hreads := hexecuted.executes.reads
    simp only [amendmentOf, htext, shifted_reads.2.2.1, Option.bind_eq_bind, Option.bind_some,
      Except.toOption, Option.pure_def, Option.some.injEq] at hreads
    exact hreads.symm
  refine ⟨v, _, _, _, _, _, _, _, amendment, _, opened, _,
    ⟨false, .seats [assembly.id] [] [shareholders.id, assembly.id, directorId] []⟩,
    shifted_wellFormed, hv, hpass, hexecuted, rfl, rfl, by rw [hread]; rfl, hbefore, ?_, rfl⟩
  change selfDemotion annId acme.channels.value opened widened acme.identities.value = _
  decide +kernel

end Samples

end Irena.Resolution
