import Irena.Resolution.Executable
import Irena.Resolution.Passing

/-! # What strangers can do to an execution

Anybody can have governance records appended to the chain. Those signed by no governance signer
leave the company and every approval as they were, and disturb an execution only where one of them
reads as an execution of the same resolution. -/

namespace Irena.Resolution

open Irena.Library Irena.Library.Outcome Irena.Library.Strings Irena.Library.Utf8
open Irena.Library.Markup Irena.Core Irena.Bornite Irena.Prunella Irena.Prunella.LocalChainStore
open Irena.Ledger
open Irena.Decision (signerAuthorisedAt)

section Rules

variable [Platform] {r : ResolutionV1} {s t u : LocalChainStore} {key : SigningKey}
  {n : NotarisationV1} {time : ℕ} {m : ResolutionV1.Mandate} {approval : ApprovalV1}
  {state : CompanyStateV1} {payload text : Text}

/-- Blocks of governance records that no governance signer of the company signed. -/
structure Strange (s u : LocalChainStore) (blocks : List Block) : Prop where
  wellFormed : u.WellFormed
  network : u.networkId = s.networkId
  grown : u.blocks = s.blocks ++ blocks
  namespaces : ∀ b ∈ blocks, ∀ t ∈ b.transactions, t.namespace_.value ∈ governanceNamespaces
  strangers : ∀ state, companyNow s = .ok state → ∀ b ∈ blocks, ∀ t ∈ b.transactions, ∀ person,
    authorisedSigner state .governance t.signer ≠ .ok person

theorem Strange.extends_ {blocks : List Block} (h : Strange s u blocks) : s.Extends u :=
  ⟨h.network, blocks, h.grown.symm⟩

theorem Strange.now {blocks : List Block} (h : Strange s u blocks) (hnow : companyNow s = .ok state) :
    companyNow u = .ok { state with at_ := u.head.height } :=
  companyNow_foreign hnow h.grown fun b hb t ht =>
    kindOfNamespace_governance (h.namespaces b hb t ht)

theorem Strange.findExecution {blocks : List Block} (h : Strange s u blocks) {resolutionTx : TxId}
    (hfresh : findExecution s resolutionTx = none) :
    Resolution.findExecution u resolutionTx = none ↔
      ∀ b ∈ blocks, ∀ t ∈ b.transactions, executes resolutionTx t = false := by
  rw [findExecution_eq_none] at hfresh ⊢
  simp only [transactions, h.grown, List.flatMap_append, List.mem_append, List.mem_flatMap]
  constructor
  · exact fun hnone b hb t ht => hnone t (.inr ⟨b, hb, ht⟩)
  · rintro hnone t (ht | ⟨b, hb, ht⟩)
    · exact hfresh t (List.mem_flatMap.mpr ht)
    · exact hnone b hb t ht

/-- A mandate stands after strange records, unless one of them executes its resolution. -/
theorem Mandated.undisturbed {blocks : List Block} (h : Mandated r s key m approval state)
    (hstrange : Strange s u blocks)
    (hnone : ∀ b ∈ blocks, ∀ t ∈ b.transactions, executes m.resolutionId.txId t = false) :
    Mandated r u key m approval { state with at_ := u.head.height } where
  finalized := h.finalized
  kind := h.kind
  id := h.id
  fresh := (hstrange.findExecution h.fresh).mpr hnone
  authority := checkAuthority_extends h.authority hstrange.extends_
  approved := h.approved
  now := hstrange.now h.now
  governs := h.governs
  current := by
    rw [← h.current]
    cases m.target <;> rfl
  demotes := by
    rw [← h.demotes]
    rfl

theorem Passes.restrict {located : LocatedTransaction} {record : ResolutionRecordV1}
    {height height' : ℕ} {frozen : CompanyStateV1}
    (h : Passes t located record approval height frozen) (hext : s.Extends t)
    (hlocated : located.height ≤ s.head.height) (happroved : Approved s record.authority approval height') :
    Passes s located record approval height frozen := by
  obtain ⟨-, rfl⟩ := (happroved.extends hext).unique h.approved
  obtain ⟨hlt, hle⟩ := happroved.height_lt
  exact { h with
    approved := happroved
    reconstructs := by
      rw [← Ledger.Extends.reconstruct hext hlocated]
      exact h.reconstructs
    inScope := fun target htarget => by
      rw [checkScope, ← Ledger.Extends.reconstruct hext (hlt.le.trans hle)]
      exact h.inScope target htarget
    signer := by
      rw [← Decision.Extends.signerAuthorisedAt hext hlocated]
      exact h.signer }

/-- The database takes the next two commits. -/
def TakesTwo (s : LocalChainStore) : Prop :=
  (s.faults.head? = none ∨ s.faults.head? = some none) ∧
    (s.faults.tail.head? = none ∨ s.faults.tail.head? = some none)

omit [Platform] in
theorem signerAfter_at (state : CompanyStateV1) (height : ℕ) {body : RecordBodyV1} {key : PublicKey} :
    signerAfter { state with at_ := height } body key = signerAfter state body key := by
  cases body <;> rfl

/-- What an execution that has succeeded before asks of a chain that has grown since. -/
structure Undisturbed (s : LocalChainStore) (blocks : List Block) (key : SigningKey)
    (n : NotarisationV1) (time : ℕ) (m : ResolutionV1.Mandate) (company : CompanyIdV1)
    (digest : Hash) : Prop where
  fresh : ∀ b ∈ blocks, ∀ t ∈ b.transactions, executes m.resolutionId.txId t = false
  room : s.head.height + 2 ≤ u64Max
  time : s.headBlock.header.timestampMillis ≤ time
  fits : byteLength (m.executionText s key company n digest) ≤ maxDocumentBytes

theorem FinalizedOn.extends_ (h : FinalizedOn r s) (hext : s.Extends u) : FinalizedOn r u := by
  obtain ⟨draft, key, n, time, before, after, id, hbefore, hrun, hafter⟩ := h
  exact ⟨draft, key, n, time, before, after, id, hbefore, hrun, hafter.trans hext⟩

theorem Standing.extends_ {id : ResolutionIdV1} {located : LocatedTransaction}
    {record : ResolutionRecordV1} (h : Standing r s id located record approval)
    (hnow : companyNow s = .ok state) (hext : s.Extends u) :
    Standing r u id located record approval :=
  { h with
    found := Extends.getTransaction hext h.found
    owner := fun later hlater => by
      rw [h.owner state hnow]
      exact (company_of_companyNow hext hnow hlater).symm
    approves := checkAuthority_extends h.approves hext }

/-- A resolution whose execution verifies passes on the chain before the execution. -/
theorem Accomplished.passes [WritingScanner]
    (h : Accomplished r s u t key n time m approval state payload text) {id : ResolutionIdV1}
    {located : LocatedTransaction} {record : ResolutionRecordV1}
    (hstanding : Standing r s id located record approval)
    (hverified : ∃ v, verifyExecution t (nextTransaction u key executionNamespace (utf8 text)).id =
      .ok v ∧ NoneFailed v.checks) :
    ∃ height frozen, Passes s located record approval height frozen := by
  obtain ⟨_, resolution, _, execution, record', approval', _, _, hexecuted⟩ :=
    verifyExecution_iff.mp hverified
  obtain rfl := Option.some.inj (h.found.symm.trans hexecuted.found)
  obtain rfl := Option.some.inj
    ((decodeExecution_of_payload h.recordable.composes _).symm.trans hexecuted.decodes)
  obtain rfl : m.resolutionId = id :=
    Option.some.inj (h.publishable.composes.mandated.id.symm.trans hstanding.id)
  obtain rfl := Option.some.inj ((Extends.getTransaction h.extends_ hstanding.found).symm.trans
    hexecuted.executes.named)
  obtain rfl := Option.some.inj (hstanding.decodes.symm.trans hexecuted.resolved)
  obtain ⟨height, frozen, hpasses⟩ := hexecuted.verifies
  obtain ⟨⟨height', happroved⟩, -, -⟩ := checkAuthority_eq_ok.mp hstanding.approves
  rw [← hstanding.authority] at happroved
  obtain ⟨rfl, -⟩ := (happroved.extends h.extends_).unique hpasses.approved
  obtain ⟨-, b, hb, -⟩ := getTransaction_some hstanding.found
  exact ⟨height, frozen, hpasses.restrict h.extends_ (height_le_of_getBlock hb) happroved⟩

/-- An execution that succeeds and verifies does so after the records of strangers too, exactly
where none of them reads as an execution of its resolution, unless a transaction on the chain has the
digest of another. The caller's time has to be that of the chain as it has grown, and its record to
fit a document with another transaction named in it. -/
theorem undisturbed_iff [DocumentScanner] [SignaturesVerify] {done : ResolutionV1}
    {executed : ExecutedV1} {blocks : List Block} {later : ℕ} (hs : s.WellFormed)
    (hfinalized : FinalizedOn r s)
    (hrun : (r.execute key n time).run s = (.ok (done, executed), t))
    (hverified : ∃ v, verifyExecution t executed.executionTx = .ok v ∧ NoneFailed v.checks)
    (hstrange : Strange s u blocks) (htakes : TakesTwo u) :
    ∃ m state, r.id = some m.resolutionId ∧ r.kind = .amendment m.target m.body ∧
      companyNow s = .ok state ∧ m.approved = state.providerOf m.target.recordKind ∧
      (((∃ done executed t v, (r.execute key n later).run u = (.ok (done, executed), t) ∧
          verifyExecution t executed.executionTx = .ok v ∧ NoneFailed v.checks) ↔
        Undisturbed u blocks key n later m state.company r.kind.approvedDigest) ∨
      (∃ b ∈ u.transactions,
        Collision b.idBytes (m.amendment u key (m.amendmentText state.company n)).idBytes) ∨
      ∃ v execution, v = amendedOn u key later m (m.amendmentText state.company n) ∧
        execution = nextTransaction v key executionNamespace
          (utf8 (m.executionText u key state.company n r.kind.approvedDigest)) ∧
        ∃ b ∈ v.transactions, Collision b.idBytes execution.idBytes) := by
  obtain ⟨id, located, record, approval, hstanding⟩ := hfinalized.standing
  obtain ⟨m, approval', state, payload, mid, text, h, htx⟩ := execute_accomplished hs hrun
  have hm := h.publishable.composes.mandated
  obtain rfl := Except.ok.inj (hstanding.approves.symm.trans hm.authority)
  rw [htx] at hverified
  obtain ⟨height, frozen, hpasses⟩ := h.passes hstanding hverified
  obtain ⟨body, hbody, -⟩ := h.publishable.composes.published
  have hsigner := (h.verifies_iff hstanding hpasses hbody).mp hverified
  -- The two payloads are what the notarisation and the body make them.
  obtain ⟨-, -, hcompose, -⟩ := composeAmendment_eq_ok_iff.mp h.publishable.composes.amends
  obtain ⟨hname, hunbroken, -, -, rfl, -⟩ := composeRecord_eq_ok_iff.mp hcompose
  have hext := hstrange.extends_
  have hstanding' := hstanding.extends_ hm.now hext
  have hnow' := hstrange.now hm.now
  have hvalid : n.validate = .ok () := NotarisationV1.validate_eq_ok.mpr hname
  have hsame : ∀ {m' approval' state'}, Mandated r u key m' approval' state' →
      m' = m ∧ approval' = approval ∧ state' = { state with at_ := u.head.height } := by
    intro m' approval' state' hm'
    obtain rfl := Except.ok.inj (hstanding'.approves.symm.trans hm'.authority)
    exact ⟨hm'.eq hm.kind hm.id hm.approved, rfl, Except.ok.inj (hm'.now.symm.trans hnow')⟩
  refine ⟨m, state, hm.id, hm.kind, hm.now, hm.current.symm, ?_⟩
  by_cases hundisturbed : Undisturbed u blocks key n later m state.company r.kind.approvedDigest
  · have hcomposes : Composes r u key n m approval { state with at_ := u.head.height }
        (m.amendmentText state.company n) :=
      ⟨hm.undisturbed hstrange hundisturbed.fresh, h.publishable.composes.amends⟩
    have hpayload : r.executionPayload n (m.execution
        (m.amendment u key (m.amendmentText state.company n)).id r.kind.approvedDigest) =
        .ok (m.executionText u key state.company n r.kind.approvedDigest) :=
      (hstanding'.executionPayload hnow' hvalid).mpr ⟨hunbroken, rfl, hundisturbed.fits⟩
    have hworking : Working u later :=
      ⟨htakes.1, htakes.2, hundisturbed.room, hundisturbed.time⟩
    rcases hcomposes.executes hstrange.wellFormed hpayload hworking with ⟨w, hrun'⟩ |
      hcollides | hcollides
    · refine .inl (iff_of_true ?_ hundisturbed)
      obtain ⟨m', approval', state', payload', mid', text', h', htx'⟩ :=
        execute_accomplished hstrange.wellFormed hrun'
      obtain ⟨rfl, rfl, rfl⟩ := hsame h'.publishable.composes.mandated
      obtain ⟨-, b, hb, -⟩ := getTransaction_some hstanding.found
      have hpasses' := hpasses.extends hext (height_le_of_getBlock hb)
      rw [← signerAfter_at state u.head.height] at hsigner
      obtain ⟨v, hv, hpass⟩ := (h'.verifies_iff hstanding' hpasses' hbody).mpr hsigner
      rw [← htx'] at hv
      exact ⟨_, _, w, v, hrun', hv, hpass⟩
    · exact .inr (.inl hcollides)
    · exact .inr (.inr ⟨_, _, rfl, rfl, hcollides⟩)
  · refine .inl (iff_of_false ?_ hundisturbed)
    rintro ⟨done', executed', w, -, hrun', -⟩
    obtain ⟨m', approval', state', payload', mid', text', h', -⟩ :=
      execute_accomplished hstrange.wellFormed hrun'
    have hm' := h'.publishable.composes.mandated
    obtain ⟨rfl, rfl, rfl⟩ := hsame hm'
    obtain ⟨-, -, hcompose', -⟩ := composeAmendment_eq_ok_iff.mp h'.publishable.composes.amends
    obtain ⟨-, -, -, -, rfl, -⟩ := composeRecord_eq_ok_iff.mp hcompose'
    obtain ⟨-, rfl, hfits⟩ := (hstanding'.executionPayload hnow' hvalid).mp h'.recordable.composes
    obtain ⟨-, htime, -, -⟩ := (childOf_nextBlock hstrange.wellFormed).mp h'.publishable.child
    have hmid : mid'.WellFormed := .push hstrange.wellFormed h'.publishable.child h'.published
    obtain ⟨hroom, -, -, -⟩ := (childOf_nextBlock hmid).mp h'.recordable.child
    rw [h'.height_published] at hroom
    exact hundisturbed ⟨(hstrange.findExecution hm.fresh).mp hm'.fresh, hroom, htime, hfits⟩

end Rules

section Samples

open Irena.Sample

attribute [local instance] platform signaturesVerify writingScanner

/-- A record in which someone the company does not know says that she executed the resolution. -/
def forged : Transaction :=
  signed eve executionNamespace (utf8 (executionText company notarisation
    ((readyMandate .shareStructure widenedXml).execution genesisTransaction.id
      (proposalDigest widenedXml)))) 3

/-- The chain once the record is on it. -/
def disturbed : LocalChainStore :=
  (ready .shareStructure widenedXml).push (blockOf (ready .shareStructure widenedXml) [forged])

theorem forged_reads :
    ((founded.transactions ++ (readyBlocks .shareStructure widenedXml ++ [[forged]]).flatten).map
      Transaction.id).Nodup ∧
    executes (resolutionTransaction .shareStructure widenedXml 2).id forged = true ∧
    acme.identities.value.holderOf (publicKeyOf eve) = none := by
  decide +kernel

theorem strange_disturbed : Strange (ready .shareStructure widenedXml) disturbed
    [blockOf (ready .shareStructure widenedXml) [forged]] := by
  have hroom : founded.head.height + 3 ≤ u64Max := by decide
  have hgrown : disturbed = grown founded (readyBlocks .shareStructure widenedXml ++ [[forged]]) :=
    (grown_append founded _ [_]).symm
  refine ⟨?_, (extends_push _ _).1, blocks_push _ _, ?_, ?_⟩
  · rw [hgrown]
    refine wellFormed_grown founded_wellFormed hroom rfl ?_ ?_ forged_reads.1 <;>
      simp only [readyBlocks, List.cons_append, List.nil_append, List.mem_cons, List.not_mem_nil,
        or_false, forall_eq_or_imp, forall_eq]
    · exact ⟨by simp [u32Max], by simp [u32Max], by simp [u32Max]⟩
    · exact ⟨sound_signed .., sound_signed .., sound_signed ..⟩
  · intro b hb t ht
    obtain rfl := List.mem_singleton.mp hb
    obtain rfl := List.mem_singleton.mp ht
    exact List.mem_of_getElem? (i := 4) rfl
  · intro state hstate b hb t ht person hperson
    obtain rfl := List.mem_singleton.mp hb
    obtain rfl := List.mem_singleton.mp ht
    obtain rfl := Except.ok.inj (companyNow_ready.symm.trans hstate)
    have hsigns : signerOf acme.identities.value acme.authorisation.value .governance
        (publicKeyOf eve) = .ok person := hperson
    obtain ⟨hholder, -⟩ := signerOf_eq_ok.mp hsigns
    rw [forged_reads.2.2] at hholder
    cases hholder

theorem ready_verifies : ∃ done executed t,
    ((finalised .shareStructure widenedXml).execute ann notarisation 0).run
      (ready .shareStructure widenedXml) = (.ok (done, executed), t) ∧
    ∃ v, verifyExecution t executed.executionTx = .ok v ∧ NoneFailed v.checks := by
  obtain ⟨-, done, executed, t, -, -, hrun, hiff⟩ :=
    ready_verifies_iff carries_widened demotes_widened widened_reads
  exact ⟨done, executed, t, hrun, hiff.mpr ⟨_, authorisedSigner_acme 2⟩⟩

theorem undisturbed_iff_disturbed :
    have := Plain.scanner_documents
    ∃ m state, (finalised .shareStructure widenedXml).id = some m.resolutionId ∧
      (finalised .shareStructure widenedXml).kind = .amendment m.target m.body ∧
      companyNow (ready .shareStructure widenedXml) = .ok state ∧
      m.approved = state.providerOf m.target.recordKind ∧
      (((∃ done executed t v,
          ((finalised .shareStructure widenedXml).execute ann notarisation 0).run disturbed =
            (.ok (done, executed), t) ∧
          verifyExecution t executed.executionTx = .ok v ∧ NoneFailed v.checks) ↔
        Undisturbed disturbed [blockOf (ready .shareStructure widenedXml) [forged]] ann notarisation
          0 m state.company (finalised .shareStructure widenedXml).kind.approvedDigest) ∨
      (∃ b ∈ disturbed.transactions, Collision b.idBytes
        (m.amendment disturbed ann (m.amendmentText state.company notarisation)).idBytes) ∨
      ∃ v execution,
        v = amendedOn disturbed ann 0 m (m.amendmentText state.company notarisation) ∧
        execution = nextTransaction v ann executionNamespace
          (utf8 (m.executionText disturbed ann state.company notarisation
            (finalised .shareStructure widenedXml).kind.approvedDigest)) ∧
        ∃ b ∈ v.transactions, Collision b.idBytes execution.idBytes) := by
  have := Plain.scanner_documents
  obtain ⟨done, executed, t, hrun, hverified⟩ := ready_verifies
  exact undisturbed_iff carries_widened.wellFormed carries_widened.finalizedOn hrun hverified
    strange_disturbed ⟨.inl rfl, .inl rfl⟩

/-- An execution that would succeed and verify, and that a stranger's record prevents for good. -/
theorem execute_disturbed :
    (∃ done executed t v, ((finalised .shareStructure widenedXml).execute ann notarisation 0).run
        (ready .shareStructure widenedXml) = (.ok (done, executed), t) ∧
      verifyExecution t executed.executionTx = .ok v ∧ NoneFailed v.checks) ∧
    Strange (ready .shareStructure widenedXml) disturbed
      [blockOf (ready .shareStructure widenedXml) [forged]] ∧
    ∀ key n time done executed t,
      ((finalised .shareStructure widenedXml).execute key n time).run disturbed ≠
        (.ok (done, executed), t) := by
  obtain ⟨done, executed, t, hrun, v, hv, hpass⟩ := ready_verifies
  refine ⟨⟨done, executed, t, v, hrun, hv, hpass⟩, strange_disturbed, ?_⟩
  intro key n time done' executed' t' hrun'
  obtain ⟨m, _, _, _, _, _, h, -⟩ := execute_accomplished strange_disturbed.wellFormed hrun'
  have hm := h.publishable.composes.mandated
  obtain hid : ⟨(resolutionTransaction .shareStructure widenedXml 2).id⟩ = m.resolutionId :=
    Option.some.inj hm.id
  have hnone := ((strange_disturbed.findExecution (findExecution_ready _)).mp hm.fresh) _
    (List.mem_singleton_self _) forged (List.mem_singleton_self _)
  rw [← hid, forged_reads.2.1] at hnone
  cases hnone

end Samples

end Irena.Resolution
