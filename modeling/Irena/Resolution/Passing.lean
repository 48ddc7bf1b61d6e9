import Irena.Core.Composed
import Irena.Resolution.Execution
import Irena.Resolution.Standing
import Irena.Sample.Ready

/-! # Whether an execution verifies

An execution judges its signer before its own amendment is in force, and the verifier judges the
signer of the record that follows it. All else that the verifier checks, the execution has seen to. -/

namespace Irena.Resolution

open Irena.Library Irena.Library.Outcome Irena.Library.Strings Irena.Library.Utf8
open Irena.Library.Markup Irena.Core Irena.Bornite Irena.Prunella Irena.Prunella.LocalChainStore
open Irena.Ledger
open Irena.Decision (signerAuthorisedAt signerAuthorisedAt_iff)

section Rules

variable [Platform] {r : ResolutionV1} {s t u : LocalChainStore} {key : SigningKey}
  {n : NotarisationV1} {time : ℕ} {m : ResolutionV1.Mandate} {approval : ApprovalV1}
  {state : CompanyStateV1} {payload text : Text}

/-- Who signs for the governance of a company once a body has replaced its part. -/
def signerAfter (state : CompanyStateV1) (body : RecordBodyV1) (key : PublicKey) :
    Except LedgerError PersonV1 :=
  match body with
  | .identities identities => signerOf identities state.authorisation.value .governance key
  | .authorisation authorisation => signerOf state.identities.value authorisation .governance key
  | _ => authorisedSigner state .governance key

omit [Platform] in
theorem authorisedSigner_replace {found : RecordRefV1} {key : PublicKey} :
    authorisedSigner (state.replace found) .governance key =
      signerAfter state found.record.body key := by
  obtain ⟨height, index, txId, signer, record⟩ := found
  obtain ⟨company, supersedes, notarisation, body⟩ := record
  cases body <;> rfl

omit [Platform] in
theorem publishes_recordText {target : AmendmentTargetV1} {body : RecordBodyV1}
    (hkind : body.kind = target.recordKind) (company : CompanyIdV1) (supersedes : Option TxId)
    (n : NotarisationV1) (element : Text) :
    publishes (recordText target.recordKind company supersedes n element) body element = true := by
  have hcontains : contains (recordText target.recordKind company supersedes n element) element =
      true := contains_iff.mpr ⟨_, _, rfl⟩
  cases body with
  | companyGenesis => cases target <;> cases hkind
  | identity => cases target <;> cases hkind
  | _ => exact hcontains

theorem Composes.published [DocumentScanner] (h : Composes r s key n m approval state payload) :
    ∃ body, readBodyDocument m.target.recordKind (normaliseBody m.body) = .ok body ∧
      body.kind = m.target.recordKind ∧
      readRecord payload = .ok ⟨state.company, some m.approved, n, body⟩ ∧
      publishes payload body (normaliseBody m.body) = true ∧
      KeepsRule approval state m.target body := by
  obtain ⟨body, hread, hkind, hrecord, -⟩ := composeAmendment_eq_ok h.amends
  obtain ⟨-, -, hcomposes, -⟩ := composeAmendment_eq_ok_iff.mp h.amends
  obtain ⟨-, -, -, -, rfl, -⟩ := composeRecord_eq_ok_iff.mp hcomposes
  exact ⟨body, hread, hkind, hrecord, publishes_recordText hkind _ _ _ _,
    ((checkDemotion_eq_ok hread).mp h.mandated.demotes).1⟩

theorem KeepsRule.holds {target : AmendmentTargetV1} {body : RecordBodyV1} {height : ℕ}
    (h : KeepsRule approval state target body) (hstate : reconstruct t height = .ok state) :
    demotionHolds t approval (height + 1) target body = true := by
  cases hactor : approval.actor with
  | none => simp only [demotionHolds, hactor]
  | some actor =>
    obtain ⟨signer, rfl, found, hfound, hholds⟩ := h actor hactor
    exact demotionHolds_of_between hactor hstate hfound hholds

theorem decodeExecution_of_payload {execution : ResolutionExecutionV1}
    (h : r.executionPayload n execution = .ok text) (height : ℕ) :
    decodeExecution (key.signTransaction
      ⟨⟨executionNamespace⟩, schemaVersion, utf8 text, Platform.publicKey key, height⟩) =
        some execution := by
  simp only [ResolutionV1.executionPayload, composeExecution, bind_eq_ok, mapErr_eq_ok, ensure_eq_ok,
    pure_eq_ok, Except.ok.injEq] at h
  obtain ⟨company, -, -, -, readBack, hread, -, rfl, rfl⟩ := h
  exact decodeExecution_eq_some.mpr ⟨rfl, _, _, fromUtf8_utf8 _, hread, rfl⟩

/-- A verified resolution passes with the approval that its execution finds. -/
theorem Standing.passes {id : ResolutionIdV1} {located : LocatedTransaction}
    {record : ResolutionRecordV1} {v : ResolutionVerificationV1}
    (h : Standing r s id located record approval) (hv : verifyResolution s id.txId = .ok v)
    (hpass : NoneFailed v.checks) :
    ∃ height frozen, Passes s located record approval height frozen := by
  simp only [verifyResolution, h.found, orError_some, ok_bind, bind_eq_ok, pure_eq_ok,
    Except.ok.injEq] at hv
  obtain ⟨⟨report, found⟩, hreport, rfl⟩ := hv
  obtain ⟨record', approval', height, frozen, -, -, hdecode, hpasses⟩ :=
    verified_of_noneFailed hreport hpass
  obtain rfl := Option.some.inj (h.decodes.symm.trans hdecode)
  obtain ⟨⟨height', happroved⟩, -, -⟩ := checkAuthority_eq_ok.mp h.approves
  have happroved' := hpasses.approved
  rw [h.authority] at happroved'
  obtain ⟨rfl, -⟩ := happroved'.unique happroved
  exact ⟨height, frozen, hpasses⟩

/-- An execution alone that published its amendment and recorded itself. -/
structure Accomplished (r : ResolutionV1) (s u t : LocalChainStore) (key : SigningKey)
    (n : NotarisationV1) (time : ℕ) (m : ResolutionV1.Mandate) (approval : ApprovalV1)
    (state : CompanyStateV1) (payload text : Text) : Prop where
  wellFormed : s.WellFormed
  publishable : Publishable r s key n time m approval state payload
  published : SameChain (s.push (nextBlock s (m.amendment s key payload) time)) u
  recordable : Recordable r u key n time
    (m.execution (m.amendment s key payload).id r.kind.approvedDigest) text
  recorded : SameChain
    (u.push (nextBlock u (nextTransaction u key executionNamespace (utf8 text)) time)) t

/-- An execution that returns has accomplished both. -/
theorem execute_accomplished [WritingScanner] {done : ResolutionV1} {executed : ExecutedV1}
    (hs : s.WellFormed) (hrun : (r.execute key n time).run s = (.ok (done, executed), t)) :
    ∃ m approval state payload u text, Accomplished r s u t key n time m approval state payload text ∧
      executed.executionTx = (nextTransaction u key executionNamespace (utf8 text)).id := by
  rcases execute_cases hs hrun with ⟨_, he, -⟩ |
    ⟨m, approval, state, payload, u, hpublishable, hu, ⟨_, he, -⟩ | ⟨text, hrecordable, ht, he⟩⟩
  · cases he
  · cases he
  obtain ⟨-, rfl⟩ := Prod.mk.inj (Except.ok.inj he)
  exact ⟨m, approval, state, payload, u, text, ⟨hs, hpublishable, hu, hrecordable, ht⟩, rfl⟩

namespace Accomplished

variable (h : Accomplished r s u t key n time m approval state payload text)
include h

theorem extends_published : s.Extends u :=
  (extends_push s _).trans (extends_of_sameChain h.published)

theorem extends_recorded : u.Extends t :=
  (extends_push u _).trans (extends_of_sameChain h.recorded)

theorem extends_ : s.Extends t := h.extends_published.trans h.extends_recorded

theorem height_published : u.head.height = s.head.height + 1 := by
  rw [head, h.published.2.2]
  exact congrArg ChainHead.height (head_push s _)

theorem height_recorded : t.head.height = s.head.height + 2 := by
  rw [head, h.recorded.2.2]
  exact (congrArg ChainHead.height (head_push u _)).trans (congrArg Nat.succ h.height_published)

theorem found : t.getTransaction (nextTransaction u key executionNamespace (utf8 text)).id =
    some ⟨s.head.height + 2, 0, nextTransaction u key executionNamespace (utf8 text)⟩ := by
  have hu : u.WellFormed := .push h.wellFormed h.publishable.child h.published
  rw [getTransaction_next hu h.recordable.child h.recorded, h.height_published]

theorem amended : t.getTransaction (m.amendment s key payload).id =
    some ⟨s.head.height + 1, 0, m.amendment s key payload⟩ :=
  Extends.getTransaction h.extends_recorded
    (getTransaction_next h.wellFormed h.publishable.child h.published)

theorem first : ∃ height, findExecution t m.resolutionId.txId =
    some ((nextTransaction u key executionNamespace (utf8 text)).id, height) := by
  have hfresh := findExecution_amended h.publishable.composes.mandated.fresh h.published
  have hexecutes : executes m.resolutionId.txId
      (nextTransaction u key executionNamespace (utf8 text)) = true :=
    executes_of_payload h.recordable.composes _
  refine ⟨(nextBlock u (nextTransaction u key executionNamespace (utf8 text)) time).header.height, ?_⟩
  rw [findExecution, iterBlocks_head] at hfresh ⊢
  rw [blocks_of_sameChain h.recorded, blocks_push, List.findSome?_append, hfresh]
  simp [nextBlock, hexecutes]

theorem now [WritingScanner] {body : RecordBodyV1}
    (hread : readRecord payload = .ok ⟨state.company, some m.approved, n, body⟩) :
    reconstruct t (s.head.height + 2) =
      .ok { state.replace (publishedRecord s key m.target.recordKind payload
          ⟨state.company, some m.approved, n, body⟩) with
        at_ := s.head.height + 2
        applied := state.applied ++ [publishedRecord s key m.target.recordKind payload
          ⟨state.company, some m.approved, n, body⟩] } := by
  have hamended := companyNow_published h.wellFormed m.target.recordKind_ne
    h.publishable.composes.mandated.now h.publishable.composes.amends hread h.published
  rw [← h.height_recorded, ← companyNow, companyNow_of_sameChain h.recorded,
    companyNow_push_foreign hamended, h.height_published, h.height_recorded]
  intro w hw
  rw [List.mem_singleton.mp hw]
  exact executionNamespace_foreign

theorem signer [WritingScanner] {body : RecordBodyV1}
    (hread : readRecord payload = .ok ⟨state.company, some m.approved, n, body⟩) :
    signerAuthorisedAt t (s.head.height + 2) (Platform.publicKey key) = true ↔
      ∃ person, signerAfter state body (Platform.publicKey key) = .ok person := by
  have hreplace := @authorisedSigner_replace state (publishedRecord s key m.target.recordKind payload
    ⟨state.company, some m.approved, n, body⟩) (Platform.publicKey key)
  rw [signerAuthorisedAt_iff]
  simp only [h.now hread, Except.ok.injEq, exists_and_left, exists_eq_left']
  exact exists_congr fun person => Eq.congr_left hreplace

/-- The record of a verified resolution's execution passes every check but that of its signer. -/
theorem executes [DocumentScanner] {body : RecordBodyV1} {id : ResolutionIdV1}
    {located : LocatedTransaction} {record : ResolutionRecordV1} {height : ℕ}
    {frozen : CompanyStateV1} (hstanding : Standing r s id located record approval)
    (hpasses : Passes s located record approval height frozen)
    (hkind : body.kind = m.target.recordKind)
    (hread : readRecord payload = .ok ⟨state.company, some m.approved, n, body⟩)
    (hpublishes : publishes payload body (normaliseBody m.body) = true)
    (hdemotes : KeepsRule approval state m.target body)
    (hsigner : signerAuthorisedAt t (s.head.height + 2) (Platform.publicKey key) = true) :
    Executes t ⟨s.head.height + 2, 0, nextTransaction u key executionNamespace (utf8 text)⟩ located
      ⟨s.head.height + 1, 0, m.amendment s key payload⟩
      (m.execution (m.amendment s key payload).id r.kind.approvedDigest) record approval
      (normaliseBody m.body) (payload, ⟨state.company, some m.approved, n, body⟩) := by
  have hm := h.publishable.composes.mandated
  obtain rfl : m.resolutionId = id := Option.some.inj (hm.id.symm.trans hstanding.id)
  have hlocated : located.height ≤ s.head.height := by
    obtain ⟨-, b, hb, -⟩ := getTransaction_some hstanding.found
    exact height_le_of_getBlock hb
  have hauthorises : record.kind = .amendment m.target (normaliseBody m.body) := by
    rw [hstanding.kind, hm.kind]
    rfl
  have hdigest : r.kind.approvedDigest = approval.proposalDigest :=
    (checkAuthority_eq_ok.mp hm.authority).2.2
  have hbody : proposalDigest (normaliseBody m.body) = r.kind.approvedDigest := by
    rw [hdigest, ← hpasses.digest, hauthorises]
    rfl
  have hreads : amendmentOf (m.amendment s key payload) =
      some (payload, ⟨state.company, some m.approved, n, body⟩) := by
    have htext : fromUtf8 (m.amendment s key payload).payload = some payload := fromUtf8_utf8 payload
    simp only [amendmentOf, htext, hread, Option.bind_eq_bind, Option.bind_some, Except.toOption,
      Option.pure_def]
  have hbefore : reconstruct t s.head.height = .ok state :=
    (Ledger.Extends.reconstruct h.extends_ (Nat.le_refl _)).trans hm.now
  have hmem : publishedRecord s key m.target.recordKind payload
      ⟨state.company, some m.approved, n, body⟩ ∈ (state.applied ++ [publishedRecord s key
        m.target.recordKind payload ⟨state.company, some m.approved, n, body⟩]).filter
          fun found => found.record.kind = .companyGenesis ∨
            found.record.kind = m.target.recordKind :=
    List.mem_filter.mpr ⟨List.mem_append_right _ List.mem_cons_self, decide_eq_true (.inr hkind)⟩
  exact {
    named := Extends.getTransaction h.extends_ hstanding.found
    authorises := hauthorises
    amends := h.amended
    reads := hreads
    kind := hkind
    company := (hstanding.owner _ hm.now).symm
    publishes := hpublishes
    bodyDigest := hbody
    approved := hdigest
    supersedes := congrArg some hm.approved
    replaced := hm.approved
    demotion := hdemotes.holds hbefore
    applied := applied_of_mem (h.now hread) hmem rfl
    earlier := Nat.lt_succ_of_le hlocated
    notLater := Nat.le_succ _
    signer := hsigner
    once := h.first }

theorem verifies_iff [DocumentScanner] {id : ResolutionIdV1} {located : LocatedTransaction}
    {record : ResolutionRecordV1} {height : ℕ} {frozen : CompanyStateV1}
    (hstanding : Standing r s id located record approval)
    (hpasses : Passes s located record approval height frozen) {body : RecordBodyV1}
    (hbody : readBodyDocument m.target.recordKind (normaliseBody m.body) = .ok body) :
    (∃ v, verifyExecution t (nextTransaction u key executionNamespace (utf8 text)).id = .ok v ∧
      NoneFailed v.checks) ↔ ∃ person, signerAfter state body (Platform.publicKey key) = .ok person := by
  obtain ⟨body', hbody', hkind, hread, hpublishes, hdemotes⟩ := h.publishable.composes.published
  obtain rfl := Except.ok.inj (hbody.symm.trans hbody')
  rw [verifyExecution_iff, ← h.signer hread]
  constructor
  · rintro ⟨_, _, _, _, _, _, _, _, hexecuted⟩
    obtain rfl := Option.some.inj (h.found.symm.trans hexecuted.found)
    exact hexecuted.executes.signer
  · intro hsigner
    obtain ⟨-, b, hb, -⟩ := getTransaction_some hstanding.found
    exact ⟨_, _, _, _, _, _, _, _, {
      found := h.found
      decodes := decodeExecution_of_payload h.recordable.composes _
      resolved := hstanding.decodes
      verifies := ⟨height, frozen, hpasses.extends h.extends_ (height_le_of_getBlock hb)⟩
      executes := h.executes hstanding hpasses hkind hread hpublishes hdemotes hsigner }⟩

end Accomplished

/-- The execution of a verified resolution verifies exactly where the key that recorded it still
signs for the governance of the company once the approved body has replaced its part. -/
theorem execute_verifies_iff [DocumentScanner] {done : ResolutionV1} {executed : ExecutedV1}
    {id : ResolutionIdV1} {v : ResolutionVerificationV1} (hs : s.WellFormed)
    (hfinalized : FinalizedOn r s) (hid : r.id = some id) (hv : verifyResolution s id.txId = .ok v)
    (hpass : NoneFailed v.checks)
    (hrun : (r.execute key n time).run s = (.ok (done, executed), t)) :
    ∃ state target text body, companyNow s = .ok state ∧ r.kind = .amendment target text ∧
      readBodyDocument target.recordKind (normaliseBody text) = .ok body ∧
      ((∃ v, verifyExecution t executed.executionTx = .ok v ∧ NoneFailed v.checks) ↔
        ∃ person, signerAfter state body (Platform.publicKey key) = .ok person) := by
  obtain ⟨id', located, record, approval, hstanding⟩ := hfinalized.standing
  obtain rfl := Option.some.inj (hid.symm.trans hstanding.id)
  obtain ⟨height, frozen, hpasses⟩ := hstanding.passes hv hpass
  obtain ⟨m, approval', state, payload, u, text, haccomplished, htx⟩ := execute_accomplished hs hrun
  have hm := haccomplished.publishable.composes.mandated
  obtain rfl := Except.ok.inj (hstanding.approves.symm.trans hm.authority)
  obtain ⟨body, hbody, -⟩ := haccomplished.publishable.composes.published
  refine ⟨state, m.target, m.body, body, hm.now, hm.kind, hbody, ?_⟩
  rw [htx]
  exact haccomplished.verifies_iff hstanding hpasses hbody

end Rules

section Samples

open Irena.Sample

attribute [local instance] platform signaturesVerify writingScanner

theorem execute_verifies_iff_ready : ∃ done executed t,
    have := Plain.scanner_documents
    ((finalised .shareStructure widenedXml).execute ann notarisation 0).run
      (ready .shareStructure widenedXml) = (.ok (done, executed), t) ∧
    ∃ state target text body, companyNow (ready .shareStructure widenedXml) = .ok state ∧
      (finalised .shareStructure widenedXml).kind = .amendment target text ∧
      readBodyDocument target.recordKind (normaliseBody text) = .ok body ∧
      ((∃ v, verifyExecution t executed.executionTx = .ok v ∧ NoneFailed v.checks) ↔
        ∃ person, signerAfter state body (Platform.publicKey ann) = .ok person) := by
  have := Plain.scanner_documents
  have hs := carries_widened.wellFormed
  obtain ⟨t, hrun⟩ := carries_widened.executes demotes_widened
  obtain ⟨v, hv, hpass⟩ := verified_ready hs (Extends.refl _) carries_widened.2.2.1
  exact ⟨_, _, t, hrun, execute_verifies_iff hs carries_widened.finalizedOn rfl hv hpass hrun⟩

theorem ready_verifies_iff {target : AmendmentTargetV1} {body : Text} {published : RecordBodyV1}
    (hcarries : Carries target body)
    (hdemotes : checkDemotion (directorApproval body) readyState target body = .ok ())
    (hread : readBodyDocument target.recordKind (normaliseBody body) = .ok published) :
    ∃ v done executed t,
      verifyResolution (ready target body) (resolutionTransaction target body 2).id = .ok v ∧
      NoneFailed v.checks ∧
      ((finalised target body).execute ann notarisation 0).run (ready target body) =
        (.ok (done, executed), t) ∧
      ((∃ v, verifyExecution t executed.executionTx = .ok v ∧ NoneFailed v.checks) ↔
        ∃ person, signerAfter readyState published (publicKeyOf ann) = .ok person) := by
  have := Plain.scanner_documents
  have hs := hcarries.wellFormed
  obtain ⟨t, hrun⟩ := hcarries.executes hdemotes
  obtain ⟨v, hv, hpass⟩ := verified_ready hs (Extends.refl _) hcarries.2.2.1
  refine ⟨v, _, _, t, hv, hpass, hrun, ?_⟩
  obtain ⟨id, located, record, approval, hstanding⟩ := hcarries.finalizedOn.standing
  obtain rfl : ⟨(resolutionTransaction target body 2).id⟩ = id := Option.some.inj hstanding.id
  obtain ⟨height, frozen, hpasses⟩ := hstanding.passes hv hpass
  obtain ⟨m, approval', state, payload, u, text, h, htx⟩ := execute_accomplished hs hrun
  have hm := h.publishable.composes.mandated
  obtain rfl := Except.ok.inj (hstanding.approves.symm.trans hm.authority)
  obtain rfl := Except.ok.inj (companyNow_ready.symm.trans hm.now)
  obtain ⟨rfl, rfl⟩ := ResolutionKindV1.amendment.inj hm.kind
  rw [htx]
  exact h.verifies_iff hstanding hpasses hread

theorem carries_rotated : Carries .identities (identitiesXml eve) ∧
    checkDemotion (directorApproval (identitiesXml eve)) readyState .identities (identitiesXml eve) =
      .ok () ∧
    readBodyDocument .identities (normaliseBody (identitiesXml eve)) = .ok (.identities rotated) ∧
    rotated.holderOf (publicKeyOf ann) = none := by
  decide +kernel

/-- An execution that succeeded and does not verify. -/
theorem execute_not_verified : ∃ v done executed t,
    (ready .identities (identitiesXml eve)).WellFormed ∧
    verifyResolution (ready .identities (identitiesXml eve))
      (resolutionTransaction .identities (identitiesXml eve) 2).id = .ok v ∧
    NoneFailed v.checks ∧
    ((finalised .identities (identitiesXml eve)).execute ann notarisation 0).run
      (ready .identities (identitiesXml eve)) = (.ok (done, executed), t) ∧
    ¬ ∃ v, verifyExecution t executed.executionTx = .ok v ∧ NoneFailed v.checks := by
  obtain ⟨hcarries, hdemotes, hread, hheld⟩ := carries_rotated
  obtain ⟨v, done, executed, t, hv, hpass, hrun, hiff⟩ := ready_verifies_iff hcarries hdemotes hread
  refine ⟨v, done, executed, t, hcarries.wellFormed, hv, hpass, hrun, ?_⟩
  rw [hiff]
  rintro ⟨person, hperson⟩
  have hsigns : signerOf rotated acme.authorisation.value .governance (publicKeyOf ann) =
      .ok person := hperson
  obtain ⟨hholder, -⟩ := signerOf_eq_ok.mp hsigns
  rw [hheld] at hholder
  cases hholder

end Samples

end Irena.Resolution
