import Irena.Core.Standalone
import Irena.Resolution.Alone
import Irena.Resolution.Finalized
import Irena.Resolution.Linked

/-! # What stands when a resolution is executed

A resolution that was finalised is on the chain, and what was checked for it then still holds. What
an execution appends is new there, for anything like it would have executed the resolution before. -/

namespace Irena.Resolution

open Irena.Library Irena.Library.Outcome Irena.Library.Strings Irena.Library.Utf8
open Irena.Library.Markup Irena.Core Irena.Bornite Irena.Prunella Irena.Prunella.LocalChainStore
open Irena.Ledger

variable [Platform] {r : ResolutionV1} {s t u : LocalChainStore} {key : SigningKey}
  {n : NotarisationV1} {time : ℕ} {m : ResolutionV1.Mandate} {approval : ApprovalV1}
  {state : CompanyStateV1} {payload text : Text}

/-- Finalizing left the resolution so, on a chain that has grown since. -/
def FinalizedOn (r : ResolutionV1) (s : LocalChainStore) : Prop :=
  ∃ draft key n time before after id, before.WellFormed ∧
    (ResolutionV1.finalize draft key n time).run before = (.ok (r, id), after) ∧ after.Extends s

/-- The resolution is on the chain as it was recorded, and its authority stands. -/
structure Standing (r : ResolutionV1) (s : LocalChainStore) (resolutionId : ResolutionIdV1)
    (located : LocatedTransaction) (record : ResolutionRecordV1) (approval : ApprovalV1) :
    Prop where
  status : r.status = .finalized
  id : r.id = some resolutionId
  found : s.getTransaction resolutionId.txId = some located
  decodes : decodeResolution located.transaction = some record
  company : record.company.value = r.company
  owner : ∀ state, companyNow s = .ok state → record.company = state.company
  authority : record.authority = r.authority
  kind : record.kind = r.kind.normalised
  approves : r.checkAuthority s = .ok approval
  reads : ∀ target body, r.kind = .amendment target body →
    ∃ published, readBodyDocument target.recordKind (normaliseBody body) = .ok published

theorem company_of_companyNow (hext : s.Extends t) {earlier later : CompanyStateV1}
    (hearlier : companyNow s = .ok earlier) (hlater : companyNow t = .ok later) :
    later.company = earlier.company := by
  have hearlier' := (Ledger.Extends.reconstruct hext (Nat.le_refl _)).trans hearlier
  exact company_of_reconstruct hext.height_le hearlier' hlater

theorem FinalizedOn.standing (h : FinalizedOn r s) :
    ∃ id located record approval, Standing r s id located record approval := by
  obtain ⟨draft, key, n, time, before, after, id, hbefore, hrun, hext⟩ := h
  obtain ⟨state, approval, height, payload, hpayable, hid, hchain, hchild, rfl⟩ :=
    finalize_cases hbefore hrun
  have hafter : before.Extends after := (extends_push before _).trans (extends_of_sameChain hchain)
  have hdecode : decodeResolution (nextTransaction before key resolutionNamespace (utf8 payload)) =
      some ⟨state.company, n, draft.title, draft.authority, draft.kind.normalised⟩ :=
    decodeResolution_eq_some.mpr ⟨rfl, payload, fromUtf8_utf8 payload,
      readResolutionRecord_of_compose hpayable.composes⟩
  refine ⟨id, ⟨before.head.height + 1, 0, _⟩, _, approval, {
    status := rfl
    id := rfl
    found := ?_
    decodes := hdecode
    company := rfl
    owner := fun later hlater =>
      (company_of_companyNow (hafter.trans hext) hpayable.now hlater).symm
    authority := rfl
    kind := rfl
    approves := checkAuthority_extends (s := before) ?_ (hafter.trans hext)
    reads := fun target body hkind => ?_ }⟩
  · rw [hid]
    exact Extends.getTransaction hext (getTransaction_next hbefore hchild hchain)
  · exact checkAuthority_eq_ok.mpr ⟨⟨height, hpayable.approved⟩, hpayable.inScope, hpayable.digest⟩
  · have hvalid := (composeResolution_eq_ok.mp hpayable.composes).2.2.2.1 target (normaliseBody body)
    exact validateBody_eq_ok.mp (hvalid (by rw [show draft.kind = _ from hkind]; rfl))

/-- A transaction that is on the chain already, or one whose digest it has. -/
theorem new_or_collides {a : Transaction} (hs : s.WellFormed) (ha : a.computeId = a.id)
    (h : a ∉ s.transactions) :
    s.containsTransaction a.id = false ∨ ∃ b ∈ s.transactions, Collision b.idBytes a.idBytes := by
  by_cases hcontains : s.containsTransaction a.id = true
  · obtain ⟨b, hb, hid⟩ := List.mem_map.mp (containsTransaction_iff.mp hcontains)
    rcases eq_of_id_eq (hs.sound b hb).1 ha hid with rfl | hcollision
    · exact absurd hb h
    · exact .inr ⟨b, hb, hcollision⟩
  · exact .inl (Bool.not_eq_true _ ▸ hcontains)

/-- The amendment of a mandate is not on the chain: it would have replaced the base. -/
theorem Composes.new [WritingScanner] (hs : s.WellFormed)
    (h : Composes r s key n m approval state payload) : m.amendment s key payload ∉ s.transactions := by
  intro hmem
  rw [transactions, ← map_transaction_placed] at hmem
  obtain ⟨l, hl, hamendment⟩ := List.mem_map.mp hmem
  obtain ⟨body, -, hkind, hread, -⟩ := composeAmendment_eq_ok h.amends
  have hnamespace : l.transaction.namespace_.value = m.target.recordKind.namespaceOf := by
    rw [hamendment]
    rfl
  obtain ⟨found, hfound⟩ := recordIn_of_companyNow h.mandated.now hl (by
    rw [hnamespace, kindOfNamespace_namespaceOf]
    exact Option.some_ne_none _)
  obtain ⟨text, htext, hreads⟩ := (heldBy_of_recordIn hfound).reads
  have hpayload : fromUtf8 l.transaction.payload = some payload := by
    rw [hamendment]
    exact fromUtf8_utf8 payload
  obtain rfl := Option.some.inj (hpayload.symm.trans htext)
  have hrecord := Except.ok.inj (hreads.symm.trans hread)
  have hfoundKind : found.record.kind = m.target.recordKind := by
    rw [hrecord]
    exact hkind
  have hne : found.record.kind ≠ .companyGenesis := hfoundKind ▸ m.target.recordKind_ne
  have hbase : found.record.supersedes = some m.approved := by
    rw [hrecord]
  exact superseded_never_provides hs h.mandated.now hl hfound hne hbase
    (hfoundKind ▸ h.mandated.current)

/-- The execution record is not on the chain either: it would have executed the resolution. -/
theorem executes_of_payload {execution : ResolutionExecutionV1}
    (h : r.executionPayload n execution = .ok text) (height : ℕ) :
    executes execution.resolutionId.txId (key.signTransaction
      ⟨⟨executionNamespace⟩, schemaVersion, utf8 text, Platform.publicKey key, height⟩) = true := by
  simp only [ResolutionV1.executionPayload, composeExecution, bind_eq_ok, mapErr_eq_ok, ensure_eq_ok,
    pure_eq_ok, Except.ok.injEq] at h
  obtain ⟨company, -, -, -, readBack, hread, -, rfl, rfl⟩ := h
  exact executes_iff.mpr ⟨execution, decodeExecution_eq_some.mpr
    ⟨rfl, _, _, fromUtf8_utf8 _, hread, rfl⟩, rfl⟩

theorem findExecution_amended {resolutionTx : TxId} (h : findExecution s resolutionTx = none)
    (hchain : SameChain (s.push (nextBlock s (m.amendment s key payload) time)) u) :
    findExecution u resolutionTx = none := by
  rw [findExecution_eq_none] at h ⊢
  intro t ht
  rw [transactions, blocks_of_sameChain hchain, blocks_push, List.flatMap_append,
    List.mem_append] at ht
  rcases ht with ht | ht
  · exact h t ht
  · obtain rfl : t = m.amendment s key payload := by simpa [nextBlock] using ht
    rw [executes, if_pos]
    intro hnamespace
    have hnone := executionNamespace_foreign
    rw [← hnamespace] at hnone
    exact absurd (hnone.symm.trans (kindOfNamespace_namespaceOf m.target.recordKind)) (by simp)

theorem execution_new {execution : ResolutionExecutionV1}
    (h : findExecution u execution.resolutionId.txId = none)
    (hpayload : r.executionPayload n execution = .ok text) :
    nextTransaction u key executionNamespace (utf8 text) ∉ u.transactions := by
  intro hmem
  have hexecutes : executes execution.resolutionId.txId
      (nextTransaction u key executionNamespace (utf8 text)) = true := executes_of_payload hpayload _
  rw [findExecution_eq_none.mp h _ hmem] at hexecutes
  cases hexecutes

/-- The database takes two commits, there is room for two blocks, and time has not gone back. -/
structure Working (s : LocalChainStore) (time : ℕ) : Prop where
  first : s.faults.head? = none ∨ s.faults.head? = some none
  second : s.faults.tail.head? = none ∨ s.faults.tail.head? = some none
  room : s.head.height + 2 ≤ u64Max
  time : s.headBlock.header.timestampMillis ≤ time

omit [Platform] in
theorem commits_of_head (h : s.faults.head? = none ∨ s.faults.head? = some none) : s.Commits := by
  intro detail hdetail
  rcases h with h | h <;> simp [h] at hdetail

/-- On a working store a mandate whose documents compose is executed, unless a transaction on the
chain has the digest of another. -/
theorem Composes.executes [WritingScanner] [SignaturesVerify] (hs : s.WellFormed)
    (h : Composes r s key n m approval state payload)
    (hpayload : r.executionPayload n
      (m.execution (m.amendment s key payload).id r.kind.approvedDigest) = .ok text)
    (hworking : Working s time) :
    (∃ t, (r.execute key n time).run s =
      (.ok (executedAs r s (amendedOn s key time m payload) key m payload text), t)) ∨
    (∃ b ∈ s.transactions, Collision b.idBytes (m.amendment s key payload).idBytes) ∨
    ∃ b ∈ (amendedOn s key time m payload).transactions, Collision b.idBytes (nextTransaction
      (amendedOn s key time m payload) key executionNamespace (utf8 text)).idBytes := by
  rcases new_or_collides hs rfl (h.new hs) with hnew | hcollides
  swap
  · exact .inr (.inl hcollides)
  have hpublishable : Publishable r s key n time m approval state payload := by
    refine ⟨h, (childOf_nextBlock hs).mpr ⟨?_, hworking.time, ?_, hnew⟩⟩
    · exact Nat.lt_of_lt_of_le (by omega) hworking.room
    · exact sound_signTransaction _ _
  have hu : (amendedOn s key time m payload).WellFormed :=
    .push hs hpublishable.child sameChain_amendedOn
  have hfresh : findExecution (amendedOn s key time m payload) m.resolutionId.txId = none :=
    findExecution_amended h.mandated.fresh sameChain_amendedOn
  rcases new_or_collides hu rfl (execution_new hfresh hpayload) with hnew' | hcollides
  swap
  · exact .inr (.inr hcollides)
  have hrecordable : Recordable r (amendedOn s key time m payload) key n time
      (m.execution (m.amendment s key payload).id r.kind.approvedDigest) text := by
    refine ⟨hpayload, (childOf_nextBlock hu).mpr ⟨?_, ?_, ?_, hnew'⟩⟩
    · rw [height_amendedOn]
      exact hworking.room
    · rw [time_amendedOn]
    · exact sound_signTransaction _ _
  exact .inl (execute_of_recordable hs hpublishable (commits_of_head hworking.first) hrecordable
    (commits_of_head hworking.second))

/-- The demotion rule of a target, judged on the body that is published. -/
def KeepsRule (approval : ApprovalV1) (state : CompanyStateV1) (target : AmendmentTargetV1)
    (published : RecordBodyV1) : Prop :=
  ∀ actor, approval.actor = some actor → ∃ signer : VoterIdV1, signer.value = actor ∧
    ∃ found, demotionBetween signer state target published = .ok found ∧
      ∀ verdict, found = some verdict → verdict.holds = true

/-- An approval of one person, of a part that has a rule. -/
def Ruled (approval : ApprovalV1) (target : AmendmentTargetV1) : Prop :=
  approval.actor ≠ none ∧ target ≠ .shareStructure

variable [DocumentScanner] {signer : VoterIdV1} {target : AmendmentTargetV1} {body : Text}
  {published : RecordBodyV1}

/-- What a rule says of a body it reads, it says of the published body, where the given text fits. -/
theorem judged_given {α : Type} {parse : Text → Except IrenaError α} {wrap : α → RecordBodyV1}
    {judge : α → Except ResolutionError (Option SelfDemotionV1)} {found : Option SelfDemotionV1}
    {new : α} (hwrap : Function.Injective wrap)
    (hparse : ∀ xml, readBodyDocument target.recordKind xml = (parse xml).map wrap)
    (hread : readBodyDocument target.recordKind (normaliseBody body) = .ok (wrap new)) :
    (mapErr .record (parse body) >>= judge) = .ok found ↔
      byteLength body ≤ defaultMaxDocumentBytes ∧ judge new = .ok found := by
  have hgiven := readBodyDocument_given hread
  simp only [bind_eq_ok, mapErr_eq_ok]
  constructor
  · rintro ⟨a, ha, hjudge⟩
    have hmapped : readBodyDocument target.recordKind body = .ok (wrap a) := by
      rw [hparse, ha]
      rfl
    obtain ⟨_, _, _, _, hstands⟩ := readBodyDocument_iff.mp hmapped
    have hsame := hmapped.symm.trans (hgiven.mpr hstands.fits)
    obtain rfl := hwrap (Except.ok.inj hsame)
    exact ⟨hstands.fits, hjudge⟩
  · rintro ⟨hfits, hjudge⟩
    have hmapped := hgiven.mpr hfits
    rw [hparse] at hmapped
    obtain ⟨a, ha, hsame⟩ := map_eq_ok.mp hmapped
    obtain rfl := hwrap hsame
    exact ⟨a, ha, hjudge⟩

theorem demotionOf_eq_ok {found : Option SelfDemotionV1}
    (hread : readBodyDocument target.recordKind (normaliseBody body) = .ok published) :
    demotionOf signer state target body = .ok found ↔
      (target ≠ .shareStructure → byteLength body ≤ defaultMaxDocumentBytes) ∧
        demotionBetween signer state target published = .ok found := by
  cases target with
  | shareStructure =>
    have hnone : demotionBetween signer state .shareStructure published = .ok none := by
      cases published <;> rfl
    simp [demotionOf, hnone]
  | decisionChannels =>
    obtain ⟨new, -, rfl⟩ := map_eq_ok.mp hread
    simp only [ne_eq, reduceCtorEq, not_false_eq_true, true_implies]
    exact judged_given (fun _ _ h => RecordBodyV1.decisionChannels.inj h) (fun _ => rfl) hread
  | identities =>
    obtain ⟨new, -, rfl⟩ := map_eq_ok.mp hread
    simp only [ne_eq, reduceCtorEq, not_false_eq_true, true_implies]
    exact judged_given (fun _ _ h => RecordBodyV1.identities.inj h) (fun _ => rfl) hread
  | authorisation =>
    obtain ⟨new, -, rfl⟩ := map_eq_ok.mp hread
    simp only [ne_eq, reduceCtorEq, not_false_eq_true, true_implies]
    exact judged_given (fun _ _ h => RecordBodyV1.authorisation.inj h) (fun _ => rfl) hread

/-- An execution judges the rule as the verifier does, where it can read the body it was given. -/
theorem checkDemotion_eq_ok
    (hread : readBodyDocument target.recordKind (normaliseBody body) = .ok published) :
    checkDemotion approval state target body = .ok () ↔
      KeepsRule approval state target published ∧
        (Ruled approval target → byteLength body ≤ defaultMaxDocumentBytes) := by
  unfold checkDemotion KeepsRule Ruled
  cases approval.actor with
  | none => simp
  | some actor =>
    simp only [bind_eq_ok, mapErr_eq_ok, VoterIdV1.new_eq_ok, demotionOf_eq_ok hread,
      Option.some.injEq, forall_eq', ne_eq, reduceCtorEq, not_false_eq_true, true_and]
    constructor
    · rintro ⟨signer, hsigner, found, ⟨hfits, hfound⟩, hholds⟩
      refine ⟨⟨signer, hsigner, found, hfound, ?_⟩, hfits⟩
      rintro verdict rfl
      exact ensure_eq_ok.mp hholds
    · rintro ⟨⟨signer, hsigner, found, hfound, hholds⟩, hfits⟩
      refine ⟨signer, hsigner, found, ⟨hfits, hfound⟩, ?_⟩
      cases found with
      | none => rfl
      | some verdict => exact ensure_of (hholds verdict rfl)

end Irena.Resolution
