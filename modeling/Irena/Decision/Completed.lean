import Irena.Decision.Settled
import Irena.Sample.Resolved

/-! # What a decision that was finalised passes

Freezing accepts every height, above the head too, and finalising looks again at the channel set
only. The record verifies exactly when the chain has reached the height by then and none of the
pinned parts was replaced below it. -/

namespace Irena.Decision

open Irena.Library Irena.Library.Outcome Irena.Library.Strings
open Irena.Core Irena.Bornite Irena.Prunella Irena.Prunella.LocalChainStore Irena.Ledger

theorem decisionNamespace_foreign : kindOfNamespace decisionNamespace = none := by
  decide +kernel

section Rules

variable [Platform]

/-- What an individual channel of a company freezes at a height. -/
def DecisionV1.snapshotOf (d : DecisionV1) (state : CompanyStateV1) (at_ : ℕ)
    (channel : ChannelIdV1) (actor : ActorV1) (key : PublicKey) : DecisionSnapshotV1 where
  company := state.company.value
  subject := d.subject
  proposalDigest := d.proposalDigest
  height := at_
  genesisTxId := state.genesisTxId
  sharesTxId := state.shares.txId
  channelsTxId := state.channels.txId
  identitiesTxId := state.identities.txId
  channel := channel.value
  actor := actor.id.value
  key := key

section Operations

variable {d w : DecisionV1} {s t u : LocalChainStore}

theorem freeze_eq_ok {at_ : ℕ} {channel : ChannelIdV1} :
    d.freeze s at_ channel = .ok w ↔ d.status = .draft ∧ ∃ state resolved actor key,
      reconstruct s at_ = .ok state ∧ resolveChannel state channel = .ok resolved ∧
        resolved.soleActor = some actor ∧ actor.key = some key ∧ w = { d with
          status := .frozen
          snapshot := some (d.snapshotOf state at_ channel actor key) } := by
  simp only [DecisionV1.freeze, DecisionV1.expectStatus, bind_eq_ok, mapErr_eq_ok, ensure_eq_ok,
    orError_eq_ok, pure_eq_ok, Except.ok.injEq, @eq_comm _ w]
  constructor
  · rintro ⟨-, hstatus, state, hstate, resolved, hresolved, actor, hactor, key, hkey, h⟩
    exact ⟨hstatus, state, resolved, actor, key, hstate, hresolved, hactor, hkey, h⟩
  · rintro ⟨hstatus, state, resolved, actor, key, hstate, hresolved, hactor, hkey, h⟩
    exact ⟨(), hstatus, state, hstate, resolved, hresolved, actor, hactor, key, hkey, h⟩

theorem sign_eq_ok {key : SigningKey} :
    d.sign key = .ok w ↔ d.status = .frozen ∧ ∃ snapshot, d.snapshot = some snapshot ∧
      Platform.publicKey key = snapshot.key ∧ w = { d with
        status := .signed
        signature := some (Platform.sign key snapshot.signingMessage.asBytes) } := by
  simp only [DecisionV1.sign, DecisionV1.expectStatus, bind_eq_ok, ensure_eq_ok, orError_eq_ok,
    pure_eq_ok, Except.ok.injEq, @eq_comm _ w]
  constructor
  · rintro ⟨-, hstatus, snapshot, hsnapshot, -, hkey, h⟩
    exact ⟨hstatus, snapshot, hsnapshot, hkey, h⟩
  · rintro ⟨hstatus, snapshot, hsnapshot, hkey, h⟩
    exact ⟨(), hstatus, snapshot, hsnapshot, (), hkey, h⟩

/-- What finalising checked before it appended. -/
structure Finalizable (d : DecisionV1) (t : LocalChainStore) (record : FinalDecisionRecordV1)
    (later : CompanyStateV1) : Prop where
  assembled : d.finalRecord = .ok record
  signature : record.checkSignature = .ok ()
  reconstructs : reconstruct t record.snapshot.height = .ok later
  channels : later.channels.txId = record.snapshot.channelsTxId
  company : later.company.value = record.snapshot.company

theorem finalize_cases {key : SigningKey} {time : ℕ} {finalized : FinalizedDecisionV1}
    (ht : t.WellFormed) (h : (d.finalize key time).run t = (.ok (w, finalized), u)) :
    ∃ record later, Finalizable d t record later ∧
      finalized = ⟨(nextTransaction t key decisionNamespace
        (FinalDecisionRecordV1.codec.encode record)).id, t.head.height + 1, record⟩ ∧
      Recorded t u key decisionNamespace (FinalDecisionRecordV1.codec.encode record) time := by
  simp only [DecisionV1.finalize, Program.run_bind_ok, Program.run_lift, Program.run_mapError,
    run_readCompanyNow, run_reconstructing, Prod.mk.injEq, Program.run_pure, mapErr_eq_ok,
    ensure_eq_ok, Except.ok.injEq] at h
  obtain ⟨_, _, ⟨-, rfl⟩, record, _, ⟨hrecord, rfl⟩, _, _, ⟨hsignature, rfl⟩, now, _, ⟨hnow, rfl⟩,
    person, _, ⟨hperson, rfl⟩, later, _, ⟨hlater, rfl⟩, _, _, ⟨⟨hchannels, hcompany⟩, rfl⟩,
    ⟨txId, height⟩, _, happend, ⟨-, rfl⟩, rfl⟩ := h
  rcases recorded_of_append ht decisionNamespace_foreign hnow hperson happend with
    ⟨e, he, -⟩ | ⟨hr, hrecorded⟩
  · cases he
  · obtain ⟨rfl, rfl⟩ := Prod.mk.inj (Except.ok.inj hr)
    exact ⟨record, later, ⟨hrecord, hsignature, hlater, hchannels, hcompany⟩, rfl, hrecorded⟩

/-- Finalising alone succeeds for a governance signer of the company now where the chain takes the
block. -/
theorem finalize_of_finalizable {key : SigningKey} {time : ℕ} {record : FinalDecisionRecordV1}
    {now later : CompanyStateV1} {person : PersonV1} (ht : t.WellFormed)
    (hstatus : d.status = .signed) (h : Finalizable d t record later) (hnow : companyNow t = .ok now)
    (hperson : authorisedSigner now .governance (Platform.publicKey key) = .ok person)
    (hchild : ChildOf t.networkId t.headBlock.header t.containsTransaction (nextBlock t
      (nextTransaction t key decisionNamespace (FinalDecisionRecordV1.codec.encode record)) time))
    (hcommits : t.Commits) :
    ∃ done finalized u, (d.finalize key time).run t = (.ok (done, finalized), u) := by
  have hname : Namespace.new decisionNamespace = .ok ⟨decisionNamespace⟩ := by decide +kernel
  have happend := @appendTransaction_of_child _ _ DecisionV1.decisionFaults _ _ _ _ _ ht hname hchild hcommits
  have hsame : later.channels.txId = record.snapshot.channelsTxId ∧
      later.company.value = record.snapshot.company := ⟨h.channels, h.company⟩
  simp only [DecisionV1.finalize, DecisionV1.expectStatus, Program.run_bind, Program.run_lift,
    ensure_of hstatus, h.assembled, h.signature, Program.run_mapError, run_readCompanyNow, hnow,
    mapErr_ok, hperson, run_reconstructing, h.reconstructs, ensure_of hsame, happend,
    Program.run_pure]
  exact ⟨_, _, _, rfl⟩

theorem finalRecord_of_signed {frozen signed : DecisionV1} {at_ : ℕ} {channel : ChannelIdV1}
    {actorKey : SigningKey} (hfreeze : d.freeze s at_ channel = .ok frozen)
    (hsign : frozen.sign actorKey = .ok signed) :
    ∃ state resolved actor key, reconstruct s at_ = .ok state ∧
      resolveChannel state channel = .ok resolved ∧ resolved.soleActor = some actor ∧
      actor.key = some key ∧ signed.finalRecord = .ok (.assemble
        (d.snapshotOf state at_ channel actor key) (Platform.sign actorKey
          (d.snapshotOf state at_ channel actor key).signingMessage.asBytes)) := by
  obtain ⟨-, state, resolved, actor, key, hstate, hresolved, hactor, hkey, rfl⟩ :=
    freeze_eq_ok.mp hfreeze
  obtain ⟨-, _, hsnapshot, -, rfl⟩ := sign_eq_ok.mp hsign
  obtain rfl := Option.some.inj hsnapshot
  exact ⟨state, resolved, actor, key, hstate, hresolved, hactor, hkey, rfl⟩

end Operations

omit [Platform] in
theorem pins_snapshotOf {d : DecisionV1} {state later : CompanyStateV1} {at_ : ℕ}
    {channel : ChannelIdV1} {actor : ActorV1} {key : PublicKey} :
    (d.snapshotOf state at_ channel actor key).pins later = true ↔
      ∀ kind ∈ pinnedKinds, later.providerOf kind = state.providerOf kind := by
  simp only [DecisionSnapshotV1.pins, Bool.and_eq_true, decide_eq_true_eq, pinnedKinds,
    List.forall_mem_cons, CompanyStateV1.providerOf, List.not_mem_nil, false_imp_iff, implies_true,
    and_true, and_assoc]
  rfl

theorem finalize_report {d done : DecisionV1} {t u : LocalChainStore} {key : SigningKey} {time : ℕ}
    {finalized : FinalizedDecisionV1} (ht : t.WellFormed)
    (h : (d.finalize key time).run t = (.ok (done, finalized), u)) :
    ∃ record later located v, Finalizable d t record later ∧ t.Extends u ∧
      located.height = t.head.height + 1 ∧
      signerAuthorisedAt u located.height located.transaction.signer = true ∧
      verifyDecision u finalized.txId = .ok v ∧
      (NoneFailed v.checks ↔ ∃ state channel resolved actor,
        Passes u located record state channel resolved actor) := by
  obtain ⟨record, later, hfinalizable, rfl, hrecorded⟩ := finalize_cases ht h
  have hversion : record.version = recordVersion := by
    have hassembled := hfinalizable.assembled
    simp only [DecisionV1.finalRecord, bind_eq_ok, pure_eq_ok, Except.ok.injEq] at hassembled
    obtain ⟨-, -, _, -, _, -, rfl⟩ := hassembled
    rfl
  have hdecode : decodeDecision (nextTransaction t key decisionNamespace
      (FinalDecisionRecordV1.codec.encode record)) = some record :=
    decodeDecision_eq_some.mpr ⟨rfl, Codec.read_encode _ _, hversion, rfl⟩
  let located : LocatedTransaction := ⟨t.head.height + 1, 0, nextTransaction t key decisionNamespace
    (FinalDecisionRecordV1.codec.encode record)⟩
  have hreport : verifyDecision u located.transaction.id = .ok ⟨located.transaction.id,
      located.height, some record, ⟨.decodes, true⟩ :: decisionChecks u located record⟩ := by
    rw [verifyDecision, hrecorded.found, orError_some, ok_bind]
    dsimp only
    rw [hdecode]
    rfl
  refine ⟨record, later, located, _, hfinalizable, hrecorded.extends_, rfl, hrecorded.signer, hreport,
    ?_⟩
  rw [noneFailed_cons, noneFailed_decisionChecks, eq_self, true_and]

/-- On the chain a decision was recorded on, it verifies exactly when its height and its pins were
settled before. -/
theorem finalize_verified_iff {d frozen signed done : DecisionV1} {s t u : LocalChainStore}
    {at_ : ℕ} {channel : ChannelIdV1} {actorKey key : SigningKey} {time : ℕ}
    {finalized : FinalizedDecisionV1} (ht : t.WellFormed) (hext : s.Extends t)
    (hfreeze : d.freeze s at_ channel = .ok frozen) (hsign : frozen.sign actorKey = .ok signed)
    (hfinal : (signed.finalize key time).run t = (.ok (done, finalized), u)) :
    (∃ v, verifyDecision u finalized.txId = .ok v ∧ NoneFailed v.checks) ↔ Settled s t at_ := by
  obtain ⟨state, resolved, actor, actorPublic, hstate, hresolved, hactor, hkey, hrecord⟩ :=
    finalRecord_of_signed hfreeze hsign
  obtain ⟨record, later, located, v, hfinalizable, hgrown, hheight, hsigner, hreport, hchecks⟩ :=
    finalize_report ht hfinal
  obtain rfl := Except.ok.inj (hfinalizable.assembled.symm.trans hrecord)
  have hlater : reconstruct t at_ = .ok later := hfinalizable.reconstructs
  have hvalid : (∃ v, verifyDecision u finalized.txId = .ok v ∧ NoneFailed v.checks) ↔
      NoneFailed v.checks := by
    simp only [hreport, Except.ok.injEq, exists_eq_left']
  rw [hvalid, hchecks]
  constructor
  · rintro ⟨state', channel', resolved', actor', hpasses⟩
    have hprecedes : at_ < located.height := hpasses.precedes
    rw [hheight] at hprecedes
    have hle : at_ ≤ t.head.height := Nat.lt_succ_iff.mp hprecedes
    have hstate' : reconstruct u at_ = .ok state' := hpasses.reconstructs
    rw [Ledger.Extends.reconstruct hgrown hle, hlater] at hstate'
    obtain rfl := Except.ok.inj hstate'
    exact ⟨hle, state, later, hstate, hlater, pins_snapshotOf.mp hpasses.pins⟩
  · intro hsettled
    have hchannel := hsettled.resolveChannel ht hext hstate hlater channel
    exact ⟨later, channel, resolved, actor, {
      decisionId := rfl
      precedes := by
        rw [hheight]
        exact Nat.lt_succ_iff.mpr hsettled.reached
      reconstructs := (Ledger.Extends.reconstruct hgrown hsettled.reached).trans hlater
      company := hfinalizable.company
      pins := pins_snapshotOf.mpr (hsettled.providers hstate hlater)
      signer := hsigner
      label := rfl
      resolves := hchannel.trans hresolved
      sole := hactor
      named := rfl
      holds := hkey
      signature := hfinalizable.signature }⟩

end Rules

section Samples

open Irena.Sample

attribute [local instance] platform signaturesVerify

/-- What the director is to decide. -/
def drafted : DecisionV1 := .draft (lit "Amend") ⟨7⟩

/-- The director's decision frozen on the chain that founds the company, at a height of its own. -/
def frozenAt (n : ℕ) : DecisionV1 :=
  { drafted with
    status := .frozen
    snapshot := some (drafted.snapshotOf { acme with at_ := n } n directorId annActor
      (publicKeyOf ann)) }

def signedAt (n : ℕ) : DecisionV1 :=
  { frozenAt n with
    status := .signed
    signature := some (Platform.sign ann (drafted.snapshotOf { acme with at_ := n } n directorId
      annActor (publicKeyOf ann)).signingMessage.asBytes) }

theorem freeze_drafted (n : ℕ) : drafted.freeze founded n directorId = .ok (frozenAt n) :=
  freeze_eq_ok.mpr ⟨rfl, _, _, annActor, _, reconstruct_above companyNow_founded (Nat.zero_le n),
    resolveChannel_at resolveChannel_acme n, soleActor_directorResolved, rfl, rfl⟩

theorem sign_frozenAt (n : ℕ) : (frozenAt n).sign ann = .ok (signedAt n) :=
  sign_eq_ok.mpr ⟨rfl, _, rfl, rfl, rfl⟩

def signedRecord (n : ℕ) : FinalDecisionRecordV1 :=
  .assemble (drafted.snapshotOf { acme with at_ := n } n directorId annActor (publicKeyOf ann))
    (Platform.sign ann (drafted.snapshotOf { acme with at_ := n } n directorId annActor
      (publicKeyOf ann)).signingMessage.asBytes)

/-- Finalising succeeds at once, whatever height the decision was frozen at. -/
theorem finalize_signedAt {n : ℕ} (hn : n ≤ 1) : ∃ done finalized u,
    ((signedAt n).finalize ann 0).run founded = (.ok (done, finalized), u) := by
  have hfresh : founded.containsTransaction (nextTransaction founded ann decisionNamespace
      (FinalDecisionRecordV1.codec.encode (signedRecord n))).id = false := by
    interval_cases n <;> decide +kernel
  have hfinalizable : Finalizable (signedAt n) founded (signedRecord n) { acme with at_ := n } :=
    ⟨rfl, checkSignature_eq_ok.mpr (SignaturesVerify.verifies ann _),
      reconstruct_above companyNow_founded (Nat.zero_le n), rfl, rfl⟩
  exact finalize_of_finalizable founded_wellFormed rfl hfinalizable companyNow_founded
    (authorisedSigner_acme 0) ((childOf_nextBlock founded_wellFormed).mpr ⟨by decide, le_rfl,
      sound_signTransaction ann _, hfresh⟩) (by decide)

/-- Frozen at the head the decision verifies. -/
theorem finalize_verified_founded : ∃ done finalized u v,
    ((signedAt 0).finalize ann 0).run founded = (.ok (done, finalized), u) ∧
      verifyDecision u finalized.txId = .ok v ∧ NoneFailed v.checks := by
  obtain ⟨done, finalized, u, hfinal⟩ := finalize_signedAt (Nat.zero_le 1)
  obtain ⟨v, hv, hchecks⟩ := (finalize_verified_iff founded_wellFormed (.refl founded)
    (freeze_drafted 0) (sign_frozenAt 0) hfinal).mpr (settled_of_le (.refl founded) companyNow_founded le_rfl)
  exact ⟨done, finalized, u, v, hfinal, hv, hchecks⟩

/-- Frozen above the head and finalised at once, the decision is on the chain and does not verify. -/
theorem finalize_above_head : ∃ done finalized u v,
    drafted.freeze founded 1 directorId = .ok (frozenAt 1) ∧
      (frozenAt 1).sign ann = .ok (signedAt 1) ∧
      ((signedAt 1).finalize ann 0).run founded = (.ok (done, finalized), u) ∧
      verifyDecision u finalized.txId = .ok v ∧ ¬ NoneFailed v.checks := by
  obtain ⟨done, finalized, u, hfinal⟩ := finalize_signedAt le_rfl
  obtain ⟨record, later, located, v, hfinalizable, -, hheight, -, hreport, hchecks⟩ :=
    finalize_report founded_wellFormed hfinal
  refine ⟨done, finalized, u, v, freeze_drafted 1, sign_frozenAt 1, hfinal, hreport, ?_⟩
  rw [hchecks]
  rintro ⟨_, _, _, _, hpasses⟩
  have hrecord : record.snapshot.height = 1 := by
    obtain rfl := Except.ok.inj hfinalizable.assembled
    rfl
  have hprecedes := hpasses.precedes
  rw [hrecord, hheight] at hprecedes
  exact absurd hprecedes (lt_irrefl 1)

end Samples

end Irena.Decision
