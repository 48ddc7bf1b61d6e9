import Irena.Decision.Verify

/-! # What a decision that verifies establishes

The checks of a decision record as one conjunction of facts about the chain, and its stability when
the chain grows. -/

namespace Irena.Decision

open Irena.Library Irena.Library.Outcome Irena.Library.Strings
open Irena.Core Irena.Bornite Irena.Prunella Irena.Prunella.LocalChainStore Irena.Ledger

theorem soleActor_eq_some {resolved : ResolvedChannelV1} {actor : ActorV1} :
    resolved.soleActor = some actor ↔
      resolved.channel.mode = .individual ∧ resolved.actors.actors.head? = some actor := by
  unfold ResolvedChannelV1.soleActor
  cases resolved.channel.mode <;> simp

theorem actors_of_soleActor {state : CompanyStateV1} {channel : ChannelIdV1}
    {resolved : ResolvedChannelV1} {actor : ActorV1} (h : resolveChannel state channel = .ok resolved)
    (hsole : resolved.soleActor = some actor) : resolved.actors.actors = [actor] := by
  obtain ⟨found, actors, -, -, hone, rfl⟩ := resolveChannel_eq_ok.mp h
  obtain ⟨hmode, hhead⟩ := soleActor_eq_some.mp hsole
  have hindividual : found.mode.isIndividual = true := by
    dsimp only at hmode
    rw [hmode]
    rfl
  obtain ⟨only, honly⟩ := List.length_eq_one_iff.mp (hone hindividual)
  dsimp only at hhead ⊢
  rw [honly] at hhead ⊢
  rw [Option.some.inj hhead]

theorem decodeDecision_eq_some {t : Transaction} {record : FinalDecisionRecordV1} :
    decodeDecision t = some record ↔ t.namespace_.value = decisionNamespace ∧
      FinalDecisionRecordV1.codec.read t.payload = some record ∧ record.version = recordVersion ∧
      FinalDecisionRecordV1.codec.encode record = t.payload := by
  simp only [decodeDecision, Option.bind_eq_bind, Option.bind_eq_some_iff, Option.guard_eq_some',
    Option.pure_def, Option.some.injEq]
  constructor
  · rintro ⟨-, hns, r, hread, -, hversion, -, hencode, rfl⟩
    exact ⟨hns, hread, hversion, hencode⟩
  · rintro ⟨hns, hread, hversion, hencode⟩
    exact ⟨(), hns, record, hread, (), hversion, (), hencode, rfl⟩

variable [Platform]

theorem checkSignature_eq_ok {record : FinalDecisionRecordV1} :
    record.checkSignature = .ok () ↔ Platform.verifyStrict record.snapshot.key
      record.snapshot.signingMessage.asBytes record.signature = some true := by
  rw [FinalDecisionRecordV1.checkSignature, mapErr_eq_ok, verifySignature_eq_ok]

/-- A key is a governance signer's when a person of that family holds it. -/
theorem signerAuthorisedAt_iff {s : LocalChainStore} {height : ℕ} {signer : PublicKey} :
    signerAuthorisedAt s height signer = true ↔ ∃ state person,
      reconstruct s height = .ok state ∧ authorisedSigner state .governance signer = .ok person := by
  unfold signerAuthorisedAt
  cases reconstruct s height with
  | error e => simp
  | ok state =>
    simp only [Except.ok.injEq, exists_and_left, exists_eq_left']
    cases authorisedSigner state .governance signer <;> simp

theorem Extends.signerAuthorisedAt {s t : LocalChainStore} (h : s.Extends t) {height : ℕ}
    (hheight : height ≤ s.head.height) (signer : PublicKey) :
    Decision.signerAuthorisedAt t height signer = Decision.signerAuthorisedAt s height signer := by
  rw [Decision.signerAuthorisedAt, Decision.signerAuthorisedAt, Ledger.Extends.reconstruct h hheight]

/-- What the checks of a decision record decide, with what each of them looked up. -/
structure Passes (s : LocalChainStore) (located : LocatedTransaction)
    (record : FinalDecisionRecordV1) (state : CompanyStateV1) (channel : ChannelIdV1)
    (resolved : ResolvedChannelV1) (actor : ActorV1) : Prop where
  decisionId : record.snapshot.id = record.decisionId
  precedes : record.snapshot.height < located.height
  reconstructs : reconstruct s record.snapshot.height = .ok state
  company : state.company.value = record.snapshot.company
  pins : record.snapshot.pins state = true
  signer : signerAuthorisedAt s located.height located.transaction.signer = true
  label : channel.value = record.snapshot.channel
  resolves : resolveChannel state channel = .ok resolved
  sole : resolved.soleActor = some actor
  named : actor.id.value = record.snapshot.actor
  holds : actor.key = some record.snapshot.key
  signature : record.checkSignature = .ok ()

theorem decisionState_eq_some {s : LocalChainStore} {snapshot : DecisionSnapshotV1}
    {channel : ChannelIdV1} {state : CompanyStateV1} :
    decisionState s snapshot = some (channel, state) ↔ channel.value = snapshot.channel ∧
      reconstruct s snapshot.height = .ok state ∧ state.company.value = snapshot.company := by
  rw [← ChannelIdV1.new_eq_ok, ← CompanyIdV1.new_eq_ok]
  unfold decisionState
  cases CompanyIdV1.new snapshot.company with
  | error e => simp
  | ok company =>
    cases ChannelIdV1.new snapshot.channel with
    | error e => simp
    | ok label =>
      cases reconstruct s snapshot.height with
      | error e => simp
      | ok current =>
        simp only [Option.ite_none_right_eq_some, Option.some.injEq, Prod.mk.injEq, Except.ok.injEq]
        constructor
        · rintro ⟨rfl, rfl, rfl⟩
          exact ⟨rfl, rfl, rfl⟩
        · rintro ⟨rfl, rfl, rfl⟩
          exact ⟨rfl, rfl, rfl⟩

omit [Platform] in
theorem noneFailed_actorChecks {state : CompanyStateV1} {channel : ChannelIdV1}
    {snapshot : DecisionSnapshotV1} :
    NoneFailed (actorChecks state channel snapshot) ↔ ∃ resolved actor,
      resolveChannel state channel = .ok resolved ∧ resolved.soleActor = some actor ∧
        actor.id.value = snapshot.actor ∧ actor.key = some snapshot.key := by
  unfold actorChecks
  cases resolveChannel state channel with
  | error e => simp
  | ok resolved =>
    dsimp only
    cases hsole : resolved.soleActor with
    | none => simp [hsole]
    | some actor => simp [hsole]

/-- A decision record has no failed check exactly when every one of these facts holds. -/
theorem noneFailed_decisionChecks {s : LocalChainStore} {located : LocatedTransaction}
    {record : FinalDecisionRecordV1} :
    NoneFailed (decisionChecks s located record) ↔ ∃ state channel resolved actor,
      Passes s located record state channel resolved actor := by
  unfold decisionChecks
  simp only [noneFailed_append, noneFailed_cons, noneFailed_nil, and_true, decide_eq_true_eq]
  constructor
  · rintro ⟨⟨hid, hprecedes⟩, hrest⟩
    rcases hstate : decisionState s record.snapshot with _ | ⟨channel, state⟩
    · simp [hstate] at hrest
    · obtain ⟨hlabel, hreconstruct, hcompany⟩ := decisionState_eq_some.mp hstate
      by_cases hpins : record.snapshot.pins state = true
      · simp only [hstate, hpins, Bool.not_true, Bool.false_eq_true, if_false, noneFailed_append,
          noneFailed_cons, noneFailed_nil, noneFailed_actorChecks, true_and, and_true,
          decide_eq_true_eq] at hrest
        obtain ⟨⟨hsigner, resolved, actor, hresolves, hsole, hactor, hkey⟩, hsignature⟩ := hrest
        exact ⟨state, channel, resolved, actor, hid, hprecedes, hreconstruct, hcompany, hpins,
          hsigner, hlabel, hresolves, hsole, hactor, hkey, hsignature⟩
      · simp [hstate, hpins] at hrest
  · rintro ⟨state, channel, resolved, actor, h⟩
    have hstate := decisionState_eq_some.mpr ⟨h.label, h.reconstructs, h.company⟩
    refine ⟨⟨h.decisionId, h.precedes⟩, ?_⟩
    simp only [hstate, h.pins, Bool.not_true, Bool.false_eq_true, if_false, noneFailed_append,
      noneFailed_cons, noneFailed_nil, noneFailed_actorChecks, true_and, and_true, decide_eq_true_eq]
    exact ⟨⟨h.signer, resolved, actor, h.resolves, h.sole, h.named, h.holds⟩, h.signature⟩

theorem Passes.mem_signer {s : LocalChainStore} {located : LocatedTransaction}
    {record : FinalDecisionRecordV1} {state : CompanyStateV1} {channel : ChannelIdV1}
    {resolved : ResolvedChannelV1} {actor : ActorV1}
    (h : Passes s located record state channel resolved actor) :
    ⟨.signerAuthorised, true⟩ ∈ decisionChecks s located record := by
  have hstate := decisionState_eq_some.mpr ⟨h.label, h.reconstructs, h.company⟩
  simp [decisionChecks, hstate, h.pins, h.signer]

/-- A decision verifies: the report has its record, and no check of it failed. -/
structure Verified (s : LocalChainStore) (txId : TxId) (v : DecisionVerificationV1)
    (record : FinalDecisionRecordV1) : Prop where
  report : verifyDecision s txId = .ok v
  valid : v.isValid = true
  record : v.record = some record

theorem verified_iff {s : LocalChainStore} {txId : TxId} {v : DecisionVerificationV1}
    {record : FinalDecisionRecordV1} :
    Verified s txId v record ↔ ∃ located, s.getTransaction txId = some located ∧
      decodeDecision located.transaction = some record ∧
      v = ⟨txId, located.height, some record, ⟨.decodes, true⟩ :: decisionChecks s located record⟩ ∧
      NoneFailed (decisionChecks s located record) := by
  constructor
  · rintro ⟨hreport, hvalid, hrecord⟩
    simp only [verifyDecision, bind_eq_ok, orError_eq_ok] at hreport
    obtain ⟨located, hlocated, hreport⟩ := hreport
    cases hdecode : decodeDecision located.transaction with
    | none =>
      simp only [hdecode, pure_eq_ok, Except.ok.injEq] at hreport
      subst hreport
      cases hrecord
    | some found =>
      simp only [hdecode, pure_eq_ok, Except.ok.injEq] at hreport
      subst hreport
      obtain rfl := Option.some.inj hrecord
      obtain ⟨-, hchecks⟩ := allPassed_iff.mp hvalid
      exact ⟨located, hlocated, hdecode, rfl, (noneFailed_cons.mp hchecks).2⟩
  · rintro ⟨located, hlocated, hdecode, rfl, hchecks⟩
    refine ⟨?_, allPassed_iff.mpr ⟨List.cons_ne_nil _ _, noneFailed_cons.mpr ⟨rfl, hchecks⟩⟩, rfl⟩
    simp only [verifyDecision, hlocated, orError_some, ok_bind, hdecode, pure_eq_ok]

theorem Verified.passes {s : LocalChainStore} {txId : TxId} {v : DecisionVerificationV1}
    {record : FinalDecisionRecordV1} (h : Verified s txId v record) :
    ∃ located state channel resolved actor, s.getTransaction txId = some located ∧
      v.height = located.height ∧ Passes s located record state channel resolved actor := by
  obtain ⟨located, hlocated, -, rfl, hchecks⟩ := verified_iff.mp h
  obtain ⟨state, channel, resolved, actor, hpasses⟩ := noneFailed_decisionChecks.mp hchecks
  exact ⟨located, state, channel, resolved, actor, hlocated, rfl, hpasses⟩

theorem Verified.unique {s : LocalChainStore} {txId : TxId} {v v' : DecisionVerificationV1}
    {record record' : FinalDecisionRecordV1} (h : Verified s txId v record)
    (k : Verified s txId v' record') : v = v' ∧ record = record' := by
  obtain rfl := Except.ok.inj (h.report.symm.trans k.report)
  exact ⟨rfl, Option.some.inj (h.record.symm.trans k.record)⟩

theorem Passes.extends {s t : LocalChainStore} {located : LocatedTransaction}
    {record : FinalDecisionRecordV1} {state : CompanyStateV1} {channel : ChannelIdV1}
    {resolved : ResolvedChannelV1} {actor : ActorV1}
    (h : Passes s located record state channel resolved actor) (hext : s.Extends t)
    (hheight : located.height ≤ s.head.height) :
    Passes t located record state channel resolved actor :=
  { h with
    reconstructs := by
      rw [Ledger.Extends.reconstruct hext (h.precedes.le.trans hheight)]
      exact h.reconstructs
    signer := by
      rw [Extends.signerAuthorisedAt hext hheight]
      exact h.signer }

theorem Verified.extends {s t : LocalChainStore} {txId : TxId} {v : DecisionVerificationV1}
    {record : FinalDecisionRecordV1} (h : Verified s txId v record) (hext : s.Extends t) :
    ∃ v', Verified t txId v' record ∧ v'.height = v.height := by
  obtain ⟨located, hlocated, hdecode, rfl, hchecks⟩ := verified_iff.mp h
  obtain ⟨-, b, hb, -⟩ := getTransaction_some hlocated
  obtain ⟨state, channel, resolved, actor, hpasses⟩ := noneFailed_decisionChecks.mp hchecks
  have hpasses' := hpasses.extends hext (height_le_of_getBlock hb)
  exact ⟨_, verified_iff.mpr ⟨located, hext.getTransaction hlocated, hdecode, rfl,
    noneFailed_decisionChecks.mpr ⟨state, channel, resolved, actor, hpasses'⟩⟩, rfl⟩

end Irena.Decision
