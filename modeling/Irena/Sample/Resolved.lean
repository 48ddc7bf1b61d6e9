import Irena.Resolution.Execution
import Irena.Sample.Chain

/-! # Resolutions to run on

The director decides on a body, resolves it on that decision, publishes an amendment and records
its execution. What each of these transactions establishes holds on every chain that starts so. -/

namespace Irena.Sample

open Irena.Library Irena.Library.Outcome Irena.Library.Strings Irena.Library.Utf8
open Irena.Core Irena.Bornite Irena.Prunella Irena.Prunella.LocalChainStore Irena.Ledger
open Irena.Decision Irena.Resolution

attribute [local instance] platform signaturesVerify

/-- What the director decides on, pinned to the company as founded. -/
def decisionSnapshot (body : Text) : DecisionSnapshotV1 where
  company := company.value
  subject := lit "Amend"
  proposalDigest := proposalDigest body
  height := 0
  genesisTxId := genesisTransaction.id
  sharesTxId := genesisTransaction.id
  channelsTxId := genesisTransaction.id
  identitiesTxId := genesisTransaction.id
  channel := directorId.value
  actor := annId.value
  key := publicKeyOf ann

def decisionRecord (body : Text) : FinalDecisionRecordV1 :=
  .assemble (decisionSnapshot body)
    (Platform.sign ann (decisionSnapshot body).signingMessage.asBytes)

def decisionTransaction (body : Text) : Transaction :=
  signed ann decisionNamespace (FinalDecisionRecordV1.codec.encode (decisionRecord body)) 0

def directorAuthority (body : Text) : AuthorityV1 :=
  .individual directorId.value (decisionTransaction body).id

def resolutionRecord (target : AmendmentTargetV1) (body : Text) : ResolutionRecordV1 :=
  ⟨Sample.company, notarisation, lit "Amend", directorAuthority body, .amendment target body⟩

def resolutionXml (target : AmendmentTargetV1) (body : Text) : Text :=
  resolutionText Sample.company notarisation (lit "Amend") (directorAuthority body) (.amendment target body)

def resolutionTransaction (target : AmendmentTargetV1) (body : Text) (nonce : ℕ) : Transaction :=
  signed ann resolutionNamespace (utf8 (resolutionXml target body)) nonce

def amendmentXml (target : AmendmentTargetV1) (published : Text) : Text :=
  recordText target.recordKind Sample.company (some genesisTransaction.id) notarisation published

/-- An amendment of the company as founded. -/
def amendmentTransaction (target : AmendmentTargetV1) (published : Text) : Transaction :=
  signed ann target.recordKind.namespaceOf (utf8 (amendmentXml target published)) 0

def executionOf (target : AmendmentTargetV1) (body published : Text) (nonce : ℕ) :
    ResolutionExecutionV1 where
  resolutionId := ⟨(resolutionTransaction target body nonce).id⟩
  amendmentTx := (amendmentTransaction target published).id
  target := target
  replacedTx := genesisTransaction.id
  bodyDigest := proposalDigest body

def executionXml (target : AmendmentTargetV1) (body published : Text) (nonce : ℕ) : Text :=
  executionText Sample.company notarisation (executionOf target body published nonce)

/-- The record that links a resolution to an amendment. -/
def executionTransaction (target : AmendmentTargetV1) (body published : Text) (nonce : ℕ) :
    Transaction :=
  signed ann executionNamespace (utf8 (executionXml target body published nonce)) 0

theorem decision_foreign (body : Text) :
    kindOfNamespace (decisionTransaction body).namespace_.value = none := by
  change kindOfNamespace decisionNamespace = none
  decide +kernel

theorem resolution_foreign (target : AmendmentTargetV1) (body : Text) (nonce : ℕ) :
    kindOfNamespace (resolutionTransaction target body nonce).namespace_.value = none := by
  change kindOfNamespace resolutionNamespace = none
  decide +kernel

/-- What the director's channel resolves to. -/
def directorResolved : ResolvedChannelV1 :=
  (resolveChannel acme directorId).toOption.get (by decide +kernel)

theorem resolveChannel_acme : resolveChannel acme directorId = .ok directorResolved :=
  eq_ok_of_toOption _

def annActor : ActorV1 :=
  ⟨annId, ⟨1, Nat.one_pos, u64Max_pos⟩, some (publicKeyOf ann), true⟩

theorem soleActor_directorResolved : directorResolved.soleActor = some annActor := by
  decide +kernel

section Chain

variable {target : AmendmentTargetV1} {body : Text} {more : List (List Transaction)}

/-- The director's decision passes every check that is not about who publishes it. -/
theorem decision_passes {s : LocalChainStore} {key : SigningKey} {n : ℕ} (i : ℕ)
    (hs : reconstruct s 0 = .ok acme) (hn : 0 < n)
    (hsigner : signerAuthorisedAt s n (publicKeyOf key) = true) :
    Decision.Passes s ⟨n, i, signed key decisionNamespace
      (FinalDecisionRecordV1.codec.encode (decisionRecord body)) 0⟩ (decisionRecord body) acme
        directorId directorResolved annActor where
  decisionId := rfl
  precedes := hn
  reconstructs := hs
  company := rfl
  pins := by simp [DecisionSnapshotV1.pins, decisionRecord, FinalDecisionRecordV1.assemble,
    decisionSnapshot, acme, InForceV1.fromRecord, foundingRecord]
  signer := hsigner
  label := rfl
  resolves := resolveChannel_acme
  sole := soleActor_directorResolved
  named := rfl
  holds := rfl
  signature := checkSignature_eq_ok.mpr (SignaturesVerify.verifies ann _)

theorem decodeDecision_signed (key : SigningKey) (body : Text) :
    decodeDecision (signed key decisionNamespace
      (FinalDecisionRecordV1.codec.encode (decisionRecord body)) 0) = some (decisionRecord body) :=
  decodeDecision_eq_some.mpr ⟨rfl, Codec.read_encode _ _, rfl, rfl⟩

/-- The director's decision verifies. -/
theorem decision_verified (hs : (grown founded ([decisionTransaction body] :: more)).WellFormed) :
    ∃ report, Decision.Verified (grown founded ([decisionTransaction body] :: more))
      (decisionTransaction body).id report (decisionRecord body) ∧ report.height = 1 := by
  have hfounding := reconstruct_grown [] ([decisionTransaction body] :: more) (by simp)
  have hdecided := reconstruct_grown [[decisionTransaction body]] more
    (by simpa using decision_foreign body)
  refine ⟨_, verified_iff.mpr ⟨_, getTransaction_grown hs (i := 0) (j := 0) rfl rfl,
    decodeDecision_signed ann body, rfl, noneFailed_decisionChecks.mpr
      ⟨acme, directorId, directorResolved, annActor, ?_⟩⟩, rfl⟩
  exact decision_passes 0 hfounding Nat.one_pos
    (signerAuthorisedAt_iff.mpr ⟨_, _, hdecided, authorisedSigner_acme 1⟩)

/-- The approval that the decision gives. -/
def directorApproval (body : Text) : ApprovalV1 :=
  .ofDecision directorId.value (decisionTransaction body).id (decisionSnapshot body) acme

theorem approved (hs : (grown founded ([decisionTransaction body] :: more)).WellFormed) :
    Approved (grown founded ([decisionTransaction body] :: more)) (directorAuthority body)
      (directorApproval body) 1 := by
  obtain ⟨report, hverified, hheight⟩ := decision_verified hs
  rw [← hheight]
  exact .individual hverified rfl (reconstruct_grown [] _ (by simp))

theorem baseOf_directorApproval (body : Text) (target : AmendmentTargetV1) :
    (directorApproval body).baseOf target = genesisTransaction.id := by
  cases target <;> rfl

theorem actor_directorApproval (body : Text) : (directorApproval body).actor = some annId.value := rfl

theorem scope_directorApproval {s : LocalChainStore} (hs : reconstruct s 0 = .ok acme) (body : Text)
    (target : AmendmentTargetV1) : checkScope s (directorApproval body) target = .ok () := by
  refine checkScope_eq_ok.mpr ⟨acme, director, everyPart, hs, ?_, rfl, rfl, ?_⟩
  · change director ∈ channels.channels
    decide +kernel
  · cases target <;> decide +kernel

variable {rs : List Transaction}

/-- A resolution that rests on the decision verifies. -/
theorem resolution_passes
    (hs : (grown founded ([decisionTransaction body] :: rs :: more)).WellFormed)
    (hrs : ∀ t ∈ rs, t.namespace_.value = resolutionNamespace) (i nonce : ℕ) :
    Passes (grown founded ([decisionTransaction body] :: rs :: more))
      ⟨2, i, resolutionTransaction target body nonce⟩ (resolutionRecord target body)
      (directorApproval body) 1 { acme with at_ := 2 } := by
  have hfounding := reconstruct_grown [] ([decisionTransaction body] :: rs :: more) (by simp)
  have hforeign : ∀ t ∈ rs, kindOfNamespace t.namespace_.value = none := by
    intro t ht
    rw [hrs t ht]
    decide +kernel
  have hresolved := reconstruct_grown [[decisionTransaction body], rs] more
    (by simpa [decision_foreign] using hforeign)
  exact {
    approved := approved hs
    earlier := Nat.one_lt_two
    reconstructs := hresolved
    inScope := fun part _ => scope_directorApproval hfounding body part
    digest := rfl
    company := rfl
    owner := rfl
    signer := signerAuthorisedAt_iff.mpr ⟨_, _, hresolved, authorisedSigner_acme 2⟩ }

variable {published : Text} {record : RecordBodyV1} {es : List Transaction}

/-- What the amendment reads as. -/
def amendmentRecord (record : RecordBodyV1) : IrenaRecordV1 :=
  ⟨Sample.company, some genesisTransaction.id, notarisation, record⟩

def amendmentRef (target : AmendmentTargetV1) (published : Text) (record : RecordBodyV1)
    (height index : ℕ) : RecordRefV1 :=
  ⟨height, index, (amendmentTransaction target published).id, publicKeyOf ann,
    amendmentRecord record⟩

theorem recordIn_amendment (hread : readRecord (amendmentXml target published) =
      .ok (amendmentRecord record)) (hkind : record.kind = target.recordKind) {height index : ℕ}
    (hindex : index ≤ u32Max) :
    recordIn ⟨height, index, amendmentTransaction target published⟩ =
      some (amendmentRef target published record height index) := by
  refine recordIn_eq_some.mpr ⟨_, kindOfNamespace_namespaceOf target.recordKind, ?_⟩
  refine recordAt_eq_ok.mpr ⟨_, _, fromUtf8_utf8 _, hread, ?_, hindex, rfl⟩
  rw [← hkind]
  rfl

/-- A company with an amendment applied. -/
def amendedBy (state : CompanyStateV1) (found : RecordRefV1) : CompanyStateV1 :=
  { state.replace found with applied := (state.replace found).applied ++ [found] }

/-- An amendment of a part still provided by the founding record is applied. -/
theorem stepAt_amendment {s : CompanyStateV1} {n i : ℕ}
    (hread : readRecord (amendmentXml target published) = .ok (amendmentRecord record))
    (hkind : record.kind = target.recordKind) (hi : i ≤ u32Max)
    (hcompany : s.company = Sample.company)
    (hsigner : authorisedSigner s .company (publicKeyOf ann) = .ok (person annId ann))
    (hprovider : s.providerOf target.recordKind = genesisTransaction.id)
    (hopen : lockoutAfter (s.replace (amendmentRef target published record n i)).identities.value
      (s.replace (amendmentRef target published record n i)).authorisation.value = none) :
    stepAt (some s) ⟨n, i, amendmentTransaction target published⟩ =
      .ok (some (amendedBy s (amendmentRef target published record n i))) := by
  refine stepAt_eq_ok.mpr (.inr ⟨_, _, recordIn_amendment hread hkind hi, rfl,
    .inr ⟨s, rfl, apply_eq_ok.mpr ⟨?_, rfl⟩⟩⟩)
  refine ⟨hcompany.symm, ?_, ⟨_, hsigner⟩, ?_, hopen⟩
  · change record.kind ≠ _
    rw [hkind]
    exact target.recordKind_ne
  · change some genesisTransaction.id = some (s.providerOf record.kind)
    rw [hkind, hprovider]

/-- The company once the amendments of the third block are applied. -/
theorem reconstruct_steps (body : Text) {as : List Transaction} {next : ℕ → CompanyStateV1}
    (hrs : ∀ t ∈ rs, t.namespace_.value = resolutionNamespace)
    (hes : ∀ t ∈ es, t.namespace_.value = executionNamespace)
    (hsteps : ∀ height, (as.zipIdx.map fun p => LocatedTransaction.mk 3 p.2 p.1).foldlM stepAt
      (some { acme with at_ := height }) = .ok (some (next height))) :
    ∃ height, reconstruct (grown founded [[decisionTransaction body], rs, as, es]) 4 =
      .ok { next height with at_ := 4 } := by
  have hrsForeign : ∀ t ∈ rs, kindOfNamespace t.namespace_.value = none := by
    intro t ht
    rw [hrs t ht]
    decide +kernel
  have hesForeign : ∀ t ∈ es, kindOfNamespace t.namespace_.value = none := by
    intro t ht
    rw [hes t ht]
    decide +kernel
  obtain ⟨height, hnow⟩ := companyNow_steps [[decisionTransaction body], rs]
    (by simpa [decision_foreign] using hrsForeign) hsteps
  have hexecuted := companyNow_grown hnow (b := [es]) (by simpa using hesForeign)
  rw [← grown_append] at hexecuted
  exact ⟨height, hexecuted⟩

/-- The first execution in the first block that holds one. -/
theorem findExecution_grown (blocks : List (List Transaction)) {resolutionTx : TxId} {e : Transaction}
    (hblocks : ∀ transactions ∈ blocks, ∀ t ∈ transactions,
      t.namespace_.value ≠ executionNamespace)
    (hfirst : es.find? (executes resolutionTx) = some e) :
    findExecution (grown founded (blocks ++ [es])) resolutionTx = some (e.id, blocks.length + 1) := by
  have hnone : findExecution (grown founded blocks) resolutionTx = none := by
    refine findExecution_eq_none.mpr fun t ht => ?_
    have hne : t.namespace_.value ≠ executionNamespace := by
      rw [transactions_grown, List.mem_append, List.mem_flatten] at ht
      rcases ht with hgenesis | ⟨transactions, hmem, ht⟩
      · rw [List.mem_singleton.mp hgenesis]
        change RecordKindV1.companyGenesis.namespaceOf ≠ executionNamespace
        decide +kernel
      · exact hblocks transactions hmem t ht
    rw [executes, if_pos hne]
  have hhead : (grown founded blocks).head.height = blocks.length := by
    rw [head_grown]
    exact Nat.zero_add _
  rw [findExecution, iterBlocks_head] at hnone ⊢
  rw [grown_append, grown, List.foldl_cons, List.foldl_nil, blocks_push, List.findSome?_append,
    hnone, Option.none_or, List.findSome?_singleton]
  change (es.find? (executes resolutionTx)).map _ = _
  rw [hfirst, Option.map_some, blockOf, hhead]

/-- An execution verifies on a chain that goes on so. -/
theorem executed {as : List Transaction} {i j k nonce : ℕ} {final : CompanyStateV1}
    {found : RecordRefV1}
    (hs : (grown founded [[decisionTransaction body], rs, as, es]).WellFormed)
    (hr : rs[i]? = some (resolutionTransaction target body nonce))
    (ha : as[j]? = some (amendmentTransaction target published))
    (he : es[k]? = some (executionTransaction target body published nonce))
    (hrs : ∀ t ∈ rs, t.namespace_.value = resolutionNamespace)
    (has : ∀ t ∈ as, t.namespace_.value ≠ executionNamespace)
    (hresolution : readResolutionRecord (resolutionXml target body) =
      .ok (resolutionRecord target body))
    (hamendment : readRecord (amendmentXml target published) = .ok (amendmentRecord record))
    (hexecution : readExecutionRecord (executionXml target body published nonce) =
      .ok ⟨Sample.company, notarisation, executionOf target body published nonce⟩)
    (hfirst : es.find? (executes (resolutionTransaction target body nonce).id) =
      some (executionTransaction target body published nonce))
    (hkind : record.kind = target.recordKind)
    (hpublishes : publishes (amendmentXml target published) record body = true)
    (hdemotion : ∃ found, demotionBetween annId acme target record = .ok found ∧
      ∀ verdict, found = some verdict → verdict.holds = true)
    (hfinal : reconstruct (grown founded [[decisionTransaction body], rs, as, es]) 4 = .ok final)
    (hfound : found ∈ final.historyOf target.recordKind)
    (hid : found.txId = (amendmentTransaction target published).id)
    (hsigner : signerOf final.identities.value final.authorisation.value .governance
      (publicKeyOf ann) = .ok (person annId ann)) :
    Executed (grown founded [[decisionTransaction body], rs, as, es])
      (executionTransaction target body published nonce).id
      ⟨4, k, executionTransaction target body published nonce⟩
      ⟨2, i, resolutionTransaction target body nonce⟩
      ⟨3, j, amendmentTransaction target published⟩ (executionOf target body published nonce)
      (resolutionRecord target body) (directorApproval body) body
      (amendmentXml target published, amendmentRecord record) := by
  have hforeign : ∀ t ∈ rs, kindOfNamespace t.namespace_.value = none := by
    intro t ht
    rw [hrs t ht]
    decide +kernel
  have hresolved := reconstruct_grown [[decisionTransaction body], rs] [as, es]
    (by simpa [decision_foreign] using hforeign)
  have hfind := findExecution_grown [[decisionTransaction body], rs, as] (by
      simp only [List.mem_cons, List.not_mem_nil, or_false, forall_eq_or_imp, forall_eq]
      refine ⟨?_, fun t ht => ?_, has⟩
      · change decisionNamespace ≠ executionNamespace
        decide +kernel
      · rw [hrs t ht]
        decide +kernel) hfirst
  exact {
    found := getTransaction_grown hs (i := 3) rfl he
    decodes := decodeExecution_eq_some.mpr ⟨rfl, _, _, fromUtf8_utf8 _, hexecution, rfl⟩
    resolved := decodeResolution_eq_some.mpr ⟨rfl, _, fromUtf8_utf8 _, hresolution⟩
    verifies := ⟨_, _, resolution_passes hs hrs i nonce⟩
    executes := {
      named := getTransaction_grown hs (i := 1) rfl hr
      authorises := rfl
      amends := getTransaction_grown hs (i := 2) rfl ha
      reads := by
        have htext : fromUtf8 (amendmentTransaction target published).payload =
            some (amendmentXml target published) := fromUtf8_utf8 _
        simp [amendmentOf, htext, hamendment, Except.toOption]
      kind := hkind
      company := rfl
      publishes := hpublishes
      bodyDigest := rfl
      approved := rfl
      supersedes := congrArg some (baseOf_directorApproval body target).symm
      replaced := (baseOf_directorApproval body target).symm
      demotion := by
        obtain ⟨found, hfound, hholds⟩ := hdemotion
        exact demotionHolds_of_between (actor_directorApproval body) hresolved hfound hholds
      applied := applied_of_mem hfinal hfound hid
      earlier := Nat.lt_succ_self 2
      notLater := Nat.le_succ 3
      signer := signerAuthorisedAt_iff.mpr ⟨_, _, hfinal, hsigner⟩
      once := ⟨_, hfind⟩ } }

/-- An execution record executes the one resolution it names. -/
theorem executes_execution {nonce : ℕ} {resolutionTx : TxId}
    (hexecution : readExecutionRecord (executionXml target body published nonce) =
      .ok ⟨Sample.company, notarisation, executionOf target body published nonce⟩) :
    executes resolutionTx (executionTransaction target body published nonce) = true ↔
      (resolutionTransaction target body nonce).id = resolutionTx := by
  have hdecode : decodeExecution (executionTransaction target body published nonce) =
      some (executionOf target body published nonce) :=
    decodeExecution_eq_some.mpr ⟨rfl, _, _, fromUtf8_utf8 _, hexecution, rfl⟩
  rw [executes_iff, hdecode]
  constructor
  · rintro ⟨_, hsome, rfl⟩
    rw [← Option.some.inj hsome]
    rfl
  · exact fun hid => ⟨_, rfl, hid⟩

end Chain

/-- Two resolutions on one decision to make the director a shareholder, one amendment, and for each
resolution an execution that names it. -/
def twiceBlocks : List (List Transaction) :=
  [[decisionTransaction widenedXml],
    [resolutionTransaction .shareStructure widenedXml 0,
      resolutionTransaction .shareStructure widenedXml 1],
    [amendmentTransaction .shareStructure widenedXml],
    [executionTransaction .shareStructure widenedXml widenedXml 0,
      executionTransaction .shareStructure widenedXml widenedXml 1]]

def twice : LocalChainStore := grown founded twiceBlocks

theorem twice_reads :
    ((founded.transactions ++ twiceBlocks.flatten).map Transaction.id).Nodup ∧
    readResolutionRecord (resolutionXml .shareStructure widenedXml) =
      .ok (resolutionRecord .shareStructure widenedXml) ∧
    readRecord (amendmentXml .shareStructure widenedXml) =
      .ok (amendmentRecord (.shareStructure widened)) ∧
    readExecutionRecord (executionXml .shareStructure widenedXml widenedXml 0) =
      .ok ⟨Sample.company, notarisation, executionOf .shareStructure widenedXml widenedXml 0⟩ ∧
    readExecutionRecord (executionXml .shareStructure widenedXml widenedXml 1) =
      .ok ⟨Sample.company, notarisation, executionOf .shareStructure widenedXml widenedXml 1⟩ ∧
    publishes (amendmentXml .shareStructure widenedXml) (.shareStructure widened) widenedXml =
      true := by
  decide +kernel

theorem twice_wellFormed : twice.WellFormed := by
  refine wellFormed_grown founded_wellFormed (by decide) rfl (by decide) ?_ twice_reads.1
  simp only [twiceBlocks, List.mem_cons, List.not_mem_nil, or_false, forall_eq_or_imp, forall_eq]
  exact ⟨sound_signed .., ⟨sound_signed .., sound_signed ..⟩, sound_signed ..,
    sound_signed .., sound_signed ..⟩

theorem twice_ne :
    (resolutionTransaction .shareStructure widenedXml 0).id ≠
        (resolutionTransaction .shareStructure widenedXml 1).id ∧
      (executionTransaction .shareStructure widenedXml widenedXml 0).id ≠
        (executionTransaction .shareStructure widenedXml widenedXml 1).id := by
  have hnodup := twice_reads.1
  simp only [show founded.transactions = [genesisTransaction] from rfl, twiceBlocks,
    List.flatten_cons, List.flatten_nil, List.cons_append, List.nil_append, List.map_cons,
    List.map_nil, List.nodup_cons, List.mem_cons, not_or] at hnodup
  obtain ⟨-, -, ⟨hresolutions, -⟩, -, -, ⟨hexecutions, -⟩, -⟩ := hnodup
  exact ⟨hresolutions, hexecutions⟩

theorem twice_steps (height : ℕ) :
    stepAt (some { acme with at_ := height }) ⟨3, 0, amendmentTransaction .shareStructure widenedXml⟩ =
      .ok (some (amendedBy { acme with at_ := height }
        (amendmentRef .shareStructure widenedXml (.shareStructure widened) 3 0))) :=
  stepAt_amendment twice_reads.2.2.1 rfl (by decide) rfl companySigner_acme rfl
    (open_of_companyNow companyNow_founded :)

theorem twice_before : ∃ height,
    companyBefore twice ⟨3, 0, amendmentTransaction .shareStructure widenedXml⟩ =
      .ok (some { acme with at_ := height }) := by
  refine companyBefore_grown [[decisionTransaction widenedXml],
    [resolutionTransaction .shareStructure widenedXml 0,
      resolutionTransaction .shareStructure widenedXml 1]] twice_wellFormed ?_
  simp only [List.mem_cons, List.not_mem_nil, or_false, forall_eq_or_imp, forall_eq]
  exact ⟨decision_foreign _, resolution_foreign .., resolution_foreign ..⟩

/-- Each of the two executions verifies. -/
theorem twice_executed :
    (∃ amendment, Executed twice (executionTransaction .shareStructure widenedXml widenedXml 0).id
      ⟨4, 0, executionTransaction .shareStructure widenedXml widenedXml 0⟩
      ⟨2, 0, resolutionTransaction .shareStructure widenedXml 0⟩
      ⟨3, 0, amendmentTransaction .shareStructure widenedXml⟩
      (executionOf .shareStructure widenedXml widenedXml 0)
      (resolutionRecord .shareStructure widenedXml) (directorApproval widenedXml) widenedXml amendment) ∧
    ∃ amendment, Executed twice (executionTransaction .shareStructure widenedXml widenedXml 1).id
      ⟨4, 1, executionTransaction .shareStructure widenedXml widenedXml 1⟩
      ⟨2, 1, resolutionTransaction .shareStructure widenedXml 1⟩
      ⟨3, 0, amendmentTransaction .shareStructure widenedXml⟩
      (executionOf .shareStructure widenedXml widenedXml 1)
      (resolutionRecord .shareStructure widenedXml) (directorApproval widenedXml) widenedXml amendment := by
  obtain ⟨-, hresolution, hamendment, hfirst, hsecond, hpublishes⟩ := twice_reads
  have hne := twice_ne.1
  have hrs : ∀ t ∈ [resolutionTransaction .shareStructure widenedXml 0,
      resolutionTransaction .shareStructure widenedXml 1],
      t.namespace_.value = resolutionNamespace := by
    simp only [List.mem_cons, List.not_mem_nil, or_false, forall_eq_or_imp, forall_eq]
    exact ⟨rfl, rfl⟩
  have hes : ∀ t ∈ [executionTransaction .shareStructure widenedXml widenedXml 0,
      executionTransaction .shareStructure widenedXml widenedXml 1],
      t.namespace_.value = executionNamespace := by
    simp only [List.mem_cons, List.not_mem_nil, or_false, forall_eq_or_imp, forall_eq]
    exact ⟨rfl, rfl⟩
  have hsteps : ∀ height, ([amendmentTransaction .shareStructure widenedXml].zipIdx.map
      fun p => LocatedTransaction.mk 3 p.2 p.1).foldlM stepAt (some { acme with at_ := height }) =
        .ok (some (amendedBy { acme with at_ := height }
          (amendmentRef .shareStructure widenedXml (.shareStructure widened) 3 0))) := by
    intro height
    simp only [List.zipIdx_cons, List.zipIdx_nil, List.map_cons, List.map_nil]
    rw [List.foldlM_cons, twice_steps height, ok_bind, List.foldlM_nil, pure_eq_ok]
  obtain ⟨height, hfinal⟩ := reconstruct_steps widenedXml hrs hes hsteps
  have hfound : amendmentRef .shareStructure widenedXml (.shareStructure widened) 3 0 ∈
      ({ amendedBy { acme with at_ := height }
        (amendmentRef .shareStructure widenedXml (.shareStructure widened) 3 0) with
          at_ := 4 } : CompanyStateV1).historyOf .shareStructure :=
    List.mem_filter.mpr ⟨List.mem_append_right _ (List.mem_singleton_self _),
      decide_eq_true (.inr rfl)⟩
  have has : ∀ t ∈ [amendmentTransaction .shareStructure widenedXml],
      t.namespace_.value ≠ executionNamespace := by
    simp only [List.mem_cons, List.not_mem_nil, or_false, forall_eq]
    change RecordKindV1.shareStructure.namespaceOf ≠ executionNamespace
    decide +kernel
  constructor
  · refine ⟨_, executed (j := 0) twice_wellFormed rfl rfl rfl hrs has hresolution hamendment hfirst
      ?_ rfl hpublishes ⟨none, rfl, by simp⟩ hfinal hfound rfl (authorisedSigner_acme 0)⟩
    exact List.find?_cons_of_pos ((executes_execution hfirst).mpr rfl)
  · refine ⟨_, executed (j := 0) twice_wellFormed rfl rfl rfl hrs has hresolution hamendment hsecond
      ?_ rfl hpublishes ⟨none, rfl, by simp⟩ hfinal hfound rfl (authorisedSigner_acme 0)⟩
    rw [List.find?_cons_of_neg fun h => hne ((executes_execution hfirst).mp h)]
    exact List.find?_cons_of_pos ((executes_execution hsecond).mpr rfl)

end Irena.Sample
