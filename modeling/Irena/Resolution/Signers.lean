import Irena.Ledger.Position
import Irena.Sample.Resolved

/-! # Who signs a governance record

Every verifier judges the signer of a governance record against the company at the height of the
record's block, which the whole block has made, and not against the company that the record found. -/

namespace Irena.Resolution

open Irena.Library Irena.Library.Outcome Irena.Library.Strings Irena.Library.Utf8
open Irena.Core Irena.Bornite Irena.Prunella Irena.Prunella.LocalChainStore Irena.Ledger
open Irena.Decision (signerAuthorisedAt decisionNamespace verifyDecision)
open Irena.Vote (voteNamespace)
open Irena.Meeting (meetingNamespace verifyMeeting)

/-- The parts that say whose keys may sign governance records, once a company is founded. -/
abbrev Voices := Option (IdentitiesV1 × AuthorisationV1)

def voicesOf (state : Option CompanyStateV1) : Voices :=
  state.map fun company => (company.identities.value, company.authorisation.value)

/-- A governance signer holds the key. -/
def GovernanceKey (voices : Voices) (key : PublicKey) : Prop :=
  ∃ parts person, voices = some parts ∧ person ∈ parts.1.persons ∧ person.key = some key ∧
    ⟨person.id, .governance⟩ ∈ parts.2.signers

/-- What a record makes of the parts. -/
def voicesAfter (voices : Voices) (found : RecordRefV1) : Voices :=
  match found.record.body with
  | .companyGenesis genesis => some (genesis.identities, genesis.authorisation)
  | .identities identities => voices.map fun parts => (identities, parts.2)
  | .authorisation authorisation => voices.map fun parts => (parts.1, authorisation)
  | _ => voices

theorem governanceKey_iff {state : CompanyStateV1} {key : PublicKey} :
    GovernanceKey (voicesOf (some state)) key ↔
      ∃ person, authorisedSigner state .governance key = .ok person := by
  unfold GovernanceKey voicesOf authorisedSigner
  simp only [signerOf_eq_ok, IdentitiesV1.holderOf_eq_some, AuthorisationV1.allows_iff,
    Option.map_some, Option.some.injEq, and_assoc]
  constructor
  · rintro ⟨_, person, rfl, hperson⟩
    exact ⟨person, hperson⟩
  · rintro ⟨person, hperson⟩
    exact ⟨_, person, rfl, hperson⟩

theorem not_governanceKey_none (key : PublicKey) : ¬ GovernanceKey none key := by
  rintro ⟨parts, person, hnone, -⟩
  cases hnone

section Rules

variable [Platform]

theorem voicesOf_stepAt {state next : Option CompanyStateV1} {l : LocatedTransaction}
    (h : stepAt state l = .ok next) :
    voicesOf next = (recordIn l).elim (voicesOf state) (voicesAfter (voicesOf state)) := by
  rcases stepAt_eq_ok.mp h with ⟨hns, rfl⟩ | ⟨found, company, hfound, rfl, hstep⟩
  · have hnone : recordIn l = none := by simp [recordIn, hns]
    rw [hnone]
    rfl
  · rw [hfound, Option.elim_some]
    rcases hstep with ⟨rfl, hfounds⟩ | ⟨current, rfl, happly⟩
    · obtain ⟨genesis, hbody, -, -, rfl⟩ := foundCompany_eq_ok.mp hfounds
      simp only [voicesAfter, hbody]
      rfl
    · obtain ⟨hamends, rfl⟩ := apply_eq_ok.mp happly
      have hkind := hamends.amendment
      unfold IrenaRecordV1.kind at hkind
      unfold voicesAfter CompanyStateV1.replace
      cases hbody : found.record.body with
      | companyGenesis genesis =>
        rw [hbody] at hkind
        exact absurd rfl hkind
      | _ => rfl

theorem voicesOf_foldlM {ls : List LocatedTransaction} {state next : Option CompanyStateV1}
    (h : ls.foldlM stepAt state = .ok next) :
    voicesOf next = (ls.filterMap recordIn).foldl voicesAfter (voicesOf state) := by
  induction ls generalizing state with
  | nil =>
    obtain rfl := Except.ok.inj h
    rfl
  | cons l ls ih =>
    rw [List.foldlM_cons, bind_eq_ok] at h
    obtain ⟨middle, hmiddle, h⟩ := h
    rw [ih h, voicesOf_stepAt hmiddle]
    cases hrecord : recordIn l with
    | none => rw [List.filterMap_cons_none hrecord, Option.elim_none]
    | some found => rw [List.filterMap_cons_some hrecord, Option.elim_some, List.foldl_cons]

theorem signerAuthorisedAt_eq {s : LocalChainStore} {height : ℕ} {key : PublicKey} :
    signerAuthorisedAt s height key = true ↔ ∃ state, reconstruct s height = .ok state ∧
      GovernanceKey (voicesOf (some state)) key := by
  simp only [Decision.signerAuthorisedAt_iff, governanceKey_iff, exists_and_left]

/-- The key is a governance signer's in the company after exactly the transactions before one. -/
def AuthorisedBefore (s : LocalChainStore) (l : LocatedTransaction) (key : PublicKey) : Prop :=
  ∃ state person, companyBefore s l = .ok (some state) ∧
    authorisedSigner state .governance key = .ok person

/-- The records that follow a transaction in its own block leave a key a governance signer's that
was none when the transaction was reached. -/
def GrantedLater (s : LocalChainStore) (l : LocatedTransaction) (key : PublicKey) : Prop :=
  ∃ found, companyBefore s l = .ok found ∧ ¬ GovernanceKey (voicesOf found) key ∧
    GovernanceKey (((laterInBlock s l).filterMap recordIn).foldl voicesAfter (voicesOf found)) key

theorem authorisedBefore_iff {s : LocalChainStore} {l : LocatedTransaction} {key : PublicKey} :
    AuthorisedBefore s l key ↔
      ∃ found, companyBefore s l = .ok found ∧ GovernanceKey (voicesOf found) key := by
  constructor
  · rintro ⟨state, person, hstate, hperson⟩
    exact ⟨some state, hstate, governanceKey_iff.mpr ⟨person, hperson⟩⟩
  · rintro ⟨_ | state, hstate, hkey⟩
    · exact absurd hkey (not_governanceKey_none key)
    · obtain ⟨person, hperson⟩ := governanceKey_iff.mp hkey
      exact ⟨state, person, hstate, hperson⟩

/-- At the height of a governance record the parts in force are those that the rest of its block
left of the ones the record found. -/
theorem voices_at {s : LocalChainStore} (hs : s.WellFormed) {l : LocatedTransaction}
    {state : CompanyStateV1} (hl : l ∈ placed s.blocks)
    (hgovernance : l.transaction.namespace_.value ∈ governanceNamespaces)
    (hstate : reconstruct s l.height = .ok state) :
    ∃ found, companyBefore s l = .ok found ∧ voicesOf (some state) =
      ((laterInBlock s l).filterMap recordIn).foldl voicesAfter (voicesOf found) := by
  have hhead : l.height ≤ s.head.height := by
    obtain ⟨b, hb, -⟩ := (mem_placed_iff hs).mp hl
    exact height_le_of_getBlock hb
  simp only [reconstruct_eq, Nat.min_eq_left hhead, companyUpTo_height hs hl, bind_eq_ok,
    orError_eq_ok, pure_eq_ok, Except.ok.injEq] at hstate
  obtain ⟨_, ⟨found, hfound, hrest⟩, company, rfl, rfl⟩ := hstate
  refine ⟨found, hfound, ?_⟩
  have hnone : recordIn l = none := by
    simp [recordIn, kindOfNamespace_governance hgovernance]
  rw [← List.filterMap_cons_none hnone, ← voicesOf_foldlM hrest]
  rfl

/-- A verifier's report on a transaction says that its signer was authorised. -/
inductive SignerAccepted (s : LocalChainStore) (txId : TxId) : Prop
  | decision {v : Decision.DecisionVerificationV1} (h : verifyDecision s txId = .ok v)
    (accepted : ⟨.signerAuthorised, true⟩ ∈ v.checks)
  | vote {v : Vote.VerificationV1} (h : Vote.verify s txId = .ok v)
    (accepted : ⟨.signerAuthorised, true⟩ ∈ v.checks)
  | meeting {v : Meeting.MeetingVerificationV1} (h : verifyMeeting s txId = .ok v)
    (accepted : ⟨.signerAuthorised, true⟩ ∈ v.checks)
  | resolution {v : ResolutionVerificationV1} (h : verifyResolution s txId = .ok v)
    (accepted : ⟨.signerAuthorised, true⟩ ∈ v.checks)
  | execution {v : ExecutionVerificationV1} (h : verifyExecution s txId = .ok v)
    (accepted : ⟨.signerAuthorised, true⟩ ∈ v.checks)

section Accepted

variable {s : LocalChainStore} {txId : TxId} {l : LocatedTransaction}

theorem signer_of_decision {v : Decision.DecisionVerificationV1}
    (hl : s.getTransaction txId = some l) (h : verifyDecision s txId = .ok v)
    (haccepted : ⟨.signerAuthorised, true⟩ ∈ v.checks) :
    signerAuthorisedAt s l.height l.transaction.signer = true := by
  simp only [verifyDecision, hl, orError_some, ok_bind] at h
  cases hdecode : Decision.decodeDecision l.transaction with
  | none =>
    simp only [hdecode, pure_eq_ok, Except.ok.injEq] at h
    subst h
    simp at haccepted
  | some record =>
    simp only [hdecode, pure_eq_ok, Except.ok.injEq] at h
    subst h
    have hactors : ∀ state channel,
        ⟨.signerAuthorised, true⟩ ∉ Decision.actorChecks state channel record.snapshot := by
      intro state channel
      unfold Decision.actorChecks
      cases Decision.resolveChannel state channel with
      | error e => simp
      | ok resolved => cases hsole : resolved.soleActor <;> simp [hsole]
    simp only [Decision.decisionChecks] at haccepted
    cases hstate : Decision.decisionState s record.snapshot with
    | none => simp [hstate] at haccepted
    | some found =>
      by_cases hpins : record.snapshot.pins found.2 = true
      · simpa [hstate, hpins, hactors] using haccepted
      · simp [hstate, hpins] at haccepted

theorem signer_of_vote {v : Vote.VerificationV1} (hl : s.getTransaction txId = some l)
    (h : Vote.verify s txId = .ok v) (haccepted : ⟨.signerAuthorised, true⟩ ∈ v.checks) :
    signerAuthorisedAt s l.height l.transaction.signer = true := by
  simp only [Vote.verify, hl, orError_some, ok_bind] at h
  cases hdecode : Vote.decodeVote l.transaction with
  | none =>
    simp only [hdecode, pure_eq_ok, Except.ok.injEq] at h
    subst h
    simp at haccepted
  | some record =>
    simp only [hdecode, pure_eq_ok, Except.ok.injEq] at h
    subst h
    have hchannel : ∀ state,
        ⟨.signerAuthorised, true⟩ ∉ Vote.channelChecks state record.snapshot := by
      intro state
      unfold Vote.channelChecks
      cases Vote.voteChannel state record.snapshot <;> simp
    have hresult : ∀ state, ⟨.signerAuthorised, true⟩ ∉ Vote.resultChecks state record := by
      intro state
      unfold Vote.resultChecks
      cases Vote.voteChannel state record.snapshot <;> simp
    simp only [Vote.voteChecks] at haccepted
    cases hstate : Vote.voteState s record.snapshot with
    | none => simp [hstate] at haccepted
    | some state =>
      by_cases hpins : record.snapshot.pins state = true
      · simpa [hstate, hpins, hchannel, hresult, Vote.ballotChecks] using haccepted
      · simp [hstate, hpins] at haccepted

theorem signer_of_meeting {v : Meeting.MeetingVerificationV1} (hl : s.getTransaction txId = some l)
    (h : verifyMeeting s txId = .ok v) (haccepted : ⟨.signerAuthorised, true⟩ ∈ v.checks) :
    signerAuthorisedAt s l.height l.transaction.signer = true := by
  simp only [verifyMeeting, hl, orError_some, ok_bind] at h
  repeat' split at h
  all_goals
    obtain rfl := Except.ok.inj h
    first
      | simp at haccepted; done
      | simp only [Meeting.meetingChecks] at haccepted
        simp at haccepted
        exact haccepted.2

theorem not_mem_collectiveChecks {meetingTx voteTx : TxId} {itemNumber : ℕ}
    {checks : List (Check ResolutionCheckNameV1)} {found : Option Vote.FinalVoteRecordV1}
    (h : collectiveChecks s meetingTx itemNumber voteTx = .ok (checks, found)) :
    ⟨.signerAuthorised, true⟩ ∉ checks := by
  simp only [collectiveChecks, bind_eq_ok, mapErr_eq_ok] at h
  obtain ⟨meeting, -, h⟩ := h
  split at h
  · obtain ⟨rfl, -⟩ := Prod.mk.inj (Except.ok.inj h)
    simp
  · split at h
    · obtain ⟨rfl, -⟩ := Prod.mk.inj (Except.ok.inj h)
      simp
    · split at h
      · obtain ⟨rfl, -⟩ := Prod.mk.inj (Except.ok.inj h)
        simp
      · split at h
        · obtain ⟨rfl, -⟩ := Prod.mk.inj (Except.ok.inj h)
          simp
        · obtain ⟨report, -, h⟩ := bind_eq_ok.mp h
          split at h
          · obtain ⟨rfl, -⟩ := Prod.mk.inj (Except.ok.inj h)
            simp
          · split at h <;>
            · obtain ⟨rfl, -⟩ := Prod.mk.inj (Except.ok.inj h)
              simp

theorem not_mem_decidedChecks {authority : AuthorityV1}
    {checks : List (Check ResolutionCheckNameV1)} {found : Option Decided}
    (h : decidedChecks s authority = .ok (checks, found)) :
    ⟨.signerAuthorised, true⟩ ∉ checks := by
  cases authority with
  | collective channel meetingTx itemNumber voteTx =>
    simp only [decidedChecks, bind_eq_ok] at h
    obtain ⟨⟨checks', vote⟩, hchecks, h⟩ := h
    have hnot := not_mem_collectiveChecks hchecks
    cases vote with
    | none =>
      obtain ⟨rfl, -⟩ := Prod.mk.inj (Except.ok.inj h)
      exact hnot
    | some vote =>
      obtain ⟨frozen, -, h⟩ := bind_eq_ok.mp h
      obtain ⟨rfl, -⟩ := Prod.mk.inj (Except.ok.inj h)
      exact hnot
  | individual channel decisionTx =>
    simp only [decidedChecks, bind_eq_ok] at h
    obtain ⟨report, -, h⟩ := h
    split at h
    · obtain ⟨rfl, -⟩ := Prod.mk.inj (Except.ok.inj h)
      simp
    · split at h
      · obtain ⟨rfl, -⟩ := Prod.mk.inj (Except.ok.inj h)
        simp
      · obtain ⟨frozen, -, h⟩ := bind_eq_ok.mp h
        obtain ⟨rfl, -⟩ := Prod.mk.inj (Except.ok.inj h)
        simp

theorem signer_of_resolution {v : ResolutionVerificationV1} (hl : s.getTransaction txId = some l)
    (h : verifyResolution s txId = .ok v) (haccepted : ⟨.signerAuthorised, true⟩ ∈ v.checks) :
    signerAuthorisedAt s l.height l.transaction.signer = true := by
  simp only [verifyResolution, hl, orError_some, ok_bind, bind_eq_ok, pure_eq_ok,
    Except.ok.injEq] at h
  obtain ⟨⟨report, approval⟩, hreport, rfl⟩ := h
  unfold resolutionReport at hreport
  split at hreport
  · obtain ⟨rfl, -⟩ := Prod.mk.inj (Except.ok.inj hreport)
    simp at haccepted
  · obtain ⟨⟨checks, approval'⟩, hchecks, hreport⟩ := bind_eq_ok.mp hreport
    obtain ⟨rfl, -⟩ := Prod.mk.inj (Except.ok.inj hreport)
    simp only [authorityChecks, bind_eq_ok] at hchecks
    obtain ⟨⟨first, decided⟩, hdecided, hchecks⟩ := hchecks
    have hnot := not_mem_decidedChecks hdecided
    cases decided with
    | none =>
      obtain ⟨rfl, -⟩ := Prod.mk.inj (Except.ok.inj hchecks)
      simp [hnot] at haccepted
    | some decided =>
      obtain ⟨chain, -, hchecks⟩ := bind_eq_ok.mp hchecks
      obtain ⟨rfl, -⟩ := Prod.mk.inj (Except.ok.inj hchecks)
      simpa [hnot] using haccepted

theorem signer_of_execution {v : ExecutionVerificationV1} (hl : s.getTransaction txId = some l)
    (h : verifyExecution s txId = .ok v) (haccepted : ⟨.signerAuthorised, true⟩ ∈ v.checks) :
    signerAuthorisedAt s l.height l.transaction.signer = true := by
  simp only [verifyExecution, hl, orError_some, ok_bind] at h
  split at h
  · obtain rfl := Except.ok.inj h
    simp at haccepted
  · split at h
    · obtain rfl := Except.ok.inj h
      simp at haccepted
    · obtain ⟨⟨report, approval⟩, -, h⟩ := bind_eq_ok.mp h
      split at h
      · obtain rfl := Except.ok.inj h
        simp at haccepted
      · simp only [bind_eq_ok, pure_eq_ok, Except.ok.injEq] at h
        obtain ⟨record, -, approval, -, rfl⟩ := h
        simp only [executionChecks] at haccepted
        repeat' split at haccepted
        all_goals simp [amendmentChecks] at haccepted
        exact haccepted

theorem SignerAccepted.authorised (hl : s.getTransaction txId = some l)
    (h : SignerAccepted s txId) : signerAuthorisedAt s l.height l.transaction.signer = true := by
  cases h with
  | decision h accepted => exact signer_of_decision hl h accepted
  | vote h accepted => exact signer_of_vote hl h accepted
  | meeting h accepted => exact signer_of_meeting hl h accepted
  | resolution h accepted => exact signer_of_resolution hl h accepted
  | execution h accepted => exact signer_of_execution hl h accepted

end Accepted

/-- What every verifier's check of the signer accepts, and when that is no more than the company
found by the record would have accepted: the records after it in its own block must not have given
its key the place of a governance signer's. -/
theorem signerAccepted_before {s : LocalChainStore} (hs : s.WellFormed) {txId : TxId}
    {l : LocatedTransaction} (hl : s.getTransaction txId = some l)
    (hgovernance : l.transaction.namespace_.value ∈ governanceNamespaces) :
    (SignerAccepted s txId → signerAuthorisedAt s l.height l.transaction.signer = true) ∧
    ((signerAuthorisedAt s l.height l.transaction.signer = true →
        AuthorisedBefore s l l.transaction.signer) ↔
      ((∃ state, reconstruct s l.height = .ok state) →
        ¬ GrantedLater s l l.transaction.signer)) := by
  have hplaced := mem_placed_of_getTransaction hs hl
  refine ⟨SignerAccepted.authorised hl, ?_⟩
  rw [signerAuthorisedAt_eq, authorisedBefore_iff]
  constructor
  · rintro h ⟨state, hstate⟩ ⟨found, hfound, hbefore, hafter⟩
    obtain ⟨found', hfound', hvoices⟩ := voices_at hs hplaced hgovernance hstate
    obtain rfl := Except.ok.inj (hfound.symm.trans hfound')
    obtain ⟨found', hfound', hkey⟩ := h ⟨state, hstate, hvoices ▸ hafter⟩
    obtain rfl := Except.ok.inj (hfound.symm.trans hfound')
    exact hbefore hkey
  · rintro h ⟨state, hstate, hkey⟩
    obtain ⟨found, hfound, hvoices⟩ := voices_at hs hplaced hgovernance hstate
    by_contra hnot
    refine h ⟨state, hstate⟩ ⟨found, hfound, fun hbefore => hnot ⟨found, hfound, hbefore⟩, ?_⟩
    rw [← hvoices]
    exact hkey

end Rules

section Samples

open Irena.Sample
open Irena.Decision (FinalDecisionRecordV1)

attribute [local instance] platform

/-- The director's decision, published under a key that the company does not know yet. -/
def strangersTransaction : Transaction :=
  signed eve decisionNamespace (FinalDecisionRecordV1.codec.encode (decisionRecord [])) 0

/-- The director takes that key after the decision, in the same block. -/
def grantedBlocks : List (List Transaction) :=
  [[strangersTransaction, amendmentTransaction .identities (identitiesXml eve)]]

def granted : LocalChainStore := grown founded grantedBlocks

theorem granted_reads :
    ((founded.transactions ++ grantedBlocks.flatten).map Transaction.id).Nodup ∧
    readRecord (amendmentXml .identities (identitiesXml eve)) =
      .ok (amendmentRecord (.identities rotated)) := by
  decide +kernel

theorem granted_wellFormed : granted.WellFormed := by
  refine wellFormed_grown founded_wellFormed (by decide) rfl (by decide) ?_ granted_reads.1
  simp only [grantedBlocks, List.mem_cons, List.not_mem_nil, or_false, forall_eq_or_imp, forall_eq]
  exact ⟨sound_signed .., sound_signed ..⟩

/-- Where the decision stands. -/
def strangersPlace : LocatedTransaction := ⟨1, 0, strangersTransaction⟩

theorem strangers_found : granted.getTransaction strangersTransaction.id = some strangersPlace :=
  getTransaction_grown granted_wellFormed (i := 0) (j := 0) rfl rfl

theorem strangers_governance :
    strangersPlace.transaction.namespace_.value ∈ governanceNamespaces :=
  List.mem_cons_self

/-- What the check says of the stranger's record, and of the company the record found. -/
theorem signerAccepted_before_granted :
    (SignerAccepted granted strangersTransaction.id →
      signerAuthorisedAt granted strangersPlace.height strangersPlace.transaction.signer = true) ∧
    ((signerAuthorisedAt granted strangersPlace.height strangersPlace.transaction.signer = true →
        AuthorisedBefore granted strangersPlace strangersPlace.transaction.signer) ↔
      ((∃ state, reconstruct granted strangersPlace.height = .ok state) →
        ¬ GrantedLater granted strangersPlace strangersPlace.transaction.signer)) :=
  signerAccepted_before granted_wellFormed strangers_found strangers_governance

theorem granted_authorises : signerAuthorisedAt granted 1 (publicKeyOf eve) = true := by
  have hsteps : ∀ height, ([strangersTransaction,
      amendmentTransaction .identities (identitiesXml eve)].zipIdx.map fun p =>
        LocatedTransaction.mk 1 p.2 p.1).foldlM stepAt (some { acme with at_ := height }) =
      .ok (some (amendedBy { acme with at_ := height }
        (amendmentRef .identities (identitiesXml eve) (.identities rotated) 1 1))) := by
    intro height
    have hforeign : stepAt (some { acme with at_ := height }) ⟨1, 0, strangersTransaction⟩ =
        .ok (some { acme with at_ := height }) :=
      stepAt_eq_ok.mpr (.inl ⟨kindOfNamespace_governance strangers_governance, rfl⟩)
    have hopen : lockoutAfter rotated acme.authorisation.value = none := by decide +kernel
    have hamended := stepAt_amendment (s := { acme with at_ := height }) (n := 1) (i := 1)
      granted_reads.2 rfl (by decide) rfl companySigner_acme rfl hopen
    simp only [List.zipIdx_cons, List.zipIdx_nil, List.map_cons, List.map_nil, zero_add]
    rw [List.foldlM_cons, hforeign, ok_bind, List.foldlM_cons, hamended, ok_bind, List.foldlM_nil,
      pure_eq_ok]
  obtain ⟨height, hnow⟩ := companyNow_steps [] (by simp) hsteps
  have hhead : granted.head.height = 1 := head_grown founded grantedBlocks
  rw [companyNow, List.nil_append, ← grantedBlocks, ← granted, hhead] at hnow
  refine Decision.signerAuthorisedAt_iff.mpr ⟨_, person annId eve, hnow, ?_⟩
  change signerOf rotated acme.authorisation.value .governance (publicKeyOf eve) = _
  decide +kernel

/-- A verifier accepts the key that only the rest of the block makes a governance signer's. -/
theorem signerAccepted_granted : granted.WellFormed ∧
    granted.getTransaction strangersTransaction.id = some strangersPlace ∧
    SignerAccepted granted strangersTransaction.id ∧
    ¬ AuthorisedBefore granted strangersPlace strangersPlace.transaction.signer := by
  have hpasses := @decision_passes [] _ _ _ 0 (reconstruct_grown [] grantedBlocks (by simp))
    Nat.one_pos granted_authorises
  have hverified := Decision.verified_iff.mpr ⟨_, strangers_found, decodeDecision_signed eve [], rfl,
    Decision.noneFailed_decisionChecks.mpr ⟨_, _, _, _, hpasses⟩⟩
  refine ⟨granted_wellFormed, strangers_found,
    .decision hverified.report (List.mem_cons_of_mem _ hpasses.mem_signer), ?_⟩
  rintro ⟨state, found, hbefore, hfound⟩
  have hacme : ∃ height, companyBefore granted strangersPlace =
      .ok (some { acme with at_ := height }) :=
    companyBefore_grown [] granted_wellFormed (by simp)
  obtain ⟨height, hacme⟩ := hacme
  obtain rfl := Option.some.inj (Except.ok.inj (hbefore.symm.trans hacme))
  have hnone : (signerOf acme.identities.value acme.authorisation.value .governance
      (publicKeyOf eve)).toOption = none := by decide +kernel
  change signerOf acme.identities.value acme.authorisation.value .governance (publicKeyOf eve) =
    .ok found at hfound
  rw [hfound] at hnone
  cases hnone

end Samples

end Irena.Resolution
