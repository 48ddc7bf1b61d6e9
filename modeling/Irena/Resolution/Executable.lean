import Irena.Core.Composed
import Irena.Resolution.Standing
import Irena.Sample.Ready

/-! # When a resolution can be executed

A body is recorded inside a resolution and published inside a record, and the two envelopes do not
take the same texts. With its base in force, its demotion rule satisfied and nobody locked out, a
resolution is executed exactly where both envelopes fit and take what they are given. -/

namespace Irena.Resolution

open Irena.Library Irena.Library.Outcome Irena.Library.Strings Irena.Library.Utf8
open Irena.Library.Markup Irena.Core Irena.Bornite Irena.Prunella Irena.Prunella.LocalChainStore
open Irena.Ledger

section Rules

variable [Platform] {r : ResolutionV1} {s t u : LocalChainStore} {key : SigningKey}
  {n : NotarisationV1} {time : ℕ} {m : ResolutionV1.Mandate} {approval : ApprovalV1}
  {state : CompanyStateV1}

/-- The text of a mandate's amendment, around its normalised body. -/
def ResolutionV1.Mandate.amendmentText (m : ResolutionV1.Mandate) (company : CompanyIdV1)
    (n : NotarisationV1) : Text :=
  recordText m.target.recordKind company (some m.approved) n (normaliseBody m.body)

/-- The text of the record that links it to the resolution. -/
def ResolutionV1.Mandate.executionText (m : ResolutionV1.Mandate) (s : LocalChainStore)
    (key : SigningKey) (company : CompanyIdV1) (n : NotarisationV1) (digest : Hash) : Text :=
  Resolution.executionText company n
    (m.execution (m.amendment s key (m.amendmentText company n)).id digest)

/-- A mandate to execute, whatever its texts are. -/
structure Entitled (r : ResolutionV1) (s : LocalChainStore) (key : SigningKey)
    (m : ResolutionV1.Mandate) (approval : ApprovalV1) (state : CompanyStateV1) : Prop where
  kind : r.kind = .amendment m.target m.body
  id : r.id = some m.resolutionId
  fresh : findExecution s m.resolutionId.txId = none
  approves : approvalOf s r.authority = .ok approval
  approved : m.approved = approval.baseOf m.target
  now : companyNow s = .ok state
  current : state.providerOf m.target.recordKind = m.approved
  demotes : ∀ body, readBodyDocument m.target.recordKind (normaliseBody m.body) = .ok body →
    KeepsRule approval state m.target body ∧ lockoutOf state body = none
  governs : ∃ person, authorisedSigner state .governance (Platform.publicKey key) = .ok person
  signs : ∃ person, authorisedSigner state .company (Platform.publicKey key) = .ok person

/-- What the two envelopes ask of the texts they are given. -/
structure Takes (s : LocalChainStore) (key : SigningKey) (n : NotarisationV1)
    (m : ResolutionV1.Mandate) (approval : ApprovalV1) (company : CompanyIdV1) (digest : Hash) :
    Prop where
  opens : OpensPlainly (normaliseBody m.body)
  unbroken : n.Unbroken
  amendment : byteLength (m.amendmentText company n) ≤ defaultMaxDocumentBytes
  execution : byteLength (m.executionText s key company n digest) ≤ maxDocumentBytes
  given : Ruled approval m.target → byteLength m.body ≤ defaultMaxDocumentBytes

variable [DocumentScanner]

theorem Entitled.mandated (h : Entitled r s key m approval state) (hfinalized : FinalizedOn r s) :
    Mandated r s key m approval state ↔
      (Ruled approval m.target → byteLength m.body ≤ defaultMaxDocumentBytes) := by
  obtain ⟨id, located, record, approval', hstanding⟩ := hfinalized.standing
  obtain ⟨published, hread⟩ := hstanding.reads _ _ h.kind
  have happroves : r.checkAuthority s = .ok approval := by
    obtain ⟨⟨height, happroved⟩, hscope, hdigest⟩ := checkAuthority_eq_ok.mp hstanding.approves
    obtain ⟨height', happroved'⟩ := approvalOf_eq_ok.mp h.approves
    obtain ⟨rfl, -⟩ := happroved.unique happroved'
    exact hstanding.approves
  have hiff : checkDemotion approval state m.target m.body = .ok () ↔ KeepsRule approval state m.target
      published ∧ (Ruled approval m.target → byteLength m.body ≤ defaultMaxDocumentBytes) :=
    checkDemotion_eq_ok hread
  constructor
  · exact fun hmandated => (hiff.mp hmandated.demotes).2
  · intro hgiven
    exact ⟨hstanding.status, h.kind, h.id, h.fresh, happroves, h.approved, h.now, h.governs, h.current,
      hiff.mpr ⟨(h.demotes published hread).1, hgiven⟩⟩

theorem Entitled.composes (h : Entitled r s key m approval state) (hfinalized : FinalizedOn r s)
    (hn : n.validate = .ok ()) {payload : Text} :
    Composes r s key n m approval state payload ↔
      (Ruled approval m.target → byteLength m.body ≤ defaultMaxDocumentBytes) ∧
        n.Unbroken ∧ OpensPlainly (normaliseBody m.body) ∧
        payload = m.amendmentText state.company n ∧ byteLength payload ≤ defaultMaxDocumentBytes := by
  obtain ⟨id, located, record, approval', hstanding⟩ := hfinalized.standing
  obtain ⟨published, hread⟩ := hstanding.reads _ _ h.kind
  have hname := NotarisationV1.validate_eq_ok.mp hn
  constructor
  · rintro ⟨hmandated, hamends⟩
    obtain ⟨-, -, hcompose, -⟩ := composeAmendment_eq_ok_iff.mp hamends
    obtain ⟨-, hunbroken, -, hplain, rfl, hfits⟩ := composeRecord_eq_ok_iff.mp hcompose
    exact ⟨(h.mandated hfinalized).mp hmandated, hunbroken, hplain, rfl, hfits⟩
  · rintro ⟨hgiven, hunbroken, hplain, rfl, hfits⟩
    refine ⟨(h.mandated hfinalized).mpr hgiven, composeAmendment_eq_ok_iff.mpr ⟨h.signs, ?_, ?_,
      published, hread, (h.demotes published hread).2⟩⟩
    · rw [h.current]
    · exact composeRecord_eq_ok_iff.mpr ⟨hname, hunbroken, ⟨published, hread⟩, hplain, rfl, hfits⟩

theorem Standing.executionPayload {id : ResolutionIdV1} {located : LocatedTransaction}
    {record : ResolutionRecordV1} (h : Standing r s id located record approval)
    (hstate : companyNow s = .ok state) (hn : n.validate = .ok ())
    {execution : ResolutionExecutionV1} {text : Text} :
    r.executionPayload n execution = .ok text ↔
      n.Unbroken ∧ text = executionText state.company n execution ∧
        byteLength text ≤ maxDocumentBytes := by
  have hcompany : CompanyIdV1.new r.company = .ok state.company := by
    rw [CompanyIdV1.new_eq_ok, ← h.owner state hstate, h.company]
  simp only [ResolutionV1.executionPayload, hcompany, mapErr_ok, ok_bind, composeExecution_eq_ok_iff]
  exact and_iff_right (NotarisationV1.validate_eq_ok.mp hn)

/-- A resolution with its base in force, for a key that signs for the company and its governance, is
executed on a working store exactly where its body opens with nothing but text and comments before
its root, the notarisation has no line break or tab in a free text, both texts fit the limit of a
document, and so does the given body where a demotion rule has to read it; unless a transaction on
the chain has the digest of another. -/
theorem executable_iff [SignaturesVerify] (hs : s.WellFormed) (hfinalized : FinalizedOn r s)
    (h : Entitled r s key m approval state) (hn : n.validate = .ok ()) (hworking : Working s time) :
    ((∃ done executed t, (r.execute key n time).run s = (.ok (done, executed), t)) ↔
      Takes s key n m approval state.company r.kind.approvedDigest) ∨
    (∃ b ∈ s.transactions,
      Collision b.idBytes (m.amendment s key (m.amendmentText state.company n)).idBytes) ∨
    ∃ u execution, u = amendedOn s key time m (m.amendmentText state.company n) ∧
      execution = nextTransaction u key executionNamespace
        (utf8 (m.executionText s key state.company n r.kind.approvedDigest)) ∧
      ∃ b ∈ u.transactions, Collision b.idBytes execution.idBytes := by
  obtain ⟨id, located, record, approval', hstanding⟩ := hfinalized.standing
  by_cases htakes : Takes s key n m approval state.company r.kind.approvedDigest
  · have hcomposes : Composes r s key n m approval state (m.amendmentText state.company n) :=
      (h.composes hfinalized hn).mpr
        ⟨htakes.given, htakes.unbroken, htakes.opens, rfl, htakes.amendment⟩
    have hpayload : r.executionPayload n (m.execution
        (m.amendment s key (m.amendmentText state.company n)).id r.kind.approvedDigest) =
        .ok (m.executionText s key state.company n r.kind.approvedDigest) :=
      (hstanding.executionPayload h.now hn).mpr ⟨htakes.unbroken, rfl, htakes.execution⟩
    rcases hcomposes.executes hs hpayload hworking with ⟨t, hrun⟩ | hcollides | hcollides
    · exact .inl (iff_of_true ⟨_, _, t, hrun⟩ htakes)
    · exact .inr (.inl hcollides)
    · exact .inr (.inr ⟨_, _, rfl, rfl, hcollides⟩)
  · refine .inl (iff_of_false ?_ htakes)
    rintro ⟨done, executed, t, hrun⟩
    rcases execute_cases hs hrun with ⟨_, he, -⟩ |
      ⟨m', approval₁, state', payload, u, hpublishable, -, ⟨_, he, -⟩ | ⟨text, hrecordable, -⟩⟩
    · cases he
    · cases he
    have hmandated := hpublishable.composes.mandated
    obtain ⟨height, happroved⟩ := approvalOf_eq_ok.mp h.approves
    obtain ⟨⟨height', happroved'⟩, -, -⟩ := checkAuthority_eq_ok.mp hmandated.authority
    obtain ⟨rfl, -⟩ := happroved.unique happroved'
    obtain rfl := Except.ok.inj (h.now.symm.trans hmandated.now)
    obtain rfl := hmandated.eq h.kind h.id h.approved
    obtain ⟨hgiven, hunbroken, hopens, rfl, hfits⟩ :=
      (h.composes hfinalized hn).mp hpublishable.composes
    obtain ⟨-, rfl, hfits'⟩ := (hstanding.executionPayload h.now hn).mp hrecordable.composes
    exact htakes ⟨hopens, hunbroken, hfits, hfits', hgiven⟩

end Rules

section Samples

open Irena.Sample

attribute [local instance] platform signaturesVerify writingScanner

theorem working_ready {body : Text} : Working (ready .shareStructure body) 0 where
  first := .inl rfl
  second := .inl rfl
  room := by
    have hroom : 4 ≤ u64Max := by decide
    rw [ready, head_grown]
    exact hroom
  time := Nat.le_refl 0

/-- The director is entitled to widen the register, whatever stands around the new one. -/
theorem entitled_ready {body : Text} (hs : (ready .shareStructure body).WellFormed)
    (hread : readBodyDocument .shareStructure (normaliseBody body) = .ok (.shareStructure widened)) :
    Entitled (finalised .shareStructure body) (ready .shareStructure body) ann
      (readyMandate .shareStructure body) (directorApproval body) readyState := by
  have hmandated : Mandated (finalised .shareStructure body) (ready .shareStructure body) ann
      (readyMandate .shareStructure body) (directorApproval body) readyState :=
    mandated_ready hs rfl
  obtain ⟨happroved, -, -⟩ := checkAuthority_eq_ok.mp hmandated.authority
  refine ⟨rfl, rfl, hmandated.fresh, approvalOf_eq_ok.mpr happroved, hmandated.approved,
    hmandated.now, rfl, ?_, hmandated.governs, ⟨_, companySigner_acme⟩⟩
  intro published hpublished
  obtain rfl := Except.ok.inj (hread.symm.trans hpublished)
  exact ⟨fun _ hactor => ⟨annId, Option.some.inj hactor, none, rfl, fun _ h => by cases h⟩, rfl⟩

theorem executable_iff_ready :
    have := Plain.scanner_documents
    ((∃ done executed t, ((finalised .shareStructure widenedXml).execute ann notarisation 0).run
        (ready .shareStructure widenedXml) = (.ok (done, executed), t)) ↔
      Takes (ready .shareStructure widenedXml) ann notarisation
        (readyMandate .shareStructure widenedXml) (directorApproval widenedXml) readyState.company
        (finalised .shareStructure widenedXml).kind.approvedDigest) ∨
    (∃ b ∈ (ready .shareStructure widenedXml).transactions,
      Collision b.idBytes ((readyMandate .shareStructure widenedXml).amendment
        (ready .shareStructure widenedXml) ann ((readyMandate .shareStructure widenedXml).amendmentText
          readyState.company notarisation)).idBytes) ∨
    ∃ u execution, u = amendedOn (ready .shareStructure widenedXml) ann 0
        (readyMandate .shareStructure widenedXml)
        ((readyMandate .shareStructure widenedXml).amendmentText readyState.company notarisation) ∧
      execution = nextTransaction u ann executionNamespace
        (utf8 ((readyMandate .shareStructure widenedXml).executionText
          (ready .shareStructure widenedXml) ann readyState.company notarisation
          (finalised .shareStructure widenedXml).kind.approvedDigest)) ∧
      ∃ b ∈ u.transactions, Collision b.idBytes execution.idBytes := by
  have := Plain.scanner_documents
  have hs := carries_widened.wellFormed
  exact executable_iff hs carries_widened.finalizedOn (entitled_ready hs widened_reads) rfl
    working_ready

/-- A register with a processing instruction before it is a document, and stands in a resolution. -/
def instructed : Text := lit "<?x y?>" ++ widenedXml

theorem instructed_reads :
    ((founded.transactions ++ (readyBlocks .shareStructure instructed).flatten).map
      Transaction.id).Nodup ∧
    composeResolution company notarisation (lit "Amend") (directorAuthority instructed)
      (.amendment .shareStructure instructed) = .ok (resolutionXml .shareStructure instructed) ∧
    readResolutionRecord (resolutionXml .shareStructure instructed) =
      .ok (resolutionRecord .shareStructure instructed) ∧
    readBodyDocument .shareStructure (normaliseBody instructed) = .ok (.shareStructure widened) ∧
    ∀ read ∈ Parse.skip ignorable (openDocument (normaliseBody instructed)),
      read.1 = .instruction := by
  decide +kernel

/-- A verified resolution that nobody can execute. -/
theorem execute_not_executable :
    FinalizedOn (finalised .shareStructure instructed) (ready .shareStructure instructed) ∧
    Entitled (finalised .shareStructure instructed) (ready .shareStructure instructed) ann
      (readyMandate .shareStructure instructed) (directorApproval instructed) readyState ∧
    Working (ready .shareStructure instructed) 0 ∧
    (∃ v, verifyResolution (ready .shareStructure instructed)
        (resolutionTransaction .shareStructure instructed 2).id = .ok v ∧ NoneFailed v.checks) ∧
    ∀ key n time done executed t,
      ((finalised .shareStructure instructed).execute key n time).run
        (ready .shareStructure instructed) ≠ (.ok (done, executed), t) := by
  have := Plain.scanner_documents
  obtain ⟨hnodup, hcompose, hrecord, hread, hskip⟩ := instructed_reads
  have hs := ready_wellFormed hnodup
  refine ⟨finalizedOn_ready hnodup hcompose, entitled_ready hs hread, working_ready,
    verified_ready hs (Extends.refl _) hrecord, ?_⟩
  rintro key n time done executed t hrun
  rcases execute_cases hs hrun with ⟨_, he, -⟩ |
    ⟨m, approval, state, payload, -, hpublishable, -, -⟩
  · cases he
  obtain ⟨-, hbody⟩ := ResolutionKindV1.amendment.inj hpublishable.composes.mandated.kind
  obtain ⟨-, -, hcomposes, -⟩ := composeAmendment_eq_ok_iff.mp hpublishable.composes.amends
  obtain ⟨-, -, -, ⟨root, isEmpty, r, hopens⟩, -⟩ := composeRecord_eq_ok_iff.mp hcomposes
  rw [← hbody] at hopens
  have hroot : rootEvent root isEmpty = .instruction := hskip _ hopens
  cases isEmpty <;> cases hroot

end Samples

end Irena.Resolution
