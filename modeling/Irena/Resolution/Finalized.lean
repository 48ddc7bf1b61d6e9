import Irena.Sample.Resolved

/-! # What finalizing leaves on the chain

Finalizing checks the authority before it publishes, and the verifier checks it again on the longer
chain. Both look at the same evidence; what can differ is the body, which the record carries
normalised and the verifier normalises again before it takes the digest. -/

namespace Irena.Resolution

open Irena.Library Irena.Library.Outcome Irena.Library.Strings Irena.Library.Utf8
open Irena.Core Irena.Bornite Irena.Prunella Irena.Prunella.LocalChainStore Irena.Ledger
open Irena.Decision (signerAuthorisedAt signerAuthorisedAt_iff)

theorem resolutionNamespace_foreign : kindOfNamespace resolutionNamespace = none := by
  decide +kernel

section Rules

variable [Platform]

theorem proposalDigest_eq {a b : Text} (h : proposalDigest a = proposalDigest b) :
    normaliseBody a = normaliseBody b ∨
      Collision (domainBytes (lit "IRENA/resolution/v1/proposal") (utf8 (normaliseBody a)))
        (domainBytes (lit "IRENA/resolution/v1/proposal") (utf8 (normaliseBody b))) := by
  by_cases heq : domainBytes (lit "IRENA/resolution/v1/proposal") (utf8 (normaliseBody a)) =
      domainBytes (lit "IRENA/resolution/v1/proposal") (utf8 (normaliseBody b))
  · exact .inl (utf8_injective (domainBytes_inj heq).2)
  · exact .inr ⟨heq, h⟩

/-- With evidence for its authority a resolution has a report, and these are the checks left. -/
theorem Approved.report {s : LocalChainStore} {l : LocatedTransaction}
    {record : ResolutionRecordV1} {approval : ApprovalV1} {height : ℕ} {state : CompanyStateV1}
    (h : Approved s record.authority approval height)
    (hdecode : decodeResolution l.transaction = some record)
    (hstate : reconstruct s l.height = .ok state) :
    ∃ report, resolutionReport s l = .ok (report, some approval) ∧
      (NoneFailed report.checks ↔
        (∀ target, record.kind.target = some target → checkScope s approval target = .ok ()) ∧
        record.kind.approvedDigest = approval.proposalDigest ∧
        (record.company = state.company ∧ approval.company = state.company.value) ∧
        height < l.height ∧ signerAuthorisedAt s l.height l.transaction.signer = true) := by
  obtain ⟨checks, hchecks, hpass⟩ := h.decidedChecks
  simp only [resolutionReport, hdecode, authorityChecks, hchecks, hstate, mapErr_ok, ok_bind,
    pure_eq_ok, Except.ok.injEq, Prod.mk.injEq, and_true, exists_eq_left']
  simp only [noneFailed_append, noneFailed_cons, noneFailed_nil, and_true, decide_eq_true_eq,
    Bool.and_eq_true, withinScope_iff, Option.any_some, hpass, true_and]

/-- What was checked before a resolution was published. -/
structure Payable (r : ResolutionV1) (s : LocalChainStore) (key : SigningKey) (n : NotarisationV1)
    (state : CompanyStateV1) (approval : ApprovalV1) (height : ℕ) (payload : Text) : Prop where
  approved : Approved s r.authority approval height
  inScope : ∀ target, r.kind.target = some target → checkScope s approval target = .ok ()
  digest : r.kind.approvedDigest = approval.proposalDigest
  now : companyNow s = .ok state
  signer : ∃ person, authorisedSigner state .governance (Platform.publicKey key) = .ok person
  owner : approval.company = state.company.value
  composes : composeResolution state.company n r.title r.authority r.kind = .ok payload

theorem resolutionPayload_eq_ok {r : ResolutionV1} {s : LocalChainStore} {key : SigningKey}
    {n : NotarisationV1} {company : CompanyIdV1} {payload : Text}
    (h : r.resolutionPayload s key n = .ok (company, payload)) :
    ∃ state approval height, Payable r s key n state approval height payload ∧
      company = state.company := by
  simp only [ResolutionV1.resolutionPayload, bind_eq_ok, mapErr_eq_ok, ensure_eq_ok, pure_eq_ok,
    Except.ok.injEq, Prod.mk.injEq, checkAuthority_eq_ok] at h
  obtain ⟨_, -, approval, ⟨⟨height, happroved⟩, hscope, hdigest⟩, state, hnow, person, hperson, _,
    howner, payload, hcomposes, rfl, rfl⟩ := h
  exact ⟨state, approval, height,
    ⟨happroved, hscope, hdigest, hnow, ⟨person, hperson⟩, howner, hcomposes⟩, rfl⟩

theorem finalize_cases {r r' : ResolutionV1} {key : SigningKey} {n : NotarisationV1} {time : ℕ}
    {s t : LocalChainStore} {id : ResolutionIdV1} (hs : s.WellFormed)
    (h : (r.finalize key n time).run s = (.ok (r', id), t)) :
    ∃ state approval height payload, Payable r s key n state approval height payload ∧
      id.txId = (nextTransaction s key resolutionNamespace (utf8 payload)).id ∧
      SameChain (s.push (nextBlock s (nextTransaction s key resolutionNamespace (utf8 payload))
        time)) t ∧
      ChildOf s.networkId s.headBlock.header s.containsTransaction
        (nextBlock s (nextTransaction s key resolutionNamespace (utf8 payload)) time) ∧
      r' = { r with
        status := .finalized
        company := state.company.value
        finalized := some (id.txId, s.head.height + 1) } := by
  obtain ⟨⟨company, payload⟩, u, hread, h⟩ := Program.run_bind_ok.mp h
  rw [Program.run_read] at hread
  obtain ⟨hpayload, hsame⟩ := Prod.mk.inj hread
  subst hsame
  obtain ⟨state, approval, height, hpayable, rfl⟩ := resolutionPayload_eq_ok hpayload
  obtain ⟨⟨txId, at_⟩, v, happend, h⟩ := Program.run_bind_ok.mp h
  obtain ⟨hdone, rfl⟩ := Prod.mk.inj h
  obtain ⟨rfl, rfl⟩ := Prod.mk.inj (Except.ok.inj hdone)
  rcases appendTransaction_cases hs happend with ⟨e, he, -⟩ | ⟨hok, hchain, hchild⟩
  · cases he
  · obtain ⟨rfl, rfl⟩ := Prod.mk.inj (Except.ok.inj hok)
    exact ⟨state, approval, height, payload, hpayable, rfl, hchain, hchild, rfl⟩

theorem finalize_of_payload {r : ResolutionV1} {key : SigningKey} {n : NotarisationV1} {time : ℕ}
    {s : LocalChainStore} {company : CompanyIdV1} {payload : Text} (hs : s.WellFormed)
    (hpayload : r.resolutionPayload s key n = .ok (company, payload))
    (hchild : ChildOf s.networkId s.headBlock.header s.containsTransaction
      (nextBlock s (nextTransaction s key resolutionNamespace (utf8 payload)) time))
    (hcommits : s.Commits) : ∃ r' id t, (r.finalize key n time).run s = (.ok (r', id), t) := by
  have hname : Namespace.new resolutionNamespace = .ok ⟨resolutionNamespace⟩ := by decide +kernel
  have happend := @appendTransaction_of_child _ _ resolutionFaults _ _ _ _ _ hs hname hchild hcommits
  simp only [ResolutionV1.finalize, Program.run_bind, Program.run_read, hpayload, happend,
    Program.run_pure]
  exact ⟨_, _, _, rfl⟩

/-- On the chain a resolution was recorded on, the one check it can fail is that the body it carries
has the digest that was approved. -/
theorem finalize_report {r r' : ResolutionV1} {key : SigningKey} {n : NotarisationV1} {time : ℕ}
    {s t : LocalChainStore} {id : ResolutionIdV1} (hs : s.WellFormed)
    (h : (r.finalize key n time).run s = (.ok (r', id), t)) :
    ∃ v, verifyResolution t id.txId = .ok v ∧
      (NoneFailed v.checks ↔ r.kind.normalised.approvedDigest = r.kind.approvedDigest) := by
  obtain ⟨state, approval, height, payload, hpayable, hid, hchain, hchild, -⟩ := finalize_cases hs h
  have hext : s.Extends t := (extends_push s _).trans (extends_of_sameChain hchain)
  obtain ⟨hlt, hle⟩ := hpayable.approved.height_lt
  have hfind := getTransaction_next hs hchild hchain
  have hdecode : decodeResolution (nextTransaction s key resolutionNamespace (utf8 payload)) =
      some ⟨state.company, n, r.title, r.authority, r.kind.normalised⟩ :=
    decodeResolution_eq_some.mpr ⟨rfl, payload, fromUtf8_utf8 payload,
      readResolutionRecord_of_compose hpayable.composes⟩
  have hnow : reconstruct t (s.head.height + 1) =
      .ok { state with at_ := s.head.height + 1 } := by
    have hheight : t.head.height = s.head.height + 1 := by
      rw [head, hchain.2.2]
      exact congrArg ChainHead.height (head_push _ _)
    rw [← hheight, ← companyNow, companyNow_of_sameChain hchain, hheight]
    refine companyNow_push_foreign hpayable.now fun u hu => ?_
    rw [List.mem_singleton.mp hu]
    exact resolutionNamespace_foreign
  obtain ⟨report, hreport, hpass⟩ := Approved.report
    (l := ⟨s.head.height + 1, 0, nextTransaction s key resolutionNamespace (utf8 payload)⟩)
    (hpayable.approved.extends hext) hdecode hnow
  have hsigner : signerAuthorisedAt t (s.head.height + 1) (Platform.publicKey key) = true := by
    obtain ⟨person, hperson⟩ := hpayable.signer
    exact signerAuthorisedAt_iff.mpr ⟨_, person, hnow, hperson⟩
  have hscope : ∀ target, r.kind.normalised.target = some target →
      checkScope t approval target = .ok () := by
    intro target htarget
    rw [checkScope, Ledger.Extends.reconstruct hext (hlt.le.trans hle)]
    refine hpayable.inScope target ?_
    rw [← htarget]
    cases r.kind <;> rfl
  refine ⟨report, ?_, ?_⟩
  · rw [verifyResolution, hid, hfind, orError_some, ok_bind, hreport]
    rfl
  · rw [hpass, hpayable.digest]
    exact ⟨fun h => h.2.1, fun h => ⟨hscope, h, ⟨rfl, hpayable.owner⟩, Nat.lt_succ_of_le hle, hsigner⟩⟩

/-- A finalised resolution verifies on the chain it was recorded on, unless it carries a body that
normalising a second time changes: a declarative one always, an amendment exactly when the normal
form of its body is a normal form, with digests that do not collide. -/
theorem finalize_verifies {r r' : ResolutionV1} {key : SigningKey} {n : NotarisationV1} {time : ℕ}
    {s t : LocalChainStore} {id : ResolutionIdV1} (hs : s.WellFormed)
    (h : (r.finalize key n time).run s = (.ok (r', id), t)) :
    ∃ v, verifyResolution t id.txId = .ok v ∧
      (∀ digest, r.kind = .declarative digest → NoneFailed v.checks) ∧
      ∀ target body, r.kind = .amendment target body →
        (NoneFailed v.checks ↔ normaliseBody (normaliseBody body) = normaliseBody body) ∨
        Collision
          (domainBytes (lit "IRENA/resolution/v1/proposal")
            (utf8 (normaliseBody (normaliseBody body))))
          (domainBytes (lit "IRENA/resolution/v1/proposal") (utf8 (normaliseBody body))) := by
  obtain ⟨v, hv, hdigest⟩ := finalize_report hs h
  refine ⟨v, hv, ?_, ?_⟩
  · intro digest hkind
    rw [hdigest, hkind]
    rfl
  · intro target body hkind
    rw [hdigest, hkind]
    by_cases hsame : normaliseBody (normaliseBody body) = normaliseBody body
    · refine .inl (iff_of_true ?_ hsame)
      exact congrArg (fun text => hashDomain _ (utf8 text)) hsame
    · by_cases hequal : proposalDigest (normaliseBody body) = proposalDigest body
      · exact .inr ((proposalDigest_eq hequal).resolve_left hsame)
      · exact .inl (iff_of_false hequal hsame)

end Rules

section Samples

open Irena.Sample

attribute [local instance] platform signaturesVerify

/-- Identities with a declaration and a style sheet ahead of them. -/
def styledXml : Text :=
  lit "<?xml version=\"1.0\"?><?xml-stylesheet href=\"a\"?>" ++ identitiesXml ann

/-- The chain on which the director has decided on them. -/
def styled : LocalChainStore := grown founded [[decisionTransaction styledXml]]

def styledResolution : ResolutionV1 :=
  .draft (lit "Amend") (directorAuthority styledXml) (.amendment .identities styledXml)

def styledPayload : Text :=
  resolutionText Sample.company notarisation (lit "Amend") (directorAuthority styledXml)
    (.amendment .identities (normaliseBody styledXml))

theorem styled_reads :
    ((founded.transactions ++ [[decisionTransaction styledXml]].flatten).map
      Transaction.id).Nodup ∧
    composeResolution Sample.company notarisation (lit "Amend") (directorAuthority styledXml)
      (.amendment .identities styledXml) = .ok styledPayload ∧
    styled.containsTransaction
      (nextTransaction styled ann resolutionNamespace (utf8 styledPayload)).id = false ∧
    proposalDigest (normaliseBody styledXml) ≠ proposalDigest styledXml := by
  decide +kernel

theorem styled_wellFormed : styled.WellFormed := by
  refine wellFormed_grown founded_wellFormed (by decide) rfl (by decide) ?_ styled_reads.1
  simp only [List.mem_cons, List.not_mem_nil, or_false, forall_eq]
  exact sound_signed ..

theorem styled_payload :
    styledResolution.resolutionPayload styled ann notarisation =
      .ok (Sample.company, styledPayload) := by
  have hfounding : reconstruct styled 0 = .ok acme := reconstruct_grown [] _ (by simp)
  have hnow : companyNow styled = .ok { acme with at_ := 1 } :=
    companyNow_grown companyNow_founded (b := [[decisionTransaction styledXml]])
      (by simpa using decision_foreign styledXml)
  have hauthority : styledResolution.checkAuthority styled = .ok (directorApproval styledXml) :=
    checkAuthority_eq_ok.mpr ⟨⟨1, approved styled_wellFormed⟩,
      fun target _ => scope_directorApproval hfounding styledXml target, rfl⟩
  simp only [ResolutionV1.resolutionPayload, bind_eq_ok, mapErr_eq_ok, ensure_eq_ok, pure_eq_ok,
    Except.ok.injEq, Prod.mk.injEq]
  exact ⟨(), ensure_of rfl, _, hauthority, _, hnow, _, authorisedSigner_acme 1, (), rfl, _,
    styled_reads.2.1, rfl, rfl⟩

theorem styled_finalized : ∃ r id t,
    (styledResolution.finalize ann notarisation 0).run styled = (.ok (r, id), t) := by
  refine finalize_of_payload styled_wellFormed styled_payload ?_ (by decide +kernel)
  refine (childOf_nextBlock styled_wellFormed).mpr ⟨by decide, Nat.le_refl 0, ?_, ?_⟩
  · exact sound_signTransaction _ _
  · exact styled_reads.2.2.1

/-- What the verifier says of the resolution finalized there. -/
theorem finalize_verifies_styled : ∃ r id t v,
    (styledResolution.finalize ann notarisation 0).run styled = (.ok (r, id), t) ∧
    verifyResolution t id.txId = .ok v ∧
    ∀ target body, styledResolution.kind = .amendment target body →
      (NoneFailed v.checks ↔ normaliseBody (normaliseBody body) = normaliseBody body) ∨
      Collision
        (domainBytes (lit "IRENA/resolution/v1/proposal")
          (utf8 (normaliseBody (normaliseBody body))))
        (domainBytes (lit "IRENA/resolution/v1/proposal") (utf8 (normaliseBody body))) := by
  obtain ⟨r, id, t, hrun⟩ := styled_finalized
  obtain ⟨v, hv, -, hamendment⟩ := finalize_verifies styled_wellFormed hrun
  exact ⟨r, id, t, v, hrun, hv, hamendment⟩

/-- A resolution that finalizing published and its verifier refuses. -/
theorem finalize_refused : ∃ r id t v, styled.WellFormed ∧
    (styledResolution.finalize ann notarisation 0).run styled = (.ok (r, id), t) ∧
    verifyResolution t id.txId = .ok v ∧ ¬ NoneFailed v.checks := by
  obtain ⟨r, id, t, hrun⟩ := styled_finalized
  obtain ⟨v, hv, hdigest⟩ := finalize_report styled_wellFormed hrun
  exact ⟨r, id, t, v, styled_wellFormed, hrun, hv, fun hpass =>
    styled_reads.2.2.2 (hdigest.mp hpass)⟩

end Samples

end Irena.Resolution
