import Irena.Sample.Ready

/-! # Where an execution cannot be resumed

An execution that fails leaves the chain, unless it fails between its two commits. Then its amendment
has taken the base it was approved to replace, and no execution of the resolution succeeds again. -/

namespace Irena.Resolution

open Irena.Library Irena.Library.Outcome Irena.Library.Strings Irena.Library.Utf8
open Irena.Library.Markup Irena.Core Irena.Prunella Irena.Prunella.LocalChainStore Irena.Ledger

section Rules

variable [Platform] {r : ResolutionV1} {s t u : LocalChainStore} {key : SigningKey}
  {n : NotarisationV1} {time : ℕ} {m : ResolutionV1.Mandate} {approval : ApprovalV1}
  {state : CompanyStateV1} {payload : Text}

theorem Publishable.supersedes [WritingScanner]
    (h : Publishable r s key n time m approval state payload)
    (hchain : SameChain (s.push (nextBlock s (m.amendment s key payload) time)) u) :
    ∃ l record, l ∈ placed u.blocks ∧ recordIn l = some record ∧
      record.record.kind = m.target.recordKind ∧ record.record.supersedes = some m.approved := by
  obtain ⟨body, -, hkind, hread, -⟩ := composeAmendment_eq_ok h.composes.amends
  refine ⟨_, _, mem_placed_of_alone (b := nextBlock s (m.amendment s key payload) time) ?_ rfl,
    recordIn_next hread hkind, hkind, rfl⟩
  rw [blocks_of_sameChain hchain, blocks_push]
  exact List.mem_append_right _ (List.mem_singleton_self _)

/-- A mandate that was carried out never stands again. -/
theorem Publishable.not_mandated [WritingScanner]
    (h : Publishable r s key n time m approval state payload)
    (hchain : SameChain (s.push (nextBlock s (m.amendment s key payload) time)) u)
    (hext : u.Extends t) (ht : t.WellFormed) {key' : SigningKey} {m' : ResolutionV1.Mandate}
    {approval' : ApprovalV1} {state' : CompanyStateV1} :
    ¬ Mandated r t key' m' approval' state' := by
  intro hmandated
  obtain ⟨l, record, hl, hrecord, hkind, hsupersedes⟩ := h.supersedes hchain
  obtain ⟨htarget, -⟩ :=
    ResolutionKindV1.amendment.inj (h.composes.mandated.kind.symm.trans hmandated.kind)
  -- The approval is still the one it was, and so is the base.
  have hwhole : s.Extends t := ((extends_push s _).trans (extends_of_sameChain hchain)).trans hext
  obtain ⟨⟨height, happroved⟩, -, -⟩ := checkAuthority_eq_ok.mp h.composes.mandated.authority
  obtain ⟨⟨height', happroved'⟩, -, -⟩ := checkAuthority_eq_ok.mp hmandated.authority
  obtain ⟨rfl, -⟩ := (happroved.extends hwhole).unique happroved'
  have hbase : m'.approved = m.approved := by
    rw [hmandated.approved, h.composes.mandated.approved, htarget]
  obtain ⟨more, hmore⟩ := hext.2
  have hl' : l ∈ placed t.blocks := by
    rw [← hmore, placed_append]
    exact List.mem_append_left _ hl
  refine superseded_never_provides ht hmandated.now hl' hrecord ?_ hsupersedes ?_
  · rw [hkind]
    exact m.target.recordKind_ne
  · rw [hkind, htarget, hmandated.current, hbase]

theorem execute_of_refused [WritingScanner] {detail : Text} {rest : List (Option Text)}
    (hs : s.WellFormed) (h : Publishable r s key n time m approval state payload)
    (hfaults : s.faults = some detail :: rest) :
    (r.execute key n time).run s =
      (.error (.ledger (.store (.database detail))), { s with faults := rest }) := by
  have hmandate := mandate_eq_ok.mpr ⟨approval, state, h.composes.mandated⟩
  have hread : (Program.read fun s => r.mandate s key : ChainProgram ResolutionError _).run s =
      (.ok m, s) := by
    rw [Program.run_read, hmandate]
  have happend : (appendTransaction ledgerFaults key m.target.recordKind.namespaceOf (utf8 payload)
      time).run s = (.error (.store (.database detail)), { s with faults := rest }) :=
    appendTransaction_of_refused hs (namespace_new_namespaceOf _) h.child hfaults
  rw [ResolutionV1.execute, Program.run_bind_of_ok hread]
  refine Program.run_bind_of_error ?_
  simp only [Program.run_mapError, publish, Program.run_bind, Program.run_lift, run_readCompanyNow,
    ensure_of m.target.recordKind_ne, h.composes.mandated.now, h.composes.amends, happend, mapErr]

/-- An execution that was interrupted can be resumed: the chain is as it was, or a later execution
of the resolution on it succeeds, names the amendment that was published, and verifies. -/
def Resumable (r : ResolutionV1) (s t : LocalChainStore) : Prop :=
  SameChain s t ∨
    ∃ u key n time done executed v report, SameChain t u ∧
      (r.execute key n time).run u = (.ok (done, executed), v) ∧
      (∃ x ∈ t.transactions, x ∉ s.transactions ∧ x.id = executed.amendmentTx) ∧
      verifyExecution v executed.executionTx = .ok report ∧ NoneFailed report.checks

theorem Publishable.left [WritingScanner] {e : ResolutionError} (hs : s.WellFormed)
    (h : Publishable r s key n time m approval state payload) (hcommits : s.Commits)
    (hrun : (r.execute key n time).run s = (.error e, t)) :
    SameChain (s.push (nextBlock s (m.amendment s key payload) time)) t := by
  rw [execute_published hs h hcommits] at hrun
  have hamended : (amendedOn s key time m payload).WellFormed := .push hs h.child ⟨rfl, rfl, rfl⟩
  rcases Program.run_bind_error.mp hrun with hlift | ⟨text, u, hlift, hrest⟩
  · obtain ⟨-, rfl⟩ := Prod.mk.inj hlift
    exact ⟨rfl, rfl, rfl⟩
  · obtain ⟨-, rfl⟩ := Prod.mk.inj hlift
    rcases Program.run_bind_error.mp hrest with happend | ⟨⟨txId, height⟩, v, -, hpure⟩
    · rcases appendTransaction_cases hamended happend with ⟨_, -, hsame⟩ | ⟨hok, -⟩
      · exact hsame
      · cases hok
    · cases (Prod.mk.inj hpure).1

/-- After that no execution of the resolution succeeds on the chain. -/
theorem Publishable.not_resumed [WritingScanner] {e : ResolutionError} (hs : s.WellFormed)
    (h : Publishable r s key n time m approval state payload) (hcommits : s.Commits)
    (hrun : (r.execute key n time).run s = (.error e, t)) :
    ¬ SameChain s t ∧
    ∀ u key n time done executed v, SameChain t u →
      (r.execute key n time).run u ≠ (.ok (done, executed), v) := by
  have hchain := h.left hs hcommits hrun
  have ht : t.WellFormed := .push hs h.child hchain
  constructor
  · intro hsame
    have hlonger := blocks_of_sameChain hchain
    rw [blocks_of_sameChain hsame, blocks_push] at hlonger
    simpa using congrArg List.length hlonger
  · intro u key' n' time' done executed v hu hrun'
    rcases execute_cases (ht.of_sameChain hu) hrun' with ⟨_, he, -⟩ |
      ⟨m', approval', state', payload', _, hpublishable', -⟩
    · cases he
    · exact h.not_mandated hchain (extends_of_sameChain hu) (ht.of_sameChain hu)
        hpublishable'.composes.mandated

/-- A failed execution can be resumed exactly when it was not to publish: when no mandate stands
whose amendment composes and goes into the next block, or the database refuses that block. -/
theorem resumable_iff [WritingScanner] {e : ResolutionError} (hs : s.WellFormed)
    (h : (r.execute key n time).run s = (.error e, t)) :
    Resumable r s t ↔ ¬ (s.Commits ∧
      ∃ m approval state payload, Publishable r s key n time m approval state payload) := by
  constructor
  · rintro hresumable ⟨hcommits, m, approval, state, payload, hpublishable⟩
    obtain ⟨hmoved, hnever⟩ := hpublishable.not_resumed hs hcommits h
    rcases hresumable with hsame | ⟨u, key', n', time', done, executed, v, _, hu, hrun, -⟩
    · exact hmoved hsame
    · exact hnever u key' n' time' done executed v hu hrun
  · intro hnot
    rcases execute_cases hs h with ⟨_, -, hsame⟩ | ⟨m, approval, state, payload, _, hpublishable, -⟩
    · exact .inl hsame
    · -- The amendment could be committed, so it is the database that refused it.
      have hrefuses : ¬ s.Commits := fun hcommits =>
        hnot ⟨hcommits, m, approval, state, payload, hpublishable⟩
      obtain ⟨detail, hdetail⟩ : ∃ detail, s.faults.head? = some (some detail) := by
        simpa [LocalChainStore.Commits] using hrefuses
      obtain ⟨rest, hfaults⟩ := List.head?_eq_some_iff.mp hdetail
      have hrefused := execute_of_refused hs hpublishable hfaults
      rw [h] at hrefused
      obtain ⟨-, rfl⟩ := Prod.mk.inj hrefused
      exact .inl ⟨rfl, rfl, rfl⟩

end Rules

section Samples

open Irena.Sample

attribute [local instance] platform signaturesVerify writingScanner

/-- A database that takes one more commit and refuses the next. -/
def filling : LocalChainStore :=
  { ready .shareStructure widenedXml with faults := [none, some (lit "disk full")] }

theorem sameChain_filling : SameChain (ready .shareStructure widenedXml) filling :=
  sameChain_withFaults _ _

theorem filling_commits : filling.Commits := by
  intro detail hdetail
  cases hdetail

theorem filling_executes : ∃ t,
    ((finalised .shareStructure widenedXml).execute ann notarisation 0).run filling =
      (.error (.store (.database (lit "disk full"))), t) := by
  have hs := carries_widened.wellFormed.of_sameChain sameChain_filling
  have hpublishable := (carries_widened.publishable demotes_widened).of_sameChain sameChain_filling
  have hrecordable := (carries_widened.recordable demotes_widened).of_sameChain
    (amendedOn_of_sameChain sameChain_filling)
  have hamendment : (readyMandate .shareStructure widenedXml).amendment filling ann
      (readyPayload .shareStructure widenedXml) = readyAmendment .shareStructure widenedXml :=
    nextTransaction_of_sameChain sameChain_filling ..
  rw [readyLink, ← hamendment] at hrecordable
  exact ⟨_, execute_of_interrupted hs hpublishable filling_commits hrecordable
    (faults_amendedOn.trans rfl)⟩

theorem resumable_iff_filling : ∃ e t,
    ((finalised .shareStructure widenedXml).execute ann notarisation 0).run filling = (.error e, t) ∧
    (Resumable (finalised .shareStructure widenedXml) filling t ↔ ¬ (filling.Commits ∧
      ∃ m approval state payload, Publishable (finalised .shareStructure widenedXml) filling ann
        notarisation 0 m approval state payload)) := by
  have hs := carries_widened.wellFormed.of_sameChain sameChain_filling
  obtain ⟨t, hrun⟩ := filling_executes
  exact ⟨_, t, hrun, resumable_iff hs hrun⟩

/-- An execution of a verified resolution that the full disk interrupts, and that nobody resumes. -/
theorem execute_not_resumable : ∃ e t v, filling.WellFormed ∧
    verifyResolution filling (resolutionTransaction .shareStructure widenedXml 2).id = .ok v ∧
    NoneFailed v.checks ∧
    ((finalised .shareStructure widenedXml).execute ann notarisation 0).run filling = (.error e, t) ∧
    ¬ SameChain filling t ∧
    ∀ u key n time done executed v, SameChain t u →
      ((finalised .shareStructure widenedXml).execute key n time).run u ≠
        (.ok (done, executed), v) := by
  have hready := carries_widened.wellFormed
  have hs := hready.of_sameChain sameChain_filling
  have hpublishable := (carries_widened.publishable demotes_widened).of_sameChain sameChain_filling
  obtain ⟨v, hv, hpass⟩ := verified_ready hready (extends_of_sameChain sameChain_filling)
    carries_widened.2.2.1
  obtain ⟨t, hrun⟩ := filling_executes
  exact ⟨_, t, v, hs, hv, hpass, hrun, hpublishable.not_resumed hs filling_commits hrun⟩

end Samples

end Irena.Resolution
