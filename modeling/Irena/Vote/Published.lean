import Irena.Vote.Frozen

/-! # What a published vote passes

Finalising counts the ballots again and publishes what it counted. On the chain that it leaves, the
record passes every check when its height was reached and its pins stand. -/

namespace Irena.Vote

open Irena.Library Irena.Library.Outcome Irena.Library.Strings
open Irena.Core Irena.Bornite Irena.Prunella Irena.Prunella.LocalChainStore Irena.Ledger
open Irena.Decision

theorem voteNamespace_foreign : kindOfNamespace voteNamespace = none := by
  decide +kernel

variable [Platform]

/-- What finalising a vote counted and recorded. -/
structure Published (v : VoteV1) (s t : LocalChainStore) (key : SigningKey) (time : ℕ)
    (done : VoteV1) (finalized : FinalizedV1) (rerun : VoteEvaluationV1) : Prop where
  assembled : v.finalRecord = .ok finalized.record
  counts : v.evaluateNow s = .ok rerun
  result : v.evaluation = some (.of rerun)
  txId : finalized.txId = (nextTransaction s key voteNamespace
    (FinalVoteRecordV1.codec.encode finalized.record)).id
  height : finalized.height = s.head.height + 1
  after : done = { v with
    status := .finalized
    finalized := some (finalized.txId, finalized.height) }
  recorded : Recorded s t key voteNamespace (FinalVoteRecordV1.codec.encode finalized.record) time

/-- Finalising alone either refuses and leaves the chain, or publishes what it counted. -/
theorem finalize_cases {v : VoteV1} {key : SigningKey} {time : ℕ} {s t : LocalChainStore}
    {r : Except VoteError (VoteV1 × FinalizedV1)} (hs : s.WellFormed)
    (h : (v.finalize key time).run s = (r, t)) :
    (∃ e, r = .error e ∧ SameChain s t) ∨ ∃ done finalized rerun, r = .ok (done, finalized) ∧
      v.status = .evaluated ∧ Published v s t key time done finalized rerun := by
  have hsame : SameChain s s := ⟨rfl, rfl, rfl⟩
  simp only [VoteV1.finalize, Program.run_bind, Program.run_lift, Program.run_mapError,
    run_readCompanyNow, VoteV1.run_evaluatingNow] at h
  cases hstatus : v.expectStatus .evaluated (lit "finalize" (spells _)) with
  | error e =>
    simp only [hstatus, Prod.mk.injEq] at h
    obtain ⟨rfl, rfl⟩ := h
    exact .inl ⟨e, rfl, hsame⟩
  | ok =>
    have hevaluated : v.status = .evaluated := ensure_eq_ok.mp hstatus
    cases hrerun : v.evaluateNow s with
    | error e =>
      simp only [hstatus, hrerun, Prod.mk.injEq] at h
      obtain ⟨rfl, rfl⟩ := h
      exact .inl ⟨e, rfl, hsame⟩
    | ok rerun =>
      by_cases hresult : some (EvaluationSummaryV1.of rerun) = v.evaluation
      · cases hnow : companyNow s with
        | error e =>
          simp only [hstatus, hrerun, ensure_of hresult, hnow, mapErr, Prod.mk.injEq] at h
          obtain ⟨rfl, rfl⟩ := h
          exact .inl ⟨_, rfl, hsame⟩
        | ok now =>
          cases hperson : authorisedSigner now .governance (Platform.publicKey key) with
          | error e =>
            simp only [hstatus, hrerun, ensure_of hresult, hnow, hperson, mapErr, Prod.mk.injEq] at h
            obtain ⟨rfl, rfl⟩ := h
            exact .inl ⟨_, rfl, hsame⟩
          | ok person =>
            cases hrecord : v.finalRecord with
            | error e =>
              simp only [hstatus, hrerun, ensure_of hresult, hnow, mapErr_ok, hperson, hrecord,
                Prod.mk.injEq] at h
              obtain ⟨rfl, rfl⟩ := h
              exact .inl ⟨_, rfl, hsame⟩
            | ok record =>
              simp only [hstatus, hrerun, ensure_of hresult, hnow, mapErr_ok, hperson,
                hrecord] at h
              rcases happend : (appendTransaction VoteV1.voteFaults key voteNamespace
                (FinalVoteRecordV1.codec.encode record) time).run s with ⟨a, u⟩
              rw [happend] at h
              rcases recorded_of_append hs voteNamespace_foreign hnow hperson happend with
                ⟨e, rfl, hchain⟩ | ⟨rfl, hrecorded⟩
              · obtain ⟨rfl, rfl⟩ := Prod.mk.inj h
                exact .inl ⟨e, rfl, hchain⟩
              · obtain ⟨rfl, rfl⟩ := Prod.mk.inj h
                exact .inr ⟨_, ⟨_, _, record⟩, rerun, rfl, hevaluated,
                  ⟨hrecord, hrerun, hresult.symm, rfl, rfl, rfl, hrecorded⟩⟩
      · simp only [hstatus, hrerun, ensure_of_not hresult, Prod.mk.injEq] at h
        obtain ⟨rfl, rfl⟩ := h
        exact .inl ⟨_, rfl, hsame⟩

/-- The ballots are counted as on the chain that the count found, whatever others append. -/
theorem evaluatingNow_among {R : LocalChainStore → LocalChainStore → Prop}
    (hR : ∀ s t, R s t → Grows s t) {v : VoteV1} {s t : LocalChainStore}
    {evaluation : VoteEvaluationV1}
    (h : Program.RunsAmong R v.evaluatingNow s (.ok evaluation) t) :
    ∃ u, R s u ∧ R u t ∧ v.evaluateNow u = .ok evaluation := by
  obtain ⟨snapshot, _, hfrozen, hcounting⟩ := h.bind_ok
  obtain ⟨hsnapshot, rfl⟩ := hfrozen.lift
  obtain ⟨state, _, hread, hcounted⟩ := hcounting.bind_ok
  obtain ⟨u, hsu, hut, hstate⟩ := reconstructing_among hR hread.mapError_ok
  obtain ⟨hcount, rfl⟩ := hcounted.lift
  refine ⟨u, hsu, hut, ?_⟩
  rw [VoteV1.evaluateNow, ← hsnapshot, ok_bind, hstate, mapErr_ok, ok_bind]
  exact hcount.symm

/-- Finalising among others who leave the key its office publishes what it counted, after some chain
on the way. -/
theorem finalize_among {v done : VoteV1} {key : SigningKey} {time : ℕ} {s t : LocalChainStore}
    {finalized : FinalizedV1} (hs : s.WellFormed)
    (h : Program.RunsAmong (Leaves key) (v.finalize key time) s (.ok (done, finalized)) t) :
    ∃ rerun a u w, s.Extends a ∧ a.Extends u ∧ v.evaluateNow a = .ok rerun ∧
      done = { v with
        status := .finalized
        finalized := some (finalized.txId, finalized.height) } ∧
      (v.evaluateNow u = .ok rerun → Published v u w key time done finalized rerun) ∧
      w.Extends t ∧ t.WellFormed := by
  have hgrows : ∀ s t, Leaves key s t → Grows s t := fun _ _ hleaves => hleaves.grows
  obtain ⟨_, _, hstatus, hcounting⟩ := h.bind_ok
  obtain ⟨-, rfl⟩ := hstatus.lift
  obtain ⟨rerun, b, hcount, hcomparing⟩ := hcounting.bind_ok
  obtain ⟨a, hsa, hab, hrerun⟩ := evaluatingNow_among hgrows hcount
  obtain ⟨_, _, hsame, hreading⟩ := hcomparing.bind_ok
  obtain ⟨hresult, rfl⟩ := hsame.lift
  obtain ⟨now, _, hread, hsigning⟩ := hreading.bind_ok
  obtain ⟨d, hbd, hdc, hnow⟩ := readCompanyNow_among hgrows Leaves.trans hread.mapError_ok
  obtain ⟨person, _, hsigner, hassembling⟩ := hsigning.bind_ok
  obtain ⟨hperson, rfl⟩ := hsigner.lift
  obtain ⟨record, c, hrecord, hpublishing⟩ := hassembling.bind_ok
  obtain ⟨hassembled, rfl⟩ := hrecord.lift
  obtain ⟨⟨txId, height⟩, x, happend, hlast⟩ := hpublishing.bind_ok
  obtain ⟨hdone, rfl⟩ := hlast.pure_ok
  obtain ⟨rfl, rfl⟩ := Prod.mk.inj hdone
  have hgoverns : Governs c key := hdc.governs ⟨now, person, hnow, mapErr_eq_ok.mp hperson.symm⟩
  have hac : Grows a c := (hab.trans _ _ _ (hbd.trans _ _ _ hdc)).grows
  have hc := hac.wellFormed (hsa.grows.wellFormed hs)
  obtain ⟨u, w, hcu, hr, hrecorded, hwt, ht⟩ :=
    recorded_among hc voteNamespace_foreign hgoverns happend
  obtain ⟨rfl, rfl⟩ := Prod.mk.inj hr
  exact ⟨rerun, a, u, w, hsa.grows.extends_, hac.extends_.trans hcu, hrerun, rfl,
    fun hcounts => ⟨hassembled.symm, hcounts, (ensure_eq_ok.mp hresult.symm).symm, rfl, rfl, rfl,
      hrecorded⟩, hwt, ht⟩

theorem leaves_finalize (v : VoteV1) (signing key : SigningKey) (time : ℕ) :
    (v.finalize signing time).Moves (Leaves key) := by
  refine .bind (.lift _) fun _ => ?_
  refine .bind (.bind (.lift _) fun _ => .bind (.mapError ?_) fun _ => .lift _) fun rerun => ?_
  · exact .bind (.read Leaves.refl _) fun _ => .bind (.read Leaves.refl _) fun _ => .lift _
  refine .bind (.lift _) fun _ => ?_
  refine .bind (.mapError Leaves.readCompanyNow) fun now => ?_
  refine .bind (.lift _) fun person => .bind (.lift _) fun record => ?_
  exact .bind (Leaves.appendTransaction voteNamespace_foreign) fun _ => trivial

/-- Finalising alone succeeds for a governance signer of the company now where the chain takes the
block. -/
theorem finalize_of_evaluated {v : VoteV1} {key : SigningKey} {time : ℕ} {s : LocalChainStore}
    {record : FinalVoteRecordV1} {rerun : VoteEvaluationV1} {now : CompanyStateV1}
    {person : PersonV1} (hs : s.WellFormed) (hstatus : v.status = .evaluated)
    (hrerun : v.evaluateNow s = .ok rerun) (hresult : v.evaluation = some (.of rerun))
    (hrecord : v.finalRecord = .ok record) (hnow : companyNow s = .ok now)
    (hperson : authorisedSigner now .governance (Platform.publicKey key) = .ok person)
    (hchild : ChildOf s.networkId s.headBlock.header s.containsTransaction (nextBlock s
      (nextTransaction s key voteNamespace (FinalVoteRecordV1.codec.encode record)) time))
    (hcommits : s.Commits) :
    (v.finalize key time).run s = (.ok ({ v with
        status := .finalized
        finalized := some ((nextTransaction s key voteNamespace
          (FinalVoteRecordV1.codec.encode record)).id, s.head.height + 1) },
        ⟨(nextTransaction s key voteNamespace (FinalVoteRecordV1.codec.encode record)).id,
          s.head.height + 1, record⟩),
      { s.push (nextBlock s (nextTransaction s key voteNamespace
          (FinalVoteRecordV1.codec.encode record)) time) with faults := s.faults.tail }) := by
  have hname : Namespace.new voteNamespace = .ok ⟨voteNamespace⟩ := by decide +kernel
  have happend :=
    @appendTransaction_of_child _ _ VoteV1.voteFaults _ _ _ _ _ hs hname hchild hcommits
  simp only [VoteV1.finalize, VoteV1.expectStatus, Program.run_bind, Program.run_lift,
    ensure_of hstatus, VoteV1.run_evaluatingNow, hrerun, ensure_of hresult.symm, hrecord,
    Program.run_mapError, run_readCompanyNow, hnow, mapErr_ok, hperson, happend, Program.run_pure]

/-- A vote whose snapshot is of a height that the chain has reached, frozen as the chain has it, and
whose ballots are accepted for it in the order of their voters. -/
structure VoteV1.Stands (v : VoteV1) (s : LocalChainStore) (snapshot : VoteSnapshotV1)
    (state : CompanyStateV1) (channel : ChannelIdV1) (resolved : ResolvedChannelV1)
    (rules : VotingRulesV1) : Prop where
  frozen : v.snapshot = some snapshot
  reached : snapshot.height ≤ s.head.height
  frozenAt : FrozenAt s snapshot state channel resolved rules
  ballots : ∀ b ∈ v.box.ballots, ∃ voter, b.check snapshot = .ok voter
  ordered : v.box.ballots.Pairwise fun a b => a.body.voter < b.body.voter

/-- What goes through its life stands where its snapshot does. -/
theorem VoteV1.Holds.stands {v : VoteV1} {s : LocalChainStore} {snapshot : VoteSnapshotV1}
    {state : CompanyStateV1} {channel : ChannelIdV1} {resolved : ResolvedChannelV1}
    {rules : VotingRulesV1} (h : v.Holds snapshot)
    (hfrozen : FrozenAt s snapshot state channel resolved rules)
    (hle : snapshot.height ≤ s.head.height) : v.Stands s snapshot state channel resolved rules :=
  ⟨h.frozen, hle, hfrozen, h.ballots, h.ordered⟩

namespace Published

variable {v done : VoteV1} {s t : LocalChainStore} {key : SigningKey} {time : ℕ}
  {finalized : FinalizedV1} {rerun : VoteEvaluationV1} {snapshot : VoteSnapshotV1}

/-- The record is the snapshot with the ballots of the vote and what was counted. -/
theorem record_eq (h : Published v s t key time done finalized rerun)
    (hfrozen : v.snapshot = some snapshot) :
    finalized.record = .assemble snapshot v.box.ballots (.of rerun) := by
  have hassembled := h.assembled
  simp only [VoteV1.finalRecord, hfrozen, h.result, orError_some, ok_bind, bind_eq_ok, pure_eq_ok,
    Except.ok.injEq] at hassembled
  obtain ⟨-, -, hrecord⟩ := hassembled
  exact hrecord.symm

theorem decodes (h : Published v s t key time done finalized rerun)
    (hfrozen : v.snapshot = some snapshot) :
    decodeVote (nextTransaction s key voteNamespace
      (FinalVoteRecordV1.codec.encode finalized.record)) = some finalized.record := by
  refine decodeVote_eq_some.mpr ⟨rfl, Codec.read_encode _ _, ?_, rfl⟩
  rw [h.record_eq hfrozen]
  rfl

/-- On the chain a vote was published on, it has a report, whose checks are about the record. -/
theorem report (h : Published v s t key time done finalized rerun)
    (hfrozen : v.snapshot = some snapshot) : ∃ located report,
      located.height = s.head.height + 1 ∧ verify t finalized.txId = .ok report ∧
      signerAuthorisedAt t located.height located.transaction.signer = true ∧
      t.getTransaction finalized.txId = some located ∧
      decodeVote located.transaction = some finalized.record ∧
      (NoneFailed report.checks ↔ ∃ state channel resolved rules evaluation,
        Passes t located finalized.record state channel resolved rules evaluation) := by
  let located : LocatedTransaction := ⟨s.head.height + 1, 0, nextTransaction s key voteNamespace
    (FinalVoteRecordV1.codec.encode finalized.record)⟩
  have hfound : t.getTransaction finalized.txId = some located := by
    rw [h.txId]
    exact h.recorded.found
  have hdecode : decodeVote located.transaction = some finalized.record := h.decodes hfrozen
  have hreport : verify t finalized.txId = .ok ⟨finalized.txId, located.height,
      some finalized.record, ⟨.decodes, true⟩ :: voteChecks t located finalized.record⟩ := by
    rw [verify, hfound, orError_some, ok_bind, hdecode]
    rfl
  refine ⟨located, _, rfl, hreport, h.recorded.signer, hfound, hdecode, ?_⟩
  rw [noneFailed_cons, noneFailed_voteChecks, eq_self, true_and]

/-- A vote that stands passes every check once it is published. -/
theorem passes (h : Published v s t key time done finalized rerun) {state : CompanyStateV1}
    {channel : ChannelIdV1} {resolved : ResolvedChannelV1} {rules : VotingRulesV1}
    (hstands : v.Stands s snapshot state channel resolved rules) {located : LocatedTransaction}
    (hheight : located.height = s.head.height + 1)
    (hsigner : signerAuthorisedAt t located.height located.transaction.signer = true) :
    Passes t located finalized.record state channel resolved rules rerun := by
  have hfrozen := hstands.frozenAt
  have hafter := hfrozen.extends_ h.recorded.extends_ hstands.reached
  rw [h.record_eq hstands.frozen]
  exact {
    voteId := rfl
    precedes := hheight ▸ Nat.lt_succ_iff.mpr hstands.reached
    reconstructs := hafter.reconstructs
    company := hfrozen.company
    pins := hfrozen.pins
    signer := hsigner
    label := hfrozen.label
    resolves := hfrozen.resolves
    collective := hfrozen.collective
    electorate := hfrozen.electorate
    ballots := hstands.ballots
    ordered := hstands.ordered
    commitment := rfl
    evaluates := by
      rw [FinalVoteRecordV1.assemble, ← hfrozen.evaluateNow hstands.frozen]
      exact h.counts
    result := rfl }

/-- A record that passes every check is of a vote that stood. -/
theorem stands (h : Published v s t key time done finalized rerun)
    (hfrozen : v.snapshot = some snapshot) {located : LocatedTransaction}
    (hheight : located.height = s.head.height + 1) {state : CompanyStateV1} {channel : ChannelIdV1}
    {resolved : ResolvedChannelV1} {rules : VotingRulesV1} {evaluation : VoteEvaluationV1}
    (hpasses : Passes t located finalized.record state channel resolved rules evaluation) :
    v.Stands s snapshot state channel resolved rules := by
  rw [h.record_eq hfrozen] at hpasses
  have hprecedes : snapshot.height < located.height := hpasses.precedes
  rw [hheight] at hprecedes
  have hle : snapshot.height ≤ s.head.height := Nat.lt_succ_iff.mp hprecedes
  have hstate : reconstruct t snapshot.height = .ok state := hpasses.reconstructs
  rw [Ledger.Extends.reconstruct h.recorded.extends_ hle] at hstate
  exact ⟨hfrozen, hle, ⟨hstate, hpasses.company, hpasses.pins, hpasses.label, hpasses.resolves,
    hpasses.collective, hpasses.electorate⟩, hpasses.ballots, hpasses.ordered⟩

end Published

end Irena.Vote
