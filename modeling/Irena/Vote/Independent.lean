import Irena.Vote.Decided
import Irena.Vote.Published

/-! # Frozen votes and later history

What is appended after the freeze does not reach a vote, where the height it froze at had been
reached. Freezing accepts a height above the head too, reads the company at the head there, and
leaves later blocks to decide what the company of that height will be. -/

namespace Irena.Vote

open Irena.Library Irena.Library.Outcome Irena.Library.Strings
open Irena.Core Irena.Bornite Irena.Prunella Irena.Prunella.LocalChainStore Irena.Ledger
open Irena.Decision

section Rules

variable [Platform]

/-- What evaluating sets is not what counting reads. -/
theorem evaluateNow_of_evaluates {v w : VoteV1} {s t : LocalChainStore}
    {evaluation : VoteEvaluationV1} (h : v.evaluates s = .ok (w, evaluation)) :
    w.evaluateNow t = v.evaluateNow t := by
  obtain ⟨-, -, rfl⟩ := evaluates_eq_ok.mp h
  rfl

/-- A frozen vote is independent of later history exactly where its height and its pins are settled:
there it is counted as on the chain it was frozen on, and a record of it that is published verifies;
and a published record verifies nowhere else. -/
theorem conducted_independent {s t : LocalChainStore} {at_ : ℕ} {channel : ChannelIdV1}
    {subject : Text} {proposalDigest : Hash} {ballots : List SignedBallotV1} {closed : VoteV1}
    (ht : t.WellFormed) (hext : s.Extends t)
    (h : conduct s at_ channel subject proposalDigest ballots = .ok closed) :
    (Settled s t at_ → closed.evaluateNow t = closed.evaluateNow s) ∧
    ∀ r evaluated evaluation key time done finalized u,
      closed.evaluates r = .ok (evaluated, evaluation) →
      (evaluated.finalize key time).run t = (.ok (done, finalized), u) →
      ((evaluated.evaluateNow t = closed.evaluateNow s ∧
        ∃ v, verify u finalized.txId = .ok v ∧ NoneFailed v.checks) ↔ Settled s t at_) := by
  obtain ⟨snapshot, state, resolved, rules, hfrozen, rfl, hholds, -⟩ := conduct_eq_ok h
  have hsame : Settled s t snapshot.height → closed.evaluateNow t = closed.evaluateNow s := by
    intro hsettled
    obtain ⟨later, hlater⟩ := hfrozen.settled ht hext hsettled
    rw [hlater.evaluateNow hholds.frozen, hfrozen.evaluateNow hholds.frozen]
  refine ⟨hsame, fun r evaluated evaluation key time done finalized u hevaluates hfinal => ?_⟩
  obtain ⟨-, -, hevaluated⟩ := evaluates_eq_ok.mp hevaluates
  have hholds' : evaluated.Holds snapshot := by
    rw [hevaluated]
    exact hholds.of_eq rfl rfl
  rcases finalize_cases ht hfinal with ⟨e, he, -⟩ | ⟨_, _, rerun, hr, -, hpublished⟩
  · cases he
  · obtain ⟨rfl, rfl⟩ := Prod.mk.inj (Except.ok.inj hr)
    obtain ⟨located, report, hheight, hreport, hsigner, -, -, hchecks⟩ :=
      hpublished.report hholds'.frozen
    rw [evaluateNow_of_evaluates hevaluates]
    constructor
    · rintro ⟨-, v, hv, hnone⟩
      obtain rfl := Except.ok.inj (hreport.symm.trans hv)
      obtain ⟨later, _, _, _, _, hpasses⟩ := hchecks.mp hnone
      have hstands := hpublished.stands hholds'.frozen hheight hpasses
      exact ⟨hstands.reached, state, later, hfrozen.reconstructs, hstands.frozenAt.reconstructs,
        (pins_iff_providers hfrozen.pins).mp hstands.frozenAt.pins⟩
    · intro hsettled
      obtain ⟨later, hlater⟩ := hfrozen.settled ht hext hsettled
      exact ⟨hsame hsettled, report, hreport, hchecks.mpr ⟨later, channel, resolved, rules, rerun,
        hpublished.passes (hholds'.stands hlater hsettled.reached) hheight hsigner⟩⟩

end Rules

section Samples

open Irena.Sample

attribute [local instance] platform signaturesVerify

def budgetRecord (n : ℕ) : FinalVoteRecordV1 :=
  .assemble (voteSnapshot (lit "Budget") ⟨7⟩ n) [yes (voteSnapshot (lit "Budget") ⟨7⟩ n)]
    (.of inFavour)

theorem fresh_budgetRecord {n : ℕ} (hn : n ≤ 1) : founded.containsTransaction (nextTransaction
    founded ann voteNamespace (FinalVoteRecordV1.codec.encode (budgetRecord n))).id = false := by
  interval_cases n <;> decide +kernel

theorem evaluateNow_founded {closed : VoteV1} {n : ℕ}
    (hsnapshot : closed.snapshot = some (voteSnapshot (lit "Budget") ⟨7⟩ n))
    (hballots : closed.box.ballots = [yes (voteSnapshot (lit "Budget") ⟨7⟩ n)]) :
    closed.evaluateNow founded = .ok inFavour := by
  refine evaluateNow_eq_ok.mpr ⟨_, { acme with at_ := n }, shareholders.id,
    { shareholdersResolved with height := n }, majority, hsnapshot,
    reconstruct_above companyNow_founded (Nat.zero_le n), rfl, rfl, rfl,
    resolveChannel_at resolveChannel_shareholders n, rules_shareholdersResolved, ?_⟩
  rw [hballots]
  exact (evaluates_voteSnapshot _ _ n).1

/-- The shareholder's vote is finalised on a chain where it is counted so. -/
theorem finalize_counted {s : LocalChainStore} {closed : VoteV1} {n m : ℕ} (hs : s.WellFormed)
    (hsnapshot : closed.snapshot = some (voteSnapshot (lit "Budget") ⟨7⟩ n))
    (hballots : closed.box.ballots = [yes (voteSnapshot (lit "Budget") ⟨7⟩ n)])
    (hcount : ({ closed with
      status := .evaluated
      evaluation := some (.of inFavour) } : VoteV1).evaluateNow s = .ok inFavour)
    (hnow : companyNow s = .ok { acme with at_ := m }) (hroom : s.head.height < u64Max)
    (htime : s.headBlock.header.timestampMillis ≤ 0)
    (hfresh : s.containsTransaction (nextTransaction s ann voteNamespace
      (FinalVoteRecordV1.codec.encode (budgetRecord n))).id = false) (hcommits : s.Commits) :
    ∃ done finalized t, (({ closed with
      status := .evaluated
      evaluation := some (.of inFavour) } : VoteV1).finalize ann 0).run s =
        (.ok (done, finalized), t) := by
  have hrecord : ({ closed with
      status := .evaluated
      evaluation := some (.of inFavour) } : VoteV1).finalRecord = .ok (budgetRecord n) := by
    simp only [VoteV1.finalRecord, hsnapshot, hballots, orError_some, ok_bind, true_or, ensure_of,
      pure_eq_ok, budgetRecord]
  have hchild := (childOf_nextBlock hs).mpr ⟨hroom, htime, sound_signTransaction ann _, hfresh⟩
  exact ⟨_, _, _, finalize_of_evaluated hs rfl hcount rfl hrecord hnow (authorisedSigner_acme m) hchild
    hcommits⟩

/-- The shareholder's vote is evaluated and finalised at once, whatever height it was frozen at. -/
theorem finalize_founded {n : ℕ} (hn : n ≤ 1) : ∃ closed evaluated evaluation done finalized t,
    conduct founded n shareholders.id (lit "Budget") ⟨7⟩ [yes (voteSnapshot (lit "Budget") ⟨7⟩ n)] =
        .ok closed ∧
      closed.evaluates founded = .ok (evaluated, evaluation) ∧
      (evaluated.finalize ann 0).run founded = (.ok (done, finalized), t) ∧
      evaluated.snapshot = some (voteSnapshot (lit "Budget") ⟨7⟩ n) := by
  obtain ⟨closed, hconduct, hstatus, hsnapshot, hballots⟩ := conduct_founded n
  have hcount := evaluateNow_founded hsnapshot hballots
  have hevaluates := evaluates_eq_ok.mpr ⟨hstatus, hcount, rfl⟩
  obtain ⟨done, finalized, t, hfinal⟩ := finalize_counted founded_wellFormed hsnapshot hballots
    ((evaluateNow_of_evaluates hevaluates).trans hcount) companyNow_founded (by decide) le_rfl
    (fresh_budgetRecord hn) (by decide)
  exact ⟨closed, _, inFavour, done, finalized, t, hconduct, hevaluates, hfinal, hsnapshot⟩

/-- A record that others append after the company is founded. -/
def othersRecord : Transaction := signed ann voteNamespace [] 1

def outgrown : LocalChainStore := grown founded [[othersRecord]]

theorem outgrown_ids : ((founded.transactions ++ [[othersRecord]].flatten).map Transaction.id).Nodup ∧
    outgrown.containsTransaction (nextTransaction outgrown ann voteNamespace
      (FinalVoteRecordV1.codec.encode (budgetRecord 0))).id = false := by
  decide +kernel

theorem outgrown_wellFormed : outgrown.WellFormed :=
  wellFormed_grown founded_wellFormed (by decide) rfl (by decide)
    (List.forall_mem_singleton.mpr (List.forall_mem_singleton.mpr (sound_signed ..))) outgrown_ids.1

/-- Frozen at the head, the shareholder's vote is counted alike where others have appended since, and
its record verifies there. -/
theorem independent_founded : ∃ closed t v, ∃ finalized : FinalizedV1,
    conduct founded 0 shareholders.id (lit "Budget") ⟨7⟩ [yes budget] = .ok closed ∧
      founded.Extends outgrown ∧ outgrown.head.height = 1 ∧ outgrown.Extends t ∧
      verify t finalized.txId = .ok v ∧ NoneFailed v.checks := by
  obtain ⟨closed, hconduct, hstatus, hsnapshot, hballots⟩ := conduct_founded 0
  have hext : founded.Extends outgrown := extends_push _ _
  have hsettled := settled_of_le hext companyNow_founded le_rfl
  obtain ⟨hsame, hiff⟩ := conducted_independent outgrown_wellFormed hext hconduct
  have hcount := evaluateNow_founded hsnapshot hballots
  have hevaluates := evaluates_eq_ok.mpr ⟨hstatus, hcount, rfl⟩
  have hnow := companyNow_grown (b := [[othersRecord]]) companyNow_founded
    (List.forall_mem_singleton.mpr (List.forall_mem_singleton.mpr voteNamespace_foreign))
  obtain ⟨done, finalized, t, hfinal⟩ := finalize_counted outgrown_wellFormed hsnapshot hballots
    ((evaluateNow_of_evaluates hevaluates).trans ((hsame hsettled).trans hcount)) hnow (by decide)
    le_rfl outgrown_ids.2 (by decide)
  obtain ⟨-, v, hv, hnone⟩ := (hiff _ _ _ _ _ _ _ _ hevaluates hfinal).mpr hsettled
  rcases finalize_cases outgrown_wellFormed hfinal with ⟨e, he, -⟩ | ⟨_, _, _, -, -, hpublished⟩
  · cases he
  · exact ⟨closed, t, v, finalized, hconduct, hext, rfl, hpublished.recorded.extends_, hv, hnone⟩

/-- Frozen above the head and finalised at once, the vote is on the chain and does not verify. -/
theorem dependent_above_head : ∃ closed evaluated evaluation done finalized t v,
    conduct founded 1 shareholders.id (lit "Budget") ⟨7⟩ [yes (voteSnapshot (lit "Budget") ⟨7⟩ 1)] =
        .ok closed ∧
      closed.evaluates founded = .ok (evaluated, evaluation) ∧
      (evaluated.finalize ann 0).run founded = (.ok (done, finalized), t) ∧
      verify t finalized.txId = .ok v ∧ ¬ NoneFailed v.checks := by
  obtain ⟨closed, evaluated, evaluation, done, finalized, t, hconduct, hevaluates, hfinal,
    hsnapshot⟩ := finalize_founded le_rfl
  rcases finalize_cases founded_wellFormed hfinal with ⟨e, he, -⟩ | ⟨_, _, rerun, hr, -, hpublished⟩
  · cases he
  · obtain ⟨rfl, rfl⟩ := Prod.mk.inj (Except.ok.inj hr)
    obtain ⟨located, v, hheight, hv, -, -, -, hchecks⟩ := hpublished.report hsnapshot
    refine ⟨closed, evaluated, evaluation, done, finalized, t, v, hconduct, hevaluates, hfinal, hv, ?_⟩
    rw [hchecks]
    rintro ⟨_, _, _, _, _, hpasses⟩
    have hprecedes := hpasses.precedes
    rw [hpublished.record_eq hsnapshot, hheight] at hprecedes
    exact absurd hprecedes (lt_irrefl 1)

end Samples

end Irena.Vote
