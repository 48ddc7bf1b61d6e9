import Irena.Vote.Canonical
import Irena.Vote.Independent
import Irena.Vote.Panics

/-! # Votes from anywhere

A vote travels as bytes, and reading it restores its status, its snapshot, its ballots and its result
apart from each other. A status that promises parts the bytes leave out makes an operation panic, and
finalising counts ballots without asking whether they were ever accepted. -/

namespace Irena.Vote

open Irena.Library Irena.Library.Outcome Irena.Library.Strings
open Irena.Core Irena.Bornite Irena.Prunella Irena.Prunella.LocalChainStore Irena.Ledger
open Irena.Decision

section Rules

/-- A vote carries what its status promises: a snapshot once it is open, a result once it is
evaluated. -/
structure VoteV1.Carries (v : VoteV1) : Prop where
  snapshot : v.status ≠ .draft → v.status ≠ .frozen → v.snapshot ≠ none
  evaluation : v.status = .evaluated ∨ v.status = .finalized → v.evaluation ≠ none

variable [Platform]

/-- Every operation on a vote ends in an answer or in an error of its own. -/
structure VoteV1.Answers (v : VoteV1) (s : LocalChainStore) : Prop where
  freeze : ∀ at_ channel e, v.freeze s at_ channel = .error e → ¬ e.Panics
  opens : ∀ e, v.opens = .error e → ¬ e.Panics
  cast : ∀ ballot e, v.cast ballot = .error e → ¬ e.Panics
  close : ∀ e, v.close = .error e → ¬ e.Panics
  evaluates : ∀ e, v.evaluates s = .error e → ¬ e.Panics
  finalRecord : ∀ e, v.finalRecord = .error e → ¬ e.Panics
  finalize : ∀ key time e t, (v.finalize key time).run s = (.error e, t) → ¬ e.Panics

variable {v : VoteV1} {s : LocalChainStore}

theorem VoteV1.Carries.answers (h : v.Carries) : v.Answers s := by
  have hevaluated : v.status = .evaluated ∨ v.status = .finalized →
      v.snapshot ≠ none ∧ v.evaluation ≠ none := by
    intro hstatus
    refine ⟨h.snapshot ?_ ?_, h.evaluation hstatus⟩ <;>
      rcases hstatus with hstatus | hstatus <;> rw [hstatus] <;> decide
  have hopen : v.status = .open_ → v.snapshot ≠ none := fun hstatus =>
    h.snapshot (by rw [hstatus]; decide) (by rw [hstatus]; decide)
  have hclosed : v.status = .closed → v.snapshot ≠ none := fun hstatus =>
    h.snapshot (by rw [hstatus]; decide) (by rw [hstatus]; decide)
  exact {
    freeze := fun _ _ _ => ends_freeze.error
    opens := fun _ => ends_opens.error
    cast := fun _ _ => (ends_cast hopen).error
    close := fun _ => ends_close.error
    evaluates := fun _ => (ends_evaluates hclosed).error
    finalRecord := fun _ => (ends_finalRecord hevaluated).error
    finalize := fun key time e t hrun => by
      have hends : Ends ((v.finalize key time).run s).1 (fun _ => True) fun e => ¬ e.Panics :=
        ends_finalize fun hstatus => hevaluated (.inl hstatus)
      rw [hrun] at hends
      exact hends }

/-- Without a part that its status promises a vote has an operation that panics. -/
theorem VoteV1.Answers.carries (h : v.Answers s) : v.Carries := by
  have hrecord : v.status = .evaluated ∨ v.status = .finalized →
      v.snapshot ≠ none ∧ v.evaluation ≠ none := by
    intro hstatus
    by_contra hmissing
    refine h.finalRecord .panicked ?_ trivial
    rw [VoteV1.finalRecord, ensure_of hstatus, ok_bind]
    cases hsnapshot : v.snapshot with
    | none => rfl
    | some snapshot =>
      have hevaluation : v.evaluation = none := by
        by_contra hsome
        exact hmissing ⟨by rw [hsnapshot]; exact Option.some_ne_none _, hsome⟩
      rw [hevaluation]
      rfl
  refine ⟨fun hdraft hfrozen hsnapshot => ?_, fun hstatus => (hrecord hstatus).2⟩
  cases hstatus : v.status with
  | draft => exact hdraft hstatus
  | frozen => exact hfrozen hstatus
  | open_ =>
    refine h.cast ⟨⟨⟨⟨0⟩⟩, [], .yes⟩, ⟨0⟩⟩ .panicked ?_ trivial
    rw [VoteV1.cast, VoteV1.expectStatus, ensure_of hstatus, hsnapshot]
    rfl
  | closed =>
    refine h.evaluates .panicked ?_ trivial
    rw [VoteV1.evaluates, VoteV1.expectStatus, ensure_of hstatus, VoteV1.evaluateNow, hsnapshot]
    rfl
  | evaluated => exact (hrecord (.inl hstatus)).1 hsnapshot
  | finalized => exact (hrecord (.inr hstatus)).1 hsnapshot

/-- Whatever bytes a vote was read from: its operations panic nowhere exactly when it carries what
its status promises, and what it publishes verifies exactly when its snapshot is the one the chain
gives and its ballots are accepted for it in the order of their voters. -/
theorem decoded_answers_and_verifies {bytes : Bytes} (hs : s.WellFormed) :
    ∀ v, VoteV1.fromCanonicalBytes bytes = .ok v → (v.Answers s ↔ v.Carries) ∧
      ∀ key time done finalized t, (v.finalize key time).run s = (.ok (done, finalized), t) →
        ((∃ report, verify t finalized.txId = .ok report ∧ report.isValid = true) ↔
          ∃ snapshot state channel resolved rules,
            v.Stands s snapshot state channel resolved rules) := by
  refine fun v _ => ⟨⟨VoteV1.Answers.carries, VoteV1.Carries.answers⟩, ?_⟩
  intro key time done finalized t hfinal
  rcases finalize_cases hs hfinal with ⟨e, he, -⟩ | ⟨_, _, rerun, hr, -, hpublished⟩
  · cases he
  obtain ⟨rfl, rfl⟩ := Prod.mk.inj (Except.ok.inj hr)
  obtain ⟨snapshot, -, -, -, -, hsnapshot, -⟩ := evaluateNow_eq_ok.mp hpublished.counts
  obtain ⟨located, report, hheight, hreport, hsigner, -, -, hchecks⟩ :=
    hpublished.report hsnapshot
  constructor
  · rintro ⟨found, hfound, hvalid⟩
    obtain rfl := Except.ok.inj (hreport.symm.trans hfound)
    obtain ⟨state, channel, resolved, rules, _, hpasses⟩ :=
      hchecks.mp (allPassed_iff.mp hvalid).2
    exact ⟨snapshot, state, channel, resolved, rules, hpublished.stands hsnapshot hheight hpasses⟩
  · rintro ⟨found, state, channel, resolved, rules, hstands⟩
    obtain rfl := Option.some.inj (hsnapshot.symm.trans hstands.frozen)
    have hpasses := hpublished.passes hstands hheight hsigner
    obtain ⟨_, hverified⟩ := verified_of_noneFailed hreport
      (hchecks.mpr ⟨state, channel, resolved, rules, rerun, hpasses⟩)
    exact ⟨report, hreport, hverified.valid⟩

end Rules

section Samples

open Irena.Sample

attribute [local instance] platform signaturesVerify

/-- The shareholder's vote, read from its bytes and finalised, verifies. -/
theorem decoded_answers_and_verifies_founded : ∃ bytes v done finalized t report,
    VoteV1.fromCanonicalBytes bytes = .ok v ∧
      (v.finalize ann 0).run founded = (.ok (done, finalized), t) ∧
      verify t finalized.txId = .ok report ∧ report.isValid = true := by
  obtain ⟨closed, evaluated, evaluation, done, finalized, t, hconduct, hevaluates, hfinal, -⟩ :=
    finalize_founded (Nat.zero_le 1)
  obtain ⟨snapshot, state, resolved, rules, hfrozen, hheight, hholds, -⟩ := conduct_eq_ok hconduct
  obtain ⟨-, -, hevaluated⟩ := evaluates_eq_ok.mp hevaluates
  have hholds' : evaluated.Holds snapshot := by
    rw [hevaluated]
    exact hholds.of_eq rfl rfl
  have hread := evaluated.fromCanonicalBytes_canonicalBytes
  obtain ⟨-, hverifies⟩ := decoded_answers_and_verifies founded_wellFormed _ hread
  obtain ⟨report, hreport, hvalid⟩ := (hverifies _ _ _ _ _ hfinal).mpr
    ⟨snapshot, state, _, resolved, rules, hholds'.stands hfrozen (hheight ▸ Nat.zero_le _)⟩
  exact ⟨_, evaluated, done, finalized, t, report, hread, hfinal, hreport, hvalid⟩

/-- An open vote without a snapshot. -/
def bare : VoteV1 := { VoteV1.draft [] ⟨0⟩ with status := .open_ }

/-- The shareholder's ballot as a stranger signs it. -/
def forged : SignedBallotV1 := .sign eve budget.id bobId .yes

/-- The vote with the forged ballot in its box, said to be evaluated. -/
def stuffed : VoteV1 := { VoteV1.draft (lit "Budget") ⟨7⟩ with
  status := .evaluated
  company := company.value
  snapshot := some budget
  box := .collect [(bobId.value, forged)]
  evaluation := some (.of inFavour) }

theorem ballots_stuffed : stuffed.box.ballots = [forged] := rfl

/-- The stranger's signature is not the shareholder's, and the chain has no record of the vote. -/
theorem check_forged : (forged.check budget).toOption = none ∧
    founded.containsTransaction (nextTransaction founded ann voteNamespace
      (FinalVoteRecordV1.codec.encode (.assemble budget [forged] (.of inFavour)))).id = false := by
  decide +kernel

theorem evaluateNow_stuffed : stuffed.evaluateNow founded = .ok inFavour := by
  refine evaluateNow_eq_ok.mpr ⟨budget, { acme with at_ := 0 }, shareholders.id,
    { shareholdersResolved with height := 0 }, majority, rfl,
    reconstruct_above companyNow_founded le_rfl, rfl, rfl, rfl,
    resolveChannel_at resolveChannel_shareholders 0, rules_shareholdersResolved, ?_⟩
  have hballots : borniteBallots [forged] = borniteBallots [yes budget] := by
    simp only [borniteBallots, borniteBallot, forged, yes, SignedBallotV1.sign, List.mapM_cons,
      List.mapM_nil]
  have hyes := (evaluates_voteSnapshot (lit "Budget") ⟨7⟩ 0).1
  rw [ballots_stuffed]
  rw [evaluateBallots_eq_ok] at hyes ⊢
  rw [hballots]
  exact hyes

/-- Bytes that decode make casting panic, and bytes that decode publish a ballot nobody cast: the
record does not verify. -/
theorem fromCanonicalBytes_unsafe :
    (∃ bytes v ballot, VoteV1.fromCanonicalBytes bytes = .ok v ∧ v.cast ballot = .error .panicked) ∧
    ∃ bytes v done finalized t report, VoteV1.fromCanonicalBytes bytes = .ok v ∧
      (v.finalize ann 0).run founded = (.ok (done, finalized), t) ∧
      verify t finalized.txId = .ok report ∧ report.isValid = false := by
  refine ⟨⟨_, bare, forged, bare.fromCanonicalBytes_canonicalBytes, rfl⟩, ?_⟩
  have hrecord : stuffed.finalRecord = .ok (.assemble budget [forged] (.of inFavour)) := rfl
  have hfinal := finalize_of_evaluated founded_wellFormed rfl evaluateNow_stuffed rfl hrecord
    companyNow_founded (authorisedSigner_acme 0)
    ((childOf_nextBlock founded_wellFormed).mpr ⟨by decide, le_rfl, sound_signTransaction ann _,
      check_forged.2⟩) (by decide)
  rcases finalize_cases founded_wellFormed hfinal with ⟨e, he, -⟩ | ⟨_, _, rerun, hr, -, hpublished⟩
  · cases he
  obtain ⟨hdone, hfinalized⟩ := Prod.mk.inj (Except.ok.inj hr)
  obtain ⟨located, report, hheight, hreport, -, -, -, hchecks⟩ := hpublished.report rfl
  rw [← hfinalized] at hreport
  refine ⟨_, stuffed, _, _, _, report, stuffed.fromCanonicalBytes_canonicalBytes, hfinal, hreport, ?_⟩
  by_contra hvalid
  obtain ⟨_, _, _, _, _, hpasses⟩ :=
    hchecks.mp (allPassed_iff.mp (Bool.eq_true_of_not_eq_false hvalid)).2
  have hstands := hpublished.stands rfl hheight hpasses
  obtain ⟨voter, hvoter⟩ := hstands.ballots forged (ballots_stuffed ▸ List.mem_singleton_self _)
  have hnone := check_forged.1
  rw [hvoter] at hnone
  cases hnone

end Samples

end Irena.Vote
