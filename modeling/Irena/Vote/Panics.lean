import Irena.Core.Expected
import Irena.Vote.Frozen

/-! # Which operations on a vote panic

A failed expectation ends an operation without an answer. The company and its records are read
without one, and so are channels and evaluations; what is left are the parts a vote itself is
expected to carry. -/

namespace Irena.Ledger

open Irena.Library Irena.Library.Outcome Irena.Library.Strings
open Irena.Core Irena.Bornite Irena.Prunella

/-- An error that stands for a failed expectation. -/
def LedgerError.Panics : LedgerError → Prop
  | .record error => error = .fatal .panicked
  | .unreadableRecord _ _ _ (.record error) => error = .fatal .panicked
  | _ => False

theorem ends_signer {state : CompanyStateV1} {family : RecordFamilyV1} {key : PublicKey} :
    Ends (authorisedSigner state family key) (fun _ => True) fun e => ¬ e.Panics := by
  cases h : authorisedSigner state family key with
  | ok person => trivial
  | error e =>
    obtain ⟨detail, rfl⟩ := authorisedSigner_error h
    exact id

theorem ends_foundCompany {found : RecordRefV1} :
    Ends (foundCompany found) (fun _ => True) fun e => ¬ e.Panics := by
  unfold foundCompany
  split
  · refine Ends.bind (ends_ensure fun _ => id) fun _ _ => ?_
    split
    · exact id
    · trivial
  · exact id

theorem ends_apply {state : CompanyStateV1} {found : RecordRefV1} :
    Ends (apply state found) (fun _ => True) fun e => ¬ e.Panics := by
  refine Ends.bind (ends_ensure fun _ => id) fun _ _ => ?_
  refine Ends.bind (ends_ensure fun _ => id) fun _ _ => ?_
  split
  · exact id
  · refine Ends.bind (ends_ensure fun _ => id) fun _ _ => ?_
    dsimp only
    split
    · exact id
    · trivial

variable [Platform]

theorem ends_recordAt {height index : ℕ} {t : Transaction} {namespace_ : Text} :
    Ends (recordAt height index t namespace_) (fun _ => True) fun e => ¬ e.Panics := by
  refine Ends.bind (ends_orError fun _ => id) fun text _ => ?_
  refine Ends.bind (P := fun _ => True) (Ends.mapErr ?_) fun record _ => ?_
  · cases h : readRecord text with
    | ok record => trivial
    | error e =>
      rintro rfl
      exact ends_readRecord.error h rfl
  · refine Ends.bind (ends_ensure fun _ => id) fun _ _ => ?_
    exact Ends.bind (ends_ensure fun _ => id) fun _ _ => trivial

/-- No expectation fails in reading the company off a chain. -/
theorem ends_reconstruct {s : LocalChainStore} {at_ : ℕ} :
    Ends (reconstruct s at_) (fun _ => True) fun e => ¬ e.Panics := by
  have hstep : ∀ height state p, True →
      Ends (step height state p) (fun _ => True) fun e => ¬ e.Panics := by
    intro height state p _
    unfold step
    split
    · trivial
    · refine Ends.bind ends_recordAt fun found _ => ?_
      cases state with
      | none => exact ends_foundCompany.map
      | some current => exact ends_apply.map
  refine Ends.bind (P := fun _ => True) ?_ fun state _ => ?_
  · exact ends_foldlM (fun state block _ => ends_foldlM (hstep _) trivial) trivial
  · exact Ends.bind (ends_orError fun _ => id) fun _ _ => trivial

end Irena.Ledger

namespace Irena.Decision

open Irena.Library Irena.Library.Outcome Irena.Core Irena.Ledger

def DecisionError.Panics : DecisionError → Prop
  | .panicked => True
  | .ledger error => error.Panics
  | .label error => error = .fatal .panicked
  | _ => False

theorem ends_derivation {α : Type} {x : Except Bornite.CoreError α} :
    Ends (mapErr DecisionError.derivation x) (fun _ => True) fun e => ¬ e.Panics := by
  cases x with
  | ok a => trivial
  | error e => exact id

theorem ends_actorsOf {source : ActorSourceV1} {register : ShareStructureV1}
    {identities : IdentitiesV1} :
    Ends (actorsOf source register identities) (fun _ => True) fun e => ¬ e.Panics := by
  have hbuild : ∀ actors : List ActorV1,
      Ends (ActorSetV1.build actors) (fun _ => True) fun e => ¬ e.Panics := by
    intro actors
    refine Ends.bind ends_derivation fun _ _ => ?_
    exact Ends.bind ends_derivation fun _ _ => trivial
  have hactor : ∀ id weight,
      Ends (actor id weight identities) (fun _ => True) fun e => ¬ e.Panics :=
    fun id weight => Ends.bind ends_derivation fun _ _ => trivial
  cases source with
  | shareRegister => exact Ends.bind (ends_mapM fun _ => hactor _ _) fun _ _ => hbuild _
  | roster roster => exact Ends.bind (ends_mapM fun _ => hactor _ _) fun _ _ => hbuild _

/-- No expectation fails in resolving a channel. -/
theorem ends_resolveChannel {state : CompanyStateV1} {channel : ChannelIdV1} :
    Ends (resolveChannel state channel) (fun _ => True) fun e => ¬ e.Panics := by
  refine Ends.bind (ends_orError fun _ => id) fun found _ => ?_
  refine Ends.bind ends_actorsOf fun actors _ => ?_
  exact Ends.bind (ends_ensure fun _ => id) fun _ _ => trivial

end Irena.Decision

namespace Irena.Vote

open Irena.Library Irena.Library.Outcome Irena.Library.Strings
open Irena.Core Irena.Bornite Irena.Prunella Irena.Prunella.LocalChainStore Irena.Ledger
open Irena.Decision

/-- An error that stands for a failed expectation. -/
def VoteError.Panics : VoteError → Prop
  | .panicked => True
  | .ledger error => error.Panics
  | .decision error => error.Panics
  | .company error => error = .fatal .panicked
  | .evaluation error => error = .panicked
  | _ => False

variable {v : VoteV1}

theorem evaluate_expected {rules : VotingRulesV1} {electorate : ElectorateV1}
    {ballots : BallotSetV1} :
    Ends (evaluate rules electorate ballots) (fun _ => True) fun e => e ≠ .panicked := by
  rcases @countable_or_fails rules electorate ballots with h | ⟨e, h⟩
  · obtain ⟨report, hreport, -⟩ := evaluate_of_countable h
    rw [hreport]
    trivial
  · rw [evaluate_of_fails h]
    cases h <;> exact nofun

theorem ends_derived {α : Type} {x : Except Bornite.CoreError α} :
    Ends (mapErr VoteError.derivation x) (fun _ => True) fun e => ¬ e.Panics := by
  cases x with
  | ok a => trivial
  | error e => exact id

theorem ends_evaluateBallots {rules : VotingRulesV1} {snapshot : VoteSnapshotV1}
    {ballots : List SignedBallotV1} :
    Ends (evaluateBallots rules snapshot ballots) (fun _ => True) fun e => ¬ e.Panics := by
  refine Ends.bind ends_derived fun electorate _ => ?_
  refine Ends.bind (P := fun _ => True) ?_ fun ballots _ => Ends.mapErr evaluate_expected
  exact Ends.bind ends_derived fun _ _ => ends_derived

variable [Platform] {s : LocalChainStore}

/-- Counting a vote that has a snapshot panics nowhere. -/
theorem ends_evaluateNow (h : v.snapshot ≠ none) :
    Ends (v.evaluateNow s) (fun _ => True) fun e => ¬ e.Panics := by
  refine Ends.bind (ends_orError fun hnone => absurd hnone h) fun snapshot _ => ?_
  refine Ends.bind (Ends.mapErr ends_reconstruct) fun state _ => ?_
  refine Ends.bind (ends_ensure fun _ => id) fun _ _ => ?_
  refine Ends.bind (P := fun _ => True) (Ends.mapErr ?_) fun channel _ => ?_
  · cases hlabel : ChannelIdV1.new snapshot.channel with
    | ok channel => trivial
    | error e =>
      rintro rfl
      exact ends_channelId.error hlabel rfl
  · refine Ends.bind (Ends.mapErr ends_resolveChannel) fun resolved _ => ?_
    refine Ends.bind (ends_orError fun _ => id) fun rules _ => ends_evaluateBallots

omit [Platform] in
theorem ends_expectStatus {wanted : VoteStatusV1} {target : Text} :
    Ends (v.expectStatus wanted target) (fun _ => v.status = wanted) fun e => ¬ e.Panics :=
  ends_ensure fun _ => id

theorem ends_freeze {at_ : ℕ} {channel : ChannelIdV1} :
    Ends (v.freeze s at_ channel) (fun _ => True) fun e => ¬ e.Panics := by
  refine Ends.bind ends_expectStatus fun _ _ => ?_
  refine Ends.bind (Ends.mapErr ends_reconstruct) fun state _ => ?_
  refine Ends.bind (Ends.mapErr ends_resolveChannel) fun resolved _ => ?_
  exact Ends.bind (ends_ensure fun _ => id) fun _ _ => trivial

omit [Platform] in
theorem ends_opens : Ends v.opens (fun _ => True) fun e => ¬ e.Panics :=
  Ends.bind ends_expectStatus fun _ _ => trivial

omit [Platform] in
theorem ends_close : Ends v.close (fun _ => True) fun e => ¬ e.Panics :=
  Ends.bind ends_expectStatus fun _ _ => trivial

theorem ends_cast (h : v.status = .open_ → v.snapshot ≠ none) {ballot : SignedBallotV1} :
    Ends (v.cast ballot) (fun _ => True) fun e => ¬ e.Panics := by
  refine Ends.bind ends_expectStatus fun _ hstatus => ?_
  refine Ends.bind (ends_orError fun hnone => absurd hnone (h hstatus)) fun snapshot _ => ?_
  refine Ends.bind (P := fun _ => True) (Ends.mapErr ?_) fun voter _ => ?_
  · cases ballot.check snapshot with
    | ok voter => trivial
    | error e => exact id
  · exact Ends.bind (ends_ensure fun _ => id) fun _ _ => trivial

theorem ends_evaluates (h : v.status = .closed → v.snapshot ≠ none) :
    Ends (v.evaluates s) (fun _ => True) fun e => ¬ e.Panics := by
  refine Ends.bind ends_expectStatus fun _ hstatus => ?_
  exact Ends.bind (ends_evaluateNow (h hstatus)) fun _ _ => trivial

theorem ends_finalRecord
    (h : v.status = .evaluated ∨ v.status = .finalized → v.snapshot ≠ none ∧ v.evaluation ≠ none) :
    Ends v.finalRecord (fun _ => True) fun e => ¬ e.Panics := by
  refine Ends.bind (ends_ensure fun _ => id) fun _ hstatus => ?_
  obtain ⟨hsnapshot, hevaluation⟩ := h hstatus
  refine Ends.bind (ends_orError fun hnone => absurd hnone hsnapshot) fun snapshot _ => ?_
  exact Ends.bind (ends_orError fun hnone => absurd hnone hevaluation) fun _ _ => trivial

/-- What the chain refuses is reported as such. -/
theorem ends_appendTransaction {key : SigningKey} {payload : Bytes} {time : ℕ} :
    Ends ((appendTransaction VoteV1.voteFaults key voteNamespace payload time).run s).1
      (fun _ => True) fun e => ¬ e.Panics := by
  have hcore : ∀ {α : Type} (x : Except Prunella.CoreError α) (t : LocalChainStore),
      Ends ((Program.lift (mapErr VoteV1.voteFaults.core x)).run t).1 (fun _ => True)
        fun e => ¬ e.Panics := by
    intro α x t
    cases x with
    | ok a => trivial
    | error e => exact id
  refine Program.ends_run_bind (P := fun _ => True) trivial fun head t _ => ?_
  refine Program.ends_run_bind (ends_orError fun _ => id) fun parent t _ => ?_
  refine Program.ends_run_bind (hcore _ _) fun height t _ => ?_
  refine Program.ends_run_bind (hcore _ _) fun transaction t _ => ?_
  refine Program.ends_run_bind (hcore _ _) fun block t _ => ?_
  refine Program.ends_run_bind (P := fun _ => True) ?_ fun _ _ _ => trivial
  rw [run_append]
  cases (t.appendBlock block).1 with
  | ok outcome => trivial
  | error e => exact id

theorem ends_finalize (h : v.status = .evaluated → v.snapshot ≠ none ∧ v.evaluation ≠ none)
    {key : SigningKey} {time : ℕ} :
    Ends ((v.finalize key time).run s).1 (fun _ => True) fun e => ¬ e.Panics := by
  refine Program.ends_run_bind ends_expectStatus fun _ t hstatus => ?_
  refine Program.ends_run_bind (P := fun _ => True) ?_ fun rerun t _ => ?_
  · rw [VoteV1.run_evaluatingNow]
    exact ends_evaluateNow (h hstatus).1
  · refine Program.ends_run_bind (ends_ensure fun _ => id) fun _ t _ => ?_
    refine Program.ends_run_bind (P := fun _ => True) ?_ fun now t _ => ?_
    · rw [Program.run_mapError, run_readCompanyNow]
      exact Ends.mapErr ends_reconstruct
    · refine Program.ends_run_bind (Ends.mapErr ends_signer) fun _ t _ => ?_
      refine Program.ends_run_bind (ends_finalRecord fun _ => h hstatus) fun record t _ => ?_
      exact Program.ends_run_bind ends_appendTransaction fun _ _ _ => trivial

end Irena.Vote
