import Irena.Sample.Chain
import Irena.Vote.Soundness

/-! # Votes to run on

The shareholder's vote in the collective channel, and the record of it with some of the ballots. -/

namespace Irena.Sample

open Irena.Library Irena.Library.Outcome Irena.Library.Strings Irena.Library.Utf8
open Irena.Core Irena.Bornite Irena.Prunella Irena.Prunella.LocalChainStore Irena.Ledger
open Irena.Decision Irena.Vote

attribute [local instance] platform signaturesVerify

/-- What the shareholders' channel resolves to. -/
def shareholdersResolved : ResolvedChannelV1 :=
  (resolveChannel acme shareholders.id).toOption.get (by decide +kernel)

theorem resolveChannel_shareholders :
    resolveChannel acme shareholders.id = .ok shareholdersResolved :=
  eq_ok_of_toOption _

theorem rules_shareholdersResolved : shareholdersResolved.rules = some majority := by
  decide +kernel

/-- The one entry of the electorate. -/
def bobEntry : ElectorateEntryV1 := ⟨bobId.value, ⟨1, u64Max_pos⟩, false, some (publicKeyOf bob)⟩

theorem electorate_shareholdersResolved :
    shareholdersResolved.actors.actors.map entryOf = [bobEntry] := by
  decide +kernel

/-- What a vote of the shareholders freezes, pinned to the company as founded. -/
def voteSnapshot (subject : Text) (digest : Hash) (height : ℕ) : VoteSnapshotV1 where
  company := company.value
  subject := subject
  proposalDigest := digest
  height := height
  genesisTxId := genesisTransaction.id
  sharesTxId := genesisTransaction.id
  channelsTxId := genesisTransaction.id
  identitiesTxId := genesisTransaction.id
  channel := shareholders.id.value
  electorate := [bobEntry]

/-- The shareholder's ballot in favour. -/
def yes (snapshot : VoteSnapshotV1) : SignedBallotV1 := .sign bob snapshot.id bobId .yes

/-- The evaluation of the shareholder's ballot in favour. -/
def inFavour : VoteEvaluationV1 :=
  (evaluateBallots majority (voteSnapshot [] ⟨0⟩ 0) [yes (voteSnapshot [] ⟨0⟩ 0)]).toOption.get
    (by decide +kernel)

/-- The evaluation of no ballot. -/
def unanswered : VoteEvaluationV1 :=
  (evaluateBallots majority (voteSnapshot [] ⟨0⟩ 0) []).toOption.get (by decide +kernel)

theorem outcomes : inFavour.outcome = .accepted ∧ unanswered.outcome = .rejected := by
  decide +kernel

/-- Nothing but voters, weights and choices enters an evaluation. -/
theorem evaluates_voteSnapshot (subject : Text) (digest : Hash) (height : ℕ) :
    evaluateBallots majority (voteSnapshot subject digest height)
        [yes (voteSnapshot subject digest height)] = .ok inFavour ∧
      evaluateBallots majority (voteSnapshot subject digest height) [] = .ok unanswered := by
  have helectorate : (voteSnapshot subject digest height).toElectorate =
      (voteSnapshot [] ⟨0⟩ 0).toElectorate := rfl
  have hballots : borniteBallots [yes (voteSnapshot subject digest height)] =
      borniteBallots [yes (voteSnapshot [] ⟨0⟩ 0)] := by
    simp only [borniteBallots, borniteBallot, yes, SignedBallotV1.sign, List.mapM_cons,
      List.mapM_nil]
  have hyes : evaluateBallots majority (voteSnapshot [] ⟨0⟩ 0) [yes (voteSnapshot [] ⟨0⟩ 0)] =
      .ok inFavour := eq_ok_of_toOption _
  have hnone : evaluateBallots majority (voteSnapshot [] ⟨0⟩ 0) [] = .ok unanswered :=
    eq_ok_of_toOption _
  rw [evaluateBallots_eq_ok] at hyes hnone ⊢
  rw [evaluateBallots_eq_ok, helectorate, hballots]
  exact ⟨hyes, hnone⟩

/-- The shareholder's ballot is accepted. -/
theorem check_yes (subject : Text) (digest : Hash) (height : ℕ) :
    (yes (voteSnapshot subject digest height)).check (voteSnapshot subject digest height) =
      .ok bobId := by
  refine SignedBallotV1.check_eq_ok.mpr ⟨rfl, rfl, bobEntry, publicKeyOf bob, ?_, rfl, rfl, ?_⟩
  · change SortedTable.binarySearch ElectorateEntryV1.id bobId.value [bobEntry] = some bobEntry
    decide +kernel
  · exact verifySignature_eq_ok.mpr (SignaturesVerify.verifies bob _)

/-- The record of a vote with some of its ballots, as the director publishes it. -/
def voteTransaction (snapshot : VoteSnapshotV1) (ballots : List SignedBallotV1)
    (evaluation : VoteEvaluationV1) : Transaction :=
  signed ann voteNamespace
    (FinalVoteRecordV1.codec.encode (.assemble snapshot ballots (.of evaluation))) 0

theorem vote_foreign (snapshot : VoteSnapshotV1) (ballots : List SignedBallotV1)
    (evaluation : VoteEvaluationV1) :
    kindOfNamespace (voteTransaction snapshot ballots evaluation).namespace_.value = none := by
  change kindOfNamespace voteNamespace = none
  decide +kernel

section Chain

variable {s : LocalChainStore} {subject : Text} {digest : Hash} {height n : ℕ}
variable {ballots : List SignedBallotV1} {evaluation : VoteEvaluationV1}

/-- The record of some of the ballots passes every check. -/
theorem vote_passes (i : ℕ) (hs : reconstruct s height = .ok { acme with at_ := height })
    (hn : height < n) (hsigner : signerAuthorisedAt s n (publicKeyOf ann) = true)
    (hballots : (ballots = [yes (voteSnapshot subject digest height)] ∧ evaluation = inFavour) ∨
      (ballots = [] ∧ evaluation = unanswered)) :
    Passes s ⟨n, i, voteTransaction (voteSnapshot subject digest height) ballots evaluation⟩
      (.assemble (voteSnapshot subject digest height) ballots (.of evaluation))
      { acme with at_ := height } shareholders.id
      { shareholdersResolved with height } majority evaluation where
  voteId := rfl
  precedes := hn
  reconstructs := hs
  company := rfl
  pins := by simp [VoteSnapshotV1.pins, FinalVoteRecordV1.assemble, voteSnapshot, acme,
    InForceV1.fromRecord, foundingRecord]
  signer := hsigner
  label := rfl
  resolves := resolveChannel_at resolveChannel_shareholders height
  collective := rules_shareholdersResolved
  electorate := electorate_shareholdersResolved.symm
  ballots := by
    rcases hballots with ⟨rfl, -⟩ | ⟨rfl, -⟩
    · intro b hb
      rw [List.mem_singleton.mp hb]
      exact ⟨bobId, check_yes subject digest height⟩
    · exact fun b hb => absurd hb List.not_mem_nil
  ordered := by
    rcases hballots with ⟨rfl, -⟩ | ⟨rfl, -⟩
    · exact List.pairwise_singleton _ _
    · exact .nil
  commitment := rfl
  evaluates := by
    rcases hballots with ⟨rfl, rfl⟩ | ⟨rfl, rfl⟩
    · exact (evaluates_voteSnapshot subject digest height).1
    · exact (evaluates_voteSnapshot subject digest height).2
  result := rfl

theorem decodeVote_voteTransaction (snapshot : VoteSnapshotV1) :
    decodeVote (voteTransaction snapshot ballots evaluation) =
      some (.assemble snapshot ballots (.of evaluation)) :=
  decodeVote_eq_some.mpr ⟨rfl, Codec.read_encode _ _, rfl, rfl⟩

end Chain

/-- A vote on the budget. -/
def budget : VoteSnapshotV1 := voteSnapshot (lit "Budget") ⟨7⟩ 0

def carried : Transaction := voteTransaction budget [yes budget] inFavour

/-- The same vote without the ballot that was cast. -/
def dropped : Transaction := voteTransaction budget [] unanswered

def voted : LocalChainStore := grown founded [[carried], [dropped]]

theorem voted_wellFormed : voted.WellFormed := by
  refine wellFormed_grown founded_wellFormed (by decide) rfl (by decide) ?_ (by decide +kernel)
  simp only [List.mem_cons, List.not_mem_nil, or_false, forall_eq_or_imp, forall_eq]
  exact ⟨sound_signed .., sound_signed ..⟩

/-- Both records of the vote verify. -/
theorem voted_verified :
    (∃ v, Verified voted carried.id v (.assemble budget [yes budget] (.of inFavour))) ∧
      ∃ v, Verified voted dropped.id v (.assemble budget [] (.of unanswered)) := by
  have hfounding : reconstruct voted 0 = .ok { acme with at_ := 0 } :=
    reconstruct_grown [] [[carried], [dropped]] (by simp)
  have hforeign : kindOfNamespace carried.namespace_.value = none ∧
      kindOfNamespace dropped.namespace_.value = none := ⟨vote_foreign .., vote_foreign ..⟩
  have hcarried : signerAuthorisedAt voted 1 (publicKeyOf ann) = true :=
    signerAuthorisedAt_iff.mpr ⟨_, _, reconstruct_grown [[carried]] [[dropped]]
      (by simpa using hforeign.1), authorisedSigner_acme 1⟩
  have hdropped : signerAuthorisedAt voted 2 (publicKeyOf ann) = true :=
    signerAuthorisedAt_iff.mpr ⟨_, _, reconstruct_grown [[carried], [dropped]] []
      (by simpa using hforeign), authorisedSigner_acme 2⟩
  have hfirst : voted.getTransaction carried.id = some ⟨1, 0, carried⟩ :=
    getTransaction_grown voted_wellFormed (i := 0) (j := 0) rfl rfl
  have hsecond : voted.getTransaction dropped.id = some ⟨2, 0, dropped⟩ :=
    getTransaction_grown voted_wellFormed (i := 1) (j := 0) rfl rfl
  have hdecodes : decodeVote carried = some (.assemble budget [yes budget] (.of inFavour)) ∧
      decodeVote dropped = some (.assemble budget [] (.of unanswered)) :=
    ⟨decodeVote_voteTransaction _, decodeVote_voteTransaction _⟩
  obtain ⟨v, hv, -⟩ := (@vote_passes _ (lit "Budget") ⟨7⟩ _ _ _ _ 0 hfounding Nat.one_pos
    hcarried (.inl ⟨rfl, rfl⟩)).verified hfirst hdecodes.1
  obtain ⟨w, hw, -⟩ := (@vote_passes _ (lit "Budget") ⟨7⟩ _ _ _ _ 0 hfounding Nat.two_pos
    hdropped (.inr ⟨rfl, rfl⟩)).verified hsecond hdecodes.2
  exact ⟨⟨v, hv⟩, w, hw⟩

end Irena.Sample
