import Irena.Decision.Soundness
import Irena.Vote.Verify

/-! # What a vote that verifies establishes

Each check of a final record is turned into the fact it decides, and from these facts the record
follows from the chain alone: the parts that were pinned, the electorate, the ballots and the
result. -/

namespace Irena.Vote

open Irena.Library Irena.Library.Outcome Irena.Library.Strings
open Irena.Core Irena.Bornite Irena.Prunella Irena.Prunella.LocalChainStore Irena.Ledger
open Irena.Decision

/-- The frozen entries of a resolved channel grow strictly by id. -/
theorem entries_sorted {state : CompanyStateV1} {channel : ChannelIdV1}
    {resolved : ResolvedChannelV1} (h : resolveChannel state channel = .ok resolved) :
    (resolved.actors.actors.map entryOf).Pairwise fun a b => a.id < b.id := by
  obtain ⟨_, actors, -, hactors, -, rfl⟩ := resolveChannel_eq_ok.mp h
  have hids := List.pairwise_map.mp (actorsOf_sorted hactors)
  exact List.pairwise_map.mpr hids

theorem voterOf_entryOf (actor : ActorV1) :
    VoteSnapshotV1.voterOf (entryOf actor) = .ok ⟨actor.id, actor.weight, false⟩ := by
  have hid : VoterIdV1.new actor.id.value = .ok actor.id := VoterIdV1.new_eq_ok.mpr rfl
  have hweight : WeightV1.new ⟨actor.weight.value, actor.weight.le⟩ = .ok actor.weight :=
    dif_pos actor.weight.pos
  simp only [VoteSnapshotV1.voterOf, entryOf, hid, hweight, ok_bind, pure_eq_ok]

/-- The electorate of a snapshot that froze a channel is the channel's. -/
theorem VoteSnapshotV1.toElectorate_of_resolves {snapshot : VoteSnapshotV1}
    {state : CompanyStateV1} {channel : ChannelIdV1} {resolved : ResolvedChannelV1}
    (h : resolveChannel state channel = .ok resolved)
    (hentries : snapshot.electorate = resolved.actors.actors.map entryOf) :
    snapshot.toElectorate = .ok resolved.actors.electorate := by
  obtain ⟨_, actors, -, hactors, -, rfl⟩ := resolveChannel_eq_ok.mp h
  have hvoters : (actors.actors.map entryOf).mapM VoteSnapshotV1.voterOf =
      .ok (actors.actors.map fun a => ⟨a.id, a.weight, false⟩) := by
    rw [List.mapM_map]
    exact mapM_of_forall fun a _ => voterOf_entryOf a
  rw [toElectorate, hentries, hvoters, ok_bind]
  exact build_electorate (build_of_actorsOf hactors)

/-- In an electorate sorted by id the halving finds exactly the entry of the voter. -/
theorem VoteSnapshotV1.entry_eq_some {snapshot : VoteSnapshotV1}
    (hsorted : snapshot.electorate.Pairwise fun a b => a.id < b.id) {voter : VoterIdV1}
    {entry : ElectorateEntryV1} :
    snapshot.entry voter = some entry ↔ entry ∈ snapshot.electorate ∧ entry.id = voter.value :=
  SortedTable.binarySearch_iff hsorted

theorem ballotsAreSorted_iff {record : FinalVoteRecordV1} :
    record.ballotsAreSorted = true ↔
      record.ballots.Pairwise fun a b => a.body.voter < b.body.voter := by
  simp only [FinalVoteRecordV1.ballotsAreSorted, List.all_eq_true, decide_eq_true_eq]
  let voter (b : SignedBallotV1) := b.body.voter
  exact ⟨@SortedTable.strict_of_adjacent _ _ _ voter _, @SortedTable.adjacent_of_strict _ _ _ voter _⟩

/-- What Bornite counts of a ballot. -/
def SignedBallotV1.counted (b : SignedBallotV1) : Text × ChoiceV1 :=
  (b.body.voter, b.body.choice.toBornite)

theorem borniteBallot_eq_ok {b : SignedBallotV1} {ballot : BallotV1} :
    borniteBallot b = .ok ballot ↔ (ballot.voter.value, ballot.choice) = b.counted := by
  simp only [borniteBallot, SignedBallotV1.counted, bind_eq_ok, VoterIdV1.new_eq_ok, pure_eq_ok,
    Except.ok.injEq, Prod.mk.injEq]
  constructor
  · rintro ⟨voter, hvoter, rfl⟩
    exact ⟨hvoter, rfl⟩
  · rintro ⟨hvoter, hchoice⟩
    exact ⟨ballot.voter, hvoter, by rw [← hchoice]⟩

/-- Ballots in the order of their voters reach the evaluation as they stand. -/
theorem borniteBallots_eq_ok {ballots : List SignedBallotV1} {set : BallotSetV1}
    (hsorted : ballots.Pairwise fun a b => a.body.voter < b.body.voter)
    (h : borniteBallots ballots = .ok set) :
    set.ballots.map (fun b => (b.voter.value, b.choice)) = ballots.map SignedBallotV1.counted := by
  simp only [borniteBallots, BallotSetV1.new, bind_eq_ok, mapErr_eq_ok] at h
  obtain ⟨bs, hbs, hset⟩ := h
  have hmap : bs.map (fun b => (b.voter.value, b.choice)) = ballots.map SignedBallotV1.counted :=
    map_eq_of_mapM (fun _ _ _ hb => borniteBallot_eq_ok.mp hb) hbs
  have hvoters : bs.map (fun b => b.voter.value) = ballots.map fun b => b.body.voter := by
    simpa [SignedBallotV1.counted, Function.comp_def] using congrArg (List.map Prod.fst) hmap
  have hstrict : bs.Pairwise fun a b => a.voter < b.voter := by
    have hgrow := List.pairwise_map.mpr hsorted
    rw [← hvoters, List.pairwise_map] at hgrow
    exact hgrow
  have htable := SortedTable.ofList_entries (⟨bs, hstrict⟩ : SortedTable BallotV1.voter)
  obtain rfl := Except.ok.inj (hset.symm.trans htable)
  exact hmap

theorem evaluateBallots_eq_ok {rules : VotingRulesV1} {snapshot : VoteSnapshotV1}
    {ballots : List SignedBallotV1} {evaluation : VoteEvaluationV1} :
    evaluateBallots rules snapshot ballots = .ok evaluation ↔
      ∃ electorate set, snapshot.toElectorate = .ok electorate ∧ borniteBallots ballots = .ok set ∧
        evaluate rules electorate set = .ok evaluation := by
  simp only [evaluateBallots, bind_eq_ok, mapErr_eq_ok]
  constructor
  · rintro ⟨electorate, helectorate, set, hset, heval⟩
    exact ⟨electorate, set, helectorate, hset, heval⟩
  · rintro ⟨electorate, set, helectorate, hset, heval⟩
    exact ⟨electorate, helectorate, set, hset, heval⟩

theorem decodeVote_eq_some {t : Transaction} {record : FinalVoteRecordV1} :
    decodeVote t = some record ↔ t.namespace_.value = voteNamespace ∧
      FinalVoteRecordV1.codec.read t.payload = some record ∧ record.version = recordVersion ∧
      FinalVoteRecordV1.codec.encode record = t.payload := by
  simp only [decodeVote, Option.bind_eq_bind, Option.bind_eq_some_iff, Option.guard_eq_some',
    Option.pure_def, Option.some.injEq]
  constructor
  · rintro ⟨-, hns, r, hread, -, hversion, -, hencode, rfl⟩
    exact ⟨hns, hread, hversion, hencode⟩
  · rintro ⟨hns, hread, hversion, hencode⟩
    exact ⟨(), hns, record, hread, (), hversion, (), hencode, rfl⟩

variable [Platform]

theorem SignedBallotV1.check_eq_ok {b : SignedBallotV1} {snapshot : VoteSnapshotV1}
    {voter : VoterIdV1} :
    b.check snapshot = .ok voter ↔ b.body.voteId = snapshot.id ∧ voter.value = b.body.voter ∧
      ∃ entry key, snapshot.entry voter = some entry ∧ entry.excluded = false ∧
        entry.key = some key ∧
        verifySignature key b.body.signingMessage.asBytes b.signature = .ok () := by
  simp only [check, bind_eq_ok, ensure_eq_ok, mapErr_eq_ok, VoterIdV1.new_eq_ok, orError_eq_ok,
    pure_eq_ok, Except.ok.injEq]
  constructor
  · rintro ⟨-, hid, voter, hvoter, entry, hentry, -, hexcluded, key, hkey, _, hsig, rfl⟩
    exact ⟨hid, hvoter, entry, key, hentry, hexcluded, hkey, hsig⟩
  · rintro ⟨hid, hvoter, entry, key, hentry, hexcluded, hkey, hsig⟩
    exact ⟨(), hid, voter, hvoter, entry, hentry, (), hexcluded, key, hkey, (), hsig, rfl⟩

/-- What the checks of a final record decide, with what each of them looked up. -/
structure Passes (s : LocalChainStore) (located : LocatedTransaction) (record : FinalVoteRecordV1)
    (state : CompanyStateV1) (channel : ChannelIdV1) (resolved : ResolvedChannelV1)
    (rules : VotingRulesV1) (evaluation : VoteEvaluationV1) : Prop where
  voteId : record.snapshot.id = record.voteId
  precedes : record.snapshot.height < located.height
  reconstructs : reconstruct s record.snapshot.height = .ok state
  company : state.company.value = record.snapshot.company
  pins : record.snapshot.pins state = true
  signer : signerAuthorisedAt s located.height located.transaction.signer = true
  label : channel.value = record.snapshot.channel
  resolves : resolveChannel state channel = .ok resolved
  collective : resolved.rules = some rules
  electorate : record.snapshot.electorate = resolved.actors.actors.map entryOf
  ballots : ∀ b ∈ record.ballots, ∃ voter, b.check record.snapshot = .ok voter
  ordered : record.ballots.Pairwise fun a b => a.body.voter < b.body.voter
  commitment : record.ballotCommitment = ballotCommitment record.ballots
  evaluates : evaluateBallots rules record.snapshot record.ballots = .ok evaluation
  result : record.evaluation = .of evaluation

theorem voteState_eq_some {s : LocalChainStore} {snapshot : VoteSnapshotV1}
    {state : CompanyStateV1} :
    voteState s snapshot = some state ↔
      reconstruct s snapshot.height = .ok state ∧ state.company.value = snapshot.company := by
  unfold voteState
  cases hcompany : CompanyIdV1.new snapshot.company with
  | error e =>
    simp only [reduceCtorEq, false_iff, not_and]
    intro _ heq
    rw [CompanyIdV1.new_eq_ok.mpr heq] at hcompany
    cases hcompany
  | ok company =>
    have hvalue : company.value = snapshot.company := CompanyIdV1.new_eq_ok.mp hcompany
    cases hstate : reconstruct s snapshot.height with
    | error e => simp
    | ok current =>
      simp only [Option.ite_none_right_eq_some, Option.some.injEq, Except.ok.injEq]
      constructor
      · rintro ⟨rfl, rfl⟩
        exact ⟨rfl, hvalue⟩
      · rintro ⟨rfl, heq⟩
        exact ⟨CompanyIdV1.value_injective (heq.trans hvalue.symm), rfl⟩

omit [Platform] in
theorem voteChannel_eq_some {state : CompanyStateV1} {snapshot : VoteSnapshotV1}
    {resolved : ResolvedChannelV1} {rules : VotingRulesV1} :
    voteChannel state snapshot = some (resolved, rules) ↔
      ∃ channel : ChannelIdV1, channel.value = snapshot.channel ∧
        resolveChannel state channel = .ok resolved ∧ resolved.rules = some rules := by
  simp only [← ChannelIdV1.new_eq_ok]
  unfold voteChannel
  cases ChannelIdV1.new snapshot.channel with
  | error e => simp
  | ok channel =>
    simp only [Except.ok.injEq, exists_eq_left']
    cases resolveChannel state channel with
    | error e => simp
    | ok found =>
      simp only [Option.map_eq_some_iff, Prod.mk.injEq, Except.ok.injEq]
      constructor
      · rintro ⟨_, hrules, rfl, rfl⟩
        exact ⟨rfl, hrules⟩
      · rintro ⟨rfl, hrules⟩
        exact ⟨rules, hrules, rfl, rfl⟩

theorem noneFailed_ballotChecks {record : FinalVoteRecordV1} :
    NoneFailed (ballotChecks record) ↔
      (∀ b ∈ record.ballots, ∃ voter, b.check record.snapshot = .ok voter) ∧
      (record.ballots.Pairwise fun a b => a.body.voter < b.body.voter) ∧
      record.ballotCommitment = ballotCommitment record.ballots := by
  simp only [ballotChecks, noneFailed_cons, noneFailed_nil, and_true, List.all_eq_true,
    ballotsAreSorted_iff, decide_eq_true_eq]
  rw [@eq_comm _ record.ballotCommitment]
  refine and_congr_left fun _ => forall₂_congr fun b _ => ?_
  cases b.check record.snapshot <;> simp

/-- A final record has no failed check exactly when every one of these facts holds. -/
theorem noneFailed_voteChecks {s : LocalChainStore} {located : LocatedTransaction}
    {record : FinalVoteRecordV1} :
    NoneFailed (voteChecks s located record) ↔
      ∃ state channel resolved rules evaluation,
        Passes s located record state channel resolved rules evaluation := by
  unfold voteChecks
  simp only [noneFailed_append, noneFailed_cons, noneFailed_nil, and_true, decide_eq_true_eq]
  constructor
  · rintro ⟨⟨hid, hprecedes⟩, hrest⟩
    cases hstate : voteState s record.snapshot with
    | none => simp [hstate] at hrest
    | some state =>
      obtain ⟨hreconstruct, hcompany⟩ := voteState_eq_some.mp hstate
      by_cases hpins : record.snapshot.pins state = true
      · simp only [hstate, hpins, Bool.not_true, Bool.false_eq_true, if_false, noneFailed_append,
          noneFailed_cons, noneFailed_nil, noneFailed_ballotChecks, true_and, and_true] at hrest
        obtain ⟨⟨⟨hsigner, hchannel⟩, hballots, hordered, hcommitment⟩, hresult⟩ := hrest
        rcases hresolved : voteChannel state record.snapshot with _ | ⟨resolved, rules⟩
        · simp [channelChecks, hresolved] at hchannel
        · obtain ⟨channel, hvalue, hresolves, hrules⟩ := voteChannel_eq_some.mp hresolved
          have helectorate : resolved.actors.actors.map entryOf = record.snapshot.electorate := by
            simpa [channelChecks, hresolved] using hchannel
          cases heval : evaluateBallots rules record.snapshot record.ballots with
          | error e => simp [resultChecks, hresolved, heval] at hresult
          | ok evaluation =>
            have hsummary : EvaluationSummaryV1.of evaluation = record.evaluation := by
              simpa [resultChecks, hresolved, heval] using hresult
            exact ⟨state, channel, resolved, rules, evaluation, hid, hprecedes, hreconstruct,
              hcompany, hpins, hsigner, hvalue, hresolves, hrules, helectorate.symm, hballots,
              hordered, hcommitment, heval, hsummary.symm⟩
      · simp [hstate, hpins] at hrest
  · rintro ⟨state, channel, resolved, rules, evaluation, h⟩
    have hstate := voteState_eq_some.mpr ⟨h.reconstructs, h.company⟩
    have hchannel := voteChannel_eq_some.mpr ⟨channel, h.label, h.resolves, h.collective⟩
    refine ⟨⟨h.voteId, h.precedes⟩, ?_⟩
    simp only [hstate, h.pins, Bool.not_true, Bool.false_eq_true, if_false, noneFailed_append,
      noneFailed_cons, noneFailed_nil, noneFailed_ballotChecks, true_and, and_true]
    refine ⟨⟨⟨h.signer, ?_⟩, h.ballots, h.ordered, h.commitment⟩, ?_⟩
    · simp [channelChecks, hchannel, h.electorate]
    · simp [resultChecks, hchannel, h.evaluates, h.result]

/-- A vote verifies: the report has its record, and no check of it failed. -/
structure Verified (s : LocalChainStore) (txId : TxId) (v : VerificationV1)
    (record : FinalVoteRecordV1) : Prop where
  report : verify s txId = .ok v
  valid : v.isValid = true
  record : v.record = some record

theorem verified_iff {s : LocalChainStore} {txId : TxId} {v : VerificationV1}
    {record : FinalVoteRecordV1} :
    Verified s txId v record ↔ ∃ located, s.getTransaction txId = some located ∧
      decodeVote located.transaction = some record ∧
      v = ⟨txId, located.height, some record, ⟨.decodes, true⟩ :: voteChecks s located record⟩ ∧
      NoneFailed (voteChecks s located record) := by
  constructor
  · rintro ⟨hreport, hvalid, hrecord⟩
    simp only [verify, bind_eq_ok, orError_eq_ok] at hreport
    obtain ⟨located, hlocated, hreport⟩ := hreport
    cases hdecode : decodeVote located.transaction with
    | none =>
      simp only [hdecode, pure_eq_ok, Except.ok.injEq] at hreport
      subst hreport
      cases hrecord
    | some found =>
      simp only [hdecode, pure_eq_ok, Except.ok.injEq] at hreport
      subst hreport
      obtain rfl := Option.some.inj hrecord
      obtain ⟨-, hchecks⟩ := allPassed_iff.mp hvalid
      exact ⟨located, hlocated, hdecode, rfl, (noneFailed_cons.mp hchecks).2⟩
  · rintro ⟨located, hlocated, hdecode, rfl, hchecks⟩
    refine ⟨?_, allPassed_iff.mpr ⟨List.cons_ne_nil _ _, noneFailed_cons.mpr ⟨rfl, hchecks⟩⟩, rfl⟩
    simp only [verify, hlocated, orError_some, ok_bind, hdecode, pure_eq_ok]

/-- A record that passes every check is one that verifies. -/
theorem Passes.verified {s : LocalChainStore} {txId : TxId} {located : LocatedTransaction}
    {record : FinalVoteRecordV1} {state : CompanyStateV1} {channel : ChannelIdV1}
    {resolved : ResolvedChannelV1} {rules : VotingRulesV1} {evaluation : VoteEvaluationV1}
    (h : Passes s located record state channel resolved rules evaluation)
    (hlocated : s.getTransaction txId = some located)
    (hdecode : decodeVote located.transaction = some record) :
    ∃ v, Verified s txId v record ∧ v.height = located.height :=
  ⟨_, verified_iff.mpr ⟨located, hlocated, hdecode, rfl,
    noneFailed_voteChecks.mpr ⟨state, channel, resolved, rules, evaluation, h⟩⟩, rfl⟩

/-- A report without a failed check is a valid one with a record. -/
theorem verified_of_noneFailed {s : LocalChainStore} {txId : TxId} {v : VerificationV1}
    (h : verify s txId = .ok v) (hpass : NoneFailed v.checks) : ∃ record, Verified s txId v record := by
  simp only [verify, bind_eq_ok, orError_eq_ok] at h
  obtain ⟨located, hlocated, h⟩ := h
  cases hdecode : decodeVote located.transaction with
  | none =>
    simp only [hdecode, pure_eq_ok, Except.ok.injEq] at h
    subst h
    simp at hpass
  | some record =>
    simp only [hdecode, pure_eq_ok, Except.ok.injEq] at h
    subst h
    exact ⟨record, verified_iff.mpr ⟨located, hlocated, hdecode, rfl, (noneFailed_cons.mp hpass).2⟩⟩

/-- A vote that verifies has a record that passes every check. -/
theorem Verified.passes {s : LocalChainStore} {txId : TxId} {v : VerificationV1}
    {record : FinalVoteRecordV1} (h : Verified s txId v record) :
    ∃ located state channel resolved rules evaluation, s.getTransaction txId = some located ∧
      v.height = located.height ∧ decodeVote located.transaction = some record ∧
      Passes s located record state channel resolved rules evaluation := by
  obtain ⟨located, hlocated, hdecode, rfl, hchecks⟩ := verified_iff.mp h
  obtain ⟨state, channel, resolved, rules, evaluation, hpasses⟩ := noneFailed_voteChecks.mp hchecks
  exact ⟨located, state, channel, resolved, rules, evaluation, hlocated, rfl, hdecode, hpasses⟩

/-- A transaction has one report, and a report one record. -/
theorem Verified.unique {s : LocalChainStore} {txId : TxId} {v v' : VerificationV1}
    {record record' : FinalVoteRecordV1} (h : Verified s txId v record)
    (k : Verified s txId v' record') : v = v' ∧ record = record' := by
  obtain rfl := Except.ok.inj (h.report.symm.trans k.report)
  exact ⟨rfl, Option.some.inj (h.record.symm.trans k.record)⟩

theorem Passes.extends {s t : LocalChainStore} {located : LocatedTransaction}
    {record : FinalVoteRecordV1} {state : CompanyStateV1} {channel : ChannelIdV1}
    {resolved : ResolvedChannelV1} {rules : VotingRulesV1} {evaluation : VoteEvaluationV1}
    (h : Passes s located record state channel resolved rules evaluation) (hext : s.Extends t)
    (hheight : located.height ≤ s.head.height) :
    Passes t located record state channel resolved rules evaluation :=
  { h with
    reconstructs := by
      rw [Ledger.Extends.reconstruct hext (h.precedes.le.trans hheight)]
      exact h.reconstructs
    signer := by
      rw [Extends.signerAuthorisedAt hext hheight]
      exact h.signer }

/-- A vote that verifies goes on verifying, with the same record, as the chain grows. -/
theorem Verified.extends {s t : LocalChainStore} {txId : TxId} {v : VerificationV1}
    {record : FinalVoteRecordV1} (h : Verified s txId v record) (hext : s.Extends t) :
    ∃ v', Verified t txId v' record ∧ v'.height = v.height := by
  obtain ⟨located, hlocated, hdecode, rfl, hchecks⟩ := verified_iff.mp h
  obtain ⟨-, b, hb, -⟩ := getTransaction_some hlocated
  obtain ⟨state, channel, resolved, rules, evaluation, hpasses⟩ := noneFailed_voteChecks.mp hchecks
  have hpasses' := hpasses.extends hext (height_le_of_getBlock hb)
  exact ⟨_, verified_iff.mpr ⟨located, hext.getTransaction hlocated, hdecode, rfl,
    noneFailed_voteChecks.mpr ⟨state, channel, resolved, rules, evaluation, hpasses'⟩⟩, rfl⟩

end Irena.Vote
