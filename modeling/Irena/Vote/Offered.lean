import Irena.Vote.Decided

/-! # Ballots in the order they are offered

While a vote is open ballots are offered to it, valid ones and others. It keeps the first valid
ballot of each voter and nothing else, so only the order of one voter's own ballots matters. -/

namespace Irena.Vote

open Irena.Library Irena.Library.Outcome Irena.Library.Strings
open Irena.Core Irena.Bornite Irena.Prunella Irena.Prunella.LocalChainStore Irena.Ledger
open Irena.Decision

section Rules

variable [Platform]

/-- A ballot for the frozen vote, of a voter it lists, does not exclude and has a key of, signed with
that key. -/
def Acceptable (snapshot : VoteSnapshotV1) (b : SignedBallotV1) : Prop :=
  b.body.voteId = snapshot.id ∧ ∃ entry ∈ snapshot.electorate, entry.id = b.body.voter ∧
    entry.excluded = false ∧ ∃ key, entry.key = some key ∧
      Platform.verifyStrict key b.body.signingMessage.asBytes b.signature = some true

/-- The electorate lists well-formed voters in strictly growing order. -/
structure Regular (snapshot : VoteSnapshotV1) : Prop where
  sorted : snapshot.electorate.Pairwise fun a b => a.id < b.id
  voters : ∀ entry ∈ snapshot.electorate, ∃ voter : VoterIdV1, voter.value = entry.id

theorem FrozenAt.regular {s : LocalChainStore} {snapshot : VoteSnapshotV1} {state : CompanyStateV1}
    {channel : ChannelIdV1} {resolved : ResolvedChannelV1} {rules : VotingRulesV1}
    (h : FrozenAt s snapshot state channel resolved rules) : Regular snapshot := by
  refine ⟨h.electorate ▸ entries_sorted h.resolves, fun entry hentry => ?_⟩
  rw [h.electorate] at hentry
  obtain ⟨actor, -, rfl⟩ := List.mem_map.mp hentry
  exact ⟨actor.id, rfl⟩

theorem acceptable_iff_check {snapshot : VoteSnapshotV1} (h : Regular snapshot) {b : SignedBallotV1} :
    Acceptable snapshot b ↔ ∃ voter, b.check snapshot = .ok voter := by
  simp only [SignedBallotV1.check_eq_ok, VoteSnapshotV1.entry_eq_some h.sorted]
  constructor
  · rintro ⟨hid, entry, hentry, hvoter, hincluded, key, hkey, hsig⟩
    obtain ⟨voter, hvalue⟩ := h.voters entry hentry
    exact ⟨voter, hid, hvalue.trans hvoter, entry, key, ⟨hentry, hvalue.symm⟩, hincluded, hkey,
      verifySignature_eq_ok.mpr hsig⟩
  · rintro ⟨voter, hid, hvalue, entry, key, ⟨hentry, hvoter⟩, hincluded, hkey, hsig⟩
    exact ⟨hid, entry, hentry, hvoter.trans hvalue, hincluded, key, hkey,
      verifySignature_eq_ok.mp hsig⟩

/-- A ballot stands in a list as the first acceptable one of its voter. -/
def IsFirst (snapshot : VoteSnapshotV1) (offered : List SignedBallotV1) (b : SignedBallotV1) : Prop :=
  Acceptable snapshot b ∧ ∃ before after, offered = before ++ b :: after ∧
    ∀ c ∈ before, c.body.voter = b.body.voter → ¬ Acceptable snapshot c

/-- The first ballot of a voter that passes the check. -/
def firstOf (snapshot : VoteSnapshotV1) (voter : Text) (offered : List SignedBallotV1) :
    Option SignedBallotV1 :=
  offered.find? fun b => b.body.voter = voter ∧ (b.check snapshot).isOk

theorem isFirst_iff {snapshot : VoteSnapshotV1} (h : Regular snapshot)
    {offered : List SignedBallotV1} {b : SignedBallotV1} :
    IsFirst snapshot offered b ↔ firstOf snapshot b.body.voter offered = some b := by
  have hcheck : ∀ c, Acceptable snapshot c ↔ (c.check snapshot).isOk = true := by
    intro c
    rw [acceptable_iff_check h]
    cases c.check snapshot with
    | ok voter => simp [Except.isOk, Except.toBool]
    | error e => simp [Except.isOk, Except.toBool]
  simp only [IsFirst, firstOf, List.find?_eq_some_iff_append, hcheck, decide_eq_true_eq, true_and,
    Bool.not_eq_true', decide_eq_false_iff_not, not_and]

theorem voter_of_firstOf {snapshot : VoteSnapshotV1} {voter : Text} {offered : List SignedBallotV1}
    {b : SignedBallotV1} (h : firstOf snapshot voter offered = some b) : b.body.voter = voter := by
  have hb := List.find?_some h
  simp only [decide_eq_true_eq] at hb
  exact hb.1

/-- Only a voter's own ballots tell which of them is the first. -/
theorem firstOf_filter (snapshot : VoteSnapshotV1) (voter : Text) (offered : List SignedBallotV1) :
    firstOf snapshot voter offered =
      firstOf snapshot voter (offered.filter fun b => b.body.voter = voter) := by
  unfold firstOf
  rw [List.find?_filter]
  congr 1
  funext b
  simp

namespace VoteV1

/-- Offers a ballot: what casting it answers, and the vote it leaves. -/
def offer (v : VoteV1) (b : SignedBallotV1) : Except VoteError Unit × VoteV1 :=
  match v.cast b with
  | .ok w => (.ok (), w)
  | .error e => (.error e, v)

/-- The vote that offering ballots in turn leaves. -/
def offers (v : VoteV1) (bs : List SignedBallotV1) : VoteV1 := bs.foldl (fun w b => (w.offer b).2) v

end VoteV1

variable {v : VoteV1} {snapshot : VoteSnapshotV1}

theorem offer_eq_error {b : SignedBallotV1} {e : VoteError} (h : (v.offer b).1 = .error e) :
    (v.offer b).2 = v := by
  unfold VoteV1.offer at h ⊢
  cases hcast : v.cast b with
  | ok w => simp [hcast] at h
  | error e => rfl

/-- A vote takes an offered ballot whose voter has none in it, and no other. -/
theorem offer_cases (hopen : v.status = .open_) (hsnapshot : v.snapshot = some snapshot)
    (b : SignedBallotV1) :
    ((∃ voter, b.check snapshot = .ok voter) ∧ v.box.get b.body.voter = none ∧
        (v.offer b).1 = .ok () ∧ (v.offer b).2 = { v with box := v.box.insert (b.body.voter, b) }) ∨
      (¬ ((∃ voter, b.check snapshot = .ok voter) ∧ v.box.get b.body.voter = none) ∧
        (∃ e, (v.offer b).1 = .error e) ∧ (v.offer b).2 = v) := by
  unfold VoteV1.offer
  cases hcast : v.cast b with
  | ok w =>
    obtain ⟨-, found, voter, hfound, hvoter, hfresh, rfl⟩ := cast_eq_ok.mp hcast
    obtain rfl := Option.some.inj (hfound.symm.trans hsnapshot)
    have hvalue : voter.value = b.body.voter := (SignedBallotV1.check_eq_ok.mp hvoter).2.1
    rw [hvalue] at hfresh
    exact .inl ⟨⟨voter, hvoter⟩, hfresh, rfl, by rw [hvalue]⟩
  | error e =>
    refine .inr ⟨?_, ⟨e, rfl⟩, rfl⟩
    rintro ⟨⟨voter, hvoter⟩, hfresh⟩
    have hvalue : voter.value = b.body.voter := (SignedBallotV1.check_eq_ok.mp hvoter).2.1
    have hok := cast_eq_ok.mpr ⟨hopen, snapshot, voter, hsnapshot, hvoter, hvalue ▸ hfresh, rfl⟩
    rw [hcast] at hok
    cases hok

/-- Offering changes nothing but the ballots. -/
theorem offer_frame (hopen : v.status = .open_) (hsnapshot : v.snapshot = some snapshot)
    (b : SignedBallotV1) : (v.offer b).2 = { v with box := (v.offer b).2.box } := by
  rcases offer_cases hopen hsnapshot b with ⟨-, -, -, h⟩ | ⟨-, -, h⟩
  · rw [h]
  · rw [h]

theorem firstOf_singleton {voter : Text} {b c : SignedBallotV1} :
    firstOf snapshot voter [b] = some c ↔
      b.body.voter = voter ∧ (∃ owner, b.check snapshot = .ok owner) ∧ c = b := by
  unfold firstOf
  rw [List.find?_singleton]
  cases hcheck : b.check snapshot with
  | ok owner => by_cases hvoter : b.body.voter = voter <;> simp [hvoter, Except.isOk, Except.toBool, eq_comm]
  | error e => simp [Except.isOk, Except.toBool]

theorem firstOf_append (voter : Text) (bs cs : List SignedBallotV1) :
    firstOf snapshot voter (bs ++ cs) =
      (firstOf snapshot voter bs).or (firstOf snapshot voter cs) :=
  List.find?_append

/-- Under a voter there stands what stood there, or else the ballot that was offered. -/
theorem get_offer (hopen : v.status = .open_) (hsnapshot : v.snapshot = some snapshot)
    (b : SignedBallotV1) (voter : Text) :
    (v.offer b).2.box.get voter =
      (v.box.get voter).or ((firstOf snapshot voter [b]).map (Prod.mk voter)) := by
  rcases offer_cases hopen hsnapshot b with ⟨hcheck, hfresh, -, h⟩ | ⟨hnot, -, h⟩
  · rw [h, SortedTable.get_insert]
    split
    · rename_i hvoter
      obtain rfl : b.body.voter = voter := hvoter
      rw [hfresh, firstOf_singleton.mpr ⟨rfl, hcheck, rfl⟩]
      rfl
    · rename_i hvoter
      have hnone : firstOf snapshot voter [b] = none :=
        Option.eq_none_iff_forall_ne_some.mpr fun c hc => hvoter (firstOf_singleton.mp hc).1
      rw [hnone, Option.map_none, Option.or_none]
  · rw [h]
    cases hget : v.box.get voter with
    | some p => rfl
    | none =>
      have hnone : firstOf snapshot voter [b] = none := by
        refine Option.eq_none_iff_forall_ne_some.mpr fun c hc => ?_
        obtain ⟨rfl, hcheck, -⟩ := firstOf_singleton.mp hc
        exact hnot ⟨hcheck, hget⟩
      rw [hnone]
      rfl

theorem offers_frame (hopen : v.status = .open_) (hsnapshot : v.snapshot = some snapshot)
    (bs : List SignedBallotV1) : v.offers bs = { v with box := (v.offers bs).box } := by
  induction bs generalizing v with
  | nil => rfl
  | cons b bs ih =>
    have hframe := offer_frame hopen hsnapshot b
    have hrest := ih (v := (v.offer b).2) (by rw [hframe]; exact hopen)
      (by rw [hframe]; exact hsnapshot)
    change (v.offer b).2.offers bs = { v with box := ((v.offer b).2.offers bs).box }
    rw [hrest, hframe]

theorem get_offers (hopen : v.status = .open_) (hsnapshot : v.snapshot = some snapshot)
    (bs : List SignedBallotV1) (voter : Text) :
    (v.offers bs).box.get voter =
      (v.box.get voter).or ((firstOf snapshot voter bs).map (Prod.mk voter)) := by
  induction bs generalizing v with
  | nil => exact (Option.or_none ..).symm
  | cons b bs ih =>
    have hframe := offer_frame hopen hsnapshot b
    have hrest := ih (v := (v.offer b).2) (by rw [hframe]; exact hopen)
      (by rw [hframe]; exact hsnapshot)
    rw [← List.singleton_append, firstOf_append]
    change ((v.offer b).2.offers bs).box.get voter = _
    rw [hrest, get_offer hopen hsnapshot, Option.or_assoc, Option.map_or]

/-- Ballots offered in another order that keeps each voter's own ballots in theirs leave the same
vote. -/
theorem offers_congr (hopen : v.status = .open_) (hsnapshot : v.snapshot = some snapshot)
    {bs cs : List SignedBallotV1}
    (h : ∀ voter, bs.filter (fun b => b.body.voter = voter) = cs.filter fun b => b.body.voter = voter) :
    v.offers bs = v.offers cs := by
  have hbox : (v.offers bs).box = (v.offers cs).box := by
    refine SortedTable.ext_of_get fun voter => ?_
    rw [get_offers hopen hsnapshot, get_offers hopen hsnapshot, firstOf_filter, h voter,
      ← firstOf_filter]
  rw [offers_frame hopen hsnapshot, hbox, ← offers_frame hopen hsnapshot]

/-- A vote that its operations reach, and the ballots offered to it while it was open. -/
inductive Lives : VoteV1 → List SignedBallotV1 → Prop
  | draft (subject : Text) (proposalDigest : Hash) : Lives (.draft subject proposalDigest) []
  | freeze {v w : VoteV1} {offered : List SignedBallotV1} {s : LocalChainStore} {at_ : ℕ}
      {channel : ChannelIdV1} :
      Lives v offered → v.freeze s at_ channel = .ok w → Lives w offered
  | opens {v w : VoteV1} {offered : List SignedBallotV1} :
      Lives v offered → v.opens = .ok w → Lives w offered
  | offer {v : VoteV1} {offered : List SignedBallotV1} (b : SignedBallotV1) :
      Lives v offered → v.status = .open_ → Lives (v.offer b).2 (offered ++ [b])
  | close {v w : VoteV1} {offered : List SignedBallotV1} :
      Lives v offered → v.close = .ok w → Lives w offered
  | evaluates {v w : VoteV1} {offered : List SignedBallotV1} {s : LocalChainStore}
      {evaluation : VoteEvaluationV1} :
      Lives v offered → v.evaluates s = .ok (w, evaluation) → Lives w offered
  | finalize {v w : VoteV1} {offered : List SignedBallotV1} {s t : LocalChainStore}
      {key : SigningKey} {time : ℕ} {finalized : FinalizedV1} :
      Lives v offered → (v.finalize key time).run s = (.ok (w, finalized), t) → Lives w offered

theorem finalize_frame {v w : VoteV1} {s t : LocalChainStore} {key : SigningKey} {time : ℕ}
    {finalized : FinalizedV1} (h : (v.finalize key time).run s = (.ok (w, finalized), t)) :
    v.status = .evaluated ∧ w.status = .finalized ∧ w.snapshot = v.snapshot ∧ w.box = v.box := by
  obtain ⟨_, _, hstatus, h⟩ := Program.run_bind_ok.mp h
  obtain ⟨_, _, -, h⟩ := Program.run_bind_ok.mp h
  obtain ⟨_, _, -, h⟩ := Program.run_bind_ok.mp h
  obtain ⟨_, _, -, h⟩ := Program.run_bind_ok.mp h
  obtain ⟨_, _, -, h⟩ := Program.run_bind_ok.mp h
  obtain ⟨_, _, -, h⟩ := Program.run_bind_ok.mp h
  obtain ⟨_, _, -, h⟩ := Program.run_bind_ok.mp h
  obtain ⟨rfl, -⟩ := Prod.mk.inj (Except.ok.inj (congrArg Prod.fst h))
  exact ⟨ensure_eq_ok.mp (congrArg Prod.fst hstatus), rfl, rfl, rfl⟩

/-- Nothing stands in a draft, and from freezing on the ballots of a vote are those offered first. -/
structure Tracks (v : VoteV1) (offered : List SignedBallotV1) : Prop where
  fresh : v.status = .draft → v.snapshot = none ∧ v.box = .empty ∧ offered = []
  frozen : v.status ≠ .draft → v.snapshot ≠ none
  keeps : ∀ snapshot, v.snapshot = some snapshot → Regular snapshot ∧
    ∀ voter, v.box.get voter = (firstOf snapshot voter offered).map (Prod.mk voter)

/-- What touches neither the snapshot nor the ballots keeps them. -/
theorem Tracks.of_eq {v w : VoteV1} {offered : List SignedBallotV1} (h : Tracks v offered)
    (hbefore : v.status ≠ .draft) (hafter : w.status ≠ .draft) (hsnapshot : w.snapshot = v.snapshot)
    (hbox : w.box = v.box) : Tracks w offered where
  fresh hdraft := absurd hdraft hafter
  frozen _ := hsnapshot ▸ h.frozen hbefore
  keeps := by
    rw [hsnapshot, hbox]
    exact h.keeps

theorem Tracks.freeze {v w : VoteV1} {offered : List SignedBallotV1} {s : LocalChainStore} {at_ : ℕ}
    {channel : ChannelIdV1} (h : Tracks v offered) (hdraft : v.status = .draft)
    (hfreeze : v.freeze s at_ channel = .ok w) : Tracks w offered := by
  obtain ⟨snapshot, state, resolved, rules, hfrozen, -, -, -, hsnapshot, hbox, hstatus⟩ :=
    frozenAt_of_freeze hfreeze
  obtain ⟨-, hempty, rfl⟩ := h.fresh hdraft
  refine ⟨fun hcon => ?_, fun _ => hsnapshot ▸ Option.some_ne_none _, fun found hfound => ?_⟩
  · rw [hstatus] at hcon
    cases hcon
  · obtain rfl := Option.some.inj (hsnapshot.symm.trans hfound)
    refine ⟨hfrozen.regular, fun voter => ?_⟩
    rw [hbox, hempty]
    rfl

theorem Tracks.offer {v : VoteV1} {offered : List SignedBallotV1} (h : Tracks v offered)
    (hopen : v.status = .open_) (b : SignedBallotV1) : Tracks (v.offer b).2 (offered ++ [b]) := by
  have hnotDraft : v.status ≠ .draft := by
    rw [hopen]
    decide
  obtain ⟨snapshot, hsnapshot⟩ := Option.ne_none_iff_exists'.mp (h.frozen hnotDraft)
  obtain ⟨hregular, hkeeps⟩ := h.keeps snapshot hsnapshot
  have hframe := offer_frame hopen hsnapshot b
  have hstatus : (v.offer b).2.status = v.status := by rw [hframe]
  have hsame : (v.offer b).2.snapshot = v.snapshot := by rw [hframe]
  refine ⟨fun hdraft => absurd (hstatus ▸ hdraft) hnotDraft, fun _ => ?_, fun found hfound => ?_⟩
  · rw [hsame]
    exact h.frozen hnotDraft
  · obtain rfl := Option.some.inj (hsnapshot.symm.trans (hsame ▸ hfound))
    refine ⟨hregular, fun voter => ?_⟩
    rw [get_offer hopen hsnapshot, hkeeps, firstOf_append, Option.map_or]

theorem Lives.tracks {v : VoteV1} {offered : List SignedBallotV1} (h : Lives v offered) :
    Tracks v offered := by
  induction h with
  | draft subject proposalDigest =>
    exact ⟨fun _ => ⟨rfl, rfl, rfl⟩, fun hcon => absurd rfl hcon, fun _ hnone => by cases hnone⟩
  | freeze _ hfreeze ih => exact ih.freeze (freeze_eq_ok.mp hfreeze).1 hfreeze
  | opens _ hopens ih =>
    obtain ⟨hstatus, rfl⟩ := opens_eq_ok.mp hopens
    exact ih.of_eq (by rw [hstatus]; decide) (by simp) rfl rfl
  | offer b _ hopen ih => exact ih.offer hopen b
  | close _ hclose ih =>
    obtain ⟨hstatus, rfl⟩ := close_eq_ok.mp hclose
    exact ih.of_eq (by rw [hstatus]; decide) (by simp) rfl rfl
  | evaluates _ hevaluates ih =>
    obtain ⟨hstatus, -, rfl⟩ := evaluates_eq_ok.mp hevaluates
    exact ih.of_eq (by rw [hstatus]; decide) (by simp) rfl rfl
  | finalize _ hfinal ih =>
    obtain ⟨hstatus, hafter, hsnapshot, hbox⟩ := finalize_frame hfinal
    exact ih.of_eq (by rw [hstatus]; decide) (by rw [hafter]; decide) hsnapshot hbox

theorem Tracks.mem_iff {v : VoteV1} {offered : List SignedBallotV1} (h : Tracks v offered)
    {snapshot : VoteSnapshotV1} (hsnapshot : v.snapshot = some snapshot) {p : Text × SignedBallotV1} :
    p ∈ v.box.entries ↔ firstOf snapshot p.1 offered = some p.2 := by
  have hget : p ∈ v.box.entries ↔ v.box.get p.1 = some p := by
    rw [SortedTable.get_eq_some, and_iff_left rfl]
  rw [hget, (h.keeps snapshot hsnapshot).2, Option.map_eq_some_iff]
  constructor
  · rintro ⟨b, hb, heq⟩
    obtain rfl : b = p.2 := congrArg Prod.snd heq
    exact hb
  · exact fun hb => ⟨p.2, hb, rfl⟩

theorem Tracks.mem_ballots {v : VoteV1} {offered : List SignedBallotV1} (h : Tracks v offered)
    {snapshot : VoteSnapshotV1} (hsnapshot : v.snapshot = some snapshot) {b : SignedBallotV1} :
    b ∈ v.box.ballots ↔ IsFirst snapshot offered b := by
  rw [isFirst_iff (h.keeps snapshot hsnapshot).1, BallotBox.ballots, List.mem_map]
  constructor
  · rintro ⟨p, hp, rfl⟩
    have hfirst := (h.mem_iff hsnapshot).mp hp
    rwa [← voter_of_firstOf hfirst] at hfirst
  · exact fun hb => ⟨(b.body.voter, b), (h.mem_iff hsnapshot).mpr hb, rfl⟩

theorem Tracks.ordered {v : VoteV1} {offered : List SignedBallotV1} (h : Tracks v offered)
    {snapshot : VoteSnapshotV1} (hsnapshot : v.snapshot = some snapshot) :
    v.box.ballots.Pairwise fun b c => b.body.voter < c.body.voter := by
  refine List.pairwise_map.mpr (v.box.sorted.imp_of_mem fun {p q} hp hq hlt => ?_)
  rw [voter_of_firstOf ((h.mem_iff hsnapshot).mp hp), voter_of_firstOf ((h.mem_iff hsnapshot).mp hq)]
  exact hlt

/-- A voter has no ballot in the vote exactly when none of its ballots is theirs. -/
theorem Tracks.get_eq_none {v : VoteV1} {offered : List SignedBallotV1} (h : Tracks v offered)
    {snapshot : VoteSnapshotV1} (hsnapshot : v.snapshot = some snapshot) {voter : Text} :
    v.box.get voter = none ↔ ∀ c ∈ v.box.ballots, c.body.voter ≠ voter := by
  rw [SortedTable.get_eq_none]
  constructor
  · intro hnone c hc
    obtain ⟨p, hp, rfl⟩ := List.mem_map.mp hc
    rw [voter_of_firstOf ((h.mem_iff hsnapshot).mp hp)]
    exact hnone p hp
  · intro hnone p hp
    rw [← voter_of_firstOf ((h.mem_iff hsnapshot).mp hp)]
    exact hnone p.2 (List.mem_map_of_mem hp)

/-- The record of an open vote that is closed and counted on a chain as it is. -/
def VoteV1.recordedOn (v : VoteV1) (s : LocalChainStore) : Except VoteError FinalVoteRecordV1 := do
  let closed ← v.close
  let (evaluated, _) ← closed.evaluates s
  evaluated.finalRecord

theorem finalRecord_eq_ok {v : VoteV1} {record : FinalVoteRecordV1} :
    v.finalRecord = .ok record → ∃ snapshot evaluation, v.snapshot = some snapshot ∧
      v.evaluation = some evaluation ∧ record = .assemble snapshot v.box.ballots evaluation := by
  simp only [VoteV1.finalRecord, bind_eq_ok, ensure_eq_ok, orError_eq_ok, pure_eq_ok,
    Except.ok.injEq, @eq_comm _ record]
  rintro ⟨-, -, snapshot, hsnapshot, evaluation, hevaluation, h⟩
  exact ⟨snapshot, evaluation, hsnapshot, hevaluation, h⟩

/-- Casting is first come, first served for each voter, and free of order otherwise. Whatever was
offered, the ballots of a vote are the first acceptable ones of their voters, in voter order, and
those are what its record commits to; a ballot is refused if it is not acceptable or its voter has
one, and leaves the vote as it was; and ballots reordered among voters leave the same vote, hence the
same record. -/
theorem casting_first_come {v : VoteV1} {offered : List SignedBallotV1} (h : Lives v offered) :
    (∀ snapshot, v.snapshot = some snapshot →
      (∀ b, b ∈ v.box.ballots ↔ IsFirst snapshot offered b) ∧
      (v.box.ballots.Pairwise fun b c => b.body.voter < c.body.voter) ∧
      ∀ record, v.finalRecord = .ok record → record.snapshot = snapshot ∧
        record.ballots = v.box.ballots ∧ record.ballotsAreSorted = true ∧
          record.ballotCommitment = ballotCommitment v.box.ballots) ∧
    (v.status = .open_ → ∃ snapshot, v.snapshot = some snapshot ∧ ∀ b,
      ((v.offer b).1 = .ok () ↔
        Acceptable snapshot b ∧ ∀ c ∈ v.box.ballots, c.body.voter ≠ b.body.voter) ∧
      ∀ e, (v.offer b).1 = .error e → (v.offer b).2 = v) ∧
    (v.status = .open_ → ∀ bs cs : List SignedBallotV1,
      (∀ voter, bs.filter (fun b => b.body.voter = voter) =
        cs.filter fun b => b.body.voter = voter) →
      v.offers bs = v.offers cs ∧
        ∀ s, (v.offers bs).recordedOn s = (v.offers cs).recordedOn s) := by
  have htracks := h.tracks
  have hfrozen : v.status = .open_ → ∃ snapshot, v.snapshot = some snapshot := fun hopen =>
    Option.ne_none_iff_exists'.mp (htracks.frozen (by rw [hopen]; decide))
  refine ⟨fun snapshot hsnapshot => ?_, fun hopen => ?_, fun hopen bs cs hsame => ?_⟩
  · have hordered := htracks.ordered hsnapshot
    refine ⟨fun b => htracks.mem_ballots hsnapshot, hordered, fun record hrecord => ?_⟩
    obtain ⟨found, evaluation, hfound, -, rfl⟩ := finalRecord_eq_ok hrecord
    obtain rfl := Option.some.inj (hsnapshot.symm.trans hfound)
    exact ⟨rfl, rfl, ballotsAreSorted_iff.mpr hordered, rfl⟩
  · obtain ⟨snapshot, hsnapshot⟩ := hfrozen hopen
    refine ⟨snapshot, hsnapshot, fun b => ⟨?_, fun e he => offer_eq_error he⟩⟩
    rw [acceptable_iff_check (htracks.keeps snapshot hsnapshot).1, ← htracks.get_eq_none hsnapshot]
    rcases offer_cases hopen hsnapshot b with ⟨hcheck, hnone, hok, -⟩ | ⟨hnot, ⟨e, he⟩, -⟩
    · exact iff_of_true hok ⟨hcheck, hnone⟩
    · refine iff_of_false (fun hok => ?_) hnot
      rw [he] at hok
      cases hok
  · obtain ⟨snapshot, hsnapshot⟩ := hfrozen hopen
    have hvote := offers_congr hopen hsnapshot hsame
    exact ⟨hvote, fun s => by rw [hvote]⟩

end Rules

section Samples

open Irena.Sample

attribute [local instance] platform signaturesVerify

/-- The shareholder's ballot, offered twice: the vote holds the first. -/
theorem casting_first_come_founded : ∃ v, Lives v [yes budget, yes budget] ∧
    v.snapshot = some budget ∧ ∀ b, b ∈ v.box.ballots ↔ IsFirst budget [yes budget, yes budget] b := by
  obtain ⟨frozen, hfreeze, hsnapshot, -⟩ := freeze_founded (lit "Budget") ⟨7⟩ 0
  obtain ⟨-, -, -, -, -, -, -, -, -, -, hstatus⟩ := frozenAt_of_freeze hfreeze
  obtain ⟨opened, hopens⟩ : ∃ opened, frozen.opens = .ok opened :=
    ⟨_, opens_eq_ok.mpr ⟨hstatus, rfl⟩⟩
  have hlives := ((Lives.draft (lit "Budget") ⟨7⟩).freeze hfreeze).opens hopens
  obtain ⟨-, rfl⟩ := opens_eq_ok.mp hopens
  have hframe := @offer_frame platform { frozen with status := .open_ } budget rfl hsnapshot
    (yes budget)
  have hagain := @offers_frame platform { frozen with status := .open_ } budget rfl hsnapshot
    [yes budget, yes budget]
  have htwice := (hlives.offer (yes budget) rfl).offer (yes budget) (by rw [hframe])
  have hbudget : (VoteV1.offers { frozen with status := .open_ }
      [yes budget, yes budget]).snapshot = some budget := by
    rw [hagain]
    exact hsnapshot
  exact ⟨_, htwice, hbudget, ((casting_first_come htwice).1 budget hbudget).1⟩

end Samples

end Irena.Vote
