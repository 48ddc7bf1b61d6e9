import Irena.Bornite.Total
import Irena.Decision.Settled
import Irena.Vote.Soundness

/-! # What a frozen vote carries

From freezing on a vote keeps its snapshot, and its ballots are ones that were accepted for it, one
of each voter. What it can be counted to depends on nothing else. -/

namespace Irena.Vote

open Irena.Library Irena.Library.Outcome Irena.Library.Strings
open Irena.Core Irena.Bornite Irena.Prunella Irena.Prunella.LocalChainStore Irena.Ledger
open Irena.Decision

/-- The voters of a channel are its actors, none of them excluded, and their weights fit. -/
theorem electorate_of_resolves {state : CompanyStateV1} {channel : ChannelIdV1}
    {resolved : ResolvedChannelV1} (h : resolveChannel state channel = .ok resolved) :
    (∀ voter, voter ∈ resolved.actors.electorate.voters ↔
        ∃ actor ∈ resolved.actors.actors, ⟨actor.id, actor.weight, false⟩ = voter) ∧
      (resolved.actors.electorate.voters.map fun voter => voter.weight.value).sum ≤ u64Max := by
  obtain ⟨_, actors, -, hactors, -, rfl⟩ := resolveChannel_eq_ok.mp h
  have hbuild := build_of_actorsOf hactors
  have hperm : (actors.electorate.voters).Perm
      (actors.actors.map fun a => VoterV1.mk a.id a.weight false) := by
    have hnew := build_electorate hbuild
    simp only [ElectorateV1.new, mapErr_eq_ok] at hnew
    rw [ElectorateV1.voters, SortedTable.entries_of_ofList hnew]
    exact SortedTable.perm_sortBy _ _
  constructor
  · intro voter
    rw [hperm.mem_iff, List.mem_map]
  · simp only [ActorSetV1.build, bind_eq_ok, mapErr_eq_ok, WeightTotalV1.sum_eq_ok] at hbuild
    obtain ⟨total, htotal, -⟩ := hbuild
    have hsum := (hperm.map fun voter => voter.weight.value).sum_eq
    rw [List.map_map] at hsum htotal
    rw [hsum]
    exact htotal ▸ total.le

section Operations

variable {v w : VoteV1}

theorem opens_eq_ok : v.opens = .ok w ↔ v.status = .frozen ∧ w = { v with status := .open_ } := by
  simp only [VoteV1.opens, VoteV1.expectStatus, bind_eq_ok, ensure_eq_ok, pure_eq_ok, Except.ok.injEq,
    @eq_comm _ w]
  constructor
  · rintro ⟨_, hstatus, h⟩
    exact ⟨hstatus, h⟩
  · rintro ⟨hstatus, h⟩
    exact ⟨(), hstatus, h⟩

theorem close_eq_ok : v.close = .ok w ↔ v.status = .open_ ∧ w = { v with status := .closed } := by
  simp only [VoteV1.close, VoteV1.expectStatus, bind_eq_ok, ensure_eq_ok, pure_eq_ok, Except.ok.injEq,
    @eq_comm _ w]
  constructor
  · rintro ⟨_, hstatus, h⟩
    exact ⟨hstatus, h⟩
  · rintro ⟨hstatus, h⟩
    exact ⟨(), hstatus, h⟩

variable [Platform]

theorem freeze_eq_ok {s : LocalChainStore} {at_ : ℕ} {channel : ChannelIdV1} :
    v.freeze s at_ channel = .ok w ↔ v.status = .draft ∧ ∃ state resolved,
      reconstruct s at_ = .ok state ∧ resolveChannel state channel = .ok resolved ∧
        resolved.rules ≠ none ∧ w = { v with
          status := .frozen
          company := state.company.value
          snapshot := some (v.snapshotOf state at_ channel resolved) } := by
  simp only [VoteV1.freeze, VoteV1.expectStatus, bind_eq_ok, mapErr_eq_ok, ensure_eq_ok, pure_eq_ok,
    Except.ok.injEq, @eq_comm _ w]
  constructor
  · rintro ⟨-, hstatus, state, hstate, resolved, hresolved, -, hrules, h⟩
    exact ⟨hstatus, state, resolved, hstate, hresolved, hrules, h⟩
  · rintro ⟨hstatus, state, resolved, hstate, hresolved, hrules, h⟩
    exact ⟨(), hstatus, state, hstate, resolved, hresolved, (), hrules, h⟩

theorem cast_eq_ok {ballot : SignedBallotV1} :
    v.cast ballot = .ok w ↔ v.status = .open_ ∧ ∃ snapshot voter, v.snapshot = some snapshot ∧
      ballot.check snapshot = .ok voter ∧ v.box.get voter.value = none ∧
        w = { v with box := v.box.insert (voter.value, ballot) } := by
  simp only [VoteV1.cast, VoteV1.expectStatus, bind_eq_ok, mapErr_eq_ok, orError_eq_ok, ensure_eq_ok,
    pure_eq_ok, Except.ok.injEq, @eq_comm _ w]
  constructor
  · rintro ⟨-, hstatus, snapshot, hsnapshot, voter, hvoter, -, hfresh, h⟩
    exact ⟨hstatus, snapshot, voter, hsnapshot, hvoter, hfresh, h⟩
  · rintro ⟨hstatus, snapshot, voter, hsnapshot, hvoter, hfresh, h⟩
    exact ⟨(), hstatus, snapshot, hsnapshot, voter, hvoter, (), hfresh, h⟩

/-- Counting succeeds on the pinned parts, through the pinned channel, under its rules. -/
theorem evaluateNow_eq_ok {s : LocalChainStore} {evaluation : VoteEvaluationV1} :
    v.evaluateNow s = .ok evaluation ↔ ∃ snapshot state channel resolved rules,
      v.snapshot = some snapshot ∧ reconstruct s snapshot.height = .ok state ∧
        state.channels.txId = snapshot.channelsTxId ∧ state.company.value = snapshot.company ∧
        ChannelIdV1.value channel = snapshot.channel ∧
        resolveChannel state channel = .ok resolved ∧ resolved.rules = some rules ∧
        evaluateBallots rules snapshot v.box.ballots = .ok evaluation := by
  simp only [VoteV1.evaluateNow, bind_eq_ok, mapErr_eq_ok, orError_eq_ok, ensure_eq_ok,
    ChannelIdV1.new_eq_ok]
  constructor
  · rintro ⟨snapshot, hsnapshot, state, hstate, -, ⟨hchannels, hcompany⟩, channel, hchannel, resolved,
      hresolved, rules, hrules, h⟩
    exact ⟨snapshot, state, channel, resolved, rules, hsnapshot, hstate, hchannels, hcompany, hchannel,
      hresolved, hrules, h⟩
  · rintro ⟨snapshot, state, channel, resolved, rules, hsnapshot, hstate, hchannels, hcompany,
      hchannel, hresolved, hrules, h⟩
    exact ⟨snapshot, hsnapshot, state, hstate, (), ⟨hchannels, hcompany⟩, channel, hchannel, resolved,
      hresolved, rules, hrules, h⟩

theorem evaluates_eq_ok {s : LocalChainStore} {evaluation : VoteEvaluationV1} :
    v.evaluates s = .ok (w, evaluation) ↔ v.status = .closed ∧ v.evaluateNow s = .ok evaluation ∧
      w = { v with status := .evaluated, evaluation := some (.of evaluation) } := by
  simp only [VoteV1.evaluates, VoteV1.expectStatus, bind_eq_ok, ensure_eq_ok, pure_eq_ok,
    Except.ok.injEq, Prod.mk.injEq, @eq_comm _ w]
  constructor
  · rintro ⟨-, hstatus, found, hfound, h, rfl⟩
    exact ⟨hstatus, hfound, h⟩
  · rintro ⟨hstatus, hfound, h⟩
    exact ⟨(), hstatus, evaluation, hfound, h, rfl⟩

end Operations

section Invariant

variable [Platform] {v w : VoteV1} {snapshot : VoteSnapshotV1}

/-- A vote holds a snapshot, and under each voter's text a ballot of theirs that was accepted for
it. -/
structure VoteV1.Holds (v : VoteV1) (snapshot : VoteSnapshotV1) : Prop where
  frozen : v.snapshot = some snapshot
  accepted : ∀ p ∈ v.box.entries, p.1 = p.2.body.voter ∧ ∃ voter, p.2.check snapshot = .ok voter

theorem VoteV1.Holds.of_eq (h : v.Holds snapshot) (hsnapshot : w.snapshot = v.snapshot)
    (hbox : w.box = v.box) : w.Holds snapshot :=
  ⟨hsnapshot.trans h.frozen, hbox ▸ h.accepted⟩

theorem VoteV1.Holds.cast (h : v.Holds snapshot) {ballot : SignedBallotV1}
    (hcast : v.cast ballot = .ok w) : w.Holds snapshot := by
  obtain ⟨-, found, voter, hfound, hvoter, -, rfl⟩ := cast_eq_ok.mp hcast
  obtain rfl := Option.some.inj (hfound.symm.trans h.frozen)
  refine ⟨h.frozen, fun p hp => ?_⟩
  rcases SortedTable.mem_insert.mp hp with rfl | ⟨hold, -⟩
  · exact ⟨(SignedBallotV1.check_eq_ok.mp hvoter).2.1, voter, hvoter⟩
  · exact h.accepted p hold

theorem VoteV1.Holds.ballots (h : v.Holds snapshot) :
    ∀ b ∈ v.box.ballots, ∃ voter, b.check snapshot = .ok voter := by
  intro b hb
  obtain ⟨p, hp, rfl⟩ := List.mem_map.mp hb
  exact (h.accepted p hp).2

theorem VoteV1.Holds.ordered (h : v.Holds snapshot) :
    v.box.ballots.Pairwise fun a b => a.body.voter < b.body.voter := by
  refine List.pairwise_map.mpr (v.box.sorted.imp_of_mem fun {p q} hp hq hlt => ?_)
  rw [← (h.accepted p hp).1, ← (h.accepted q hq).1]
  exact hlt

/-- Ballots accepted for the electorate of a channel can be counted exactly when the rules are valid
for it. -/
theorem evaluateBallots_isOk_iff {state : CompanyStateV1} {channel : ChannelIdV1}
    {resolved : ResolvedChannelV1} {rules : VotingRulesV1} {ballots : List SignedBallotV1}
    (hresolved : resolveChannel state channel = .ok resolved)
    (helectorate : snapshot.electorate = resolved.actors.actors.map entryOf)
    (hballots : ∀ b ∈ ballots, ∃ voter, b.check snapshot = .ok voter)
    (hordered : ballots.Pairwise fun a b => a.body.voter < b.body.voter) :
    (∃ evaluation, evaluateBallots rules snapshot ballots = .ok evaluation) ↔
      validate rules resolved.actors.electorate = .ok () := by
  obtain ⟨hvoters, htotal⟩ := electorate_of_resolves hresolved
  have htoElectorate := VoteSnapshotV1.toElectorate_of_resolves hresolved helectorate
  have hsorted : snapshot.electorate.Pairwise fun a b => a.id < b.id :=
    helectorate ▸ entries_sorted hresolved
  have hincluded : ∀ voter ∈ resolved.actors.electorate.voters, voter.excluded = false := by
    intro voter hvoter
    obtain ⟨_, -, rfl⟩ := (hvoters voter).mp hvoter
    rfl
  have hvoter : ∀ b ∈ ballots, ∃ ballot, borniteBallot b = .ok ballot := by
    intro b hb
    obtain ⟨voter, hvoter⟩ := hballots b hb
    obtain ⟨-, hvalue, -⟩ := SignedBallotV1.check_eq_ok.mp hvoter
    exact ⟨⟨voter, b.body.choice.toBornite⟩, borniteBallot_eq_ok.mpr (by
      rw [SignedBallotV1.counted, hvalue])⟩
  obtain ⟨bs, hbs⟩ := mapM_isOk hvoter
  have hcounted : bs.map (fun b => (b.voter.value, b.choice)) = ballots.map SignedBallotV1.counted :=
    map_eq_of_mapM (fun _ _ _ hb => borniteBallot_eq_ok.mp hb) hbs
  have hnodup : (bs.map BallotV1.voter).Nodup := by
    have hvalues : (bs.map BallotV1.voter).map VoterIdV1.value =
        ballots.map fun b => b.body.voter := by
      simpa [SignedBallotV1.counted, Function.comp_def] using congrArg (List.map Prod.fst) hcounted
    refine List.Nodup.of_map VoterIdV1.value ?_
    rw [hvalues]
    exact List.pairwise_map.mpr (hordered.imp ne_of_lt)
  obtain ⟨(set : BallotSetV1), hset⟩ := SortedTable.ofList_isOk.mpr hnodup
  have hborn : borniteBallots ballots = .ok set := by
    simp only [borniteBallots, hbs, mapErr_ok, ok_bind, BallotSetV1.new, hset]
  have hlisted : ∀ b ∈ set.ballots, (resolved.actors.electorate.get b.voter).isSome = true := by
    intro ballot hballot
    have hmem : ballot.voter.value ∈ ballots.map fun b => b.body.voter := by
      have hpairs := borniteBallots_eq_ok hordered hborn
      have hmem := List.mem_map_of_mem (f := fun b : BallotV1 => (b.voter.value, b.choice)) hballot
      rw [hpairs] at hmem
      obtain ⟨b, hb, heq⟩ := List.mem_map.mp hmem
      exact List.mem_map.mpr ⟨b, hb, congrArg Prod.fst heq⟩
    obtain ⟨b, hb, hvalue⟩ := List.mem_map.mp hmem
    obtain ⟨voter, hvoter⟩ := hballots b hb
    obtain ⟨-, hown, entry, -, hentry, -⟩ := SignedBallotV1.check_eq_ok.mp hvoter
    obtain ⟨hlisted, hid⟩ := (VoteSnapshotV1.entry_eq_some hsorted).mp hentry
    rw [helectorate] at hlisted
    obtain ⟨actor, hactor, rfl⟩ := List.mem_map.mp hlisted
    refine Option.isSome_iff_exists.mpr ⟨⟨actor.id, actor.weight, false⟩, ?_⟩
    refine SortedTable.get_eq_some.mpr ⟨(hvoters _).mpr ⟨actor, hactor, rfl⟩, ?_⟩
    exact VoterIdV1.value_injective (hid.trans (hown.trans hvalue))
  rw [← evaluate_isOk_iff hincluded htotal hlisted]
  simp only [evaluateBallots_eq_ok, htoElectorate, hborn, Except.ok.injEq]
  constructor
  · rintro ⟨evaluation, _, _, rfl, rfl, h⟩
    exact ⟨evaluation, h⟩
  · rintro ⟨evaluation, h⟩
    exact ⟨evaluation, _, _, rfl, rfl, h⟩

end Invariant

section Snapshot

variable [Platform]

/-- A snapshot is of a collective channel as the company of a chain resolves it at a height. -/
structure FrozenAt (s : LocalChainStore) (snapshot : VoteSnapshotV1) (state : CompanyStateV1)
    (channel : ChannelIdV1) (resolved : ResolvedChannelV1) (rules : VotingRulesV1) : Prop where
  reconstructs : reconstruct s snapshot.height = .ok state
  company : state.company.value = snapshot.company
  pins : snapshot.pins state = true
  label : channel.value = snapshot.channel
  resolves : resolveChannel state channel = .ok resolved
  collective : resolved.rules = some rules
  electorate : snapshot.electorate = resolved.actors.actors.map entryOf

theorem frozenAt_of_freeze {v w : VoteV1} {s : LocalChainStore} {at_ : ℕ} {channel : ChannelIdV1}
    (h : v.freeze s at_ channel = .ok w) : ∃ snapshot state resolved rules,
      FrozenAt s snapshot state channel resolved rules ∧ snapshot.height = at_ ∧
        snapshot.subject = v.subject ∧ snapshot.proposalDigest = v.proposalDigest ∧
        w.snapshot = some snapshot ∧ w.box = v.box ∧ w.status = .frozen := by
  obtain ⟨-, state, resolved, hstate, hresolved, hrules, rfl⟩ := freeze_eq_ok.mp h
  obtain ⟨rules, hrules⟩ := Option.ne_none_iff_exists'.mp hrules
  refine ⟨v.snapshotOf state at_ channel resolved, state, resolved, rules,
    ⟨hstate, rfl, ?_, rfl, hresolved, hrules, rfl⟩, rfl, rfl, rfl, rfl, rfl, rfl⟩
  simp [VoteSnapshotV1.pins, VoteV1.snapshotOf]

omit [Platform] in
theorem pins_iff_providers {snapshot : VoteSnapshotV1} {state later : CompanyStateV1}
    (h : snapshot.pins state = true) : snapshot.pins later = true ↔
      ∀ kind ∈ pinnedKinds, later.providerOf kind = state.providerOf kind := by
  simp only [VoteSnapshotV1.pins, Bool.and_eq_true, decide_eq_true_eq] at h
  obtain ⟨⟨⟨hgenesis, hshares⟩, hchannels⟩, hidentities⟩ := h
  simp only [VoteSnapshotV1.pins, Bool.and_eq_true, decide_eq_true_eq, pinnedKinds,
    List.forall_mem_cons, CompanyStateV1.providerOf, List.not_mem_nil, false_imp_iff, implies_true,
    and_true, and_assoc, hgenesis, hshares, hchannels, hidentities]

namespace FrozenAt

variable {s t : LocalChainStore} {snapshot : VoteSnapshotV1} {state : CompanyStateV1}
  {channel : ChannelIdV1} {resolved : ResolvedChannelV1} {rules : VotingRulesV1}

/-- A snapshot of a height up to the head is one on every longer chain. -/
theorem extends_ (h : FrozenAt s snapshot state channel resolved rules) (hext : s.Extends t)
    (hle : snapshot.height ≤ s.head.height) :
    FrozenAt t snapshot state channel resolved rules :=
  { h with reconstructs := (Ledger.Extends.reconstruct hext hle).trans h.reconstructs }

/-- On a longer chain on which its height and its pins are settled a snapshot stands unchanged. -/
theorem settled (h : FrozenAt s snapshot state channel resolved rules) (ht : t.WellFormed)
    (hext : s.Extends t) (hsettled : Settled s t snapshot.height) :
    ∃ later, FrozenAt t snapshot later channel resolved rules := by
  obtain ⟨_, later, -, hlater, -⟩ := hsettled.pinned
  have hcompany := company_of_extends hext h.reconstructs hlater
  exact ⟨later, { h with
    reconstructs := hlater
    company := hcompany ▸ h.company
    pins := (pins_iff_providers h.pins).mpr (hsettled.providers h.reconstructs hlater)
    resolves := (hsettled.resolveChannel ht hext h.reconstructs hlater channel).trans h.resolves }⟩

/-- Counting depends on the rules, the snapshot and the ballots alone. -/
theorem evaluateNow (h : FrozenAt s snapshot state channel resolved rules) {v : VoteV1}
    (hfrozen : v.snapshot = some snapshot) :
    v.evaluateNow s = evaluateBallots rules snapshot v.box.ballots := by
  have hchannels : state.channels.txId = snapshot.channelsTxId := by
    have hpins := h.pins
    simp only [VoteSnapshotV1.pins, Bool.and_eq_true, decide_eq_true_eq] at hpins
    exact hpins.1.2
  have hlabel : ChannelIdV1.new snapshot.channel = .ok channel := ChannelIdV1.new_eq_ok.mpr h.label
  have hsame : state.channels.txId = snapshot.channelsTxId ∧
      state.company.value = snapshot.company := ⟨hchannels, h.company⟩
  simp only [VoteV1.evaluateNow, hfrozen, orError_some, ok_bind, h.reconstructs, mapErr_ok,
    ensure_of hsame, hlabel, h.resolves, h.collective]

/-- The ballots of a vote with the snapshot can be counted exactly when the rules are valid for the
electorate. -/
theorem evaluateNow_isOk_iff (h : FrozenAt s snapshot state channel resolved rules) {v : VoteV1}
    (hholds : v.Holds snapshot) : (∃ evaluation, v.evaluateNow s = .ok evaluation) ↔
      validate rules resolved.actors.electorate = .ok () := by
  rw [h.evaluateNow hholds.frozen]
  exact evaluateBallots_isOk_iff h.resolves h.electorate hholds.ballots hholds.ordered

end FrozenAt

/-- A vote frozen, opened, given the ballots it accepts, and closed. -/
def conduct (s : LocalChainStore) (at_ : ℕ) (channel : ChannelIdV1) (subject : Text)
    (proposalDigest : Hash) (ballots : List SignedBallotV1) : Except VoteError VoteV1 := do
  let frozen ← (VoteV1.draft subject proposalDigest).freeze s at_ channel
  let opened ← frozen.opens
  let voted ← ballots.foldlM VoteV1.cast opened
  voted.close

theorem holds_foldlM_cast {ballots : List SignedBallotV1} {v w : VoteV1} {snapshot : VoteSnapshotV1}
    (hholds : v.Holds snapshot) (h : ballots.foldlM VoteV1.cast v = .ok w) : w.Holds snapshot := by
  induction ballots generalizing v with
  | nil =>
    obtain rfl := Except.ok.inj h
    exact hholds
  | cons ballot ballots ih =>
    rw [List.foldlM_cons, bind_eq_ok] at h
    obtain ⟨middle, hcast, h⟩ := h
    exact ih (hholds.cast hcast) h

/-- A conducted vote is closed over a snapshot of its channel at the height. -/
theorem conduct_eq_ok {s : LocalChainStore} {at_ : ℕ} {channel : ChannelIdV1} {subject : Text}
    {proposalDigest : Hash} {ballots : List SignedBallotV1} {closed : VoteV1}
    (h : conduct s at_ channel subject proposalDigest ballots = .ok closed) :
    ∃ snapshot state resolved rules, FrozenAt s snapshot state channel resolved rules ∧
      snapshot.height = at_ ∧ closed.Holds snapshot ∧ closed.status = .closed := by
  simp only [conduct, bind_eq_ok] at h
  obtain ⟨frozen, hfreeze, opened, hopen, voted, hcast, hclose⟩ := h
  obtain ⟨snapshot, state, resolved, rules, hfrozen, hheight, -, -, hsnapshot, hbox, -⟩ :=
    frozenAt_of_freeze hfreeze
  obtain ⟨-, rfl⟩ := opens_eq_ok.mp hopen
  obtain ⟨-, rfl⟩ := close_eq_ok.mp hclose
  have hempty : frozen.Holds snapshot := by
    refine ⟨hsnapshot, fun p hp => ?_⟩
    rw [hbox] at hp
    cases hp
  have hvoted : voted.Holds snapshot := by
    refine holds_foldlM_cast ?_ hcast
    exact hempty.of_eq rfl rfl
  exact ⟨snapshot, state, resolved, rules, hfrozen, hheight, hvoted.of_eq rfl rfl, rfl⟩

theorem status_foldlM_cast {ballots : List SignedBallotV1} {v w : VoteV1}
    (h : ballots.foldlM VoteV1.cast v = .ok w) : w.status = v.status := by
  induction ballots generalizing v with
  | nil => rw [Except.ok.inj h]
  | cons ballot ballots ih =>
    rw [List.foldlM_cons, bind_eq_ok] at h
    obtain ⟨middle, hcast, h⟩ := h
    obtain ⟨-, _, _, -, -, -, hmiddle⟩ := cast_eq_ok.mp hcast
    rw [ih h, hmiddle]

/-- A frozen vote that accepts the ballots is conducted. -/
theorem conduct_of_casts {s : LocalChainStore} {at_ : ℕ} {channel : ChannelIdV1} {subject : Text}
    {proposalDigest : Hash} {ballots : List SignedBallotV1} {frozen voted : VoteV1}
    (hfreeze : (VoteV1.draft subject proposalDigest).freeze s at_ channel = .ok frozen)
    (hcasts : ballots.foldlM VoteV1.cast { frozen with status := .open_ } = .ok voted) :
    conduct s at_ channel subject proposalDigest ballots =
      .ok { voted with status := .closed } := by
  obtain ⟨-, -, -, -, -, -, -, -, -, -, hstatus⟩ := frozenAt_of_freeze hfreeze
  have hopen : frozen.opens = .ok { frozen with status := .open_ } := opens_eq_ok.mpr ⟨hstatus, rfl⟩
  have hclose : voted.close = .ok { voted with status := .closed } :=
    close_eq_ok.mpr ⟨status_foldlM_cast hcasts, rfl⟩
  simp only [conduct, hfreeze, hopen, ok_bind, hcasts, hclose]

/-- A frozen vote is conducted without a ballot too. -/
theorem conduct_nil {s : LocalChainStore} {at_ : ℕ} {channel : ChannelIdV1} {subject : Text}
    {proposalDigest : Hash} {frozen : VoteV1}
    (hfreeze : (VoteV1.draft subject proposalDigest).freeze s at_ channel = .ok frozen) :
    ∃ closed, conduct s at_ channel subject proposalDigest [] = .ok closed :=
  ⟨_, conduct_of_casts hfreeze rfl⟩

end Snapshot

end Irena.Vote
