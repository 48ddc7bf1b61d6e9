import Irena.Meeting.Lifecycle
import Irena.Vote.Published

/-! # How the votes of a meeting advance

Every operation of a meeting goes through its votes in agenda order and lets each of them advance: a
vote keeps its number and what it froze, gains ballots, and once it is published its record
verifies. -/

namespace Irena.Meeting

open Irena.Library Irena.Library.Outcome Irena.Library.Strings
open Irena.Core Irena.Bornite Irena.Prunella Irena.Prunella.LocalChainStore Irena.Ledger Irena.Vote
open Irena.Decision (Recorded Leaves signerAuthorisedAt)

variable [Platform]

/-- What every vote of an open meeting was frozen with. -/
structure Opening where
  company : Text
  channel : ChannelIdV1
  height : ℕ

/-- A vote as the meeting opened it for an item, with the record it left on the chain. -/
structure ItemVote (s : LocalChainStore) (o : Opening) (item : AgendaItemV1) (proposalDigest : Hash)
    (v : VoteV1) (snapshot : VoteSnapshotV1) : Prop where
  frozen : ∃ state resolved rules, FrozenAt s snapshot state o.channel resolved rules
  company : snapshot.company = o.company
  subject : snapshot.subject = subjectOf item
  digest : snapshot.proposalDigest = proposalDigest
  height : snapshot.height = o.height
  reached : o.height ≤ s.head.height
  holds : v.Holds snapshot
  published : ∀ txId height, v.finalized = some (txId, height) → v.status = .finalized ∧
    ∃ report evaluation, v.evaluation = some (.of evaluation) ∧ report.height ≤ s.head.height ∧
      Vote.Verified s txId report (.assemble snapshot v.box.ballots (.of evaluation))

theorem ItemVote.extends_ {s t : LocalChainStore} {o : Opening} {item : AgendaItemV1}
    {proposalDigest : Hash} {v : VoteV1} {snapshot : VoteSnapshotV1}
    (h : ItemVote s o item proposalDigest v snapshot) (hext : s.Extends t) :
    ItemVote t o item proposalDigest v snapshot := by
  obtain ⟨state, resolved, rules, hfrozen⟩ := h.frozen
  exact { h with
    frozen := ⟨state, resolved, rules, hfrozen.extends_ hext (h.height ▸ h.reached)⟩
    reached := h.reached.trans hext.height_le
    published := fun txId height hfinalized => by
      obtain ⟨hstatus, report, evaluation, hevaluation, hheight, hverified⟩ :=
        h.published txId height hfinalized
      obtain ⟨report', hverified', hsame⟩ := hverified.extends hext
      exact ⟨hstatus, report', evaluation, hevaluation, hsame ▸ hheight.trans hext.height_le,
        hverified'⟩ }

/-- From one vote to a later one, with the chain growing: what held of it for an item still holds, and
no ballot is lost. -/
structure Advances (s t : LocalChainStore) (v w : VoteV1) : Prop where
  keeps : ∀ o item proposalDigest snapshot, ItemVote s o item proposalDigest v snapshot →
    ItemVote t o item proposalDigest w snapshot
  ballots : v.box.ballots ⊆ w.box.ballots

theorem Advances.of_extends {s t : LocalChainStore} (hext : s.Extends t) (v : VoteV1) :
    Advances s t v v :=
  ⟨fun _ _ _ _ h => h.extends_ hext, List.Subset.refl _⟩

theorem Advances.trans {s t u : LocalChainStore} {v w x : VoteV1} (h : Advances s t v w)
    (k : Advances t u w x) : Advances s u v x :=
  ⟨fun o item digest snapshot hv => k.keeps o item digest snapshot (h.keeps o item digest snapshot hv),
    fun _ hb => k.ballots (h.ballots hb)⟩

/-- A vote that changes neither its snapshot nor its ballots, and that was not published, advances. -/
theorem advances_of_status {s : LocalChainStore} {v w : VoteV1} (hstatus : v.status ≠ .finalized)
    (hsnapshot : w.snapshot = v.snapshot) (hbox : w.box = v.box)
    (hfinalized : w.finalized = v.finalized) : Advances s s v w := by
  refine ⟨fun o item digest snapshot h => ?_, hbox ▸ List.Subset.refl _⟩
  exact { h with
    holds := h.holds.of_eq hsnapshot hbox
    published := fun txId height hpublished =>
      absurd (h.published txId height (hfinalized ▸ hpublished)).1 hstatus }

theorem advances_close {s : LocalChainStore} {v w : VoteV1} (h : v.close = .ok w) :
    Advances s s v w := by
  obtain ⟨hstatus, rfl⟩ := close_eq_ok.mp h
  exact advances_of_status (hstatus ▸ nofun) rfl rfl rfl

theorem advances_evaluates {s t : LocalChainStore} {v w : VoteV1} {evaluation : VoteEvaluationV1}
    (h : v.evaluates t = .ok (w, evaluation)) : Advances s s v w := by
  obtain ⟨hstatus, -, rfl⟩ := evaluates_eq_ok.mp h
  exact advances_of_status (hstatus ▸ nofun) rfl rfl rfl

/-- A ballot that is cast is among the ballots. -/
theorem advances_cast {s : LocalChainStore} {v w : VoteV1} {ballot : SignedBallotV1}
    (h : v.cast ballot = .ok w) : Advances s s v w ∧ ballot ∈ w.box.ballots := by
  obtain ⟨hstatus, snapshot, voter, -, -, hfresh, hw⟩ := cast_eq_ok.mp h
  have hbox : w.box = v.box.insert (voter.value, ballot) := by rw [hw]
  have hfinalized : w.finalized = v.finalized := by rw [hw]
  refine ⟨⟨fun o item digest found hv => { hv with
    holds := hv.holds.cast h
    published := fun txId height hpublished => ?_ }, fun b hb => ?_⟩, ?_⟩
  · have hdone := (hv.published txId height (hfinalized ▸ hpublished)).1
    rw [hstatus] at hdone
    cases hdone
  · obtain ⟨p, hp, rfl⟩ := List.mem_map.mp hb
    refine List.mem_map.mpr ⟨p, ?_, rfl⟩
    rw [hbox, SortedTable.mem_insert]
    refine .inr ⟨hp, fun hsame => ?_⟩
    have hget := SortedTable.get_eq_some.mpr ⟨hp, hsame⟩
    rw [hfresh] at hget
    cases hget
  · refine List.mem_map.mpr ⟨(voter.value, ballot), ?_, rfl⟩
    rw [hbox, SortedTable.mem_insert]
    exact .inl rfl

/-- A vote of an item that is published passes every check. -/
theorem advances_published {s t : LocalChainStore} {v done : VoteV1} {key : SigningKey} {time : ℕ}
    {finalized : FinalizedV1} {rerun : VoteEvaluationV1}
    (h : Published v s t key time done finalized rerun) : Advances s t v done := by
  have hdone := h.after
  refine ⟨fun o item digest snapshot hv => ?_, by rw [hdone]; exact List.Subset.refl _⟩
  obtain ⟨state, resolved, rules, hfrozen⟩ := hv.frozen
  have hle : snapshot.height ≤ s.head.height := hv.height ▸ hv.reached
  obtain ⟨located, -, hheight, -, hsigner, hfound, hdecode, -⟩ := h.report hv.holds.frozen
  have hpasses := h.passes (hv.holds.stands hfrozen hle) hheight hsigner
  obtain ⟨report, hverified, hreport⟩ := hpasses.verified hfound hdecode
  rw [h.record_eq hv.holds.frozen] at hverified
  have hlast : report.height ≤ t.head.height := by
    rw [hreport, hheight, h.recorded.height]
  exact { hv.extends_ h.recorded.extends_ with
    holds := hv.holds.of_eq (by rw [hdone]) (by rw [hdone])
    published := fun txId height hpublished => by
      rw [hdone, Option.some.injEq, Prod.mk.injEq] at hpublished
      obtain ⟨rfl, rfl⟩ := hpublished
      rw [hdone]
      exact ⟨rfl, report, rerun, h.result, hlast, hverified⟩ }

/-- A vote of an item that is published among others who leave the key its office passes every
check. -/
theorem advances_finalize {s t : LocalChainStore} {v done : VoteV1} {key : SigningKey} {time : ℕ}
    {finalized : FinalizedV1} (hs : s.WellFormed)
    (h : Program.RunsAmong (Leaves key) (v.finalize key time) s (.ok (done, finalized)) t) :
    Advances s t v done ∧ done.finalized.isSome = true := by
  obtain ⟨rerun, a, u, w, hsa, hau, hrerun, rfl, hpublished, hwt, ht⟩ := finalize_among hs h
  have hext := (h.moves Leaves.refl Leaves.trans (leaves_finalize v key key time)).grows.extends_
  refine ⟨⟨fun o item digest snapshot hv => ?_, List.Subset.refl _⟩, rfl⟩
  obtain ⟨state, resolved, rules, hfrozen⟩ := hv.frozen
  -- what was counted on the way is what the chain of the record counts
  have hle : snapshot.height ≤ s.head.height := hv.height ▸ hv.reached
  have hcounts : v.evaluateNow u = .ok rerun := by
    rw [(hfrozen.extends_ (hsa.trans hau) hle).evaluateNow hv.holds.frozen, ← hrerun,
      (hfrozen.extends_ hsa hle).evaluateNow hv.holds.frozen]
  have hadvances := (advances_published (hpublished hcounts)).trans (.of_extends hwt _)
  exact hadvances.keeps o item digest snapshot (hv.extends_ (hsa.trans hau))

/-- Each vote of a list advances, under its number. -/
abbrev AllAdvance (s t : LocalChainStore) (votes votes' : List (ℕ × VoteV1)) : Prop :=
  List.Forall₂ (fun p q => q.1 = p.1 ∧ Advances s t p.2 q.2) votes votes'

theorem AllAdvance.of_extends {s t : LocalChainStore} (hext : s.Extends t)
    (votes : List (ℕ × VoteV1)) : AllAdvance s t votes votes :=
  List.forall₂_same.mpr fun p _ => ⟨rfl, .of_extends hext p.2⟩

theorem AllAdvance.trans {s t u : LocalChainStore} {votes votes' votes'' : List (ℕ × VoteV1)}
    (h : AllAdvance s t votes votes') (k : AllAdvance t u votes' votes'') :
    AllAdvance s u votes votes'' := by
  induction h generalizing votes'' with
  | nil =>
    cases k
    exact .nil
  | cons hpq _ ih =>
    cases k with
    | cons hqr htail => exact .cons ⟨hqr.1.trans hpq.1, hpq.2.trans hqr.2⟩ (ih htail)

/-- A ballot held under a number is still held under it. -/
theorem AllAdvance.ballots {s t : LocalChainStore} {votes votes' : List (ℕ × VoteV1)}
    (h : AllAdvance s t votes votes') {number : ℕ} {v : VoteV1} {ballot : SignedBallotV1}
    (hv : (number, v) ∈ votes) (hballot : ballot ∈ v.box.ballots) :
    ∃ w, (number, w) ∈ votes' ∧ ballot ∈ w.box.ballots := by
  induction h with
  | nil => cases hv
  | @cons p q _ _ hpq _ ih =>
    rcases List.mem_cons.mp hv with hfirst | hrest
    · obtain ⟨hnumber, hadvances⟩ := hpq
      rw [← hfirst] at hnumber hadvances
      exact ⟨q.2, List.mem_cons.mpr (.inl (Prod.ext hnumber.symm rfl)), hadvances.ballots hballot⟩
    · obtain ⟨w, hw, hmem⟩ := ih hrest
      exact ⟨w, List.mem_cons_of_mem _ hw, hmem⟩

theorem castInto_advances {s : LocalChainStore} {number : ℕ} {ballot : SignedBallotV1}
    {votes votes' : List (ℕ × VoteV1)} (h : castInto number ballot votes = .ok votes') :
    AllAdvance s s votes votes' ∧ ∃ w, (number, w) ∈ votes' ∧ ballot ∈ w.box.ballots := by
  induction votes generalizing votes' with
  | nil => cases h
  | cons p rest ih =>
    obtain ⟨n, v⟩ := p
    by_cases hn : n = number
    · simp only [castInto, if_pos hn, bind_eq_ok, mapErr_eq_ok, pure_eq_ok, Except.ok.injEq] at h
      obtain ⟨w, hcast, rfl⟩ := h
      obtain ⟨hadvances, hmem⟩ := @advances_cast _ s _ _ _ hcast
      exact ⟨.cons ⟨rfl, hadvances⟩ (AllAdvance.of_extends (.refl s) rest), w, hn ▸ List.mem_cons_self, hmem⟩
    · simp only [castInto, if_neg hn, bind_eq_ok, pure_eq_ok, Except.ok.injEq] at h
      obtain ⟨rest', hrest, rfl⟩ := h
      obtain ⟨hall, w, hw, hmem⟩ := ih hrest
      exact ⟨.cons ⟨rfl, .of_extends (.refl s) v⟩ hall, w, List.mem_cons_of_mem _ hw, hmem⟩

theorem closeVotes_advances (s : LocalChainStore) (votes : List (ℕ × VoteV1)) :
    AllAdvance s s votes (closeVotes s votes).2 := by
  induction votes with
  | nil => exact .nil
  | cons p rest ih =>
    obtain ⟨n, v⟩ := p
    have hrest : AllAdvance s s rest rest := .of_extends (.refl s) rest
    cases hclose : v.close with
    | error e =>
      simp only [closeVotes, hclose]
      exact .cons ⟨rfl, .of_extends (.refl s) v⟩ hrest
    | ok closed =>
      have hclosed := @advances_close _ s _ _ hclose
      cases hevaluates : closed.evaluates s with
      | error e =>
        simp only [closeVotes, hclose, hevaluates]
        exact .cons ⟨rfl, hclosed⟩ hrest
      | ok found =>
        obtain ⟨w, evaluation⟩ := found
        simp only [closeVotes, hclose, hevaluates]
        exact .cons ⟨rfl, hclosed.trans (advances_evaluates hevaluates)⟩ ih

/-- Publishing votes leaves every key its office. -/
theorem leaves_finalizeVotes (signing key : SigningKey) (time : ℕ) (votes : List (ℕ × VoteV1)) :
    (finalizeVotes signing time votes).Moves (Leaves key) := by
  induction votes with
  | nil => trivial
  | cons p rest ih =>
    obtain ⟨n, v⟩ := p
    unfold finalizeVotes
    split
    · exact .bind ih fun _ => trivial
    · refine .bind (.attempt (leaves_finalize v signing key time)) fun result => ?_
      cases result with
      | error e => trivial
      | ok _ => exact .bind ih fun _ => trivial

/-- Publishing votes in turn among others who leave the key its office: each vote advances, and
without a failure each of them is published. -/
theorem finalizeVotes_among {key : SigningKey} {time : ℕ} {votes votes' : List (ℕ × VoteV1)}
    {s t : LocalChainStore} {r : Except MeetingError Unit} (hs : s.WellFormed)
    (h : Program.RunsAmong (Leaves key) (finalizeVotes key time votes) s (.ok (r, votes')) t) :
    AllAdvance s t votes votes' ∧ (r = .ok () → ∀ p ∈ votes', p.2.finalized.isSome = true) := by
  induction votes generalizing s r votes' with
  | nil =>
    obtain ⟨hresult, -⟩ := h.pure_ok
    obtain ⟨rfl, rfl⟩ := Prod.mk.inj hresult
    exact ⟨.nil, fun _ p hp => absurd hp List.not_mem_nil⟩
  | cons p rest ih =>
    obtain ⟨n, v⟩ := p
    by_cases hdone : v.finalized.isSome = true
    · simp only [finalizeVotes, if_pos hdone] at h
      obtain ⟨⟨r', rest'⟩, u, hrest, hlast⟩ := h.bind_ok
      obtain ⟨hresult, rfl⟩ := hlast.pure_ok
      obtain ⟨rfl, rfl⟩ := Prod.mk.inj hresult
      have hext := (hrest.moves Leaves.refl Leaves.trans
        (leaves_finalizeVotes key key time rest)).grows.extends_
      obtain ⟨hall, hpublished⟩ := ih hs hrest
      exact ⟨.cons ⟨rfl, .of_extends hext v⟩ hall, fun hok =>
        List.forall_mem_cons.mpr ⟨hdone, hpublished hok⟩⟩
    · simp only [finalizeVotes, if_neg hdone] at h
      obtain ⟨a, u, hattempt, hlast⟩ := h.bind_ok
      obtain ⟨_, hsame, hfinal⟩ := hattempt.attempt
      obtain rfl := Except.ok.inj hsame
      have hgrows := (hfinal.moves Leaves.refl Leaves.trans (leaves_finalize v key key time)).grows
      cases a with
      | error e =>
        obtain ⟨hresult, rfl⟩ := hlast.pure_ok
        obtain ⟨rfl, rfl⟩ := Prod.mk.inj hresult
        exact ⟨.of_extends hgrows.extends_ _, nofun⟩
      | ok published =>
        obtain ⟨done, finalized⟩ := published
        obtain ⟨hadvances, hdone'⟩ := advances_finalize hs hfinal
        obtain ⟨⟨r', rest'⟩, w, hrest, hlast⟩ := hlast.bind_ok
        obtain ⟨hresult, rfl⟩ := hlast.pure_ok
        obtain ⟨rfl, rfl⟩ := Prod.mk.inj hresult
        have hmore := (hrest.moves Leaves.refl Leaves.trans
          (leaves_finalizeVotes key key time rest)).grows.extends_
        obtain ⟨hall, hpublished⟩ := ih (hgrows.wellFormed hs) hrest
        exact ⟨.cons ⟨rfl, hadvances.trans (.of_extends hmore done)⟩
            ((AllAdvance.of_extends hgrows.extends_ rest).trans hall),
          fun hok => List.forall_mem_cons.mpr ⟨hdone', hpublished hok⟩⟩

end Irena.Meeting
