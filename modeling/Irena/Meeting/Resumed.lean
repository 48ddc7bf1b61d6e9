import Irena.Ledger.Faults
import Irena.Meeting.Complete

/-! # A finalisation that is interrupted

A meeting is finalised through its state file, which is written back only on success. An attempt that
fails after it published a vote leaves a file that knows nothing of it, and the next one publishes
the vote again. -/

namespace Irena.Meeting

open Irena.Library Irena.Library.Outcome Irena.Library.Strings Irena.Library.Utf8
open Irena.Core Irena.Bornite Irena.Prunella Irena.Prunella.LocalChainStore Irena.Ledger Irena.Vote
open Irena.Decision (Recorded Leaves recorded_of_append)

section Rules

variable [Platform]

/-- How many final records of the vote with a snapshot are on a chain. -/
def voteRecords (s : LocalChainStore) (snapshot : VoteSnapshotV1) : ℕ :=
  s.transactions.countP fun t => (decodeVote t).any fun record => record.snapshot == snapshot

omit [Platform] in
theorem voteRecords_of_sameChain {s t : LocalChainStore} (h : SameChain s t)
    (snapshot : VoteSnapshotV1) : voteRecords t snapshot = voteRecords s snapshot := by
  rw [voteRecords, LocalChainStore.transactions, blocks_of_sameChain h]
  rfl

theorem transactions_of_recorded {s t : LocalChainStore} {key : SigningKey} {namespace_ : Text}
    {payload : Bytes} {time : ℕ} (h : Recorded s t key namespace_ payload time) :
    t.transactions = s.transactions ++ [nextTransaction s key namespace_ payload] := by
  rw [LocalChainStore.transactions, blocks_of_sameChain h.chain, blocks_push, List.flatMap_append,
    List.flatMap_singleton]
  rfl

/-- Publishing a vote adds one record of it and none of another. -/
theorem voteRecords_of_published {v done : VoteV1} {s t : LocalChainStore} {key : SigningKey}
    {time : ℕ} {finalized : FinalizedV1} {rerun : VoteEvaluationV1} {snapshot : VoteSnapshotV1}
    (h : Published v s t key time done finalized rerun) (hfrozen : v.snapshot = some snapshot)
    (other : VoteSnapshotV1) :
    voteRecords t other = voteRecords s other + if snapshot = other then 1 else 0 := by
  have hsnapshot : finalized.record.snapshot = snapshot := by
    rw [h.record_eq hfrozen]
    rfl
  rw [voteRecords, transactions_of_recorded h.recorded, List.countP_append, List.countP_singleton,
    h.decodes hfrozen, Option.any_some, hsnapshot]
  simp only [beq_iff_eq, voteRecords]

theorem voteRecords_of_recorded {s t : LocalChainStore} {key : SigningKey} {payload : Bytes}
    {time : ℕ} (h : Recorded s t key meetingNamespace payload time) (snapshot : VoteSnapshotV1) :
    voteRecords t snapshot = voteRecords s snapshot := by
  have hne : meetingNamespace ≠ voteNamespace := by decide +kernel
  have hnone : decodeVote (nextTransaction s key meetingNamespace payload) = none := by
    refine Option.eq_none_iff_forall_ne_some.mpr fun record hrecord => hne ?_
    exact (decodeVote_eq_some.mp hrecord).1
  rw [voteRecords, transactions_of_recorded h, List.countP_append, List.countP_singleton, hnone]
  rfl

/-- Publishing votes alone leaves the key its office. -/
theorem leaves_of_finalizeVotes {key : SigningKey} {time : ℕ} {votes votes' : List (ℕ × VoteV1)}
    {s t : LocalChainStore} {r : Except MeetingError Unit}
    (h : (finalizeVotes key time votes).run s = (.ok (r, votes'), t)) : Leaves key s t :=
  (Program.RunsAmong.of_run Leaves.refl h).moves Leaves.refl Leaves.trans
    (leaves_finalizeVotes key key time votes)

theorem run_mayFinalize {m : MeetingV1} {key : SigningKey} {s t : LocalChainStore}
    {r : Except MeetingError Unit} (h : (m.mayFinalize key).run s = (r, t)) :
    t = s ∧ (r = .ok () → m.status = .closed ∧ ∃ now person, companyNow s = .ok now ∧
      authorisedSigner now .governance (Platform.publicKey key) = .ok person) := by
  rcases r with e | ⟨⟩
  · refine ⟨?_, nofun⟩
    simp only [MeetingV1.mayFinalize, Program.run_bind_error, Program.run_lift, Program.run_mapError,
      run_readCompanyNow, Prod.mk.injEq, Program.run_pure, mapErr_eq_ok, reduceCtorEq, false_and,
      and_false, exists_false, or_false] at h
    rcases h with ⟨-, rfl⟩ | ⟨_, _, ⟨-, rfl⟩, ⟨-, rfl⟩ | ⟨_, _, ⟨-, rfl⟩, -, rfl⟩⟩ <;> rfl
  · simp only [MeetingV1.mayFinalize, Program.run_bind_ok, Program.run_lift, Program.run_mapError,
      run_readCompanyNow, Prod.mk.injEq, Program.run_pure, mapErr_eq_ok] at h
    obtain ⟨_, _, ⟨hstatus, rfl⟩, now, _, ⟨hnow, rfl⟩, person, _, ⟨hperson, rfl⟩, -, rfl⟩ := h
    exact ⟨rfl, fun _ => ⟨ensure_eq_ok.mp hstatus, now, person, hnow, hperson⟩⟩

theorem publishFinal_cases {m : MeetingV1} {key : SigningKey} {n : NotarisationV1} {time : ℕ}
    {u t : LocalChainStore} {r : Except MeetingError (MeetingFinalizedV1 × MeetingV1)}
    {now : CompanyStateV1} {person : PersonV1} (hu : u.WellFormed) (hnow : companyNow u = .ok now)
    (hperson : authorisedSigner now .governance (Platform.publicKey key) = .ok person)
    (h : (m.publishFinal key n time).run u = (r, t)) :
    (∃ e, r = .error e ∧ SameChain u t) ∨ ∃ finalized m' company payload, r = .ok (finalized, m') ∧
      m' = { m with
        status := .finalized
        finalized := some (finalized.txId, finalized.height) } ∧
      Closed m u t key n time company payload finalized := by
  have hsame : SameChain u u := ⟨rfl, rfl, rfl⟩
  rcases r with e | ⟨finalized, m'⟩
  · refine .inl ⟨e, rfl, ?_⟩
    simp only [MeetingV1.publishFinal, Program.run_bind_error, Program.run_lift, Prod.mk.injEq,
      Program.run_pure, mapErr_eq_ok, reduceCtorEq, false_and, exists_const, and_false, exists_false,
      or_false] at h
    rcases h with ⟨-, rfl⟩ | ⟨_, _, ⟨-, rfl⟩, ⟨-, rfl⟩ | ⟨_, _, ⟨-, rfl⟩, ⟨-, rfl⟩ |
      ⟨payload, _, ⟨-, rfl⟩, happend⟩⟩⟩
    all_goals first | exact hsame | skip
    rcases recorded_of_append hu meetingNamespace_foreign hnow hperson happend with
      ⟨_, -, hchain⟩ | ⟨hr, -⟩
    · exact hchain
    · cases hr
  · simp only [MeetingV1.publishFinal, Program.run_bind_ok, Program.run_lift, Prod.mk.injEq,
      Program.run_pure, mapErr_eq_ok, Except.ok.injEq] at h
    obtain ⟨record, _, ⟨hrecord, rfl⟩, company, _, ⟨hcompany, rfl⟩, payload, _, ⟨hpayload, rfl⟩,
      ⟨txId, height⟩, _, happend, ⟨rfl, rfl⟩, rfl⟩ := h
    rcases recorded_of_append hu meetingNamespace_foreign hnow hperson happend with
      ⟨e, he, -⟩ | ⟨hr, hrecorded⟩
    · cases he
    · obtain ⟨rfl, rfl⟩ := Prod.mk.inj (Except.ok.inj hr)
      exact .inr ⟨_, _, company, payload, rfl, rfl, hrecord, CompanyIdV1.new_eq_ok.mp hcompany,
        hpayload, rfl, rfl, hrecorded⟩

/-- Finalising publishes the votes and then, unless one of them is refused, the record of the meeting;
what it did before a refusal is kept. -/
theorem meetingFinalize_cases {m m' : MeetingV1} {key : SigningKey} {n : NotarisationV1} {time : ℕ}
    {s t : LocalChainStore} {r : Except MeetingError MeetingFinalizedV1} (hs : s.WellFormed)
    (h : (m.finalize key n time).run s = (.ok (r, m'), t)) :
    (∃ e, r = .error e ∧ m' = m ∧ t = s) ∨ m.status = .closed ∧ ∃ rv votes u,
      (finalizeVotes key time m.votes).run s = (.ok (rv, votes), u) ∧
      ((∃ e, r = .error e ∧ m' = { m with votes } ∧ SameChain u t) ∨
        rv = .ok () ∧ ∃ finalized company payload, r = .ok finalized ∧
          m' = { m with
            votes
            status := .finalized
            finalized := some (finalized.txId, finalized.height) } ∧
          Closed { m with votes } u t key n time company payload finalized) := by
  rcases hmay : (m.mayFinalize key).run s with ⟨a, s'⟩
  obtain ⟨rfl, hclosed⟩ := run_mayFinalize hmay
  rcases a with e | ⟨⟩
  · simp only [MeetingV1.finalize, Program.run_bind, Program.run_attempt, hmay, Program.run_pure,
      Prod.mk.injEq, Except.ok.injEq] at h
    obtain ⟨⟨rfl, rfl⟩, rfl⟩ := h
    exact .inl ⟨e, rfl, rfl, rfl⟩
  · obtain ⟨hstatus, now, person, hnow, hperson⟩ := hclosed rfl
    simp only [MeetingV1.finalize, Program.run_bind_ok, Program.run_attempt, hmay, Prod.mk.injEq,
      Except.ok.injEq] at h
    obtain ⟨_, _, ⟨rfl, rfl⟩, h⟩ := h
    simp only [Program.run_bind_ok] at h
    obtain ⟨⟨rv, votes⟩, u, hvotes, h⟩ := h
    refine .inr ⟨hstatus, rv, votes, u, hvotes, ?_⟩
    rcases rv with e | ⟨⟩
    · simp only [Program.run_pure, Prod.mk.injEq, Except.ok.injEq] at h
      obtain ⟨⟨rfl, rfl⟩, rfl⟩ := h
      exact .inl ⟨e, rfl, rfl, rfl, rfl, rfl⟩
    · have hleaves := leaves_of_finalizeVotes hvotes
      have hu := hleaves.grows.wellFormed hs
      obtain ⟨now', person', hnow', hperson'⟩ := hleaves.governs ⟨now, person, hnow, hperson⟩
      rcases hfinal : (({ m with votes } : MeetingV1).publishFinal key n time).run u with ⟨b, t'⟩
      simp only [Program.run_bind_ok, Program.run_attempt, hfinal, Prod.mk.injEq,
        Except.ok.injEq] at h
      obtain ⟨_, _, ⟨rfl, rfl⟩, h⟩ := h
      rcases publishFinal_cases hu hnow' hperson' hfinal with ⟨e, rfl, hchain⟩ |
        ⟨finalized, after, company, payload, rfl, rfl, hpublish⟩
      · simp only [Program.run_pure, Prod.mk.injEq, Except.ok.injEq] at h
        obtain ⟨⟨rfl, rfl⟩, rfl⟩ := h
        exact .inl ⟨e, rfl, rfl, hchain⟩
      · simp only [Program.run_pure, Prod.mk.injEq, Except.ok.injEq] at h
        obtain ⟨⟨rfl, rfl⟩, rfl⟩ := h
        exact .inr ⟨rfl, finalized, company, payload, rfl, rfl, hpublish⟩

/-- The snapshots of the votes that a meeting has still to publish. -/
def Unpublished (votes : List (ℕ × VoteV1)) (snapshot : VoteSnapshotV1) : Prop :=
  ∃ p ∈ votes, p.2.finalized = none ∧ p.2.snapshot = some snapshot

def snapshotsOf (votes : List (ℕ × VoteV1)) : List (Option VoteSnapshotV1) :=
  votes.map fun p => p.2.snapshot

/-- The votes have frozen snapshots, which differ. -/
def Apart (votes : List (ℕ × VoteV1)) : Prop :=
  none ∉ snapshotsOf votes ∧ (snapshotsOf votes).Nodup

/-- Publishing votes in turn leaves at most one more record of each that was unpublished, and no
record of another. -/
theorem voteRecords_finalizeVotes {key : SigningKey} {time : ℕ} {votes votes' : List (ℕ × VoteV1)}
    {s t : LocalChainStore} {r : Except MeetingError Unit} (hs : s.WellFormed) (hapart : Apart votes)
    (h : (finalizeVotes key time votes).run s = (.ok (r, votes'), t)) :
    snapshotsOf votes' = snapshotsOf votes ∧
      ∀ snapshot, voteRecords t snapshot ≤ voteRecords s snapshot + 1 ∧
        (¬ Unpublished votes snapshot → voteRecords t snapshot = voteRecords s snapshot) := by
  induction votes generalizing s r votes' with
  | nil =>
    simp only [finalizeVotes, Program.run_pure, Prod.mk.injEq, Except.ok.injEq] at h
    obtain ⟨⟨rfl, rfl⟩, rfl⟩ := h
    exact ⟨rfl, fun snapshot => ⟨Nat.le_succ _, fun _ => rfl⟩⟩
  | cons p rest ih =>
    obtain ⟨n, v⟩ := p
    simp only [Apart, snapshotsOf, List.map_cons, List.mem_cons, not_or, List.nodup_cons] at hapart
    obtain ⟨⟨hfrozen, hfrozenRest⟩, hfirst, hdistinct⟩ := hapart
    have hrestApart : Apart rest := ⟨hfrozenRest, hdistinct⟩
    have hrestOnly {snapshot : VoteSnapshotV1} (hnot : ¬ Unpublished ((n, v) :: rest) snapshot) :
        ¬ Unpublished rest snapshot := by
      rintro ⟨q, hq, hnone, hsnapshot⟩
      exact hnot ⟨q, List.mem_cons_of_mem _ hq, hnone, hsnapshot⟩
    by_cases hdone : v.finalized.isSome = true
    · simp only [finalizeVotes, if_pos hdone, Program.run_bind_ok, Program.run_pure, Prod.mk.injEq,
        Except.ok.injEq] at h
      obtain ⟨⟨r', rest'⟩, _, hrest, ⟨rfl, rfl⟩, rfl⟩ := h
      obtain ⟨hsame, hrecords⟩ := ih hs hrestApart hrest
      refine ⟨congrArg (v.snapshot :: ·) hsame, fun snapshot => ?_⟩
      exact ⟨(hrecords snapshot).1, fun hnot => (hrecords snapshot).2 (hrestOnly hnot)⟩
    · rcases hrun : (v.finalize key time).run s with ⟨a, u⟩
      rcases finalize_cases hs hrun with ⟨e, rfl, hchain⟩ |
        ⟨done, finalized, rerun, rfl, -, hpublished⟩
      · simp only [finalizeVotes, if_neg hdone, Program.run_bind, Program.run_attempt, hrun,
          Program.run_pure, Prod.mk.injEq, Except.ok.injEq] at h
        obtain ⟨⟨rfl, rfl⟩, rfl⟩ := h
        refine ⟨rfl, fun snapshot => ?_⟩
        rw [voteRecords_of_sameChain hchain]
        exact ⟨Nat.le_succ _, fun _ => rfl⟩
      · have hrecorded := hpublished.recorded
        simp only [finalizeVotes, if_neg hdone, Program.run_bind_ok, Program.run_attempt, hrun,
          Prod.mk.injEq, Except.ok.injEq] at h
        obtain ⟨_, _, ⟨rfl, rfl⟩, h⟩ := h
        simp only [Program.run_bind_ok, Program.run_pure, Prod.mk.injEq, Except.ok.injEq] at h
        obtain ⟨⟨r', rest'⟩, _, hrest, ⟨rfl, rfl⟩, rfl⟩ := h
        obtain ⟨hsame, hrecords⟩ := ih hrecorded.wellFormed_after hrestApart hrest
        obtain ⟨own, hown⟩ := Option.ne_none_iff_exists'.mp (Ne.symm hfrozen)
        refine ⟨?_, fun snapshot => ?_⟩
        · rw [hpublished.after]
          exact congrArg (v.snapshot :: ·) hsame
        obtain ⟨hle, heq⟩ := hrecords snapshot
        have hadded := voteRecords_of_published hpublished hown snapshot
        by_cases hmine : own = snapshot
        · -- the rest of the votes froze other snapshots
          have hnone : ¬ Unpublished rest snapshot := by
            rintro ⟨q, hq, -, hsnapshot⟩
            exact hfirst (List.mem_map.mpr ⟨q, hq, by rw [hown, hsnapshot, hmine]⟩)
          rw [if_pos hmine] at hadded
          refine ⟨by rw [heq hnone, hadded], fun hnot => absurd ?_ hnot⟩
          exact ⟨(n, v), List.mem_cons_self, Option.not_isSome_iff_eq_none.mp hdone, hmine ▸ hown⟩
        · rw [if_neg hmine, Nat.add_zero] at hadded
          exact ⟨hle.trans (by rw [hadded]), fun hnot => (heq (hrestOnly hnot)).trans hadded⟩

/-- A meeting as its state file has it, and the chain. -/
structure Kept where
  meeting : MeetingV1
  chain : LocalChainStore

/-- Loads the meeting, finalises it, and saves it if that succeeded. -/
def Kept.attempt (k : Kept) (key : SigningKey) (n : NotarisationV1) (time : ℕ) : Kept :=
  match (k.meeting.finalize key n time).run k.chain with
  | (.ok (.ok _, meeting), chain) => { meeting, chain }
  | (.ok (.error _, _), chain) => { k with chain }

/-- One attempt leaves at most one more record of each vote that the file has as unpublished, and no
record of another. -/
theorem voteRecords_attempt {k : Kept} (hk : k.chain.WellFormed) (hapart : Apart k.meeting.votes)
    (key : SigningKey) (n : NotarisationV1) (time : ℕ) :
    (k.attempt key n time).chain.WellFormed ∧ Apart (k.attempt key n time).meeting.votes ∧
      ∀ snapshot, voteRecords (k.attempt key n time).chain snapshot ≤
          voteRecords k.chain snapshot + 1 ∧
        (¬ Unpublished k.meeting.votes snapshot →
          voteRecords (k.attempt key n time).chain snapshot = voteRecords k.chain snapshot) := by
  rcases hrun : (k.meeting.finalize key n time).run k.chain with ⟨e | ⟨r, m⟩, t⟩
  · cases e
  rcases meetingFinalize_cases hk hrun with ⟨e, rfl, rfl, rfl⟩ | ⟨-, rv, votes, u, hvotes, hcases⟩
  · have hattempt : k.attempt key n time = k := by simp only [Kept.attempt, hrun]
    rw [hattempt]
    exact ⟨hk, hapart, fun snapshot => ⟨Nat.le_succ _, fun _ => rfl⟩⟩
  have hu := (leaves_of_finalizeVotes hvotes).grows.wellFormed hk
  obtain ⟨hsame, hrecords⟩ := voteRecords_finalizeVotes hk hapart hvotes
  rcases hcases with ⟨e, rfl, rfl, hchain⟩ | ⟨-, finalized, company, payload, rfl, rfl, hclosed⟩
  · have hattempt : k.attempt key n time = { k with chain := t } := by
      simp only [Kept.attempt, hrun]
    rw [hattempt]
    refine ⟨hu.of_sameChain hchain, hapart, fun snapshot => ?_⟩
    rw [voteRecords_of_sameChain hchain]
    exact hrecords snapshot
  · have hattempt : k.attempt key n time = ⟨{ k.meeting with
        votes
        status := .finalized
        finalized := some (finalized.txId, finalized.height) }, t⟩ := by
      simp only [Kept.attempt, hrun]
    rw [hattempt]
    refine ⟨hclosed.recorded.wellFormed_after, ?_, fun snapshot => ?_⟩
    · unfold Apart
      dsimp only
      rw [hsame]
      exact hapart
    · rw [voteRecords_of_recorded hclosed.recorded]
      exact hrecords snapshot

/-- What attempts can lead to, each of them made on files and chains of one kind. -/
inductive Attempts (allowed : Kept → Prop) (k : Kept) : Kept → Prop
  | refl : Attempts allowed k k
  | attempt {q : Kept} (h : Attempts allowed k q) (hq : allowed q) (key : SigningKey)
      (n : NotarisationV1) (time : ℕ) : Attempts allowed k (q.attempt key n time)

/-- No earlier attempt has published a vote that the file has as unpublished. -/
def Unrecorded (k q : Kept) : Prop :=
  ∀ snapshot, Unpublished q.meeting.votes snapshot →
    voteRecords q.chain snapshot = voteRecords k.chain snapshot

theorem Attempts.records {k q : Kept} (h : Attempts (Unrecorded k) k q) (hk : k.chain.WellFormed)
    (hapart : Apart k.meeting.votes) : q.chain.WellFormed ∧ Apart q.meeting.votes ∧
      ∀ snapshot, voteRecords q.chain snapshot ≤ voteRecords k.chain snapshot + 1 := by
  induction h with
  | refl => exact ⟨hk, hapart, fun snapshot => Nat.le_succ _⟩
  | @attempt q _ hq key n time ih =>
    obtain ⟨hwf, hqapart, hle⟩ := ih
    obtain ⟨hwf', hapart', hrecords⟩ := voteRecords_attempt hwf hqapart key n time
    refine ⟨hwf', hapart', fun snapshot => ?_⟩
    obtain ⟨hmore, hnone⟩ := hrecords snapshot
    by_cases hunpublished : Unpublished q.meeting.votes snapshot
    · rw [← hq snapshot hunpublished]
      exact hmore
    · rw [hnone hunpublished]
      exact hle snapshot

/-- The votes of an open meeting froze snapshots that differ, since their items do. -/
theorem AreItems.apart {s : LocalChainStore} {o : Opening} {items : List AgendaItemV1}
    {agenda : AgendaV1} (hagenda : agenda.items = items) {votes : List (ℕ × VoteV1)}
    (h : AreItems s o items votes) : Apart votes := by
  have hfrozen : ∀ p ∈ votes, ∃ item ∈ items, p.1 = item.number ∧
      ∃ snapshot, p.2.snapshot = some snapshot ∧ snapshot.subject = subjectOf item := by
    intro p hp
    obtain ⟨item, hitem, hnumber, digest, snapshot, -, hvote⟩ := h.exists_item hp
    exact ⟨item, hitem, hnumber, snapshot, hvote.holds.frozen, hvote.subject⟩
  refine ⟨fun hmem => ?_, ?_⟩
  · obtain ⟨p, hp, hnone⟩ := List.mem_map.mp hmem
    obtain ⟨item, -, -, snapshot, hsome, -⟩ := hfrozen p hp
    rw [hnone] at hsome
    cases hsome
  · have hnumbers : (votes.map Prod.fst).Nodup := h.nodup_numbers hagenda
    refine (List.nodup_map_iff_inj_on hnumbers.of_map).mpr fun p hp q hq hsame => ?_
    obtain ⟨item, -, hnumber, snapshot, hsome, hsubject⟩ := hfrozen p hp
    obtain ⟨item', -, hnumber', snapshot', hsome', hsubject'⟩ := hfrozen q hq
    obtain rfl := Option.some.inj (hsome.symm.trans (hsame.trans hsome'))
    refine h.eq_of_number hagenda hp hq ?_
    rw [hnumber, hnumber', (subjectOf_inj (hsubject.symm.trans hsubject')).1]

/-- A closed meeting is finalised with one record of each vote, whatever appends fail, while no
attempt starts from a file that lacks a vote an earlier one published. -/
theorem records_of_unrecorded {metadata : MeetingMetadataV1} {s : LocalChainStore} {p : Proceedings}
    {q : Kept} (hs : s.WellFormed) (hrun : Reaches Leaves ⟨MeetingV1.draft metadata, s, []⟩ p)
    (hclosed : p.meeting.status = .closed)
    (h : Attempts (Unrecorded ⟨p.meeting, p.chain⟩) ⟨p.meeting, p.chain⟩ q) :
    ∀ snapshot, voteRecords q.chain snapshot ≤ voteRecords p.chain snapshot + 1 := by
  have hinvariant := hrun.invariant ⟨hs, rfl⟩
  obtain ⟨convening, company, agenda, channel, at_, hunderway⟩ :=
    hinvariant.underway (hclosed ▸ nofun) (hclosed ▸ nofun)
  exact (h.records hinvariant.wellFormed (hunderway.votes.apart hunderway.convened.items)).2.2

/-- An attempt that publishes its votes leaves the records of them, and where the record of the
meeting is refused it leaves the file. -/
theorem attempt_of_votes {k : Kept} {key : SigningKey} {n : NotarisationV1} {time : ℕ}
    {votes : List (ℕ × VoteV1)} {u : LocalChainStore} {state : CompanyStateV1} {person : PersonV1}
    (hk : k.chain.WellFormed) (hclosed : k.meeting.status = .closed)
    (hnow : companyNow k.chain = .ok state)
    (hperson : authorisedSigner state .governance (Platform.publicKey key) = .ok person)
    (hvotes : (finalizeVotes key time k.meeting.votes).run k.chain = (.ok (.ok (), votes), u)) :
    (∀ snapshot, voteRecords (k.attempt key n time).chain snapshot = voteRecords u snapshot) ∧
      ∀ e t, (({ k.meeting with votes } : MeetingV1).publishFinal key n time).run u = (.error e, t) →
        k.attempt key n time = { k with chain := t } := by
  have hleaves := leaves_of_finalizeVotes hvotes
  have hu := hleaves.grows.wellFormed hk
  obtain ⟨now, person', hnow', hperson'⟩ := hleaves.governs ⟨state, person, hnow, hperson⟩
  have hrefused (e : MeetingError) (t : LocalChainStore)
      (hpublish : (({ k.meeting with votes } : MeetingV1).publishFinal key n time).run u =
        (.error e, t)) : k.attempt key n time = { k with chain := t } := by
    have hfinal := (finalize_of_closed hclosed hnow hperson hvotes).2 e hpublish
    simp only [Kept.attempt, hfinal]
  refine ⟨?_, hrefused⟩
  rcases hpublish : (({ k.meeting with votes } : MeetingV1).publishFinal key n time).run u with ⟨a, t⟩
  rcases publishFinal_cases hu hnow' hperson' hpublish with ⟨e, rfl, hchain⟩ |
    ⟨finalized, m', company, payload, rfl, -, hrecord⟩
  · rw [hrefused e t hpublish]
    exact voteRecords_of_sameChain hchain
  · have hfinal := (finalize_of_closed hclosed hnow hperson hvotes).1 finalized m' hpublish
    have hattempt : k.attempt key n time = ⟨m', t⟩ := by simp only [Kept.attempt, hfinal]
    rw [hattempt]
    exact voteRecords_of_recorded hrecord.recorded

end Rules

section Samples

open Irena.Sample

attribute [local instance] platform signaturesVerify

/-- The shareholder's vote is published, and its record added, on every such chain that takes it. -/
theorem finalizeVotes_itemCounted {s : LocalChainStore} {n : ℕ} (hs : s.WellFormed)
    (hext : (held 1).Extends s) (hnow : companyNow s = .ok { acme with at_ := n })
    (hchild : ChildOf s.networkId s.headBlock.header s.containsTransaction
      (nextBlock s (voteAfter s) 0)) (hcommits : s.Commits) :
    (finalizeVotes ann 0 [(1, itemCounted)]).run s =
        (.ok (.ok (), [(1, { itemCounted with
          status := .finalized
          finalized := some ((voteAfter s).id, s.head.height + 1) })]),
        { s.push (nextBlock s (voteAfter s) 0) with faults := s.faults.tail }) ∧
      voteRecords { s.push (nextBlock s (voteAfter s) 0) with faults := s.faults.tail } itemSnapshot =
        voteRecords s itemSnapshot + 1 := by
  have hfinal := finalize_itemCounted hs hext hnow hchild hcommits
  refine ⟨finalizeVotes_one Bool.false_ne_true hfinal, ?_⟩
  rcases finalize_cases hs hfinal with ⟨e, he, -⟩ | ⟨done, finalized, rerun, -, -, hpublished⟩
  · cases he
  · have hadded := voteRecords_of_published hpublished (rfl : _ = some itemSnapshot) itemSnapshot
    rw [if_pos rfl] at hadded
    exact hadded

/-- The chain the meeting in spring was closed on, with a database that takes one commit more. -/
def failing : LocalChainStore := { held 1 with faults := [none, some (lit "disk full")] }

theorem fresh_again : (voteAfter (held 2)).id ∉ (held 2).transactions.map Transaction.id := by
  decide +kernel

/-- The first attempt leaves the record of the vote on the chain, and the file as it was. -/
theorem attempt_failing : ∃ t, (Kept.mk springClosed failing).attempt ann notarisation 0 =
      ⟨springClosed, t⟩ ∧ SameChain (held 2) t ∧ t.faults = [] ∧
      voteRecords t itemSnapshot = voteRecords failing itemSnapshot + 1 := by
  have hsame : SameChain (held 1) failing := sameChain_withFaults _ _
  have hwf := (held_wellFormed 1).of_sameChain hsame
  have hnow : companyNow failing = .ok { acme with at_ := 1 } :=
    (companyNow_of_sameChain hsame).trans (companyNow_held (by decide))
  have hvote : voteAfter failing = heldVote :=
    (nextTransaction_of_sameChain hsame ..).trans voteAfter_held
  have hhead : failing.head.height = 1 := head_held (by decide)
  have hcommits : failing.Commits := fun _ h => by cases h
  obtain ⟨hchild, hnext⟩ := @held_next 1 heldVote rfl
  obtain ⟨hvotes, hadded⟩ := finalizeVotes_itemCounted hwf (extends_of_sameChain hsame) hnow
    (by rw [hvote]; exact childOf_of_sameChain hsame hchild) hcommits
  rw [hvote, hhead] at hvotes
  rw [hvote] at hadded
  let u : LocalChainStore :=
    { failing.push (nextBlock failing heldVote 0) with faults := failing.faults.tail }
  have hpush : SameChain (held 2) u := by
    rw [← hnext]
    exact push_of_sameChain hsame heldVote 0
  have hu : u.WellFormed := (held_wellFormed 2).of_sameChain hpush
  have hname : Namespace.new meetingNamespace = .ok ⟨meetingNamespace⟩ := by decide +kernel
  obtain ⟨hchild', -⟩ := @held_next 2 heldFinal rfl
  have hfinal : nextTransaction u ann meetingNamespace (utf8 heldXml) = heldFinal := by
    rw [nextTransaction_of_sameChain hpush, nextTransaction, head_held (by decide)]
    rfl
  have happend := @appendTransaction_of_refused _ u (lit "disk full") [] _ meetingFaults ann
    meetingNamespace (utf8 heldXml) 0 hu hname
    (by rw [hfinal]; exact childOf_of_sameChain hpush hchild') rfl
  have hcompany : CompanyIdV1.new springClosed.company = .ok Sample.company :=
    CompanyIdV1.new_eq_ok.mpr rfl
  have hpublish := publishFinal_of_refused finalRecord_spring hcompany held_reads.2.2 happend
  obtain ⟨hrecords, hkept⟩ := attempt_of_votes (k := ⟨springClosed, failing⟩) (n := notarisation) hwf
    rfl hnow (authorisedSigner_acme 1) hvotes
  have hattempt := hkept _ _ hpublish
  refine ⟨_, hattempt, hpush, rfl, ?_⟩
  rw [← hadded, ← hrecords, hattempt]

/-- An attempt with a key that does not govern changes nothing. -/
theorem attempt_stranger :
    (Kept.mk springClosed (held 1)).attempt eve notarisation 0 = ⟨springClosed, held 1⟩ := by
  have hnow : companyNow (held 1) = .ok { acme with at_ := 1 } := companyNow_held (by decide)
  have hrefused : (authorisedSigner { acme with at_ := 1 } .governance (publicKeyOf eve)).toOption =
      none := by
    change (authorisedSigner acme .governance (publicKeyOf eve)).toOption = none
    decide +kernel
  rcases hrun : (springClosed.finalize eve notarisation 0).run (held 1) with ⟨e | ⟨r, m⟩, t⟩
  · cases e
  rcases hmay : (springClosed.mayFinalize eve).run (held 1) with ⟨a, s⟩
  obtain ⟨rfl, hok⟩ := run_mayFinalize hmay
  cases a with
  | ok =>
    obtain ⟨-, now, person, hnow', hperson⟩ := hok rfl
    obtain rfl := Except.ok.inj (hnow.symm.trans hnow')
    change authorisedSigner _ _ (publicKeyOf eve) = _ at hperson
    rw [hperson] at hrefused
    cases hrefused
  | error e =>
    simp only [MeetingV1.finalize, Program.run_bind, Program.run_attempt, hmay, Program.run_pure,
      Prod.mk.injEq, Except.ok.injEq] at hrun
    obtain ⟨⟨rfl, rfl⟩, rfl⟩ := hrun
    simp only [Kept.attempt, MeetingV1.finalize, Program.run_bind, Program.run_attempt, hmay,
      Program.run_pure]

/-- The meeting in spring finalised after an attempt that is refused, from the file it was closed
in. -/
theorem records_of_unrecorded_held : springClosed.status = .closed ∧
    voteRecords (((Kept.mk springClosed (held 1)).attempt eve notarisation 0).attempt ann notarisation
      0).chain itemSnapshot ≤ voteRecords (held 1) itemSnapshot + 1 := by
  have hrefused : Attempts (Unrecorded ⟨springClosed, held 1⟩) ⟨springClosed, held 1⟩
      ((Kept.mk springClosed (held 1)).attempt eve notarisation 0) :=
    .attempt .refl (fun _ _ => rfl) eve notarisation 0
  refine ⟨rfl, records_of_unrecorded founded_wellFormed (reaches_springClosed Leaves.refl) rfl
    (.attempt hrefused (fun snapshot _ => ?_) ann notarisation 0) itemSnapshot⟩
  rw [attempt_stranger]

/-- An attempt whose last commit fails and one more write the record of the vote twice. -/
theorem records_repeated : ∃ p q, ∃ v snapshot,
    Reaches (fun _ => Eq) ⟨MeetingV1.draft (metadata spring), founded, []⟩ p ∧ p.meeting.status = .closed ∧
      Attempts (fun _ => True) ⟨p.meeting, p.chain⟩ q ∧ (1, v) ∈ p.meeting.votes ∧
      v.snapshot = some snapshot ∧ voteRecords p.chain snapshot = 0 ∧
      voteRecords q.chain snapshot = 2 := by
  obtain ⟨t, hattempt, hsame, hfaults, hfirst⟩ := attempt_failing
  have ht : t.WellFormed := (held_wellFormed 2).of_sameChain hsame
  have hnow : companyNow t = .ok { acme with at_ := 2 } :=
    (companyNow_of_sameChain hsame).trans (companyNow_held (by decide))
  have hext : (held 1).Extends t := by
    obtain ⟨-, hnext⟩ := @held_next 1 heldVote rfl
    rw [← hnext] at hsame
    exact (extends_push _ _).trans (extends_of_sameChain hsame)
  have hvote : voteAfter t = voteAfter (held 2) := nextTransaction_of_sameChain hsame ..
  have hchild := (@childOf_nextBlock _ _ (held_wellFormed 2) (voteAfter (held 2)) 0).mpr
    ⟨by rw [head_held (by decide)]; decide, ((kept_grown founded _).2.2 rfl).le, sound_signTransaction ann _,
      containsTransaction_eq_false.mpr fresh_again⟩
  have hcommits : t.Commits := by
    rw [Commits, hfaults]
    exact fun _ h => by cases h
  obtain ⟨hvotes, hadded⟩ := finalizeVotes_itemCounted ht hext hnow
    (by rw [hvote]; exact childOf_of_sameChain hsame hchild) hcommits
  have hrecords := (attempt_of_votes (k := ⟨springClosed, t⟩) (n := notarisation) ht rfl hnow
    (authorisedSigner_acme 2) hvotes).1 itemSnapshot
  have hfailing : SameChain (held 1) failing := sameChain_withFaults _ _
  have hnone : voteRecords failing itemSnapshot = 0 := by decide +kernel
  refine ⟨⟨springClosed, failing, [(1, yes itemSnapshot)]⟩, _, itemCounted, itemSnapshot,
    (reaches_springClosed fun _ => rfl).others (extends_of_sameChain hfailing)
      ((held_wellFormed 1).of_sameChain hfailing), rfl,
    .attempt (.attempt .refl trivial ann notarisation 0) trivial ann notarisation 0,
    List.mem_cons_self, rfl, hnone, ?_⟩
  rw [hattempt, hrecords, hadded, hfirst, hnone]

end Samples

end Irena.Meeting
