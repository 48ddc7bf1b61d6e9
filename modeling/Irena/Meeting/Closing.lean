import Irena.Sample.Met
import Irena.Vote.Decided

/-! # Closing a meeting

Closing goes through the votes in place. When one of them cannot be counted the ones before it have
moved on, it is closed itself, and no later attempt gets past it. -/

namespace Irena.Meeting

open Irena.Library Irena.Library.Outcome Irena.Library.Strings
open Irena.Core Irena.Bornite Irena.Prunella Irena.Prunella.LocalChainStore Irena.Ledger Irena.Vote

section Rules

variable [Platform]

/-- A vote can be closed and counted on a chain. -/
def Countable (s : LocalChainStore) (v : VoteV1) : Prop :=
  v.status = .open_ ∧ ∃ evaluation, v.evaluateNow s = .ok evaluation

/-- Closing and counting one vote, and what a failure leaves of it. -/
theorem closing_cases (s : LocalChainStore) (v : VoteV1) :
    (v.status ≠ .open_ ∧ ∃ e, v.close = .error e) ∨
      ∃ closed, v.close = .ok closed ∧ closed.status = .closed ∧ v.status = .open_ ∧
        ((¬ Countable s v ∧ ∃ e, closed.evaluates s = .error e) ∨
          Countable s v ∧ ∃ w evaluation, closed.evaluates s = .ok (w, evaluation) ∧
            w.status = .evaluated) := by
  by_cases hopen : v.status = .open_
  · refine .inr ⟨{ v with status := .closed }, close_eq_ok.mpr ⟨hopen, rfl⟩, rfl, hopen, ?_⟩
    have hcount : ({ v with status := .closed } : VoteV1).evaluateNow s = v.evaluateNow s := rfl
    cases hnow : v.evaluateNow s with
    | error e =>
      refine .inl ⟨fun ⟨_, evaluation, h⟩ => ?_, e, ?_⟩
      · rw [hnow] at h
        cases h
      · simp only [VoteV1.evaluates, VoteV1.expectStatus, ensure_of, hcount, hnow, ok_bind, error_bind]
    | ok evaluation =>
      exact .inr ⟨⟨hopen, evaluation, hnow⟩, _, evaluation,
        evaluates_eq_ok.mpr ⟨rfl, hcount.trans hnow, rfl⟩, rfl⟩
  · refine .inl ⟨hopen, .invalidTransition v.status (lit "close"), ?_⟩
    rw [VoteV1.close, VoteV1.expectStatus, ensure_of_not hopen, error_bind]

omit [Platform] in
/-- Votes of which the first was open and is no longer are others, and the first did not refuse. -/
theorem moved_on {number : ℕ} {v w : VoteV1} {rest rest' : List (ℕ × VoteV1)}
    (hopen : v.status = .open_) (hmoved : w.status ≠ .open_) :
    (number, w) :: rest' = (number, v) :: rest ↔
      ∃ p tail, (number, v) :: rest = p :: tail ∧ p.2.status ≠ .open_ := by
  constructor
  · intro h
    obtain ⟨hfirst, -⟩ := List.cons.inj h
    rw [(Prod.mk.inj hfirst).2] at hmoved
    exact absurd hopen hmoved
  · rintro ⟨p, tail, h, hrefuses⟩
    obtain ⟨rfl, -⟩ := List.cons.inj h
    exact absurd hopen hrefuses

/-- Closing in turn succeeds when every vote can be counted. Otherwise it fails, and leaves all votes
only where the first one refused. -/
theorem closeVotes_cases (s : LocalChainStore) (votes : List (ℕ × VoteV1)) :
    ((∀ p ∈ votes, Countable s p.2) ∧ (closeVotes s votes).1 = .ok ()) ∨
      (¬ (∀ p ∈ votes, Countable s p.2) ∧ (∃ e, (closeVotes s votes).1 = .error e) ∧
        ((closeVotes s votes).2 = votes ↔
          ∃ p tail, votes = p :: tail ∧ p.2.status ≠ .open_)) := by
  induction votes with
  | nil => exact .inl ⟨fun p hp => absurd hp List.not_mem_nil, rfl⟩
  | cons p rest ih =>
    obtain ⟨number, v⟩ := p
    rcases closing_cases s v with ⟨hstatus, e, hclose⟩ |
      ⟨closed, hclose, hclosed, hopen, ⟨hcount, e, hevaluates⟩ | ⟨hcount, w, evaluation, hevaluates,
        hevaluated⟩⟩
    · refine .inr ⟨fun h => hstatus (h _ List.mem_cons_self).1, ?_, ?_⟩
      · exact ⟨.vote number e, by rw [closeVotes, hclose]⟩
      · rw [closeVotes, hclose]
        exact ⟨fun _ => ⟨_, _, rfl, hstatus⟩, fun _ => rfl⟩
    · refine .inr ⟨fun h => hcount (h _ List.mem_cons_self), ?_, ?_⟩
      · exact ⟨.vote number e, by simp only [closeVotes, hclose, hevaluates]⟩
      · simp only [closeVotes, hclose, hevaluates]
        exact moved_on hopen (hclosed ▸ nofun)
    · have hsplit : (∀ q ∈ (number, v) :: rest, Countable s q.2) ↔ ∀ q ∈ rest, Countable s q.2 := by
        rw [List.forall_mem_cons]
        exact and_iff_right hcount
      rw [hsplit]
      rcases ih with ⟨hall, hok⟩ | ⟨hnot, ⟨e, herror⟩, -⟩
      · exact .inl ⟨hall, by simp only [closeVotes, hclose, hevaluates, hok]⟩
      · refine .inr ⟨hnot, ⟨e, by simp only [closeVotes, hclose, hevaluates, herror]⟩, ?_⟩
        simp only [closeVotes, hclose, hevaluates]
        exact moved_on hopen (hevaluated ▸ nofun)

/-- A failed closing leaves an open meeting as it was exactly when all its votes can be counted, so
that it does not fail, or the first of them is not open. -/
theorem close_atomic_iff {m : MeetingV1} {s : LocalChainStore} (hopen : m.status = .open_) :
    (∀ e, (m.close s).1 = .error e → (m.close s).2 = m) ↔
      (∀ p ∈ m.votes, Countable s p.2) ∨ ∃ p tail, m.votes = p :: tail ∧ p.2.status ≠ .open_ := by
  have hcases := closeVotes_cases s m.votes
  rcases hvotes : closeVotes s m.votes with ⟨r, votes⟩
  rw [hvotes] at hcases
  simp only [MeetingV1.close, MeetingV1.expectStatus, ensure_of hopen, hvotes]
  rcases hcases with ⟨hall, hok⟩ | ⟨hnot, ⟨e, herror⟩, hsame⟩
  · obtain rfl : r = .ok () := hok
    exact ⟨fun _ => .inl hall, fun _ e he => by cases he⟩
  · obtain rfl : r = .error e := herror
    have hmeeting : ({ m with votes } : MeetingV1) = m ↔ votes = m.votes := by
      constructor
      · exact fun h => congrArg MeetingV1.votes h
      · rintro rfl
        rfl
    simp only [Except.error.injEq, forall_eq', hmeeting]
    exact hsame.trans ⟨.inr, fun h => h.resolve_left hnot⟩

end Rules

section Samples

open Irena.Sample

attribute [local instance] platform signaturesVerify

/-- The meeting in spring once it is convened. -/
def assembled : MeetingV1 :=
  { MeetingV1.draft (metadata spring) with
    status := .convened
    items := [budgetItem]
    convened := some ((conveningTransaction spring).id, 0) }

/-- Opening it freezes the one vote of its agenda. -/
theorem opens_assembled {s : LocalChainStore} {frozen : VoteV1}
    (hfreeze : (VoteV1.draft (subjectOf budgetItem) ⟨7⟩).freeze s s.head.height shareholders.id =
      .ok frozen) :
    ∃ m vote, assembled.opens s = .ok (m, s.head.height) ∧ m.status = .open_ ∧
      m.votes = [(1, vote)] ∧ vote.status = .open_ ∧
      ((∃ evaluation, vote.evaluateNow s = .ok evaluation) ↔
        Valid s s.head.height shareholders.id) := by
  obtain ⟨snapshot, state, resolved, rules, hfrozen, hheight, -, -, hsnapshot, hbox, hstatus⟩ :=
    frozenAt_of_freeze hfreeze
  let vote : VoteV1 := { frozen with status := .open_ }
  have hopen : openItem s s.head.height shareholders.id budgetItem ⟨7⟩ = .ok vote := by
    rw [openItem, hfreeze, ok_bind]
    exact opens_eq_ok.mpr ⟨hstatus, rfl⟩
  have hchannel : assembled.metadata.channelId = .ok shareholders.id := by
    rw [MeetingMetadataV1.channelId, mapErr_eq_ok, ChannelIdV1.new_eq_ok]
    rfl
  have hitems : openItems s s.head.height shareholders.id assembled.items = .ok [(1, vote)] := by
    change openItems s s.head.height shareholders.id [budgetItem] = _
    simp only [openItems, budgetItem] at hopen ⊢
    rw [hopen]
    rfl
  have hholds : vote.Holds snapshot := by
    refine ⟨hsnapshot, fun p hp => ?_⟩
    change p ∈ frozen.box.entries at hp
    rw [hbox] at hp
    cases hp
  refine ⟨{ assembled with
    status := .open_
    votes := [(1, vote)]
    openedAt := some s.head.height }, vote, ?_, rfl, rfl, rfl, ?_⟩
  · have hstatus : assembled.status = .convened := rfl
    rw [MeetingV1.opens, MeetingV1.expectStatus, ensure_of hstatus, ok_bind, hchannel, ok_bind, hitems]
    rfl
  · rw [hfrozen.evaluateNow_isOk_iff hholds, ← hfrozen.valid_iff, hheight]

/-- On the chain that founds the company the meeting closes. -/
theorem close_founded : ∃ m, assembled.opens founded = .ok (m, 0) ∧
    ∀ e, (m.close founded).1 = .error e → (m.close founded).2 = m := by
  obtain ⟨frozen, hfreeze, -⟩ := freeze_founded (subjectOf budgetItem) ⟨7⟩ 0
  obtain ⟨m, vote, hopens, hstatus, hvotes, hopen, hcount⟩ := opens_assembled hfreeze
  refine ⟨m, hopens, (close_atomic_iff hstatus).mpr (.inl fun p hp => ?_)⟩
  rw [hvotes, List.mem_singleton] at hp
  rw [hp]
  exact ⟨hopen, hcount.mpr valid_founded⟩

/-- A vote that cannot be counted is left closed, and the meeting can be closed on no chain. -/
theorem close_doubling : ∃ m m' e, assembled.opens doubling = .ok (m, 1) ∧
    m.close doubling = (.error e, m') ∧ m' ≠ m ∧ ∀ t, ∃ e, (m'.close t).1 = .error e := by
  obtain ⟨frozen, hfreeze⟩ := freeze_doubling (subjectOf budgetItem) ⟨7⟩
  rw [← head_doubling] at hfreeze
  obtain ⟨m, vote, hopens, hstatus, hvotes, hopen, hcount⟩ := opens_assembled hfreeze
  rw [head_doubling] at hopens hcount
  rcases closing_cases doubling vote with ⟨hrefuses, -⟩ |
    ⟨closed, hclose, hclosed, -, ⟨-, e, hevaluates⟩ | ⟨⟨-, hcounted⟩, -⟩⟩
  · exact absurd hopen hrefuses
  · refine ⟨m, { m with votes := [(1, closed)] }, .vote 1 e, hopens, ?_, fun heq => ?_, fun t => ?_⟩
    · simp only [MeetingV1.close, MeetingV1.expectStatus, ensure_of hstatus, hvotes, closeVotes,
        hclose, hevaluates]
    · have hsame : [(1, closed)] = m.votes := congrArg MeetingV1.votes heq
      rw [hvotes, List.cons.injEq, Prod.mk.injEq] at hsame
      rw [hsame.1.2, hopen] at hclosed
      cases hclosed
    · rcases closing_cases t closed with ⟨-, e', hagain⟩ | ⟨_, -, -, hreopened, -⟩
      · refine ⟨.vote 1 e', ?_⟩
        simp only [MeetingV1.close, MeetingV1.expectStatus, ensure_of hstatus, closeVotes, hagain]
      · rw [hclosed] at hreopened
        cases hreopened
  · exact absurd (hcount.mp hcounted) not_valid_doubling

end Samples

end Irena.Meeting
