import Mathlib.Data.List.Flatten
import Irena.Meeting.Run
import Irena.Sample.Met

/-! # A meeting to hold

The meeting in spring as it is held: convened, opened for the vote on its one item, and finalised,
each record following the last. -/

namespace Irena.Sample

open Irena.Library Irena.Library.Outcome Irena.Library.Strings Irena.Library.Utf8
open Irena.Core Irena.Bornite Irena.Prunella Irena.Prunella.LocalChainStore Irena.Ledger
open Irena.Decision (ResolvedChannelV1 resolveChannel resolveChannel_at)
open Irena.Vote Irena.Meeting

attribute [local instance] platform signaturesVerify

def heldConvening : Transaction := signed ann meetingNamespace (utf8 (conveningXml spring)) 1

def heldVote : Transaction := signed ann voteNamespace (FinalVoteRecordV1.codec.encode itemVote) 2

def heldRecord : MeetingFinalRecordV1 :=
  ⟨⟨heldConvening.id⟩, metadata spring, 1,
    [⟨budgetItem, some heldVote.id, some (lit "accepted")⟩]⟩

def heldXml : Text := finalText Sample.company notarisation heldRecord

def heldFinal : Transaction := signed ann meetingNamespace (utf8 heldXml) 3

def heldBlocks : List (List Transaction) := [[heldConvening], [heldVote], [heldFinal]]

/-- The chain once so many of the records are on it. -/
def held (n : ℕ) : LocalChainStore := grown founded (heldBlocks.take n)

theorem held_reads : ((founded.transactions ++ heldBlocks.flatten).map Transaction.id).Nodup ∧
    composeConvened Sample.company notarisation (metadata spring) agenda =
      .ok (conveningXml spring) ∧
    composeFinal Sample.company notarisation heldRecord = .ok heldXml := by
  decide +kernel

theorem held_wellFormed (n : ℕ) : (held n).WellFormed := by
  have hall : ∀ transactions ∈ heldBlocks, transactions.length ≤ u32Max ∧
      ∀ t ∈ transactions, t.Sound := by
    simp only [heldBlocks, List.mem_cons, List.not_mem_nil, or_false, forall_eq_or_imp, forall_eq,
      List.length_cons, List.length_nil]
    exact ⟨⟨by decide, sound_signed ..⟩, ⟨by decide, sound_signed ..⟩, by decide, sound_signed ..⟩
  have hroom : founded.head.height + (heldBlocks.take n).length ≤ u64Max := by
    have hlength : (heldBlocks.take n).length ≤ 3 := List.length_take_le' n heldBlocks
    have hthree : founded.head.height + 3 ≤ u64Max := by decide
    omega
  refine wellFormed_grown founded_wellFormed hroom rfl
    (fun transactions h => (hall _ (List.mem_of_mem_take h)).1)
    (fun transactions h => (hall _ (List.mem_of_mem_take h)).2) ?_
  refine held_reads.1.sublist (List.Sublist.map _ (List.Sublist.append_left ?_ _))
  exact (List.take_sublist n heldBlocks).flatten

theorem head_held {n : ℕ} (hn : n ≤ 3) : (held n).head.height = n := by
  have hfounded : founded.head.height = 0 := rfl
  have hlength : heldBlocks.length = 3 := rfl
  rw [held, head_grown, List.length_take, hfounded, hlength]
  omega

/-- Growing keeps what the chain was founded with. -/
theorem kept_grown (s : LocalChainStore) (blocks : List (List Transaction)) :
    (grown s blocks).networkId = s.networkId ∧ (grown s blocks).faults = s.faults ∧
      (s.headBlock.header.timestampMillis = 0 →
        (grown s blocks).headBlock.header.timestampMillis = 0) := by
  induction blocks generalizing s with
  | nil => exact ⟨rfl, rfl, id⟩
  | cons transactions blocks ih =>
    obtain ⟨hnetwork, hfaults, htime⟩ := ih (s.push (blockOf s transactions))
    exact ⟨hnetwork, hfaults, fun _ => htime (by rw [headBlock_push]; rfl)⟩

/-- Each record follows the chain before it. -/
theorem held_next {n : ℕ} {t : Transaction} (ht : heldBlocks[n]? = some [t]) :
    ChildOf (held n).networkId (held n).headBlock.header (held n).containsTransaction
        (nextBlock (held n) t 0) ∧
      { (held n).push (nextBlock (held n) t 0) with faults := (held n).faults.tail } =
        held (n + 1) := by
  obtain ⟨hnetwork, hfaults, htime⟩ := kept_grown founded (heldBlocks.take n)
  have htake : heldBlocks.take (n + 1) = heldBlocks.take n ++ [[t]] := by
    rw [List.take_add_one, ht]
    rfl
  have hlt : n < 3 := (List.getElem?_eq_some_iff.mp ht).1
  have hwf := held_wellFormed n
  have hnew : (held n).networkId = network ∧ (held n).faults = [] := ⟨hnetwork, hfaults⟩
  constructor
  · refine (childOf_nextBlock hwf).mpr ⟨?_, (htime rfl).le, ?_, ?_⟩
    · rw [head_held hlt.le]
      exact hlt.trans (by decide)
    · have hmem := List.mem_of_getElem? ht
      simp only [heldBlocks, List.mem_cons, List.not_mem_nil, or_false, List.cons.injEq,
        and_true] at hmem
      rcases hmem with rfl | rfl | rfl <;> exact sound_signed ..
    · have hnodup := held_reads.1.sublist (List.Sublist.map _
        (List.Sublist.append_left (List.take_sublist (n + 1) heldBlocks).flatten _))
      rw [htake, List.flatten_append, List.flatten_singleton, ← List.append_assoc,
        List.map_append, List.nodup_append] at hnodup
      refine containsTransaction_eq_false.mpr fun hmem => ?_
      rw [held, transactions_grown] at hmem
      exact hnodup.2.2 _ hmem _ (List.mem_singleton_self _) rfl
  · have hblock : nextBlock (held n) t 0 = blockOf (held n) [t] := by
      rw [nextBlock, blockOf, hwf.head_network, ← hwf.head_height]
      rfl
    have hnext : held (n + 1) = (held n).push (blockOf (held n) [t]) := by
      rw [held, htake, grown_append]
      rfl
    have hkept : (held n).faults.tail = ((held n).push (blockOf (held n) [t])).faults := by
      change (held n).faults.tail = (held n).faults
      rw [hnew.2]
      rfl
    rw [hblock, hnext, hkept]

theorem commits_held (n : ℕ) : (held n).Commits := by
  rw [Commits, held, (kept_grown founded (heldBlocks.take n)).2.1]
  exact fun _ h => by cases h

/-- Each record is appended when the one before it is the last. -/
theorem run_append_held {ε : Type} {faults : ChainFaults ε} {namespace_ : Text} {payload : Bytes}
    {n : ℕ} (hname : Namespace.new namespace_ = .ok ⟨namespace_⟩)
    (ht : heldBlocks[n]? = some [signed ann namespace_ payload (n + 1)]) :
    (appendTransaction faults ann namespace_ payload 0).run (held n) =
      (.ok ((signed ann namespace_ payload (n + 1)).id, n + 1), held (n + 1)) := by
  obtain ⟨hchild, hnext⟩ := held_next ht
  have hhead : (held n).head.height = n := head_held (List.getElem?_eq_some_iff.mp ht).1.le
  have hnow : nextTransaction (held n) ann namespace_ payload =
      signed ann namespace_ payload (n + 1) := by
    rw [nextTransaction, hhead]
    rfl
  have happend := @appendTransaction_of_child _ ε faults ann namespace_ payload 0 _
    (held_wellFormed n) hname (hnow ▸ hchild) (commits_held n)
  rw [hnow, hhead, hnext] at happend
  exact happend

theorem companyNow_held {n : ℕ} (hn : n ≤ 3) : companyNow (held n) = .ok { acme with at_ := n } := by
  have hforeign : ∀ transactions ∈ heldBlocks, ∀ t ∈ transactions,
      kindOfNamespace t.namespace_.value = none := by
    simp only [heldBlocks, List.mem_cons, List.not_mem_nil, or_false, forall_eq_or_imp, forall_eq]
    exact ⟨meetingNamespace_foreign, voteNamespace_foreign, meetingNamespace_foreign⟩
  have hlength : founded.head.height + (heldBlocks.take n).length = n := by
    have hfounded : founded.head.height = 0 := rfl
    have hthree : heldBlocks.length = 3 := rfl
    rw [List.length_take, hfounded, hthree]
    omega
  have hnow := companyNow_grown (b := heldBlocks.take n) companyNow_founded
    fun transactions h => hforeign transactions (List.mem_of_mem_take h)
  rw [hlength] at hnow
  exact hnow

def itemOpened : VoteV1 :=
  { VoteV1.draft (subjectOf budgetItem) ⟨7⟩ with
    status := .open_
    company := Sample.company.value
    snapshot := some itemSnapshot }

def itemCast : VoteV1 :=
  { itemOpened with box := itemOpened.box.insert (bobId.value, yes itemSnapshot) }

def itemCounted : VoteV1 :=
  { itemCast with
    status := .evaluated
    evaluation := some (.of inFavour) }

def itemPublished : VoteV1 :=
  { itemCounted with
    status := .finalized
    finalized := some (heldVote.id, 2) }

theorem openItem_held : openItem (held 1) 1 shareholders.id budgetItem ⟨7⟩ = .ok itemOpened := by
  have hnow : reconstruct (held 1) 1 = .ok { acme with at_ := 1 } := companyNow_held (by decide)
  have hrules : ({ shareholdersResolved with height := 1 } : ResolvedChannelV1).rules ≠ none := by
    rw [show ({ shareholdersResolved with height := 1 } : ResolvedChannelV1).rules =
      shareholdersResolved.rules from rfl, rules_shareholdersResolved]
    exact Option.some_ne_none _
  rw [openItem, freeze_eq_ok.mpr ⟨rfl, _, _, hnow, resolveChannel_at resolveChannel_shareholders 1,
    hrules, rfl⟩, ok_bind]
  refine opens_eq_ok.mpr ⟨rfl, ?_⟩
  rw [VoteV1.snapshotOf, electorate_shareholdersResolved]
  rfl

theorem itemCast_held : itemOpened.cast (yes itemSnapshot) = .ok itemCast :=
  cast_eq_ok.mpr ⟨rfl, itemSnapshot, bobId, rfl, check_yes _ _ 1, rfl, rfl⟩

/-- The vote is counted alike on every chain that goes on from the one it was opened on, whatever its
status is by then. -/
theorem evaluateNow_held {s : LocalChainStore} (hext : (held 1).Extends s) {v : VoteV1}
    (hsnapshot : v.snapshot = some itemSnapshot) (hballots : v.box.ballots = [yes itemSnapshot]) :
    v.evaluateNow s = .ok inFavour := by
  have hstate : reconstruct s itemSnapshot.height = .ok { acme with at_ := 1 } :=
    (Ledger.Extends.reconstruct hext le_rfl).trans (companyNow_held (by decide))
  refine evaluateNow_eq_ok.mpr ⟨_, { acme with at_ := 1 }, shareholders.id,
    { shareholdersResolved with height := 1 }, majority, hsnapshot, hstate, rfl,
    rfl, rfl, resolveChannel_at resolveChannel_shareholders 1, rules_shareholdersResolved, ?_⟩
  rw [hballots]
  exact (evaluates_voteSnapshot _ _ 1).1

theorem ballots_itemCast : itemCast.box.ballots = [yes itemSnapshot] := rfl

theorem closeVotes_held :
    closeVotes (held 1) [(1, itemCast)] = (.ok (), [(1, itemCounted)]) :=
  closeVotes_one (close_eq_ok.mpr ⟨rfl, rfl⟩)
    (evaluates_eq_ok.mpr ⟨rfl, evaluateNow_held (.refl _) rfl ballots_itemCast, rfl⟩)

/-- The record of the vote as it would follow a chain. -/
def voteAfter (s : LocalChainStore) : Transaction :=
  nextTransaction s ann voteNamespace (FinalVoteRecordV1.codec.encode itemVote)

/-- The vote is published on every such chain that takes its record. -/
theorem finalize_itemCounted {s : LocalChainStore} {n : ℕ} (hs : s.WellFormed)
    (hext : (held 1).Extends s) (hnow : companyNow s = .ok { acme with at_ := n })
    (hchild : ChildOf s.networkId s.headBlock.header s.containsTransaction
      (nextBlock s (voteAfter s) 0)) (hcommits : s.Commits) :
    (itemCounted.finalize ann 0).run s = (.ok ({ itemCounted with
        status := .finalized
        finalized := some ((voteAfter s).id, s.head.height + 1) },
      ⟨(voteAfter s).id, s.head.height + 1, itemVote⟩),
      { s.push (nextBlock s (voteAfter s) 0) with faults := s.faults.tail }) :=
  finalize_of_evaluated hs rfl (evaluateNow_held hext rfl ballots_itemCast) rfl rfl hnow
    (authorisedSigner_acme n) hchild hcommits

theorem voteAfter_held : voteAfter (held 1) = heldVote := by
  rw [voteAfter, nextTransaction, head_held (by decide)]
  rfl

theorem finalizeVotes_held : (finalizeVotes ann 0 [(1, itemCounted)]).run (held 1) =
    (.ok (.ok (), [(1, itemPublished)]), held 2) := by
  obtain ⟨hchild, hnext⟩ := @held_next 1 heldVote rfl
  have hfinal := finalize_itemCounted (held_wellFormed 1) (.refl _) (companyNow_held (by decide))
    (by rw [voteAfter_held]; exact hchild) (commits_held 1)
  rw [voteAfter_held, hnext, head_held (by decide)] at hfinal
  exact finalizeVotes_one Bool.false_ne_true hfinal

def springDrafted : MeetingV1 := { MeetingV1.draft (metadata spring) with items := [budgetItem] }

def springConvened : MeetingV1 :=
  { springDrafted with
    status := .convened
    company := Sample.company.value
    convened := some (heldConvening.id, 1) }

def springOpened : MeetingV1 :=
  { springConvened with
    status := .open_
    votes := [(1, itemOpened)]
    openedAt := some 1 }

def springVoted : MeetingV1 := { springOpened with votes := [(1, itemCast)] }

def springClosed : MeetingV1 :=
  { springOpened with
    status := .closed
    votes := [(1, itemCounted)] }

theorem addItem_spring : (MeetingV1.draft (metadata spring)).addItem (lit "Budget") (.vote ⟨7⟩) =
    .ok springDrafted := by
  decide +kernel

theorem convene_spring : (springDrafted.convene ann notarisation 0).run founded =
    (.ok (springConvened, ⟨heldConvening.id⟩), held 1) := by
  have hname : Namespace.new meetingNamespace = .ok ⟨meetingNamespace⟩ := by decide +kernel
  have happend := @run_append_held _ meetingFaults meetingNamespace (utf8 (conveningXml spring)) 0
    hname rfl
  exact convene_of_draft rfl (AgendaV1.new_eq_ok.mpr rfl) companyNow_founded (authorisedSigner_acme 0)
    held_reads.2.1 happend

theorem opens_spring : springConvened.opens (held 1) = .ok (springOpened, 1) := by
  have hconvened : springConvened.status = .convened := rfl
  have hchannel : springConvened.metadata.channelId = .ok shareholders.id := by
    rw [MeetingMetadataV1.channelId, mapErr_eq_ok, ChannelIdV1.new_eq_ok]
    rfl
  have hitems : openItems (held 1) 1 shareholders.id springConvened.items =
      .ok [(1, itemOpened)] := by
    change openItems (held 1) 1 shareholders.id [budgetItem] = _
    have hopen := openItem_held
    simp only [openItems, budgetItem] at hopen ⊢
    rw [hopen]
    rfl
  rw [MeetingV1.opens, MeetingV1.expectStatus, ensure_of hconvened, ok_bind, hchannel, ok_bind,
    head_held (by decide), hitems]
  rfl

theorem cast_spring : springOpened.cast 1 (yes itemSnapshot) = .ok springVoted := by
  have hopen : springOpened.status = .open_ := rfl
  have hitem : springOpened.itemOf 1 = .ok budgetItem := rfl
  have hcast : castInto 1 (yes itemSnapshot) springOpened.votes = .ok [(1, itemCast)] := by
    change castInto 1 (yes itemSnapshot) [(1, itemOpened)] = _
    simp only [castInto, if_true, itemCast_held, mapErr_ok, ok_bind, pure_eq_ok]
  rw [MeetingV1.cast, MeetingV1.expectStatus, ensure_of hopen, ok_bind, hitem, ok_bind, hcast]
  rfl

theorem close_spring : springVoted.close (held 1) = (.ok (), springClosed) :=
  close_of_open rfl closeVotes_held

theorem finalRecord_spring :
    ({ springClosed with votes := [(1, itemPublished)] } : MeetingV1).finalRecord =
      .ok heldRecord := by
  decide +kernel

end Irena.Sample
