import Irena.Meeting.Advance
import Irena.Meeting.Soundness

/-! # Runs of a meeting

A meeting is drafted, given its items, convened, opened, voted in, closed and finalised by calls that
may be refused, while others append to the chain. At every point of a run the meeting is still a
draft, or was convened by the record it names, with the votes of its items as it opened them. -/

namespace Irena.Meeting

open Irena.Library Irena.Library.Outcome Irena.Library.Strings Irena.Library.Utf8
open Irena.Core Irena.Bornite Irena.Prunella Irena.Prunella.LocalChainStore Irena.Ledger Irena.Vote
open Irena.Decision (Recorded Governs Leaves recorded_among signerAuthorisedAt
  Extends.signerAuthorisedAt)

theorem meetingNamespace_foreign : kindOfNamespace meetingNamespace = none := by
  decide +kernel

variable [Platform]

/-- A meeting, the chain it is held on, and the ballots it has accepted for its items. -/
structure Proceedings where
  meeting : MeetingV1
  chain : LocalChainStore
  accepted : List (ℕ × SignedBallotV1)

/-- The calls that append nothing. Opening and closing read the chain only up to a height that it has
reached, where no append changes it. -/
inductive Call where
  | addItem (title : Text) (body : AgendaBodyV1)
  | opens
  | cast (number : ℕ) (ballot : SignedBallotV1)
  | close

/-- What a call makes of the proceedings, refused or not. -/
def Proceedings.perform (p : Proceedings) : Call → Proceedings
  | .addItem title body =>
    match p.meeting.addItem title body with
    | .ok meeting => { p with meeting }
    | .error _ => p
  | .opens =>
    match p.meeting.opens p.chain with
    | .ok (meeting, _) => { p with meeting }
    | .error _ => p
  | .cast number ballot =>
    match p.meeting.cast number ballot with
    | .ok meeting => { p with meeting, accepted := (number, ballot) :: p.accepted }
    | .error _ => p
  | .close => { p with meeting := (p.meeting.close p.chain).2 }

/-- The proceedings that calls can lead to, while others append between them whatever the chain takes
and, within convening and finalising, what is left to them there. -/
inductive Reaches (others : SigningKey → LocalChainStore → LocalChainStore → Prop)
    (p : Proceedings) : Proceedings → Prop
  | refl : Reaches others p p
  | call {q : Proceedings} (h : Reaches others p q) (c : Call) : Reaches others p (q.perform c)
  | convened {q : Proceedings} {key : SigningKey} {n : NotarisationV1} {time : ℕ} {m : MeetingV1}
      {id : MeetingIdV1} {t : LocalChainStore} (h : Reaches others p q)
      (hrun : Program.RunsAmong (others key) (q.meeting.convene key n time) q.chain (.ok (m, id)) t) :
      Reaches others p { q with meeting := m, chain := t }
  | refused {q : Proceedings} {key : SigningKey} {n : NotarisationV1} {time : ℕ} {e : MeetingError}
      {t : LocalChainStore} (h : Reaches others p q)
      (hrun : Program.RunsAmong (others key) (q.meeting.convene key n time) q.chain (.error e) t) :
      Reaches others p { q with chain := t }
  | finalized {q : Proceedings} {key : SigningKey} {n : NotarisationV1} {time : ℕ}
      {r : Except MeetingError MeetingFinalizedV1} {m : MeetingV1} {t : LocalChainStore}
      (h : Reaches others p q)
      (hrun : Program.RunsAmong (others key) (q.meeting.finalize key n time) q.chain (.ok (r, m)) t) :
      Reaches others p { q with meeting := m, chain := t }
  | others {q : Proceedings} {t : LocalChainStore} (h : Reaches others p q)
      (hext : q.chain.Extends t) (ht : t.WellFormed) : Reaches others p { q with chain := t }

section Continued

variable {s t : LocalChainStore} {at_ : ℕ}

theorem openItem_extends (hext : s.Extends t) (hat : at_ ≤ s.head.height) (channel : ChannelIdV1)
    (item : AgendaItemV1) (proposalDigest : Hash) :
    openItem t at_ channel item proposalDigest = openItem s at_ channel item proposalDigest := by
  simp only [openItem, VoteV1.freeze, Ledger.Extends.reconstruct hext hat]

/-- Freezing the votes of the items at a height that the chain has reached answers the same however
the chain is continued. -/
theorem openItems_extends (hext : s.Extends t) (hat : at_ ≤ s.head.height) (channel : ChannelIdV1)
    (items : List AgendaItemV1) : openItems t at_ channel items = openItems s at_ channel items := by
  induction items with
  | nil => rfl
  | cons item rest ih => simp only [openItems, openItem_extends hext hat, ih]

theorem evaluates_extends (hext : s.Extends t) {v : VoteV1} {snapshot : VoteSnapshotV1}
    (hsnapshot : v.snapshot = some snapshot) (hat : snapshot.height ≤ s.head.height) :
    v.evaluates t = v.evaluates s := by
  simp only [VoteV1.evaluates, VoteV1.evaluateNow, hsnapshot, orError_some, ok_bind,
    Ledger.Extends.reconstruct hext hat]

/-- So does counting votes that were frozen at such heights. -/
theorem closeVotes_extends (hext : s.Extends t) {votes : List (ℕ × VoteV1)}
    (hfrozen : ∀ p ∈ votes, ∃ snapshot, p.2.snapshot = some snapshot ∧
      snapshot.height ≤ s.head.height) : closeVotes t votes = closeVotes s votes := by
  induction votes with
  | nil => rfl
  | cons p rest ih =>
    have hrest := ih fun q hq => hfrozen q (List.mem_cons_of_mem _ hq)
    obtain ⟨snapshot, hsnapshot, hat⟩ := hfrozen p List.mem_cons_self
    cases hclose : p.2.close with
    | error e => simp only [closeVotes, hclose]
    | ok closed =>
      have hclosed : closed.snapshot = some snapshot := by
        rw [(close_eq_ok.mp hclose).2, hsnapshot]
      simp only [closeVotes, hclose, evaluates_extends hext hclosed hat, hrest]

end Continued

/-- The record that convened a meeting, as it stands on the chain. -/
structure ConvenedAs (s : LocalChainStore) (m : MeetingV1) (convening : LocatedTransaction)
    (company : CompanyIdV1) (agenda : AgendaV1) : Prop where
  id : m.convened = some (convening.transaction.id, convening.height)
  found : s.getTransaction convening.transaction.id = some convening
  reads : conveningOf convening.transaction = some (company, m.metadata, agenda)
  items : agenda.items = m.items
  label : company.value = m.company
  owner : companyIs s convening.height company = true
  convener : signerAuthorisedAt s convening.height convening.transaction.signer = true

namespace ConvenedAs

variable {s t : LocalChainStore} {m m' : MeetingV1} {convening : LocatedTransaction}
  {company : CompanyIdV1} {agenda : AgendaV1}

theorem height_le (h : ConvenedAs s m convening company agenda) :
    convening.height ≤ s.head.height := by
  obtain ⟨-, b, hb, -⟩ := getTransaction_some h.found
  exact height_le_of_getBlock hb

theorem extends_ (h : ConvenedAs s m convening company agenda) (hext : s.Extends t) :
    ConvenedAs t m convening company agenda :=
  { h with
    found := hext.getTransaction h.found
    owner := by
      rw [companyIs, Ledger.Extends.reconstruct hext h.height_le]
      exact h.owner
    convener := by
      rw [Extends.signerAuthorisedAt hext h.height_le]
      exact h.convener }

/-- The meeting keeps what it was convened as while these fields stay. -/
theorem of_eq (h : ConvenedAs s m convening company agenda) (hid : m'.convened = m.convened)
    (hmetadata : m'.metadata = m.metadata) (hitems : m'.items = m.items)
    (hcompany : m'.company = m.company) : ConvenedAs s m' convening company agenda :=
  { h with
    id := hid.trans h.id
    reads := hmetadata ▸ h.reads
    items := hitems ▸ h.items
    label := hcompany ▸ h.label }

end ConvenedAs

theorem readMeetingRecord_of_composeConvened {company : CompanyIdV1} {n : NotarisationV1}
    {metadata : MeetingMetadataV1} {agenda : AgendaV1} {payload : Text}
    (h : composeConvened company n metadata agenda = .ok payload) :
    readMeetingRecord payload = .ok ⟨company, n, .convened metadata agenda⟩ := by
  simp only [composeConvened, bind_eq_ok, mapErr_eq_ok, ensure_eq_ok, pure_eq_ok, Except.ok.injEq]
    at h
  obtain ⟨-, -, -, -, readBack, hread, -, rfl, rfl⟩ := h
  exact hread

theorem leaves_convene (m : MeetingV1) (signing key : SigningKey) (n : NotarisationV1) (time : ℕ) :
    (m.convene signing n time).Moves (Leaves key) := by
  refine .bind (.lift _) fun _ => .bind (.lift _) fun _ => ?_
  refine .bind (.mapError Leaves.readCompanyNow) fun state => ?_
  refine .bind (.lift _) fun person => .bind (.lift _) fun payload => ?_
  exact .bind (Leaves.appendTransaction meetingNamespace_foreign) fun _ => trivial

/-- Convening among others who leave the key its office records the agenda. -/
theorem convene_among {m m' : MeetingV1} {key : SigningKey} {n : NotarisationV1} {time : ℕ}
    {s t : LocalChainStore} {id : MeetingIdV1} (hs : s.WellFormed)
    (h : Program.RunsAmong (Leaves key) (m.convene key n time) s (.ok (m', id)) t) :
    m.status = .draft ∧ m'.status = .convened ∧ t.WellFormed ∧
      ∃ convening company agenda, ConvenedAs t m' convening company agenda := by
  have hgrows : ∀ s t, Leaves key s t → Grows s t := fun _ _ hleaves => hleaves.grows
  obtain ⟨_, _, hstatus, hagreeing⟩ := h.bind_ok
  obtain ⟨hdraft, rfl⟩ := hstatus.lift
  obtain ⟨agenda, _, hitems, hreading⟩ := hagreeing.bind_ok
  obtain ⟨hagenda, rfl⟩ := hitems.lift
  obtain ⟨state, _, hread, hsigning⟩ := hreading.bind_ok
  obtain ⟨d, hsd, hdc, hnow⟩ := readCompanyNow_among hgrows Leaves.trans hread.mapError_ok
  obtain ⟨person, _, hsigner, hcomposing⟩ := hsigning.bind_ok
  obtain ⟨hperson, rfl⟩ := hsigner.lift
  obtain ⟨payload, c, hcompose, hrecording⟩ := hcomposing.bind_ok
  obtain ⟨hpayload, rfl⟩ := hcompose.lift
  obtain ⟨⟨txId, height⟩, _, happend, hlast⟩ := hrecording.bind_ok
  obtain ⟨hresult, rfl⟩ := hlast.pure_ok
  obtain ⟨rfl, rfl⟩ := Prod.mk.inj hresult
  have hgoverns : Governs c key := hdc.governs ⟨state, person, hnow, mapErr_eq_ok.mp hperson.symm⟩
  have hc := hdc.grows.wellFormed (hsd.grows.wellFormed hs)
  obtain ⟨u, w, hcu, hr, hrecorded, hwt, ht⟩ :=
    recorded_among hc meetingNamespace_foreign hgoverns happend
  obtain ⟨rfl, rfl⟩ := Prod.mk.inj hr
  -- the company that was read is the one the record stands under
  have hdu := hdc.grows.extends_.trans hcu
  obtain ⟨later, _, hlater, -⟩ := hrecorded.authorised
  have hthen : reconstruct u d.head.height = .ok state := (Ledger.Extends.reconstruct hdu le_rfl).trans hnow
  have hcompany : later.company = state.company := company_of_reconstruct hdu.height_le hthen hlater
  have hafter := hrecorded.now hlater
  rw [companyNow, hrecorded.height] at hafter
  refine ⟨ensure_eq_ok.mp hdraft.symm, rfl, ht, ⟨u.head.height + 1, 0, nextTransaction u key
    meetingNamespace (utf8 payload)⟩, state.company, agenda, ConvenedAs.extends_ ?_ hwt⟩
  exact {
    id := rfl
    found := hrecorded.found
    reads := conveningOf_eq_some.mpr ⟨n, meetingRecordOf_eq_some.mpr ⟨rfl, payload,
      fromUtf8_utf8 payload, readMeetingRecord_of_composeConvened hpayload.symm⟩⟩
    items := AgendaV1.new_eq_ok.mp hagenda.symm
    label := rfl
    owner := by
      rw [companyIs, hafter]
      exact decide_eq_true hcompany
    convener := hrecorded.signer }

/-- A numbered vote is the one opened for an item. -/
def IsItem (s : LocalChainStore) (o : Opening) (item : AgendaItemV1) (p : ℕ × VoteV1) : Prop :=
  p.1 = item.number ∧ ∃ proposalDigest snapshot, item.body = .vote proposalDigest ∧
    ItemVote s o item proposalDigest p.2 snapshot

/-- The votes are those of the vote items, in agenda order. -/
abbrev AreItems (s : LocalChainStore) (o : Opening) (items : List AgendaItemV1)
    (votes : List (ℕ × VoteV1)) : Prop :=
  List.Forall₂ (IsItem s o) (items.filter fun item => item.body.isVote) votes

theorem AreItems.advance {s t : LocalChainStore} {o : Opening} {items : List AgendaItemV1}
    {votes votes' : List (ℕ × VoteV1)} (h : AreItems s o items votes)
    (k : AllAdvance s t votes votes') : AreItems t o items votes' := by
  unfold AreItems at h ⊢
  generalize items.filter _ = voteItems at h ⊢
  induction h generalizing votes' with
  | nil =>
    cases k
    exact .nil
  | cons hitem _ ih =>
    cases k with
    | cons hpq htail =>
      obtain ⟨hnumber, digest, snapshot, hbody, hvote⟩ := hitem
      exact .cons ⟨hpq.1.trans hnumber, digest, snapshot, hbody, hpq.2.keeps _ _ _ _ hvote⟩
        (ih htail)

theorem openItem_isItem {s : LocalChainStore} {at_ : ℕ} {channel : ChannelIdV1}
    {item : AgendaItemV1} {proposalDigest : Hash} {v : VoteV1} {company : Text}
    (hreached : at_ ≤ s.head.height)
    (hcompany : ∀ state, reconstruct s at_ = .ok state → state.company.value = company)
    (hbody : item.body = .vote proposalDigest)
    (h : openItem s at_ channel item proposalDigest = .ok v) :
    IsItem s ⟨company, channel, at_⟩ item (item.number, v) := by
  simp only [openItem, bind_eq_ok] at h
  obtain ⟨frozen, hfreeze, hopens⟩ := h
  obtain ⟨snapshot, state, resolved, rules, hfrozen, hheight, hsubject, hdigest, hsnapshot, hbox, -⟩ :=
    frozenAt_of_freeze hfreeze
  obtain ⟨-, rfl⟩ := opens_eq_ok.mp hopens
  obtain ⟨-, _, _, -, -, -, hafter⟩ := freeze_eq_ok.mp hfreeze
  refine ⟨rfl, proposalDigest, snapshot, hbody, ?_⟩
  exact {
    frozen := ⟨state, resolved, rules, hfrozen⟩
    company := by
      rw [← hfrozen.company]
      exact hcompany state (hheight ▸ hfrozen.reconstructs)
    subject := hsubject
    digest := hdigest
    height := hheight
    reached := hreached
    holds := by
      refine ⟨hsnapshot, fun p hp => ?_⟩
      change p ∈ frozen.box.entries at hp
      rw [hbox] at hp
      cases hp
    published := fun txId height hpublished => by
      change frozen.finalized = some (txId, height) at hpublished
      rw [hafter] at hpublished
      cases hpublished }

theorem openItems_areItems {s : LocalChainStore} {at_ : ℕ} {channel : ChannelIdV1}
    {items : List AgendaItemV1} {votes : List (ℕ × VoteV1)} {company : Text}
    (hreached : at_ ≤ s.head.height)
    (hcompany : ∀ state, reconstruct s at_ = .ok state → state.company.value = company)
    (h : openItems s at_ channel items = .ok votes) :
    AreItems s ⟨company, channel, at_⟩ items votes := by
  unfold AreItems
  induction items generalizing votes with
  | nil =>
    obtain rfl := Except.ok.inj h
    exact .nil
  | cons item rest ih =>
    cases hbody : item.body with
    | informational document =>
      simp only [openItems, hbody] at h
      rw [List.filter_cons_of_neg (by rw [hbody]; exact Bool.false_ne_true)]
      exact ih h
    | vote digest =>
      simp only [openItems, hbody, bind_eq_ok, mapErr_eq_ok, pure_eq_ok, Except.ok.injEq] at h
      obtain ⟨v, hv, votes', hrest, rfl⟩ := h
      rw [List.filter_cons_of_pos (by rw [hbody]; rfl)]
      exact .cons (openItem_isItem hreached hcompany hbody hv) (ih hrest)

omit [Platform] in
/-- Every element of either list has its partner in the other. -/
theorem exists_of_forall₂ {α β : Type} {R : α → β → Prop} {xs : List α} {ys : List β}
    (h : List.Forall₂ R xs ys) :
    (∀ x ∈ xs, ∃ y ∈ ys, R x y) ∧ ∀ y ∈ ys, ∃ x ∈ xs, R x y := by
  induction h with
  | nil => exact ⟨fun _ hx => absurd hx List.not_mem_nil, fun _ hy => absurd hy List.not_mem_nil⟩
  | cons hxy _ ih =>
    simp only [List.forall_mem_cons, List.exists_mem_cons_iff]
    exact ⟨⟨.inl hxy, fun x hx => .inr (ih.1 x hx)⟩, .inl hxy, fun y hy => .inr (ih.2 y hy)⟩

theorem AreItems.exists_item {s : LocalChainStore} {o : Opening} {items : List AgendaItemV1}
    {votes : List (ℕ × VoteV1)} (h : AreItems s o items votes) {p : ℕ × VoteV1} (hp : p ∈ votes) :
    ∃ item ∈ items, IsItem s o item p := by
  obtain ⟨item, hitem, his⟩ := (exists_of_forall₂ h).2 p hp
  exact ⟨item, List.mem_of_mem_filter hitem, his⟩

/-- Every vote item has its vote, and the meeting finds it under the number of the item. -/
theorem AreItems.vote_eq {s : LocalChainStore} {o : Opening} {m : MeetingV1} {agenda : AgendaV1}
    (hagenda : agenda.items = m.items) (h : AreItems s o m.items m.votes) {item : AgendaItemV1}
    (hitem : item ∈ m.items) {proposalDigest : Hash} (hbody : item.body = .vote proposalDigest) :
    ∃ v, m.vote item.number = some v ∧ (item.number, v) ∈ m.votes ∧
      ∃ snapshot, ItemVote s o item proposalDigest v snapshot := by
  obtain ⟨⟨n, v⟩, hp, hnumber, -⟩ := (exists_of_forall₂ h).1 item
    (List.mem_filter.mpr ⟨hitem, by rw [hbody]; rfl⟩)
  obtain rfl : n = item.number := hnumber
  cases hfind : m.votes.find? fun q => q.1 == item.number with
  | none => exact absurd (beq_self_eq_true _) (List.find?_eq_none.mp hfind _ hp)
  | some q =>
    have hq := List.mem_of_find?_eq_some hfind
    obtain ⟨other, hother, hqnumber, digest, snapshot, hdigest, hvote⟩ := h.exists_item hq
    have hnumbers : q.1 = item.number := by
      simpa using List.find?_some hfind
    obtain rfl : other = item := agenda.number_injective (hagenda ▸ hother) (hagenda ▸ hitem)
      (hqnumber.symm.trans hnumbers)
    obtain rfl := AgendaBodyV1.vote.inj (hdigest.symm.trans hbody)
    refine ⟨q.2, ?_, hnumbers ▸ hq, snapshot, hvote⟩
    rw [MeetingV1.vote, hfind]
    rfl

/-- An item without a vote finds none. -/
theorem AreItems.vote_eq_none {s : LocalChainStore} {o : Opening} {m : MeetingV1}
    {agenda : AgendaV1} (hagenda : agenda.items = m.items) (h : AreItems s o m.items m.votes)
    {item : AgendaItemV1} (hitem : item ∈ m.items) {document : Hash}
    (hbody : item.body = .informational document) : m.vote item.number = none := by
  rw [MeetingV1.vote, Option.map_eq_none_iff, List.find?_eq_none]
  intro p hp hsame
  obtain ⟨other, hother, hnumber, digest, snapshot, hdigest, -⟩ := h.exists_item hp
  obtain rfl : other = item := agenda.number_injective (hagenda ▸ hother) (hagenda ▸ hitem)
    (hnumber.symm.trans (by simpa using hsame))
  rw [hbody] at hdigest
  cases hdigest

/-- The votes differ in their numbers. -/
theorem AreItems.nodup_numbers {s : LocalChainStore} {o : Opening} {items : List AgendaItemV1}
    {agenda : AgendaV1} (hagenda : agenda.items = items) {votes : List (ℕ × VoteV1)}
    (h : AreItems s o items votes) : (votes.map Prod.fst).Nodup := by
  have hnumbers : votes.map Prod.fst =
      (items.filter fun item => item.body.isVote).map AgendaItemV1.number := by
    unfold AreItems at h
    generalize items.filter _ = voteItems at h ⊢
    induction h with
    | nil => rfl
    | cons hitem _ ih => rw [List.map_cons, List.map_cons, ih, hitem.1]
  rw [hnumbers, ← hagenda]
  exact List.pairwise_map.mpr (agenda.numbers_pairwise.filter _)

theorem AreItems.eq_of_number {s : LocalChainStore} {o : Opening} {items : List AgendaItemV1}
    {agenda : AgendaV1} (hagenda : agenda.items = items) {votes : List (ℕ × VoteV1)}
    (h : AreItems s o items votes) {p q : ℕ × VoteV1} (hp : p ∈ votes) (hq : q ∈ votes)
    (hsame : p.1 = q.1) : p = q :=
  List.inj_on_of_nodup_map (h.nodup_numbers hagenda) hp hq hsame

/-- A meeting that was opened for the votes it holds, which hold the ballots it accepted. -/
structure Underway (p : Proceedings) (convening : LocatedTransaction) (company : CompanyIdV1)
    (agenda : AgendaV1) (channel : ChannelIdV1) (at_ : ℕ) : Prop where
  convened : ConvenedAs p.chain p.meeting convening company agenda
  openedAt : p.meeting.openedAt = some at_
  follows : convening.height ≤ at_
  reached : at_ ≤ p.chain.head.height
  through : p.meeting.metadata.channelId = .ok channel
  votes : AreItems p.chain ⟨company.value, channel, at_⟩ p.meeting.items p.meeting.votes
  ballots : ∀ number ballot, (number, ballot) ∈ p.accepted →
    ∃ v, (number, v) ∈ p.meeting.votes ∧ ballot ∈ v.box.ballots

/-- What holds of the proceedings, by the status of the meeting. -/
def InOrder (p : Proceedings) : Prop :=
  match p.meeting.status with
  | .draft => p.accepted = []
  | .convened => p.accepted = [] ∧ ∃ convening company agenda,
      ConvenedAs p.chain p.meeting convening company agenda
  | _ => ∃ convening company agenda channel at_, Underway p convening company agenda channel at_

/-- The invariant of a run. -/
structure Invariant (p : Proceedings) : Prop where
  wellFormed : p.chain.WellFormed
  order : InOrder p

/-- Closing a meeting that is under way counts the same however the chain is continued. -/
theorem Underway.close_extends {p : Proceedings} {t : LocalChainStore}
    {convening : LocatedTransaction} {company : CompanyIdV1} {agenda : AgendaV1}
    {channel : ChannelIdV1} {at_ : ℕ}
    (h : Underway p convening company agenda channel at_) (hext : p.chain.Extends t) :
    p.meeting.close t = p.meeting.close p.chain := by
  have hvotes := closeVotes_extends hext fun q hq => by
    obtain ⟨item, -, -, digest, snapshot, -, hvote⟩ := h.votes.exists_item hq
    exact ⟨snapshot, hvote.holds.frozen, hvote.height ▸ hvote.reached⟩
  simp only [MeetingV1.close, hvotes]

theorem Underway.advance {p : Proceedings} {convening : LocatedTransaction} {company : CompanyIdV1}
    {agenda : AgendaV1} {channel : ChannelIdV1} {at_ : ℕ} {t : LocalChainStore} {m : MeetingV1}
    (h : Underway p convening company agenda channel at_) (hext : p.chain.Extends t)
    (hvotes : AllAdvance p.chain t p.meeting.votes m.votes)
    (hid : m.convened = p.meeting.convened) (hmetadata : m.metadata = p.meeting.metadata)
    (hitems : m.items = p.meeting.items) (hcompany : m.company = p.meeting.company)
    (hopened : m.openedAt = p.meeting.openedAt) :
    Underway ⟨m, t, p.accepted⟩ convening company agenda channel at_ where
  convened := (h.convened.extends_ hext).of_eq hid hmetadata hitems hcompany
  openedAt := hopened.trans h.openedAt
  follows := h.follows
  reached := h.reached.trans hext.height_le
  through := hmetadata ▸ h.through
  votes := by
    change AreItems t _ m.items m.votes
    rw [hitems]
    exact h.votes.advance hvotes
  ballots := fun number ballot haccepted => by
    obtain ⟨v, hv, hballot⟩ := h.ballots number ballot haccepted
    exact hvotes.ballots hv hballot

theorem Invariant.extends_ {p : Proceedings} {t : LocalChainStore} (h : Invariant p)
    (hext : p.chain.Extends t) (ht : t.WellFormed) : Invariant { p with chain := t } := by
  refine ⟨ht, ?_⟩
  have horder := h.order
  unfold InOrder at horder ⊢
  dsimp only at horder ⊢
  split at horder
  · exact horder
  · obtain ⟨haccepted, convening, company, agenda, hconvened⟩ := horder
    exact ⟨haccepted, convening, company, agenda, hconvened.extends_ hext⟩
  · obtain ⟨convening, company, agenda, channel, at_, hunderway⟩ := horder
    exact ⟨convening, company, agenda, channel, at_,
      hunderway.advance hext (.of_extends hext _) rfl rfl rfl rfl rfl⟩

theorem Invariant.addItem {p : Proceedings} (h : Invariant p) {title : Text}
    {body : AgendaBodyV1} {m : MeetingV1} (hadd : p.meeting.addItem title body = .ok m) :
    Invariant { p with meeting := m } := by
  simp only [MeetingV1.addItem, MeetingV1.expectStatus, bind_eq_ok, ensure_eq_ok, pure_eq_ok,
    Except.ok.injEq] at hadd
  obtain ⟨-, hdraft, -, -, -, -, rfl⟩ := hadd
  refine ⟨h.wellFormed, ?_⟩
  have horder := h.order
  simp only [InOrder, hdraft] at horder ⊢
  exact horder

theorem Invariant.convene {p : Proceedings} (h : Invariant p) {key : SigningKey}
    {n : NotarisationV1} {time : ℕ} {m : MeetingV1} {id : MeetingIdV1} {t : LocalChainStore}
    (hrun : Program.RunsAmong (Leaves key) (p.meeting.convene key n time) p.chain (.ok (m, id)) t) :
    Invariant { p with meeting := m, chain := t } := by
  obtain ⟨hdraft, hconvened, ht, convening, company, agenda, hstands⟩ :=
    convene_among h.wellFormed hrun
  refine ⟨ht, ?_⟩
  have horder := h.order
  simp only [InOrder, hdraft, hconvened] at horder ⊢
  exact ⟨horder, convening, company, agenda, hstands⟩

theorem Invariant.opens {p : Proceedings} (h : Invariant p) {m : MeetingV1} {at_ : ℕ}
    (hopens : p.meeting.opens p.chain = .ok (m, at_)) : Invariant { p with meeting := m } := by
  simp only [MeetingV1.opens, MeetingV1.expectStatus, bind_eq_ok, ensure_eq_ok, pure_eq_ok,
    Except.ok.injEq, Prod.mk.injEq] at hopens
  obtain ⟨-, hstatus, channel, hchannel, votes, hvotes, rfl, rfl⟩ := hopens
  refine ⟨h.wellFormed, ?_⟩
  have horder := h.order
  simp only [InOrder, hstatus] at horder ⊢
  obtain ⟨haccepted, convening, company, agenda, hconvened⟩ := horder
  refine ⟨convening, company, agenda, channel, p.chain.head.height, ?_⟩
  exact {
    convened := hconvened.of_eq rfl rfl rfl rfl
    openedAt := rfl
    follows := hconvened.height_le
    reached := Nat.le_refl _
    through := hchannel
    votes := by
      refine openItems_areItems (Nat.le_refl _) (fun state hstate => ?_) hvotes
      -- the company of a chain keeps its name from the convening on
      have howner := hconvened.owner
      cases hthen : reconstruct p.chain convening.height with
      | error e =>
        rw [companyIs, hthen] at howner
        cases howner
      | ok before =>
        rw [companyIs, hthen] at howner
        rw [company_of_reconstruct hconvened.height_le hthen hstate, of_decide_eq_true howner]
    ballots := fun number ballot hmem => by
      rw [haccepted] at hmem
      cases hmem }

theorem Invariant.underway {p : Proceedings} (h : Invariant p) (hdraft : p.meeting.status ≠ .draft)
    (hconvened : p.meeting.status ≠ .convened) : ∃ convening company agenda channel at_,
      Underway p convening company agenda channel at_ := by
  have horder := h.order
  unfold InOrder at horder
  split at horder
  · rename_i hstatus
    exact absurd hstatus hdraft
  · rename_i hstatus
    exact absurd hstatus hconvened
  · exact horder

theorem Underway.inOrder {p : Proceedings} {convening : LocatedTransaction} {company : CompanyIdV1}
    {agenda : AgendaV1} {channel : ChannelIdV1} {at_ : ℕ}
    (h : Underway p convening company agenda channel at_) (hdraft : p.meeting.status ≠ .draft)
    (hconvened : p.meeting.status ≠ .convened) : InOrder p := by
  unfold InOrder
  split
  · rename_i hstatus
    exact absurd hstatus hdraft
  · rename_i hstatus
    exact absurd hstatus hconvened
  · exact ⟨convening, company, agenda, channel, at_, h⟩

/-- A ballot that a meeting accepts is held by the vote of its number. -/
theorem Invariant.cast {p : Proceedings} (h : Invariant p) {number : ℕ} {ballot : SignedBallotV1}
    {m : MeetingV1} (hcast : p.meeting.cast number ballot = .ok m) :
    Invariant { p with meeting := m, accepted := (number, ballot) :: p.accepted } := by
  simp only [MeetingV1.cast, MeetingV1.expectStatus, bind_eq_ok, ensure_eq_ok, pure_eq_ok,
    Except.ok.injEq] at hcast
  obtain ⟨-, hstatus, -, -, votes, hvotes, rfl⟩ := hcast
  obtain ⟨convening, company, agenda, channel, at_, hunderway⟩ :=
    h.underway (by simp [hstatus]) (by simp [hstatus])
  obtain ⟨hadvance, w, hw, hmem⟩ := @castInto_advances _ p.chain _ _ _ _ hvotes
  have hafter : Underway ⟨{ p.meeting with votes }, p.chain, p.accepted⟩ convening company agenda
      channel at_ := hunderway.advance (.refl p.chain) hadvance rfl rfl rfl rfl rfl
  have hlater : Underway ⟨{ p.meeting with votes }, p.chain, (number, ballot) :: p.accepted⟩
      convening company agenda channel at_ := {
    convened := hafter.convened
    openedAt := hafter.openedAt
    follows := hafter.follows
    reached := hafter.reached
    through := hafter.through
    votes := hafter.votes
    ballots := fun n b hb => by
      rcases List.mem_cons.mp hb with hfirst | hrest
      · obtain ⟨rfl, rfl⟩ := Prod.mk.inj hfirst
        exact ⟨w, hw, hmem⟩
      · exact hafter.ballots n b hrest }
  exact ⟨h.wellFormed, hlater.inOrder (by simp [hstatus]) (by simp [hstatus])⟩

theorem Invariant.close {p : Proceedings} (h : Invariant p) :
    Invariant { p with meeting := (p.meeting.close p.chain).2 } := by
  by_cases hstatus : p.meeting.status = .open_
  · obtain ⟨convening, company, agenda, channel, at_, hunderway⟩ :=
      h.underway (by simp [hstatus]) (by simp [hstatus])
    have hadvance := closeVotes_advances p.chain p.meeting.votes
    rcases hclose : closeVotes p.chain p.meeting.votes with ⟨r, votes⟩
    rw [hclose] at hadvance
    have hafter (status : MeetingStatusV1) :
        Underway ⟨{ p.meeting with votes, status }, p.chain, p.accepted⟩ convening company agenda
          channel at_ := hunderway.advance (.refl p.chain) hadvance rfl rfl rfl rfl rfl
    refine ⟨h.wellFormed, ?_⟩
    cases r with
    | error e =>
      simp only [MeetingV1.close, MeetingV1.expectStatus, ensure_of hstatus, hclose]
      have hkept := hafter p.meeting.status
      exact hkept.inOrder (by simp [hstatus]) (by simp [hstatus])
    | ok =>
      simp only [MeetingV1.close, MeetingV1.expectStatus, ensure_of hstatus, hclose]
      exact (hafter .closed).inOrder (by rintro ⟨⟩) (by rintro ⟨⟩)
  · simp only [MeetingV1.close, MeetingV1.expectStatus, ensure_of_not hstatus]
    exact h

section Calls

variable {m : MeetingV1} {v closed w : VoteV1} {key : SigningKey} {n : NotarisationV1}
  {time number : ℕ} {s t u : LocalChainStore} {state : CompanyStateV1} {person : PersonV1}

theorem convene_of_draft {agenda : AgendaV1} {payload : Text} {txId : TxId} {height : ℕ}
    (hdraft : m.status = .draft) (hagenda : m.agenda = .ok agenda) (hnow : companyNow s = .ok state)
    (hperson : authorisedSigner state .governance (Platform.publicKey key) = .ok person)
    (hcompose : composeConvened state.company n m.metadata agenda = .ok payload)
    (happend : (appendTransaction meetingFaults key meetingNamespace (utf8 payload) time).run s =
      (.ok (txId, height), t)) :
    (m.convene key n time).run s = (.ok ({ m with
      status := .convened
      company := state.company.value
      convened := some (txId, height) }, ⟨txId⟩), t) := by
  simp only [MeetingV1.convene, MeetingV1.expectStatus, Program.run_bind, Program.run_lift,
    ensure_of hdraft, hagenda, Program.run_mapError, run_readCompanyNow, hnow, mapErr_ok, hperson,
    hcompose, happend, Program.run_pure]

theorem closeVotes_one {evaluation : VoteEvaluationV1} (hclose : v.close = .ok closed)
    (hevaluates : closed.evaluates s = .ok (w, evaluation)) :
    closeVotes s [(number, v)] = (.ok (), [(number, w)]) := by
  simp only [closeVotes, hclose, hevaluates]

theorem close_of_open {votes : List (ℕ × VoteV1)} (hopen : m.status = .open_)
    (hvotes : closeVotes s m.votes = (.ok (), votes)) :
    m.close s = (.ok (), { m with votes, status := .closed }) := by
  simp only [MeetingV1.close, MeetingV1.expectStatus, ensure_of hopen, hvotes]

theorem finalizeVotes_one {finalized : FinalizedV1} (hnew : v.finalized.isSome ≠ true)
    (hfinal : (v.finalize key time).run s = (.ok (w, finalized), t)) :
    (finalizeVotes key time [(number, v)]).run s = (.ok (.ok (), [(number, w)]), t) := by
  simp only [finalizeVotes, if_neg hnew, Program.run_bind, Program.run_attempt, hfinal,
    Program.run_pure]

theorem publishFinal_of_refused {record : MeetingFinalRecordV1} {company : CompanyIdV1}
    {payload : Text} {e : MeetingError} (hrecord : m.finalRecord = .ok record)
    (hcompany : CompanyIdV1.new m.company = .ok company)
    (hcompose : composeFinal company n record = .ok payload)
    (happend : (appendTransaction meetingFaults key meetingNamespace (utf8 payload) time).run s =
      (.error e, t)) : (m.publishFinal key n time).run s = (.error e, t) := by
  simp only [MeetingV1.publishFinal, Program.run_bind, Program.run_lift, hrecord, hcompany, mapErr_ok,
    hcompose, happend]

theorem mayFinalize_of_closed (hclosed : m.status = .closed) (hnow : companyNow s = .ok state)
    (hperson : authorisedSigner state .governance (Platform.publicKey key) = .ok person) :
    (m.mayFinalize key).run s = (.ok (), s) := by
  simp only [MeetingV1.mayFinalize, MeetingV1.expectStatus, Program.run_bind, Program.run_lift,
    ensure_of hclosed, Program.run_mapError, run_readCompanyNow, hnow, mapErr_ok, hperson,
    Program.run_pure]

/-- Once its votes are published a meeting is finalised, or not, as its record is. -/
theorem finalize_of_closed {votes : List (ℕ × VoteV1)} (hclosed : m.status = .closed)
    (hnow : companyNow s = .ok state)
    (hperson : authorisedSigner state .governance (Platform.publicKey key) = .ok person)
    (hvotes : (finalizeVotes key time m.votes).run s = (.ok (.ok (), votes), u)) :
    (∀ finalized m', (({ m with votes } : MeetingV1).publishFinal key n time).run u =
        (.ok (finalized, m'), t) → (m.finalize key n time).run s = (.ok (.ok finalized, m'), t)) ∧
      ∀ e, (({ m with votes } : MeetingV1).publishFinal key n time).run u = (.error e, t) →
        (m.finalize key n time).run s = (.ok (.error e, { m with votes }), t) := by
  have hmay := mayFinalize_of_closed hclosed hnow hperson
  constructor
  · intro finalized m' hpublish
    simp only [MeetingV1.finalize, Program.run_bind, Program.run_attempt, hmay, hvotes, hpublish,
      Program.run_pure]
  · intro e hpublish
    simp only [MeetingV1.finalize, Program.run_bind, Program.run_attempt, hmay, hvotes, hpublish,
      Program.run_pure]

/-- A meeting is finalised where others append once its votes are published, before the head is read
for its record. -/
theorem finalize_crossed {R : LocalChainStore → LocalChainStore → Prop} {a b : LocalChainStore}
    {votes : List (ℕ × VoteV1)} {record : MeetingFinalRecordV1} {company : CompanyIdV1}
    {payload : Text} {txId : TxId} {height : ℕ} (hrefl : ∀ s, R s s) (hclosed : m.status = .closed)
    (hnow : companyNow s = .ok state)
    (hperson : authorisedSigner state .governance (Platform.publicKey key) = .ok person)
    (hvotes : (finalizeVotes key time m.votes).run s = (.ok (.ok (), votes), a))
    (hrecord : ({ m with votes } : MeetingV1).finalRecord = .ok record)
    (hcompany : CompanyIdV1.new m.company = .ok company)
    (hcompose : composeFinal company n record = .ok payload) (hothers : R a b)
    (happend : (appendTransaction meetingFaults key meetingNamespace (utf8 payload) time).run b =
      (.ok (txId, height), t)) :
    Program.RunsAmong R (m.finalize key n time) s (.ok (.ok ⟨txId, height, record⟩, { m with
      votes
      status := .finalized
      finalized := some (txId, height) })) t := by
  have hmay := mayFinalize_of_closed hclosed hnow hperson
  refine .bind (.attempts (.of_run hrefl hmay)) (.bind (.of_run hrefl hvotes) ?_)
  refine .bind (.attempts (x := .ok (⟨txId, height, record⟩, _)) ?_) (.done _ _)
  refine .bind (.of_run hrefl (Prod.ext hrecord rfl)) ?_
  refine .bind (.of_run hrefl (Prod.ext (mapErr_eq_ok.mpr hcompany) rfl)) ?_
  refine .bind (.of_run hrefl (Prod.ext hcompose rfl)) ?_
  exact .bind (appendTransaction_after hrefl hothers happend) (.done _ _)

variable {others : SigningKey → LocalChainStore → LocalChainStore → Prop} {p q : Proceedings}
  {ballot : SignedBallotV1}

theorem reaches_addItem {title : Text} {body : AgendaBodyV1} (h : Reaches others p q)
    (hadd : q.meeting.addItem title body = .ok m) : Reaches others p { q with meeting := m } := by
  have hcall := h.call (.addItem title body)
  simpa only [Proceedings.perform, hadd] using hcall

theorem reaches_convene {id : MeetingIdV1} (hrefl : ∀ s, others key s s) (h : Reaches others p q)
    (hrun : (q.meeting.convene key n time).run q.chain = (.ok (m, id), t)) :
    Reaches others p { q with meeting := m, chain := t } :=
  h.convened (.of_run hrefl hrun)

theorem reaches_opens {at_ : ℕ} (h : Reaches others p q) (hopens : q.meeting.opens q.chain = .ok (m, at_)) :
    Reaches others p { q with meeting := m } := by
  have hcall := h.call .opens
  simpa only [Proceedings.perform, hopens] using hcall

theorem reaches_cast (h : Reaches others p q) (hcast : q.meeting.cast number ballot = .ok m) :
    Reaches others p { q with meeting := m, accepted := (number, ballot) :: q.accepted } := by
  have hcall := h.call (.cast number ballot)
  simpa only [Proceedings.perform, hcast] using hcall

theorem reaches_close {r : Except MeetingError Unit} (h : Reaches others p q)
    (hclose : q.meeting.close q.chain = (r, m)) : Reaches others p { q with meeting := m } := by
  have hcall := h.call .close
  simpa only [Proceedings.perform, hclose] using hcall

end Calls

end Irena.Meeting
