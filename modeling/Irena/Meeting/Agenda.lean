import Irena.Vote.Verify

/-! # Meetings: metadata, agenda and refusals

A meeting is named by the transaction that convened it. Its agenda numbers its items from one in
order, and gives each a title. -/

namespace Irena.Meeting

open Irena.Library Irena.Library.Outcome Irena.Library.Strings
open Irena.Core Irena.Bornite Irena.Prunella Irena.Ledger Irena.Vote

structure MeetingIdV1 where
  txId : TxId
deriving DecidableEq

inductive MeetingStatusV1 where
  | draft
  | convened
  | open_
  | closed
  | finalized
deriving DecidableEq

/-- What is wrong with an agenda or with the metadata of a meeting. -/
inductive AgendaDetail where
  | channel (error : IrenaError)
  | emptyTitle
  | scheduledAt (error : IrenaError)
  | noItems
  | tooManyItems
  | misnumbered (expected found : ℕ)
  | untitled (number : ℕ)
  | itemNeedsTitle
deriving DecidableEq

inductive MeetingChain where
  | missingHead (height : ℕ)
  | conveningNotReadBack
  | finalNotReadBack
deriving DecidableEq

inductive MeetingError where
  | invalidTransition (source : MeetingStatusV1) (target : Text)
  | invalidAgenda (detail : AgendaDetail)
  | noSuchItem (number : ℕ)
  | notAVoteItem (number : ℕ)
  | vote (number : ℕ) (error : VoteError)
  | ledger (error : LedgerError)
  | record (error : IrenaError)
  | store (error : StoreError)
  | core (error : Prunella.CoreError)
  | noSuchTransaction (txId : TxId)
  | chain (detail : MeetingChain)
  | panicked
deriving DecidableEq

structure MeetingMetadataV1 where
  channel : Text
  title : Text
  scheduledAt : Text
  noticeDigest : Option Hash
deriving DecidableEq

namespace MeetingMetadataV1

def channelId (m : MeetingMetadataV1) : Except MeetingError ChannelIdV1 :=
  mapErr (fun e => .invalidAgenda (.channel e)) (ChannelIdV1.new m.channel)

def validate (m : MeetingMetadataV1) : Except MeetingError Unit := do
  let _ ← m.channelId
  ensure (trim m.title ≠ []) (.invalidAgenda .emptyTitle)
  let _ ← mapErr (fun e => .invalidAgenda (.scheduledAt e)) (NotaryTimeV1.parse m.scheduledAt)
  return ()

end MeetingMetadataV1

inductive AgendaBodyV1 where
  | informational (documentDigest : Hash)
  | vote (proposalDigest : Hash)
deriving DecidableEq

namespace AgendaBodyV1

def kind : AgendaBodyV1 → Text
  | informational _ => lit "informational"
  | vote _ => lit "vote"

def isVote : AgendaBodyV1 → Bool
  | informational _ => false
  | vote _ => true

theorem isVote_iff {body : AgendaBodyV1} :
    body.isVote = true ↔ ∃ proposalDigest, body = .vote proposalDigest := by
  cases body <;> simp [isVote]

end AgendaBodyV1

structure AgendaItemV1 where
  number : ℕ
  title : Text
  body : AgendaBodyV1
deriving DecidableEq

/-- The first thing wrong with the items from position `index` on. -/
def agendaDetail : ℕ → List AgendaItemV1 → Option AgendaDetail
  | _, [] => none
  | index, item :: rest =>
    if u32Max < index + 1 then some .tooManyItems
    else if item.number ≠ index + 1 then some (.misnumbered (index + 1) item.number)
    else if trim item.title = [] then some (.untitled (index + 1))
    else agendaDetail (index + 1) rest

structure AgendaV1 where
  items : List AgendaItemV1
  nonempty : items ≠ []
  valid : agendaDetail 0 items = none
deriving DecidableEq

def AgendaV1.new (items : List AgendaItemV1) : Except MeetingError AgendaV1 :=
  if h : items = [] then .error (.invalidAgenda .noItems)
  else
    match hdetail : agendaDetail 0 items with
    | some detail => .error (.invalidAgenda detail)
    | none => .ok ⟨items, h, hdetail⟩

theorem AgendaV1.items_injective : Function.Injective AgendaV1.items := by
  intro a b h
  cases a
  cases b
  congr

@[simp] theorem AgendaV1.new_eq_ok {items : List AgendaItemV1} {a : AgendaV1} :
    AgendaV1.new items = .ok a ↔ a.items = items := by
  constructor
  · intro h
    unfold AgendaV1.new at h
    split at h
    · cases h
    · split at h
      · cases h
      · exact (Except.ok.inj h) ▸ rfl
  · rintro rfl
    unfold AgendaV1.new
    rw [dif_neg a.nonempty]
    split
    · rename_i detail hdetail
      rw [a.valid] at hdetail
      cases hdetail
    · rfl

/-- The items of an agenda are numbered by their positions and titled. -/
theorem numbered_of_agendaDetail {index : ℕ} {items : List AgendaItemV1}
    (h : agendaDetail index items = none) :
    ∀ i item, items[i]? = some item → item.number = index + i + 1 ∧ trim item.title ≠ [] := by
  induction items generalizing index with
  | nil => simp
  | cons first rest ih =>
    simp only [agendaDetail, ne_eq] at h
    split at h
    · cases h
    · split at h
      · cases h
      · rename_i hnumber
        split at h
        · cases h
        · rename_i htitle
          intro i item hitem
          cases i with
          | zero =>
            obtain rfl := Option.some.inj hitem
            exact ⟨not_not.mp hnumber, htitle⟩
          | succ i =>
            obtain ⟨hnum, ht⟩ := ih h i item (by simpa using hitem)
            exact ⟨by omega, ht⟩

theorem AgendaV1.number_injective (a : AgendaV1) {x y : AgendaItemV1} (hx : x ∈ a.items)
    (hy : y ∈ a.items) (h : x.number = y.number) : x = y := by
  obtain ⟨i, hi⟩ := List.mem_iff_getElem?.mp hx
  obtain ⟨j, hj⟩ := List.mem_iff_getElem?.mp hy
  have hxn := (numbered_of_agendaDetail a.valid i x hi).1
  have hyn := (numbered_of_agendaDetail a.valid j y hj).1
  obtain rfl : i = j := by omega
  exact Option.some.inj (hi.symm.trans hj)

/-- The items of an agenda differ in their numbers. -/
theorem AgendaV1.numbers_pairwise (agenda : AgendaV1) :
    agenda.items.Pairwise fun a b => a.number ≠ b.number := by
  rw [List.pairwise_iff_getElem]
  intro i j hi hj hij heq
  have hfirst := (numbered_of_agendaDetail agenda.valid i _ (List.getElem?_eq_getElem hi)).1
  have hsecond := (numbered_of_agendaDetail agenda.valid j _ (List.getElem?_eq_getElem hj)).1
  omega

/-- The subject of an item's vote: its number and its title. -/
def subjectOf (item : AgendaItemV1) : Text :=
  lit "item " ++ decimal item.number ++ lit ": " ++ item.title

/-- Items with one subject have one number and one title. -/
theorem subjectOf_inj {x y : AgendaItemV1} (h : subjectOf x = subjectOf y) :
    x.number = y.number ∧ x.title = y.title := by
  simp only [subjectOf, List.append_assoc] at h
  have hrest := List.append_cancel_left h
  obtain ⟨hnumber, htitle⟩ := decimal_append_inj (c := ':') (by decide) hrest
  exact ⟨hnumber, (List.cons.inj htitle).2⟩

end Irena.Meeting
