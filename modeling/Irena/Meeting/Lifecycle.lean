import Irena.Meeting.Record

/-! # The life of a meeting

Draft, convened, open, closed, finalized. Convening fixes the agenda on the chain; opening freezes
one vote for every vote item at the head; finalizing publishes every vote and then the final
record. Closing and finalizing go vote by vote, and keep what they did when a later vote refuses. -/

namespace Irena.Meeting

open Irena.Library Irena.Library.Outcome Irena.Library.Strings Irena.Library.Utf8
open Irena.Core Irena.Bornite Irena.Prunella Irena.Prunella.LocalChainStore Irena.Ledger Irena.Vote

structure MeetingV1 where
  status : MeetingStatusV1
  company : Text
  metadata : MeetingMetadataV1
  items : List AgendaItemV1
  votes : List (ℕ × VoteV1)
  convened : Option (TxId × ℕ)
  openedAt : Option ℕ
  finalized : Option (TxId × ℕ)
deriving DecidableEq

structure MeetingFinalizedV1 where
  txId : TxId
  height : ℕ
  record : MeetingFinalRecordV1
deriving DecidableEq

def meetingFaults : ChainFaults MeetingError :=
  ⟨.store, .core, fun height => .chain (.missingHead height)⟩

def outcomeText (summary : EvaluationSummaryV1) : Text :=
  if summary.accepted then lit "accepted" else lit "rejected"

namespace MeetingV1

def draft (metadata : MeetingMetadataV1) : MeetingV1 :=
  ⟨.draft, [], metadata, [], [], none, none, none⟩

def agenda (m : MeetingV1) : Except MeetingError AgendaV1 := AgendaV1.new m.items

def id (m : MeetingV1) : Option MeetingIdV1 := m.convened.map fun (txId, _) => ⟨txId⟩

/-- The vote of one item, once opened. -/
def vote (m : MeetingV1) (number : ℕ) : Option VoteV1 :=
  (m.votes.find? fun (n, _) => n == number).map Prod.snd

def expectStatus (m : MeetingV1) (wanted : MeetingStatusV1) (target : Text) :
    Except MeetingError Unit :=
  ensure (m.status = wanted) (.invalidTransition m.status target)

/-- Adds an agenda item to a draft, numbered in the order added. -/
def addItem (m : MeetingV1) (title : Text) (body : AgendaBodyV1) : Except MeetingError MeetingV1 := do
  m.expectStatus .draft (lit "add an item to")
  ensure (trim title ≠ []) (.invalidAgenda .itemNeedsTitle)
  ensure (m.items.length + 1 ≤ u32Max) (.invalidAgenda .tooManyItems)
  return { m with items := m.items ++ [⟨m.items.length + 1, title, body⟩] }

def itemOf (m : MeetingV1) (number : ℕ) : Except MeetingError AgendaItemV1 :=
  orError (m.items.find? fun item => item.number == number) (.noSuchItem number)

/-- The final record this meeting would leave, if every vote were already on the chain. -/
def finalRecord (m : MeetingV1) : Except MeetingError MeetingFinalRecordV1 := do
  let wrong := MeetingError.invalidTransition m.status (lit "build the final record of")
  ensure (m.status = .closed ∨ m.status = .finalized) wrong
  let meetingId ← orError m.id wrong
  let openedAtHeight ← orError m.openedAt wrong
  return {
    meetingId
    metadata := m.metadata
    openedAtHeight
    items := m.items.map fun item => {
      item
      voteTxId := (m.vote item.number).bind fun vote => vote.finalized.map Prod.fst
      outcome := (m.vote item.number).bind fun vote => vote.evaluation.map outcomeText } }

end MeetingV1

section Chain

variable [Platform]

/-- The vote of one item, frozen at a height and open. -/
def openItem (s : LocalChainStore) (at_ : ℕ) (channel : ChannelIdV1) (item : AgendaItemV1)
    (proposalDigest : Hash) : Except VoteError VoteV1 := do
  let vote ← (VoteV1.draft (subjectOf item) proposalDigest).freeze s at_ channel
  vote.opens

/-- The votes of the vote items, in agenda order. -/
def openItems (s : LocalChainStore) (at_ : ℕ) (channel : ChannelIdV1) :
    List AgendaItemV1 → Except MeetingError (List (ℕ × VoteV1))
  | [] => .ok []
  | item :: rest =>
    match item.body with
    | .informational _ => openItems s at_ channel rest
    | .vote proposalDigest => do
      let vote ← mapErr (.vote item.number) (openItem s at_ channel item proposalDigest)
      let votes ← openItems s at_ channel rest
      return (item.number, vote) :: votes

/-- Casts a ballot into the vote of a number. -/
def castInto (number : ℕ) (ballot : SignedBallotV1) :
    List (ℕ × VoteV1) → Except MeetingError (List (ℕ × VoteV1))
  | [] => .error (.notAVoteItem number)
  | (n, vote) :: rest =>
    if n = number then do
      let vote ← mapErr (.vote number) (vote.cast ballot)
      return (n, vote) :: rest
    else do
      let rest ← castInto number ballot rest
      return (n, vote) :: rest

/-- Closes and counts each vote in turn; one that refuses leaves the later ones open. -/
def closeVotes (s : LocalChainStore) :
    List (ℕ × VoteV1) → Except MeetingError Unit × List (ℕ × VoteV1)
  | [] => (.ok (), [])
  | (number, vote) :: rest =>
    match vote.close with
    | .error e => (.error (.vote number e), (number, vote) :: rest)
    | .ok closed =>
      match closed.evaluates s with
      | .error e => (.error (.vote number e), (number, closed) :: rest)
      | .ok (evaluated, _) =>
        let (result, rest) := closeVotes s rest
        (result, (number, evaluated) :: rest)

/-- Publishes each vote that is not yet on the chain. -/
def finalizeVotes (key : SigningKey) (timestampMillis : ℕ) :
    List (ℕ × VoteV1) → ChainProgram Empty (Except MeetingError Unit × List (ℕ × VoteV1))
  | [] => pure (.ok (), [])
  | (number, vote) :: rest => do
    if vote.finalized.isSome then
      let (result, rest) ← finalizeVotes key timestampMillis rest
      return (result, (number, vote) :: rest)
    else
      match ← (vote.finalize key timestampMillis).attempt with
      | .error e => return (.error (.vote number e), (number, vote) :: rest)
      | .ok (finalized, _) =>
        let (result, rest) ← finalizeVotes key timestampMillis rest
        return (result, (number, finalized) :: rest)

namespace MeetingV1

/-- Convenes the meeting: writes the whole agenda to the chain. -/
def convene (m : MeetingV1) (key : SigningKey) (notarisation : NotarisationV1)
    (timestampMillis : ℕ) : ChainProgram MeetingError (MeetingV1 × MeetingIdV1) := do
  Program.lift (m.expectStatus .draft (lit "convene"))
  let agenda ← Program.lift m.agenda
  let state ← readCompanyNow.mapError .ledger
  let _ ← Program.lift (mapErr .ledger (authorisedSigner state .governance (Platform.publicKey key)))
  let payload ← Program.lift (composeConvened state.company notarisation m.metadata agenda)
  let (txId, height) ←
    appendTransaction meetingFaults key meetingNamespace (utf8 payload) timestampMillis
  return ({ m with
    status := .convened
    company := state.company.value
    convened := some (txId, height) }, ⟨txId⟩)

/-- Opens the meeting: freezes the company at the head for every vote item. -/
def opens (m : MeetingV1) (s : LocalChainStore) : Except MeetingError (MeetingV1 × ℕ) := do
  m.expectStatus .convened (lit "open")
  let channel ← m.metadata.channelId
  let votes ← openItems s s.head.height channel m.items
  return ({ m with status := .open_, votes, openedAt := some s.head.height }, s.head.height)

/-- Accepts a ballot for one item's vote. -/
def cast (m : MeetingV1) (number : ℕ) (ballot : SignedBallotV1) : Except MeetingError MeetingV1 := do
  m.expectStatus .open_ (lit "cast a ballot in")
  let _ ← m.itemOf number
  let votes ← castInto number ballot m.votes
  return { m with votes }

/-- Closes every vote and counts it. -/
def close (m : MeetingV1) (s : LocalChainStore) : Except MeetingError Unit × MeetingV1 :=
  match m.expectStatus .open_ (lit "close") with
  | .error e => (.error e, m)
  | .ok () =>
    match closeVotes s m.votes with
    | (.error e, votes) => (.error e, { m with votes })
    | (.ok (), votes) => (.ok (), { m with votes, status := .closed })

/-- What must hold before anything is published. -/
def mayFinalize (m : MeetingV1) (key : SigningKey) : ChainProgram MeetingError Unit := do
  Program.lift (m.expectStatus .closed (lit "finalize"))
  let now ← readCompanyNow.mapError .ledger
  let _ ← Program.lift (mapErr .ledger (authorisedSigner now .governance (Platform.publicKey key)))
  return ()

/-- Publishes the final record of a meeting whose votes are on the chain. -/
def publishFinal (m : MeetingV1) (key : SigningKey) (notarisation : NotarisationV1)
    (timestampMillis : ℕ) : ChainProgram MeetingError (MeetingFinalizedV1 × MeetingV1) := do
  let record ← Program.lift m.finalRecord
  let company ← Program.lift (mapErr .record (CompanyIdV1.new m.company))
  let payload ← Program.lift (composeFinal company notarisation record)
  let (txId, height) ←
    appendTransaction meetingFaults key meetingNamespace (utf8 payload) timestampMillis
  return (⟨txId, height, record⟩, { m with status := .finalized, finalized := some (txId, height) })

/-- Finalises the meeting: every vote to the chain, then the final record. -/
def finalize (m : MeetingV1) (key : SigningKey) (notarisation : NotarisationV1)
    (timestampMillis : ℕ) :
    ChainProgram Empty (Except MeetingError MeetingFinalizedV1 × MeetingV1) := do
  match ← (m.mayFinalize key).attempt with
  | .error e => return (.error e, m)
  | .ok () =>
    let (result, votes) ← finalizeVotes key timestampMillis m.votes
    let m := { m with votes }
    match result with
    | .error e => return (.error e, m)
    | .ok () =>
      match ← (m.publishFinal key notarisation timestampMillis).attempt with
      | .error e => return (.error e, m)
      | .ok (finalized, m) => return (.ok finalized, m)

end MeetingV1

end Chain

end Irena.Meeting
