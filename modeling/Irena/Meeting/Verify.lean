import Irena.Meeting.Lifecycle

/-! # Verifying a meeting

Every check of a final meeting record, judged from the chain alone. A final record that does not
decode, or whose convening is missing, ends the report; every other check runs. -/

namespace Irena.Meeting

open Irena.Library Irena.Library.Outcome Irena.Library.Strings Irena.Library.Utf8
open Irena.Core Irena.Bornite Irena.Prunella Irena.Prunella.LocalChainStore Irena.Ledger
open Irena.Decision Irena.Vote

inductive MeetingCheckNameV1 where
  | decodes
  | conveningExists
  | heightsOrdered
  | agendaMatches
  | metadataMatches
  | companyReconstructs
  | signerAuthorised
  | votesVerify
  | votesBelong
  | itemsConsistent
deriving DecidableEq

structure MeetingVerificationV1 where
  txId : TxId
  height : ℕ
  record : Option MeetingFinalRecordV1
  checks : List (Check MeetingCheckNameV1)
  votes : List (ℕ × VerificationV1)
deriving DecidableEq

def MeetingVerificationV1.isValid (v : MeetingVerificationV1) : Bool :=
  allPassed v.checks && v.votes.all fun (_, vote) => vote.isValid

/-- An informational item carries no vote, and a vote item names one. -/
def FinalItemV1.consistent (entry : FinalItemV1) : Bool :=
  match entry.item.body with
  | .informational _ => entry.voteTxId.isNone && entry.outcome.isNone
  | .vote _ => entry.voteTxId.isSome

variable [Platform]

/-- The meeting record a transaction holds. -/
def meetingRecordOf (t : Transaction) : Option MeetingRecordV1 := do
  guard (t.namespace_.value = meetingNamespace)
  let text ← fromUtf8 t.payload
  (readMeetingRecord text).toOption

def finalOf (t : Transaction) : Option (CompanyIdV1 × MeetingFinalRecordV1) := do
  let record ← meetingRecordOf t
  match record.body with
  | .final final => some (record.company, final)
  | .convened _ _ => none

def conveningOf (t : Transaction) : Option (CompanyIdV1 × MeetingMetadataV1 × AgendaV1) := do
  let record ← meetingRecordOf t
  match record.body with
  | .convened metadata agenda => some (record.company, metadata, agenda)
  | .final _ => none

/-- What a referenced vote is judged against. -/
structure MeetingContext where
  company : CompanyIdV1
  channel : Text
  openedAtHeight : ℕ
  height : ℕ

/-- Whether a vote record is the one an item of the meeting called for. -/
def MeetingContext.owns (c : MeetingContext) (s : LocalChainStore) (entry : FinalItemV1)
    (proposalDigest : Hash) (voteTx : TxId) (vote : FinalVoteRecordV1) : Bool :=
  vote.snapshot.company = c.company.value && vote.snapshot.channel = c.channel &&
    vote.snapshot.subject = subjectOf entry.item &&
    vote.snapshot.proposalDigest = proposalDigest && vote.snapshot.height = c.openedAtHeight &&
    ((s.getTransaction voteTx).map LocatedTransaction.height).getD u64Max < c.height &&
    entry.outcome = some (outcomeText vote.evaluation)

/-- What was found about the vote of one item. -/
structure VoteFinding where
  number : ℕ
  verified : Bool
  belongs : Bool
  report : Option VerificationV1

/-- The finding about an item, if it is a vote item. -/
def MeetingContext.finding (c : MeetingContext) (s : LocalChainStore) (entry : FinalItemV1) :
    Option VoteFinding :=
  match entry.item.body with
  | .informational _ => none
  | .vote proposalDigest =>
    match entry.voteTxId with
    | none => some ⟨entry.item.number, false, true, none⟩
    | some voteTx =>
      match verify s voteTx with
      | .error _ => some ⟨entry.item.number, false, true, none⟩
      | .ok report =>
        some ⟨entry.item.number, report.isValid,
          report.record.all (c.owns s entry proposalDigest voteTx), some report⟩

/-- Whether the final record's items are the agenda convened. -/
def agendaIs (record : MeetingFinalRecordV1) (agenda : AgendaV1) : Bool :=
  match record.agenda with
  | .ok found => found = agenda
  | .error _ => false

/-- Whether the chain's company at a height is the one named. -/
def companyIs (s : LocalChainStore) (height : ℕ) (company : CompanyIdV1) : Bool :=
  match reconstruct s height with
  | .ok state => state.company = company
  | .error _ => false

/-- The checks of a final record against its convening, and of its votes. -/
def meetingChecks (s : LocalChainStore) (located convening : LocatedTransaction)
    (company : CompanyIdV1) (record : MeetingFinalRecordV1) (metadata : MeetingMetadataV1)
    (agenda : AgendaV1) (findings : List VoteFinding) : List (Check MeetingCheckNameV1) :=
  [⟨.heightsOrdered,
      convening.height ≤ record.openedAtHeight && record.openedAtHeight < located.height⟩,
    ⟨.agendaMatches, agendaIs record agenda⟩,
    ⟨.metadataMatches, metadata = record.metadata⟩,
    ⟨.companyReconstructs, companyIs s convening.height company⟩,
    ⟨.signerAuthorised,
      signerAuthorisedAt s convening.height convening.transaction.signer &&
        signerAuthorisedAt s located.height located.transaction.signer⟩,
    ⟨.votesVerify, findings.all VoteFinding.verified⟩,
    ⟨.votesBelong, findings.all VoteFinding.belongs⟩,
    ⟨.itemsConsistent, record.items.all FinalItemV1.consistent⟩]

/-- Verifies the meeting a transaction finalised. -/
def verifyMeeting (s : LocalChainStore) (txId : TxId) :
    Except MeetingError MeetingVerificationV1 := do
  let located ← orError (s.getTransaction txId) (.noSuchTransaction txId)
  match finalOf located.transaction with
  | none => return ⟨txId, located.height, none, [⟨.decodes, false⟩], []⟩
  | some (company, record) =>
    let absent : MeetingVerificationV1 :=
      ⟨txId, located.height, some record, [⟨.decodes, true⟩, ⟨.conveningExists, false⟩], []⟩
    match s.getTransaction record.meetingId.txId with
    | none => return absent
    | some convening =>
      match conveningOf convening.transaction with
      | none => return absent
      | some (convenedBy, metadata, agenda) =>
        if convenedBy ≠ company then return absent
        else
          let context : MeetingContext :=
            ⟨company, metadata.channel, record.openedAtHeight, located.height⟩
          let findings := record.items.filterMap (context.finding s)
          return {
            txId
            height := located.height
            record := some record
            checks := [⟨.decodes, true⟩, ⟨.conveningExists, true⟩] ++
              meetingChecks s located convening company record metadata agenda findings
            votes := findings.filterMap fun f => f.report.map fun report => (f.number, report) }

end Irena.Meeting
