import Irena.Decision.Resolve

/-! # Individual decisions

A decision freezes its channel's sole actor at a height, is signed with the frozen key, and is
published by a governance signer. -/

namespace Irena.Decision

open Irena.Library Irena.Library.Outcome Irena.Library.Strings
open Irena.Core Irena.Bornite Irena.Prunella Irena.Prunella.LocalChainStore Irena.Ledger

structure DecisionIdV1 where
  hash : Hash
deriving DecidableEq

/-- What a decision is frozen against. -/
structure DecisionSnapshotV1 where
  company : Text
  subject : Text
  proposalDigest : Hash
  height : ℕ
  genesisTxId : TxId
  sharesTxId : TxId
  channelsTxId : TxId
  identitiesTxId : TxId
  channel : Text
  actor : Text
  key : PublicKey
deriving DecidableEq

def DecisionSnapshotV1.codec : Codec DecisionSnapshotV1 :=
  (Codec.text.pair <| Codec.text.pair <| Hash.codec.pair <| Codec.u64.pair <| TxId.codec.pair <|
    TxId.codec.pair <| TxId.codec.pair <| TxId.codec.pair <| Codec.text.pair <|
    Codec.text.pair PublicKey.codec).iso
    (fun s => (s.company, s.subject, s.proposalDigest, s.height, s.genesisTxId, s.sharesTxId,
      s.channelsTxId, s.identitiesTxId, s.channel, s.actor, s.key))
    (fun (c, s, p, h, g, sh, ch, i, n, a, k) => ⟨c, s, p, h, g, sh, ch, i, n, a, k⟩)
    (fun _ => rfl) fun _ => rfl

def decisionNamespace : Text := lit "irena.decision.v1"

def recordVersion : ℕ := 1

structure FinalDecisionRecordV1 where
  version : ℕ
  decisionId : DecisionIdV1
  snapshot : DecisionSnapshotV1
  signature : Signature
deriving DecidableEq

def DecisionIdV1.codec : Codec DecisionIdV1 :=
  Hash.codec.iso DecisionIdV1.hash DecisionIdV1.mk (fun _ => rfl) fun _ => rfl

def FinalDecisionRecordV1.codec : Codec FinalDecisionRecordV1 :=
  (Codec.u16.pair <| DecisionIdV1.codec.pair <| DecisionSnapshotV1.codec.pair Signature.codec).iso
    (fun r => (r.version, r.decisionId, r.snapshot, r.signature))
    (fun (v, d, s, g) => ⟨v, d, s, g⟩) (fun _ => rfl) fun _ => rfl

structure DecisionV1 where
  status : DecisionStatusV1
  subject : Text
  proposalDigest : Hash
  snapshot : Option DecisionSnapshotV1
  signature : Option Signature
  finalized : Option (TxId × ℕ)
deriving DecidableEq

structure FinalizedDecisionV1 where
  txId : TxId
  height : ℕ
  record : FinalDecisionRecordV1
deriving DecidableEq

variable [Platform]

def DecisionSnapshotV1.id (s : DecisionSnapshotV1) : DecisionIdV1 :=
  ⟨hashCanonical (lit "IRENA/decision/v1/id") DecisionSnapshotV1.codec s⟩

def DecisionSnapshotV1.signingMessage (s : DecisionSnapshotV1) : Hash :=
  hashCanonical (lit "IRENA/decision/v1/statement") DecisionSnapshotV1.codec s

def FinalDecisionRecordV1.assemble (snapshot : DecisionSnapshotV1) (signature : Signature) :
    FinalDecisionRecordV1 :=
  ⟨recordVersion, snapshot.id, snapshot, signature⟩

def FinalDecisionRecordV1.checkSignature (r : FinalDecisionRecordV1) : Except DecisionError Unit :=
  mapErr .badSignature
    (verifySignature r.snapshot.key r.snapshot.signingMessage.asBytes r.signature)

namespace DecisionV1

omit [Platform] in
def draft (subject : Text) (proposalDigest : Hash) : DecisionV1 :=
  ⟨.draft, subject, proposalDigest, none, none, none⟩

def expectStatus (d : DecisionV1) (wanted : DecisionStatusV1) (target : Text) :
    Except DecisionError Unit :=
  ensure (d.status = wanted) (.invalidTransition d.status target)

/-- Pins the company at a height and the sole actor of an individual channel. -/
def freeze (d : DecisionV1) (s : LocalChainStore) (at_ : ℕ) (channel : ChannelIdV1) :
    Except DecisionError DecisionV1 := do
  d.expectStatus .draft (lit "freeze")
  let state ← mapErr .ledger (reconstruct s at_)
  let resolved ← resolveChannel state channel
  let actor ← orError resolved.soleActor (.notIndividual channel)
  let key ← orError actor.key (.noKey channel actor.id.value)
  return { d with
    status := .frozen
    snapshot := some {
      company := state.company.value
      subject := d.subject
      proposalDigest := d.proposalDigest
      height := at_
      genesisTxId := state.genesisTxId
      sharesTxId := state.shares.txId
      channelsTxId := state.channels.txId
      identitiesTxId := state.identities.txId
      channel := channel.value
      actor := actor.id.value
      key := key } }

/-- Signs the frozen statement with the frozen actor's key. -/
def sign (d : DecisionV1) (key : SigningKey) : Except DecisionError DecisionV1 := do
  d.expectStatus .frozen (lit "sign")
  let snapshot ← orError d.snapshot .panicked
  ensure (Platform.publicKey key = snapshot.key) (.wrongKey snapshot.actor)
  return { d with
    status := .signed
    signature := some (Platform.sign key snapshot.signingMessage.asBytes) }

def finalRecord (d : DecisionV1) : Except DecisionError FinalDecisionRecordV1 := do
  ensure (d.status = .signed ∨ d.status = .finalized)
    (.invalidTransition d.status (lit "build the final record of"))
  let snapshot ← orError d.snapshot .panicked
  let signature ← orError d.signature .panicked
  return .assemble snapshot signature

def decisionFaults : ChainFaults DecisionError := ⟨.store, .core, .missingHead⟩

/-- Publishes the signed decision. -/
def finalize (d : DecisionV1) (key : SigningKey) (timestampMillis : ℕ) :
    ChainProgram DecisionError (DecisionV1 × FinalizedDecisionV1) := do
  Program.lift (d.expectStatus .signed (lit "finalize"))
  let record ← Program.lift d.finalRecord
  Program.lift record.checkSignature
  let now ← readCompanyNow.mapError .ledger
  let _ ← Program.lift (mapErr .ledger (authorisedSigner now .governance (Platform.publicKey key)))
  let state ← (reconstructing record.snapshot.height).mapError .ledger
  Program.lift (ensure (state.channels.txId = record.snapshot.channelsTxId ∧
      state.company.value = record.snapshot.company)
    (.channelsMoved record.snapshot.height record.snapshot.channelsTxId state.channels.txId))
  let (txId, height) ← appendTransaction decisionFaults key decisionNamespace
    (FinalDecisionRecordV1.codec.encode record) timestampMillis
  return ({ d with status := .finalized, finalized := some (txId, height) }, ⟨txId, height, record⟩)

end DecisionV1

end Irena.Decision
