import Irena.Prunella.Primitives

/-! # Transactions and blocks

The Merkle tree over transaction ids, a transaction with its two digests, and the header that
commits to a block's place and content. -/

namespace Irena.Prunella

open Irena.Library Irena.Library.Strings Irena.Library.Outcome

variable [Platform]

structure TreeTags where
  leaf : Text
  node : Text
  empty : Text

def TreeTags.prunellaV1 : TreeTags where
  leaf := lit "PRUNELLA/v1/tx-leaf"
  node := lit "PRUNELLA/v1/tx-node"
  empty := lit "PRUNELLA/v1/tx-root"

def leafHashWith (tags : TreeTags) (content : Hash) : Hash := hashDomain tags.leaf content.asBytes

def nodeHashWith (tags : TreeTags) (left right : Hash) : Hash :=
  hashDomain tags.node (left.asBytes ++ right.asBytes)

def emptyRootWith (tags : TreeTags) : Hash := hashDomain tags.empty []

/-- Doubles `k` while twice `k` is below `n`; the fuel bounds the doublings. -/
def doubleBelow (n : ℕ) : ℕ → ℕ → ℕ
  | 0, k => k
  | fuel + 1, k => if k * 2 < n then doubleBelow n fuel (k * 2) else k

/-- The largest power of two strictly less than `n`, for `n ≥ 2`. -/
def splitPoint (n : ℕ) : ℕ := doubleBelow n n 1

/-- The root over `leaves`; both halves are shorter, so their number bounds the depth. -/
def rootWithin (tags : TreeTags) : ℕ → List Hash → Hash
  | _, [] => emptyRootWith tags
  | _, [only] => leafHashWith tags only
  | 0, _ => emptyRootWith tags
  | depth + 1, leaves =>
    let split := splitPoint leaves.length
    nodeHashWith tags (rootWithin tags depth (leaves.take split))
      (rootWithin tags depth (leaves.drop split))

def root (tags : TreeTags) (leaves : List Hash) : Hash := rootWithin tags leaves.length leaves

def merkleRoot (ids : List TxId) : Hash := root .prunellaV1 (ids.map TxId.hash)

/-- A transaction before it is signed. -/
structure TransactionDraft where
  namespace_ : Namespace
  schemaVersion : ℕ
  payload : Bytes
  signer : PublicKey
  nonce : ℕ
deriving DecidableEq, Inhabited

structure Transaction where
  id : TxId
  namespace_ : Namespace
  schemaVersion : ℕ
  payload : Bytes
  signer : PublicKey
  nonce : ℕ
  signature : Signature
deriving DecidableEq, Inhabited

def TransactionDraft.codec : Codec TransactionDraft :=
  (Namespace.codec.pair <| Codec.u32.pair <| Codec.bytes.pair <| PublicKey.codec.pair Codec.u64).iso
    (fun d => (d.namespace_, d.schemaVersion, d.payload, d.signer, d.nonce))
    (fun (n, s, p, k, o) => ⟨n, s, p, k, o⟩) (fun _ => rfl) fun _ => rfl

def Transaction.codec : Codec Transaction :=
  (TxId.codec.pair <| TransactionDraft.codec.pair Signature.codec).iso
    (fun t => (t.id, ⟨t.namespace_, t.schemaVersion, t.payload, t.signer, t.nonce⟩, t.signature))
    (fun (i, d, g) => ⟨i, d.namespace_, d.schemaVersion, d.payload, d.signer, d.nonce, g⟩)
    (fun _ => rfl) fun _ => rfl

/-- The signed part of a transaction. -/
def Transaction.draft (t : Transaction) : TransactionDraft :=
  ⟨t.namespace_, t.schemaVersion, t.payload, t.signer, t.nonce⟩

/-- The digest a signer signs. -/
def TransactionDraft.signingMessage (d : TransactionDraft) : Hash :=
  hashCanonical (lit "PRUNELLA/v1/tx-sign") TransactionDraft.codec d

def Transaction.signingMessage (t : Transaction) : Hash := t.draft.signingMessage

/-- What a transaction's id is the digest of: the signed part and the signature. -/
def Transaction.idBytes (t : Transaction) : Bytes :=
  canonicalBytes (lit "PRUNELLA/v1/tx-id") (TransactionDraft.codec.pair Signature.codec)
    (t.draft, t.signature)

def Transaction.computeId (t : Transaction) : TxId := ⟨Platform.blake3 t.idBytes⟩

def TransactionDraft.intoTransaction (d : TransactionDraft) (signature : Signature) : Transaction :=
  let unnamed : Transaction :=
    ⟨⟨Hash.zero⟩, d.namespace_, d.schemaVersion, d.payload, d.signer, d.nonce, signature⟩
  { unnamed with id := unnamed.computeId }

/-- Signs a draft; the declared signer is overwritten with the key's public key. -/
def SigningKey.signTransaction (key : SigningKey) (d : TransactionDraft) : Transaction :=
  let draft := { d with signer := Platform.publicKey key }
  draft.intoTransaction (Platform.sign key draft.signingMessage.asBytes)

inductive CryptoError where
  | malformedPublicKey (signer : PublicKey)
  | signatureMismatch (signer : PublicKey)
deriving DecidableEq

/-- Verifies a signature over an arbitrary message. -/
def verifySignature (key : PublicKey) (message : Bytes) (signature : Signature) :
    Except CryptoError Unit :=
  match Platform.verifyStrict key message signature with
  | none => .error (.malformedPublicKey key)
  | some false => .error (.signatureMismatch key)
  | some true => .ok ()

theorem verifySignature_eq_ok {key : PublicKey} {message : Bytes} {signature : Signature} :
    verifySignature key message signature = .ok () ↔
      Platform.verifyStrict key message signature = some true := by
  unfold verifySignature
  rcases Platform.verifyStrict key message signature with _ | _ | _ <;> simp

def verifyTransaction (t : Transaction) : Except CryptoError Unit :=
  verifySignature t.signer t.signingMessage.asBytes t.signature

def Transaction.computeRoot (transactions : List Transaction) : Except CoreError Hash :=
  if transactions.length ≤ u32Max then .ok (merkleRoot (transactions.map Transaction.id))
  else .error (.tooManyTransactions transactions.length)

@[simp] theorem intoTransaction_draft (d : TransactionDraft) (signature : Signature) :
    (d.intoTransaction signature).draft = d := rfl

@[simp] theorem intoTransaction_id (d : TransactionDraft) (signature : Signature) :
    (d.intoTransaction signature).computeId = (d.intoTransaction signature).id := rfl

@[simp] theorem signTransaction_signer (key : SigningKey) (d : TransactionDraft) :
    (key.signTransaction d).signer = Platform.publicKey key := rfl

@[simp] theorem signTransaction_namespace (key : SigningKey) (d : TransactionDraft) :
    (key.signTransaction d).namespace_ = d.namespace_ := rfl

@[simp] theorem signTransaction_payload (key : SigningKey) (d : TransactionDraft) :
    (key.signTransaction d).payload = d.payload := rfl

@[simp] theorem signTransaction_schemaVersion (key : SigningKey) (d : TransactionDraft) :
    (key.signTransaction d).schemaVersion = d.schemaVersion := rfl

@[simp] theorem signTransaction_id (key : SigningKey) (d : TransactionDraft) :
    (key.signTransaction d).computeId = (key.signTransaction d).id := rfl

/-- What a key signs verifies. -/
theorem verifyTransaction_signTransaction [SignaturesVerify] (key : SigningKey)
    (d : TransactionDraft) : verifyTransaction (key.signTransaction d) = .ok () := by
  unfold verifyTransaction verifySignature
  have h : Platform.verifyStrict (key.signTransaction d).signer
      (key.signTransaction d).signingMessage.asBytes (key.signTransaction d).signature =
        some true := SignaturesVerify.verifies key _
  rw [h]

/-- A derived id determines the transaction, unless the two are a collision. -/
theorem eq_of_id_eq {s t : Transaction} (hs : s.computeId = s.id) (ht : t.computeId = t.id)
    (h : s.id = t.id) : s = t ∨ Collision s.idBytes t.idBytes := by
  have hid : s.computeId = t.computeId := by rw [hs, ht, h]
  rcases hashCanonical_eq (congrArg TxId.hash hid) with hpair | hcollision
  · obtain ⟨hdraft, -⟩ := Prod.mk.inj hpair
    left
    cases s
    cases t
    simp only [Transaction.draft, TransactionDraft.mk.injEq] at hdraft
    simp_all
  · exact .inr hcollision

def headerVersion : ℕ := 1

structure BlockHeader where
  version : ℕ
  networkId : NetworkId
  height : ℕ
  previousHash : Hash
  txRoot : Hash
  txCount : ℕ
  timestampMillis : ℕ
deriving DecidableEq, Inhabited

structure Block where
  header : BlockHeader
  transactions : List Transaction
deriving DecidableEq, Inhabited

def BlockHeader.codec : Codec BlockHeader :=
  (Codec.u16.pair <| NetworkId.codec.pair <| Codec.u64.pair <| Hash.codec.pair <|
    Hash.codec.pair <| Codec.u32.pair Codec.u64).iso
    (fun h => (h.version, h.networkId, h.height, h.previousHash, h.txRoot, h.txCount,
      h.timestampMillis))
    (fun (v, n, h, p, r, c, t) => ⟨v, n, h, p, r, c, t⟩) (fun _ => rfl) fun _ => rfl

def Block.codec : Codec Block :=
  (BlockHeader.codec.pair Transaction.codec.vec).iso (fun b => (b.header, b.transactions))
    (fun (h, ts) => ⟨h, ts⟩) (fun _ => rfl) fun _ => rfl

def BlockHeader.blockHash (h : BlockHeader) : Hash :=
  hashCanonical (lit "PRUNELLA/v1/block-header") BlockHeader.codec h

def Block.hash (b : Block) : Hash := b.header.blockHash

/-- A block before its header is derived. -/
structure BlockDraft where
  networkId : NetworkId
  height : ℕ
  previousHash : Hash
  timestampMillis : ℕ
  transactions : List Transaction

def BlockHeader.childDraft (h : BlockHeader) (transactions : List Transaction)
    (timestampMillis : ℕ) : Except CoreError BlockDraft := do
  let height ← nextHeight h.height
  return ⟨h.networkId, height, h.blockHash, timestampMillis, transactions⟩

def BlockDraft.build (d : BlockDraft) : Except CoreError Block := do
  ensure (d.transactions.length ≤ u32Max) (.tooManyTransactions d.transactions.length)
  let txRoot ← Transaction.computeRoot d.transactions
  return {
    header := {
      version := headerVersion
      networkId := d.networkId
      height := d.height
      previousHash := d.previousHash
      txRoot := txRoot
      txCount := d.transactions.length
      timestampMillis := d.timestampMillis }
    transactions := d.transactions }

/-- What a genesis block is derived from. -/
structure GenesisSpec where
  networkId : NetworkId
  timestampMillis : ℕ
  transactions : List Transaction

def GenesisSpec.build (g : GenesisSpec) : Except CoreError Block :=
  BlockDraft.build ⟨g.networkId, 0, Hash.zero, g.timestampMillis, g.transactions⟩

structure ChainHead where
  height : ℕ
  hash : Hash
deriving DecidableEq

/-- A built block carries what its draft says, and its header commits to it. -/
theorem BlockDraft.build_eq_ok {d : BlockDraft} {b : Block} :
    d.build = .ok b ↔ d.transactions.length ≤ u32Max ∧
      b = ⟨⟨headerVersion, d.networkId, d.height, d.previousHash,
        merkleRoot (d.transactions.map Transaction.id), d.transactions.length,
        d.timestampMillis⟩, d.transactions⟩ := by
  unfold BlockDraft.build Transaction.computeRoot
  by_cases hlen : d.transactions.length ≤ u32Max
  · rw [ensure_of hlen, ok_bind, if_pos hlen, ok_bind, pure_eq_ok, Except.ok.injEq]
    simp only [hlen, true_and]
    exact eq_comm
  · simp [hlen]

theorem BlockHeader.childDraft_eq_ok {h : BlockHeader} {ts : List Transaction} {time : ℕ}
    {d : BlockDraft} :
    h.childDraft ts time = .ok d ↔
      h.height < u64Max ∧ d = ⟨h.networkId, h.height + 1, h.blockHash, time, ts⟩ := by
  unfold BlockHeader.childDraft
  simp only [bind_eq_ok, nextHeight_eq_ok, pure_eq_ok, Except.ok.injEq]
  constructor
  · rintro ⟨next, ⟨rfl, hlt⟩, rfl⟩
    exact ⟨hlt, rfl⟩
  · rintro ⟨hlt, rfl⟩
    exact ⟨_, ⟨rfl, hlt⟩, rfl⟩

end Irena.Prunella
