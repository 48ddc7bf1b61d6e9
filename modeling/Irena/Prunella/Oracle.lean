import Irena.Prunella.Merkle

/-! # The conformance oracle

A second implementation of the protocol's bytes and tree, written by hand. It agrees with the
canonical encoding on every value that fits its fields. -/

namespace Irena.Prunella

open Irena.Library Irena.Library.Strings Irena.Library.Numeral Irena.Library.Utf8

namespace Oracle

/-- The `width` bytes of an integer of that many bytes, the lowest first. -/
def toLeBytes (width value : ℕ) : Bytes :=
  (List.range width).map fun i => value / 256 ^ i % 256

def u16 (out : Bytes) (value : ℕ) : Bytes := out ++ toLeBytes 2 value

def u32 (out : Bytes) (value : ℕ) : Bytes := out ++ toLeBytes 4 value

def u64 (out : Bytes) (value : ℕ) : Bytes := out ++ toLeBytes 8 value

/-- A byte string with its length before it; the oracle aborts where that does not fit. -/
def bytes (out value : Bytes) : Option Bytes :=
  if value.length ≤ u32Max then some (u32 out value.length ++ value) else none

def string (out : Bytes) (value : Text) : Option Bytes := bytes out (utf8 value)

/-- The fields of a transaction a signer commits to. -/
structure TxInput where
  namespace_ : Text
  schemaVersion : ℕ
  payload : Bytes
  signer : Bytes
  nonce : ℕ

def signingPreimage (tx : TxInput) : Option Bytes := do
  let out ← string [] tx.namespace_
  let out ← bytes (u32 out tx.schemaVersion) tx.payload
  return u64 (out ++ tx.signer) tx.nonce

def transaction (id : Bytes) (tx : TxInput) (signature : Bytes) : Option Bytes := do
  let out ← string id tx.namespace_
  let out ← bytes (u32 out tx.schemaVersion) tx.payload
  return u64 (out ++ tx.signer) tx.nonce ++ signature

structure HeaderInput where
  networkId : Text
  height : ℕ
  previousHash : Bytes
  txRoot : Bytes
  txCount : ℕ
  timestampMillis : ℕ

def header (h : HeaderInput) : Option Bytes := do
  let out ← string (u16 [] 1) h.networkId
  let out := u64 out h.height ++ h.previousHash ++ h.txRoot
  return u64 (u32 out h.txCount) h.timestampMillis

def block (headerBytes : Bytes) (transactions : List Bytes) : Option Bytes :=
  if transactions.length ≤ u32Max then
    some (transactions.foldl (· ++ ·) (u32 headerBytes transactions.length))
  else none

section Tree

variable [Platform]

def hashDomain (tag : Text) (parts : List Bytes) : Hash :=
  Platform.blake3 (parts.foldl (· ++ ·) (toLeBytes 4 (utf8 tag).length ++ utf8 tag))

def leaf (id : Hash) : Hash := hashDomain (lit "PRUNELLA/v1/tx-leaf") [id.asBytes]

def node (left right : Hash) : Hash :=
  hashDomain (lit "PRUNELLA/v1/tx-node") [left.asBytes, right.asBytes]

/-- The largest power of two strictly below `n`. -/
def split (n : ℕ) : ℕ := doubleBelow n n 1

/-- The root over `ids`; the depth is bounded by their number. -/
def merkleRootWithin : ℕ → List Hash → Hash
  | depth, ids =>
    if ids.length = 0 then hashDomain (lit "PRUNELLA/v1/tx-root") []
    else if ids.length = 1 then leaf (ids.headD Hash.zero)
    else
      match depth with
      | 0 => Hash.zero
      | depth + 1 =>
        let k := split ids.length
        node (merkleRootWithin depth (ids.take k)) (merkleRootWithin depth (ids.drop k))

def merkleRoot (ids : List Hash) : Hash := merkleRootWithin ids.length ids

/-- The audit path for `index`, the lowest first: whether the sibling is on the left, and its
root. -/
def auditPathWithin : ℕ → List Hash → ℕ → List (Bool × Hash)
  | depth, ids, index =>
    if ids.length ≤ 1 then []
    else
      match depth with
      | 0 => []
      | depth + 1 =>
        let k := split ids.length
        if index < k then
          auditPathWithin depth (ids.take k) index ++ [(false, merkleRoot (ids.drop k))]
        else
          auditPathWithin depth (ids.drop k) (index - k) ++ [(true, merkleRoot (ids.take k))]

def auditPath (ids : List Hash) (index : ℕ) : List (Bool × Hash) :=
  auditPathWithin ids.length ids index

end Tree

def TxInput.of (t : Transaction) : TxInput :=
  ⟨t.namespace_.value, t.schemaVersion, t.payload, PublicKey.codec.encode t.signer, t.nonce⟩

def HeaderInput.of (h : BlockHeader) : HeaderInput :=
  ⟨h.networkId.value, h.height, h.previousHash.asBytes, h.txRoot.asBytes, h.txCount,
    h.timestampMillis⟩

def transactionOf (t : Transaction) : Option Bytes :=
  transaction (TxId.codec.encode t.id) (.of t) (Signature.codec.encode t.signature)

/-- A whole block, each part written by the oracle. -/
def blockOf (b : Block) : Option Bytes := do
  let headerBytes ← header (.of b.header)
  let transactions ← b.transactions.mapM transactionOf
  block headerBytes transactions

end Oracle

/-- A transaction whose integers fit their fields and whose strings fit their lengths. -/
structure Transaction.Fits (t : Transaction) : Prop where
  namespace_ : byteLength t.namespace_.value ≤ u32Max
  schemaVersion : t.schemaVersion ≤ u32Max
  payload : t.payload.length ≤ u32Max
  nonce : t.nonce ≤ u64Max

/-- A header of the supported version whose integers fit their fields. -/
structure BlockHeader.Fits (h : BlockHeader) : Prop where
  version : h.version = headerVersion
  networkId : byteLength h.networkId.value ≤ u32Max
  height : h.height ≤ u64Max
  txCount : h.txCount ≤ u32Max
  timestampMillis : h.timestampMillis ≤ u64Max

structure Block.Fits (b : Block) : Prop where
  header : b.header.Fits
  length : b.transactions.length ≤ u32Max
  transactions : ∀ t ∈ b.transactions, t.Fits

namespace Oracle

theorem toLeBytes_succ (width value : ℕ) :
    toLeBytes (width + 1) value = value % 256 :: toLeBytes width (value / 256) := by
  unfold toLeBytes
  rw [List.range_succ_eq_map, List.map_cons, List.map_map, pow_zero, Nat.div_one]
  congr 1
  refine List.map_congr_left fun i _ => ?_
  simp only [Function.comp_apply, Nat.succ_eq_add_one, pow_succ']
  rw [Nat.div_div_eq_div_mul]

/-- An integer that fits is written as the canonical encoding writes it. -/
theorem toLeBytes_eq {low value : ℕ} (h : value < 256 ^ (low + 1)) :
    toLeBytes (low + 1) value = littleEndian low value := by
  induction low generalizing value with
  | zero => simpa [toLeBytes, littleEndian] using h
  | succ low ih =>
    rw [toLeBytes_succ, littleEndian, ih]
    rw [pow_succ] at h
    omega

theorem u32_eq {out : Bytes} {value : ℕ} (h : value ≤ u32Max) :
    u32 out value = out ++ Codec.u32.encode value :=
  congrArg (out ++ ·) (toLeBytes_eq (by unfold u32Max at h; omega))

theorem u64_eq {out : Bytes} {value : ℕ} (h : value ≤ u64Max) :
    u64 out value = out ++ Codec.u64.encode value :=
  congrArg (out ++ ·) (toLeBytes_eq (by unfold u64Max at h; omega))

theorem bytes_encode (value : Bytes) :
    Codec.bytes.encode value = Codec.u32.encode value.length ++ value := by
  have hbyte : Codec.u8.encode = fun b => [b] := rfl
  simp only [Codec.bytes, Codec.vec, hbyte, List.flatMap_singleton']

theorem bytes_eq {out value : Bytes} (h : value.length ≤ u32Max) :
    bytes out value = some (out ++ Codec.bytes.encode value) := by
  rw [bytes, if_pos h, u32_eq h, bytes_encode, List.append_assoc]

theorem string_eq {out : Bytes} {value : Text} (h : byteLength value ≤ u32Max) :
    string out value = some (out ++ Codec.text.encode value) := bytes_eq h

theorem signingPreimage_eq {t : Transaction} (h : t.Fits) :
    signingPreimage (.of t) = some (TransactionDraft.codec.encode t.draft) := by
  simp only [signingPreimage, TxInput.of, string_eq h.namespace_, Option.bind_eq_bind,
    Option.bind_some, u32_eq h.schemaVersion, bytes_eq h.payload, u64_eq h.nonce,
    List.nil_append, List.append_assoc]
  rfl

theorem transaction_eq {t : Transaction} (h : t.Fits) :
    transactionOf t = some (Transaction.codec.encode t) := by
  simp only [transactionOf, transaction, TxInput.of, string_eq h.namespace_, Option.bind_eq_bind,
    Option.bind_some, u32_eq h.schemaVersion, bytes_eq h.payload, u64_eq h.nonce,
    List.append_assoc]
  simp only [Transaction.codec, TransactionDraft.codec, Codec.iso, Codec.refine, Codec.pair,
    List.append_assoc]
  rfl

theorem header_eq {h : BlockHeader} (hfits : h.Fits) :
    header (.of h) = some (BlockHeader.codec.encode h) := by
  have hversion : u16 [] 1 = Codec.u16.encode h.version := by
    rw [hfits.version]
    rfl
  simp only [header, HeaderInput.of, hversion, string_eq hfits.networkId, Option.bind_eq_bind,
    Option.bind_some, u64_eq hfits.height, u32_eq hfits.txCount, u64_eq hfits.timestampMillis,
    List.append_assoc]
  rfl

theorem foldl_append (parts : List Bytes) (start : Bytes) :
    parts.foldl (· ++ ·) start = start ++ parts.flatten := by
  induction parts generalizing start with
  | nil => simp
  | cons part parts ih => rw [List.foldl_cons, ih, List.flatten_cons, List.append_assoc]

theorem transactions_eq {ts : List Transaction} (h : ∀ t ∈ ts, t.Fits) :
    ts.mapM transactionOf = some (ts.map Transaction.codec.encode) := by
  induction ts with
  | nil => rfl
  | cons t ts ih =>
    rw [List.mapM_cons, transaction_eq (h t List.mem_cons_self),
      ih fun u hu => h u (List.mem_cons_of_mem _ hu)]
    rfl

theorem blockOf_eq {b : Block} (h : b.Fits) : blockOf b = some (Block.codec.encode b) := by
  simp only [blockOf, header_eq h.header, transactions_eq h.transactions, Option.bind_eq_bind,
    Option.bind_some]
  rw [block, List.length_map, if_pos h.length, foldl_append, u32_eq h.length,
    ← List.flatMap_def, List.append_assoc]
  rfl

section Trees

variable [Platform]

theorem hashDomain_eq {tag : Text} {parts : List Bytes} (h : byteLength tag ≤ u32Max) :
    hashDomain tag parts = Prunella.hashDomain tag parts.flatten := by
  have hlength : toLeBytes 4 (utf8 tag).length = Codec.u32.encode (utf8 tag).length := by
    have hout := @u32_eq [] _ h
    exact hout
  rw [hashDomain, foldl_append, hlength]
  rfl

theorem empty_eq :
    hashDomain (lit "PRUNELLA/v1/tx-root") [] = emptyRootWith .prunellaV1 :=
  hashDomain_eq (by decide)

theorem leaf_eq (id : Hash) : leaf id = leafHashWith .prunellaV1 id := by
  rw [leaf, hashDomain_eq (by decide), List.flatten_singleton]
  rfl

theorem node_eq (left right : Hash) : node left right = nodeHashWith .prunellaV1 left right := by
  rw [node, hashDomain_eq (by decide), List.flatten_cons, List.flatten_singleton]
  rfl

theorem merkleRootWithin_eq {depth : ℕ} {ids : List Hash} (h : ids.length ≤ depth + 1) :
    merkleRootWithin depth ids = TreeTags.prunellaV1.hashing.root splitShape ids := by
  induction depth generalizing ids with
  | zero =>
    match ids, h with
    | [], _ =>
      rw [Merkle.TreeHash.root_nil]
      exact empty_eq
    | [id], _ =>
      rw [Merkle.TreeHash.root_singleton]
      exact leaf_eq id
  | succ depth ih =>
    match ids, h with
    | [], _ =>
      rw [Merkle.TreeHash.root_nil]
      exact empty_eq
    | [id], _ =>
      rw [Merkle.TreeHash.root_singleton]
      exact leaf_eq id
    | a :: b :: rest, h =>
      have htwo : 2 ≤ (a :: b :: rest).length := by simp
      have hpos := splitShape.pos htwo
      have hlt := splitShape.lt htwo
      have hsplit : splitShape.split = split := rfl
      rw [hsplit] at hpos hlt
      rw [merkleRootWithin, if_neg (by simp), if_neg (by simp), Merkle.TreeHash.root_halves _ _ htwo]
      dsimp only
      rw [hsplit, ih, ih, node_eq]
      · rfl
      · rw [List.length_drop]
        omega
      · rw [List.length_take]
        omega

theorem merkleRoot_eq (ids : List TxId) :
    merkleRoot (ids.map TxId.hash) = Prunella.merkleRoot ids :=
  (merkleRootWithin_eq (Nat.le_succ _)).trans (root_eq _ _).symm

/-- A step of the implementation as the oracle writes it. -/
def stepOf (step : Side × Hash) : Bool × Hash := (step.1 == .left, step.2)

theorem auditPathWithin_eq {depth index : ℕ} {ids : List Hash} (h : ids.length ≤ depth + 1) :
    auditPathWithin depth ids index =
      (TreeTags.prunellaV1.hashing.path splitShape ids index).map stepOf := by
  induction depth generalizing ids index with
  | zero => rw [auditPathWithin, if_pos h, Merkle.TreeHash.path_of_lt _ _ (by omega), List.map_nil]
  | succ depth ih =>
    by_cases hsmall : ids.length ≤ 1
    · rw [auditPathWithin, if_pos hsmall, Merkle.TreeHash.path_of_lt _ _ (by omega), List.map_nil]
    · have htwo : 2 ≤ ids.length := by omega
      have hpos := splitShape.pos htwo
      have hlt := splitShape.lt htwo
      have hsplit : splitShape.split = split := rfl
      rw [hsplit] at hpos hlt
      rw [auditPathWithin, if_neg hsmall]
      dsimp only
      by_cases hindex : index < split ids.length
      · rw [if_pos hindex, Merkle.TreeHash.path_left _ _ htwo hindex, List.map_append, hsplit, ih,
          merkleRoot, merkleRootWithin_eq (Nat.le_succ _)]
        · rfl
        · rw [List.length_take]
          omega
      · rw [if_neg hindex, Merkle.TreeHash.path_right _ _ htwo hindex, List.map_append, hsplit, ih,
          merkleRoot, merkleRootWithin_eq (Nat.le_succ _)]
        · rfl
        · rw [List.length_drop]
          omega

theorem auditPath_eq (ids : List Hash) (index : ℕ) :
    auditPath ids index = (Prunella.auditPath .prunellaV1 ids index).map fun step =>
      (step.side == .left, step.hash) := by
  rw [auditPath, auditPathWithin_eq (Nat.le_succ _), ← Prunella.auditPath_eq, List.map_map]
  rfl

end Trees

end Oracle

/-- The oracle writes what the canonical encoding writes and builds the same trees and paths. -/
theorem oracle_agrees [Platform] :
    (∀ t : Transaction, t.Fits →
      Oracle.signingPreimage (.of t) = some (TransactionDraft.codec.encode t.draft) ∧
        Oracle.transactionOf t = some (Transaction.codec.encode t)) ∧
    (∀ h : BlockHeader, h.Fits → Oracle.header (.of h) = some (BlockHeader.codec.encode h)) ∧
    (∀ b : Block, b.Fits → Oracle.blockOf b = some (Block.codec.encode b)) ∧
    ∀ ids : List TxId, Oracle.merkleRoot (ids.map TxId.hash) = merkleRoot ids ∧
      ∀ index, Oracle.auditPath (ids.map TxId.hash) index =
        (auditPath .prunellaV1 (ids.map TxId.hash) index).map fun step =>
          (step.side == .left, step.hash) := by
  refine ⟨fun t ht => ⟨Oracle.signingPreimage_eq ht, Oracle.transaction_eq ht⟩,
    fun h hh => Oracle.header_eq hh, fun b hb => Oracle.blockOf_eq hb, fun ids => ⟨?_, ?_⟩⟩
  · exact Oracle.merkleRoot_eq ids
  · exact fun index => Oracle.auditPath_eq _ index

section Samples

attribute [local instance] Sample.numberingPlatform

def noteTransaction : Transaction :=
  ⟨⟨⟨7⟩⟩, ⟨lit "demo"⟩, 1, [1, 2, 3], ⟨5⟩, 0, ⟨9⟩⟩

def noteBlock : Block :=
  ⟨⟨headerVersion, ⟨lit "demo"⟩, 0, Hash.zero, merkleRoot [noteTransaction.id], 1, 1000⟩,
    [noteTransaction]⟩

theorem noteTransaction_fits : noteTransaction.Fits :=
  ⟨by decide, by decide, by decide, by decide⟩

theorem noteBlock_fits : noteBlock.Fits :=
  ⟨⟨rfl, by decide, by decide, by decide, by decide⟩, by decide, fun t ht => by
    obtain rfl := List.mem_singleton.mp ht
    exact noteTransaction_fits⟩

theorem oracle_agrees_note :
    Oracle.transactionOf noteTransaction = some (Transaction.codec.encode noteTransaction) ∧
      Oracle.header (.of noteBlock.header) = some (BlockHeader.codec.encode noteBlock.header) ∧
      Oracle.blockOf noteBlock = some (Block.codec.encode noteBlock) :=
  ⟨(oracle_agrees.1 noteTransaction noteTransaction_fits).2,
    oracle_agrees.2.1 noteBlock.header noteBlock_fits.header,
    oracle_agrees.2.2.1 noteBlock noteBlock_fits⟩

end Samples

end Irena.Prunella
