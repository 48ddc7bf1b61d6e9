import Irena.Prunella.Block

/-! # The deterministic block rules

Every rule is evaluated, and each violation is a finding that says where it is. -/

namespace Irena.Prunella

open Irena.Library Irena.Library.Outcome

inductive FindingKind where
  | unsupportedHeaderVersion
  | networkMismatch
  | genesisMismatch
  | heightOutOfOrder
  | missingBlock
  | previousHashMismatch
  | blockHashMismatch
  | txRootMismatch
  | txCountMismatch
  | txIdMismatch
  | signatureInvalid
  | duplicateTxIdInBlock
  | duplicateTxIdInChain
  | timestampRegression
  | decodeError
  | sourceFailure
deriving DecidableEq

/-- Where in a chain a finding was produced, as far as it has a place. -/
structure Location where
  height : Option ℕ := none
  blockHash : Option Hash := none
  transaction : Option (ℕ × TxId) := none
deriving DecidableEq

def Location.atHeight (height : ℕ) : Location := { height := some height }

def Location.withBlockHash (l : Location) (hash : Hash) : Location :=
  { l with blockHash := some hash }

structure Finding where
  kind : FindingKind
  location : Location
deriving DecidableEq

/-- What a block is judged against. -/
structure BlockContext where
  expectedNetwork : NetworkId
  parent : Option BlockHeader
  expectedHash : Option Hash
  committedTransactions : Option (TxId → Bool)

/-- A finding of `kind` at `location`, unless `holds`. -/
def findUnless (holds : Bool) (kind : FindingKind) (location : Location) : List Finding :=
  if holds then [] else [⟨kind, location⟩]

@[simp] theorem findUnless_eq_nil {holds : Bool} {kind : FindingKind} {location : Location} :
    findUnless holds kind location = [] ↔ holds = true := by
  unfold findUnless
  split <;> simp_all

variable [Platform]

def checkLinkage (context : BlockContext) (header : BlockHeader) (here : Location) :
    List Finding :=
  match context.parent with
  | none =>
    findUnless (header.height == 0) .heightOutOfOrder here ++
      findUnless (header.previousHash == Hash.zero) .previousHashMismatch here
  | some parent =>
    findUnless (parent.height < u64Max && header.height == parent.height + 1)
        .heightOutOfOrder here ++
      findUnless (header.previousHash == parent.blockHash) .previousHashMismatch here ++
      findUnless (parent.timestampMillis ≤ header.timestampMillis) .timestampRegression here

def checkTransactionCommitments (block : Block) (here : Location) : List Finding :=
  findUnless (block.transactions.length ≤ u32Max && block.transactions.length == block.header.txCount)
      .txCountMismatch here ++
    findUnless
      (match Transaction.computeRoot block.transactions with
        | .ok root => root == block.header.txRoot
        | .error _ => false)
      .txRootMismatch here

/-- The findings of the transactions from position `index` on; `seen` are the ids before it. -/
def checkTransactionsFrom (context : BlockContext) (here : Location) :
    ℕ → List TxId → List Transaction → List Finding
  | _, _, [] => []
  | index, seen, t :: rest =>
    let at_ : Location := { here with transaction := some (min index u32Max, t.id) }
    findUnless (t.computeId == t.id) .txIdMismatch at_ ++
      findUnless (match verifyTransaction t with | .ok () => true | .error _ => false)
        .signatureInvalid at_ ++
      findUnless (!seen.contains t.id) .duplicateTxIdInBlock at_ ++
      findUnless
        (match context.committedTransactions with
          | some committed => !committed t.id
          | none => true)
        .duplicateTxIdInChain at_ ++
      checkTransactionsFrom context here (index + 1) (t.id :: seen) rest

/-- Applies every deterministic rule to one block and returns each violation found. -/
def checkBlock (context : BlockContext) (block : Block) : List Finding :=
  let header := block.header
  let here := (Location.atHeight header.height).withBlockHash header.blockHash
  findUnless (header.version == headerVersion) .unsupportedHeaderVersion here ++
    findUnless (header.networkId == context.expectedNetwork) .networkMismatch here ++
    checkLinkage context header here ++
    checkTransactionCommitments block here ++
    checkTransactionsFrom context here 0 [] block.transactions ++
    findUnless
      (match context.expectedHash with
        | some expected => expected == header.blockHash
        | none => true)
      .blockHashMismatch here

/-- A transaction whose id is the one its content derives and whose signature verifies. -/
def Transaction.Sound (t : Transaction) : Prop :=
  t.computeId = t.id ∧ verifyTransaction t = .ok ()

theorem checkTransactionsFrom_eq_nil {context : BlockContext} {here : Location} {index : ℕ}
    {seen : List TxId} {ts : List Transaction} :
    checkTransactionsFrom context here index seen ts = [] ↔
      (∀ t ∈ ts, t.Sound) ∧ (ts.map Transaction.id).Nodup ∧
        (∀ t ∈ ts, t.id ∉ seen) ∧
        ∀ committed, context.committedTransactions = some committed →
          ∀ t ∈ ts, committed t.id = false := by
  induction ts generalizing index seen with
  | nil => simp [checkTransactionsFrom]
  | cons t ts ih =>
    simp only [checkTransactionsFrom, List.append_eq_nil_iff, findUnless_eq_nil, ih,
      List.mem_cons, forall_eq_or_imp, List.map_cons, List.nodup_cons, Transaction.Sound,
      beq_iff_eq]
    have hsig : (match verifyTransaction t with | .ok () => true | .error _ => false) = true ↔
        verifyTransaction t = .ok () := by
      cases verifyTransaction t <;> simp
    have hseen : (∀ u ∈ ts, ¬(u.id = t.id ∨ u.id ∈ seen)) ↔
        t.id ∉ ts.map Transaction.id ∧ ∀ u ∈ ts, u.id ∉ seen := by
      constructor
      · intro h
        refine ⟨fun hmem => ?_, fun u hu hin => h u hu (.inr hin)⟩
        obtain ⟨u, hu, heq⟩ := List.mem_map.mp hmem
        exact h u hu (.inl heq)
      · rintro ⟨hne, hout⟩ u hu (heq | hin)
        · exact hne (List.mem_map.mpr ⟨u, hu, heq⟩)
        · exact hout u hu hin
    have hcontains : (!seen.contains t.id) = true ↔ t.id ∉ seen := by simp
    rw [hsig, hseen, hcontains]
    cases context.committedTransactions with
    | none =>
      simp only [reduceCtorEq, false_implies, implies_true, and_true]
      tauto
    | some committed =>
      simp only [Option.some.injEq, forall_eq', Bool.not_eq_true']
      tauto

theorem checkTransactionCommitments_eq_nil {block : Block} {here : Location} :
    checkTransactionCommitments block here = [] ↔
      block.transactions.length ≤ u32Max ∧ block.header.txCount = block.transactions.length ∧
        block.header.txRoot = merkleRoot (block.transactions.map Transaction.id) := by
  unfold checkTransactionCommitments Transaction.computeRoot
  by_cases hlen : block.transactions.length ≤ u32Max
  · rw [if_pos hlen]
    simp only [List.append_eq_nil_iff, findUnless_eq_nil, Bool.and_eq_true, decide_eq_true_eq,
      beq_iff_eq, hlen, true_and]
    rw [@eq_comm _ block.header.txCount, @eq_comm _ block.header.txRoot]
  · simp [hlen]

/-- An acceptable child of `parent`: its place, its commitments and its transactions. -/
structure ChildOf (network : NetworkId) (parent : BlockHeader) (committed : TxId → Bool)
    (block : Block) : Prop where
  version : block.header.version = headerVersion
  network : block.header.networkId = network
  room : parent.height < u64Max
  height : block.header.height = parent.height + 1
  previousHash : block.header.previousHash = parent.blockHash
  timestamp : parent.timestampMillis ≤ block.header.timestampMillis
  length : block.transactions.length ≤ u32Max
  txCount : block.header.txCount = block.transactions.length
  txRoot : block.header.txRoot = merkleRoot (block.transactions.map Transaction.id)
  sound : ∀ t ∈ block.transactions, t.Sound
  nodup : (block.transactions.map Transaction.id).Nodup
  fresh : ∀ t ∈ block.transactions, committed t.id = false

theorem checkBlock_child {network : NetworkId} {parent : BlockHeader} {committed : TxId → Bool}
    {block : Block} :
    checkBlock ⟨network, some parent, none, some committed⟩ block = [] ↔
      ChildOf network parent committed block := by
  simp only [checkBlock, checkLinkage, List.append_eq_nil_iff, findUnless_eq_nil,
    checkTransactionCommitments_eq_nil, checkTransactionsFrom_eq_nil, Bool.and_eq_true,
    beq_iff_eq, decide_eq_true_eq, List.not_mem_nil, not_false_eq_true, implies_true, true_and,
    Option.some.injEq, forall_eq', and_true]
  constructor
  · rintro ⟨⟨⟨⟨hv, hn⟩, ⟨⟨hr, hh⟩, hp⟩, ht⟩, hl, hc, hroot⟩, hs, hd, hf⟩
    exact ⟨hv, hn, hr, hh, hp, ht, hl, hc, hroot, hs, hd, hf⟩
  · rintro ⟨hv, hn, hr, hh, hp, ht, hl, hc, hroot, hs, hd, hf⟩
    exact ⟨⟨⟨⟨hv, hn⟩, ⟨⟨hr, hh⟩, hp⟩, ht⟩, hl, hc, hroot⟩, hs, hd, hf⟩

/-- An acceptable genesis block. -/
structure GenesisOf (network : NetworkId) (block : Block) : Prop where
  version : block.header.version = headerVersion
  network : block.header.networkId = network
  height : block.header.height = 0
  previousHash : block.header.previousHash = Hash.zero
  length : block.transactions.length ≤ u32Max
  txCount : block.header.txCount = block.transactions.length
  txRoot : block.header.txRoot = merkleRoot (block.transactions.map Transaction.id)
  sound : ∀ t ∈ block.transactions, t.Sound
  nodup : (block.transactions.map Transaction.id).Nodup

theorem checkBlock_genesis {network : NetworkId} {block : Block} :
    checkBlock ⟨network, none, none, some fun _ => false⟩ block = [] ↔
      GenesisOf network block := by
  simp only [checkBlock, checkLinkage, List.append_eq_nil_iff, findUnless_eq_nil,
    checkTransactionCommitments_eq_nil, checkTransactionsFrom_eq_nil, beq_iff_eq,
    List.not_mem_nil, not_false_eq_true, implies_true, and_true, Option.some.injEq, forall_eq']
  constructor
  · rintro ⟨⟨⟨⟨hv, hn⟩, hh, hp⟩, hl, hc, hroot⟩, hs, hd⟩
    exact ⟨hv, hn, hh, hp, hl, hc, hroot, hs, hd⟩
  · rintro ⟨hv, hn, hh, hp, hl, hc, hroot, hs, hd⟩
    exact ⟨⟨⟨⟨hv, hn⟩, hh, hp⟩, hl, hc, hroot⟩, hs, hd⟩

end Irena.Prunella
