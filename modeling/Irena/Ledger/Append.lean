import Irena.Prunella.Chain

/-! # Appending one transaction

Every operation that writes to the chain ends alike: it reads the head and its block, signs a
transaction whose nonce is the next height, and appends the block that holds it alone. -/

namespace Irena.Ledger

open Irena.Library Irena.Library.Outcome Irena.Library.Strings
open Irena.Prunella Irena.Prunella.LocalChainStore

variable [Platform] {ε : Type}

/-- How an operation reports what the chain refused. -/
structure ChainFaults (ε : Type) where
  store : StoreError → ε
  core : CoreError → ε
  missingHead : ℕ → ε

abbrev ChainProgram (ε α : Type) := Program LocalChainStore ε α

def readHead : ChainProgram ε ChainHead := Program.read fun s => .ok s.head

/-- The block at the head height read before, which no one can have removed. -/
def readParent (faults : ChainFaults ε) (head : ChainHead) : ChainProgram ε Block :=
  Program.read fun s => orError (s.getBlock head.height) (faults.missingHead head.height)

def append (faults : ChainFaults ε) (block : Block) : ChainProgram ε AppendOutcome :=
  Program.modify fun s => (mapErr faults.store (s.appendBlock block).1, (s.appendBlock block).2)

/-- The schema version of every namespace of the repository. -/
def schemaVersion : ℕ := 1

def transactionFor (key : SigningKey) (namespace_ : Text) (payload : Bytes) (nonce : ℕ) :
    Except CoreError Transaction := do
  let namespace_ ← Namespace.new namespace_
  return key.signTransaction ⟨namespace_, schemaVersion, payload, Platform.publicKey key, nonce⟩

/-- The block that follows a parent and holds one transaction. -/
def blockAfter (parent : Block) (transaction : Transaction) (timestampMillis : ℕ) :
    Except CoreError Block := do
  let draft ← parent.header.childDraft [transaction] timestampMillis
  draft.build

def appendTransaction (faults : ChainFaults ε) (key : SigningKey) (namespace_ : Text)
    (payload : Bytes) (timestampMillis : ℕ) : ChainProgram ε (TxId × ℕ) := do
  let head ← readHead
  let parent ← readParent faults head
  let height ← Program.lift (mapErr faults.core (nextHeight head.height))
  let transaction ← Program.lift (mapErr faults.core (transactionFor key namespace_ payload height))
  let block ← Program.lift (mapErr faults.core (blockAfter parent transaction timestampMillis))
  let _ ← append faults block
  return (transaction.id, height)

@[simp] theorem run_readHead (s : LocalChainStore) :
    (readHead : ChainProgram ε ChainHead).run s = (.ok s.head, s) := rfl

@[simp] theorem run_readParent (faults : ChainFaults ε) (s : LocalChainStore) :
    (readParent faults s.head).run s = (.ok s.headBlock, s) := by
  rw [readParent, Program.run_read, getBlock_head]
  rfl

@[simp] theorem run_append (faults : ChainFaults ε) (block : Block) (s : LocalChainStore) :
    (append faults block).run s =
      (mapErr faults.store (s.appendBlock block).1, (s.appendBlock block).2) := rfl

/-- The transaction that would follow the head. -/
def nextTransaction (s : LocalChainStore) (key : SigningKey) (namespace_ : Text) (payload : Bytes) :
    Transaction :=
  key.signTransaction
    ⟨⟨namespace_⟩, schemaVersion, payload, Platform.publicKey key, s.head.height + 1⟩

/-- The block that would follow the head with one transaction. -/
def nextBlock (s : LocalChainStore) (transaction : Transaction) (timestampMillis : ℕ) : Block :=
  ⟨⟨headerVersion, s.headBlock.header.networkId, s.headBlock.header.height + 1, s.headBlock.hash,
    merkleRoot [transaction.id], 1, timestampMillis⟩, [transaction]⟩

/-- On a well-formed chain the next block with one transaction is acceptable when there is room for
it, time has not gone back, and the transaction is sound and new. -/
theorem childOf_nextBlock {s : LocalChainStore} (hs : s.WellFormed) {t : Transaction} {time : ℕ} :
    ChildOf s.networkId s.headBlock.header s.containsTransaction (nextBlock s t time) ↔
      s.head.height < u64Max ∧ s.headBlock.header.timestampMillis ≤ time ∧ t.Sound ∧
        s.containsTransaction t.id = false := by
  have hhead := hs.head_height
  constructor
  · intro h
    refine ⟨hhead ▸ h.room, h.timestamp, h.sound t ?_, h.fresh t ?_⟩ <;>
      exact List.mem_singleton_self t
  · rintro ⟨hroom, htime, hsound, hfresh⟩
    exact {
      version := rfl
      network := hs.head_network
      room := hhead ▸ hroom
      height := rfl
      previousHash := rfl
      timestamp := htime
      length := by change 1 ≤ u32Max; decide
      txCount := rfl
      txRoot := rfl
      sound := fun u hu => List.mem_singleton.mp hu ▸ hsound
      nodup := List.nodup_singleton _
      fresh := fun u hu => List.mem_singleton.mp hu ▸ hfresh }

/-- What a key signs is sound. -/
theorem sound_signTransaction [SignaturesVerify] (key : SigningKey) (d : TransactionDraft) :
    (key.signTransaction d).Sound :=
  ⟨signTransaction_id key d, verifyTransaction_signTransaction key d⟩

theorem blockAfter_eq_ok {parent b : Block} {transaction : Transaction} {time : ℕ} :
    blockAfter parent transaction time = .ok b ↔ parent.header.height < u64Max ∧
      b = ⟨⟨headerVersion, parent.header.networkId, parent.header.height + 1, parent.hash,
        merkleRoot [transaction.id], 1, time⟩, [transaction]⟩ := by
  have hone : 1 ≤ u32Max := by decide
  simp only [blockAfter, bind_eq_ok, BlockHeader.childDraft_eq_ok, BlockDraft.build_eq_ok]
  constructor
  · rintro ⟨d, ⟨hroom, rfl⟩, -, rfl⟩
    exact ⟨hroom, rfl⟩
  · rintro ⟨hroom, rfl⟩
    exact ⟨_, ⟨hroom, rfl⟩, hone, rfl⟩

omit [Platform] in
theorem namespace_new_eq_ok {value : Text} {n : Namespace} (h : Namespace.new value = .ok n) :
    n = ⟨value⟩ := by
  unfold Namespace.new at h
  split at h
  · cases h
  · exact (Except.ok.inj h).symm

theorem transactionFor_eq_ok {key : SigningKey} {namespace_ : Text} {payload : Bytes} {nonce : ℕ}
    {t : Transaction} (h : transactionFor key namespace_ payload nonce = .ok t) :
    t = key.signTransaction
      ⟨⟨namespace_⟩, schemaVersion, payload, Platform.publicKey key, nonce⟩ := by
  rw [transactionFor, bind_eq_ok] at h
  obtain ⟨n, hn, h⟩ := h
  rw [namespace_new_eq_ok hn] at h
  exact (Except.ok.inj h).symm

/-- Appending alone either refuses and leaves the chain, or commits the one block. -/
theorem appendTransaction_cases {faults : ChainFaults ε} {key : SigningKey} {namespace_ : Text}
    {payload : Bytes} {time : ℕ} {s t : LocalChainStore} {r : Except ε (TxId × ℕ)}
    (hs : s.WellFormed) (h : (appendTransaction faults key namespace_ payload time).run s = (r, t)) :
    (∃ e, r = .error e ∧ SameChain s t) ∨
    (r = .ok ((nextTransaction s key namespace_ payload).id, s.head.height + 1) ∧
      SameChain (s.push (nextBlock s (nextTransaction s key namespace_ payload) time)) t ∧
      ChildOf s.networkId s.headBlock.header s.containsTransaction
        (nextBlock s (nextTransaction s key namespace_ payload) time)) := by
  have hsame : SameChain s s := ⟨rfl, rfl, rfl⟩
  simp only [appendTransaction, Program.run_bind, run_readHead, run_readParent, Program.run_lift]
    at h
  cases hheight : nextHeight s.head.height with
  | error e =>
    simp only [hheight, mapErr] at h
    obtain ⟨rfl, rfl⟩ := Prod.mk.inj h
    exact .inl ⟨_, rfl, hsame⟩
  | ok height =>
    obtain ⟨rfl, hroom⟩ := nextHeight_eq_ok.mp hheight
    simp only [hheight, mapErr_ok] at h
    cases htx : transactionFor key namespace_ payload (s.head.height + 1) with
    | error e =>
      simp only [htx, mapErr] at h
      obtain ⟨rfl, rfl⟩ := Prod.mk.inj h
      exact .inl ⟨_, rfl, hsame⟩
    | ok transaction =>
      obtain rfl := transactionFor_eq_ok htx
      simp only [htx, mapErr_ok] at h
      cases hblock : blockAfter s.headBlock (nextTransaction s key namespace_ payload) time with
      | error e =>
        simp only [nextTransaction] at hblock
        simp only [hblock, mapErr] at h
        obtain ⟨rfl, rfl⟩ := Prod.mk.inj h
        exact .inl ⟨_, rfl, hsame⟩
      | ok block =>
        obtain ⟨-, rfl⟩ := blockAfter_eq_ok.mp hblock
        simp only [nextTransaction] at hblock
        simp only [hblock, mapErr_ok, run_append] at h
        rcases happend : s.appendBlock (nextBlock s (nextTransaction s key namespace_ payload) time)
          with ⟨r', t'⟩
        have happend' := happend
        simp only [nextBlock, nextTransaction] at happend
        rw [happend] at h
        rcases appendBlock_cases happend' with ⟨e, rfl, hsame'⟩ | ⟨-, -, hle, -⟩ |
          ⟨rfl, hsame', -, -, hchild⟩
        · simp only [mapErr] at h
          obtain ⟨rfl, rfl⟩ := Prod.mk.inj h
          exact .inl ⟨_, rfl, hsame'⟩
        · have hhead := hs.head_height
          simp only [nextBlock] at hle
          omega
        · simp only [mapErr_ok, Program.run_pure] at h
          obtain ⟨rfl, rfl⟩ := Prod.mk.inj h
          exact .inr ⟨rfl, hsame', hchild⟩

/-- Appending alone succeeds when the block is acceptable and the database takes the commit. -/
theorem appendTransaction_of_child {faults : ChainFaults ε} {key : SigningKey} {namespace_ : Text}
    {payload : Bytes} {time : ℕ} {s : LocalChainStore} (hs : s.WellFormed)
    (hname : Namespace.new namespace_ = .ok ⟨namespace_⟩)
    (hchild : ChildOf s.networkId s.headBlock.header s.containsTransaction
      (nextBlock s (nextTransaction s key namespace_ payload) time))
    (hcommits : s.Commits) :
    (appendTransaction faults key namespace_ payload time).run s =
      (.ok ((nextTransaction s key namespace_ payload).id, s.head.height + 1),
        { s.push (nextBlock s (nextTransaction s key namespace_ payload) time) with
          faults := s.faults.tail }) := by
  have hhead := hs.head_height
  have hroom : s.head.height < u64Max := hhead ▸ hchild.room
  have hheight : nextHeight s.head.height = .ok (s.head.height + 1) :=
    nextHeight_eq_ok.mpr ⟨rfl, hroom⟩
  have htx : transactionFor key namespace_ payload (s.head.height + 1) =
      .ok (nextTransaction s key namespace_ payload) := by
    rw [transactionFor, hname]
    rfl
  have hblock : blockAfter s.headBlock (nextTransaction s key namespace_ payload) time =
      .ok (nextBlock s (nextTransaction s key namespace_ payload) time) :=
    blockAfter_eq_ok.mpr ⟨hchild.room, rfl⟩
  have happend := appendBlock_of_child (by rw [hchild.height, hhead]) hroom hchild hcommits
  simp only [appendTransaction, Program.run_bind, run_readHead, run_readParent, Program.run_lift,
    hheight, mapErr_ok, htx, hblock, run_append, happend, Program.run_pure]

/-- The next block stands on the chain it was appended to, and its transaction is found there. -/
theorem getTransaction_next {s u : LocalChainStore} {t : Transaction} {time : ℕ}
    (hs : s.WellFormed)
    (hchild : ChildOf s.networkId s.headBlock.header s.containsTransaction (nextBlock s t time))
    (hchain : SameChain (s.push (nextBlock s t time)) u) :
    u.getTransaction t.id = some ⟨s.head.height + 1, 0, t⟩ := by
  have hu : u.WellFormed := .push hs hchild hchain
  have hblock : u.getBlock (s.head.height + 1) = some (nextBlock s t time) := by
    have hhead := getBlock_head (s.push (nextBlock s t time))
    rw [head_push, headBlock_push] at hhead
    rw [getBlock, blocks_of_sameChain hchain]
    exact hhead
  exact hu.getTransaction hblock rfl

end Irena.Ledger
