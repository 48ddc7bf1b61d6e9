import Irena.Prunella.Canonical
import Irena.Prunella.Store
import Mathlib.Logic.Function.Basic

/-! # The tables of a chain file

Blocks by height, heights by hash, locations by transaction id, and the head record. An append stages
its blocks in an open write and one commit makes all of it visible; a refused commit leaves the
tables as they were. -/

namespace Irena.Prunella

open Irena.Library Irena.Library.Outcome Irena.Library.Strings
open LocalChainStore (BatchOutcome AppendStatus AppendOutcome)

structure Tables where
  formatVersion : ℕ
  networkId : NetworkId
  genesisHash : Hash
  head : ChainHead
  transactionCount : ℕ
  blocks : ℕ → Option Bytes
  heightByHash : Hash → Option ℕ
  txLocation : TxId → Option Bytes

def storeFormatVersion : ℕ := 1

/-- A location is written as its height and its index within the block. -/
def locationCodec : Codec (ℕ × ℕ) := Codec.u64.pair Codec.u32

namespace Tables

def readBlock (t : Tables) (height : ℕ) : Except StoreError (Option Block) :=
  match t.blocks height with
  | none => .ok none
  | some raw =>
    match decode Block.codec raw with
    | .ok block => .ok (some block)
    | .error _ => .error (.corruptBlock height)

/-- The block at a height that must hold one. -/
def requireBlock (t : Tables) (height : ℕ) : Except StoreError Block := do
  let stored ← t.readBlock height
  orError stored (.inconsistent height)

/-- Where a transaction was committed, if its index entry reads. -/
def locate (t : Tables) (id : TxId) : Option (ℕ × ℕ) :=
  (t.txLocation id).bind fun raw => (decode locationCodec raw).toOption

/-- Whether an id is committed, or was earlier in the open write. -/
def committedTransactions (t : Tables) (pending : List TxId) (id : TxId) : Bool :=
  pending.contains id || (t.txLocation id).isSome

/-- The location of each transaction of a block at `height`, written over `table`. -/
def locateAll (height : ℕ) (table : TxId → Option Bytes) (placed : List (Transaction × ℕ)) :
    TxId → Option Bytes :=
  placed.foldl
    (fun table p => Function.update table p.1.id
      (some (locationCodec.encode (height, min p.2 u32Max))))
    table

def insertBlock (t : Tables) (block : Block) (hash : Hash) : Tables :=
  { t with
    blocks := Function.update t.blocks block.header.height (some (Block.codec.encode block))
    heightByHash := Function.update t.heightByHash hash (some block.header.height)
    txLocation := locateAll block.header.height t.txLocation block.transactions.zipIdx }

end Tables

/-- An open write: the tables with what it inserted, and what it carries from block to block. -/
structure Batch where
  tables : Tables
  head : ChainHead
  transactionCount : ℕ
  appended : ℕ
  alreadyPresent : ℕ
  parent : Option BlockHeader
  pending : List TxId

namespace Batch

def begin (t : Tables) : Batch := ⟨t, t.head, t.transactionCount, 0, 0, none, []⟩

/-- The tables the commit makes visible. -/
def write (w : Batch) : Tables :=
  { w.tables with head := w.head, transactionCount := w.transactionCount }

/-- The parent of the next block, carried or read. -/
def parentHeader (w : Batch) : Except StoreError BlockHeader :=
  match w.parent with
  | some header => .ok header
  | none => do
    let block ← w.tables.requireBlock w.head.height
    return block.header

def acceptanceContext (w : Batch) (parent : BlockHeader) : AcceptanceContext :=
  ⟨w.tables.networkId, w.tables.genesisHash, some w.head, some parent,
    w.tables.committedTransactions w.pending⟩

variable [Platform]

def push (w : Batch) (block : Block) : Batch where
  tables := w.tables.insertBlock block block.hash
  head := ⟨block.header.height, block.hash⟩
  transactionCount := w.transactionCount + block.transactions.length
  appended := w.appended + 1
  alreadyPresent := w.alreadyPresent
  parent := some block.header
  pending := w.pending ++ block.transactions.map Transaction.id

/-- One block of a run. -/
def stage (policy : BlockAcceptancePolicy) (w : Batch) (block : Block) : Except StoreError Batch :=
  let height := block.header.height
  if height ≤ w.head.height then do
    let committed ← w.tables.requireBlock height
    if committed = block then return { w with alreadyPresent := w.alreadyPresent + 1 }
    else throw (.forkedHistory height committed.hash block.hash)
  else do
    let expected ← mapErr .core (nextHeight w.head.height)
    ensure (height = expected) (.nonContiguous expected height)
    let parent ← w.parentHeader
    mapErr .notAccepted (policy (w.acceptanceContext parent) block)
    return w.push block

end Batch

namespace Tables

variable [Platform]

/-- Appends a run in one write; `refusal` is what the database answers to the commit, if not yes. -/
def appendBlocksWith (policy : BlockAcceptancePolicy) (bs : List Block) (refusal : Option Text)
    (t : Tables) : Except StoreError BatchOutcome × Tables :=
  if bs = [] then (.ok ⟨0, 0, t.head⟩, t)
  else
    match bs.foldlM (Batch.stage policy) (.begin t) with
    | .error e => (.error e, t)
    | .ok w =>
      match refusal with
      | some detail => (.error (.database detail), t)
      | none => (.ok ⟨w.appended, w.alreadyPresent, w.head⟩, w.write)

def appendBlocks : List Block → Option Text → Tables → Except StoreError BatchOutcome × Tables :=
  appendBlocksWith localDeterministicPolicy

def appendBlock (b : Block) (refusal : Option Text) (t : Tables) :
    Except StoreError AppendOutcome × Tables :=
  match appendBlocks [b] refusal t with
  | (.error e, t') => (.error e, t')
  | (.ok outcome, t') =>
    (.ok ⟨if outcome.appended = 1 then .committed else .alreadyPresent, outcome.head⟩, t')

end Tables

/-- What the database answers where it does not do what it is asked: to the creation of a file, with
whether one is left behind all the same, and to the first commit. -/
structure DatabaseAnswers where
  creation : Option (Text × Bool) := none
  commit : Option Text := none

/-- What is found at a path: nothing, a file without a chain, or a chain. -/
inductive Place where
  | free
  | file
  | chain (tables : Tables)

namespace Place

variable [Platform]

/-- A file before anything is committed to it. -/
def blank (networkId : NetworkId) (genesisHash : Hash) : Tables :=
  ⟨storeFormatVersion, networkId, genesisHash, ⟨0, genesisHash⟩, 0, fun _ => none, fun _ => none,
    fun _ => none⟩

/-- Writes the genesis block and the head record, unless the policy or the database refuses. -/
def writeGenesis (policy : BlockAcceptancePolicy) (networkId : NetworkId) (block : Block)
    (refusal : Option Text) : Except StoreError Tables := do
  let t := blank networkId block.hash
  mapErr .notAccepted
    (policy ⟨networkId, block.hash, none, none, t.committedTransactions []⟩ block)
  match refusal with
  | some detail => .error (.database detail)
  | none => .ok { t.insertBlock block block.hash with transactionCount := block.transactions.length }

/-- Creates a chain. The file is made before the genesis block is judged, and stays. -/
def initGenesisWithPolicy (policy : BlockAcceptancePolicy) (spec : GenesisSpec)
    (answers : DatabaseAnswers) (p : Place) : Except StoreError Tables × Place :=
  match p with
  | .free =>
    match spec.build with
    | .error e => (.error (.core e), .free)
    | .ok block =>
      match answers.creation with
      | some (detail, left) => (.error (.database detail), if left then .file else .free)
      | none =>
        match writeGenesis policy spec.networkId block answers.commit with
        | .error e => (.error e, .file)
        | .ok t => (.ok t, .chain t)
  | p => (.error .alreadyExists, p)

def initGenesis : GenesisSpec → DatabaseAnswers → Place → Except StoreError Tables × Place :=
  initGenesisWithPolicy localDeterministicPolicy

end Place

namespace Tables

@[simp] theorem readBlock_write (w : Batch) (height : ℕ) :
    w.write.readBlock height = w.tables.readBlock height := rfl

@[simp] theorem requireBlock_write (w : Batch) (height : ℕ) :
    w.write.requireBlock height = w.tables.requireBlock height := rfl

theorem readBlock_eq_ok {t : Tables} {height : ℕ} {b : Block} :
    t.readBlock height = .ok (some b) ↔ t.blocks height = some (Block.codec.encode b) := by
  unfold readBlock
  constructor
  · intro h
    split at h
    · cases h
    · rename_i raw hraw
      split at h
      · rename_i c hdecode
        obtain rfl : c = b := by simpa using h
        rw [hraw, decode_eq_ok.mp hdecode]
      · cases h
  · intro h
    simp only [h, decode_eq_ok.mpr rfl]

theorem requireBlock_eq_ok {t : Tables} {height : ℕ} {b : Block} :
    t.requireBlock height = .ok b ↔ t.blocks height = some (Block.codec.encode b) := by
  simp only [requireBlock, bind_eq_ok, orError_eq_ok, exists_eq_right, readBlock_eq_ok]

@[simp] theorem insertBlock_head (t : Tables) (b : Block) (hash : Hash) :
    (t.insertBlock b hash).head = t.head := rfl

@[simp] theorem insertBlock_networkId (t : Tables) (b : Block) (hash : Hash) :
    (t.insertBlock b hash).networkId = t.networkId := rfl

@[simp] theorem insertBlock_genesisHash (t : Tables) (b : Block) (hash : Hash) :
    (t.insertBlock b hash).genesisHash = t.genesisHash := rfl

/-- The inserted block stands at its height, and nothing else moves. -/
theorem insertBlock_blocks (t : Tables) (b : Block) (hash : Hash) (height : ℕ) :
    (t.insertBlock b hash).blocks height =
      if height = b.header.height then some (Block.codec.encode b) else t.blocks height := by
  simp only [insertBlock, Function.update_apply]

theorem locateAll_isSome {height : ℕ} {table : TxId → Option Bytes}
    {placed : List (Transaction × ℕ)} {id : TxId} :
    (locateAll height table placed id).isSome = true ↔
      (∃ p ∈ placed, p.1.id = id) ∨ (table id).isSome = true := by
  unfold locateAll
  induction placed generalizing table with
  | nil => simp
  | cons p placed ih =>
    rw [List.foldl_cons, ih]
    by_cases hid : id = p.1.id
    · simp [hid]
    · simp [Function.update_of_ne hid, Ne.symm hid]

theorem insertBlock_located {t : Tables} {b : Block} {hash : Hash} {id : TxId} :
    ((t.insertBlock b hash).txLocation id).isSome = true ↔
      id ∈ b.transactions.map Transaction.id ∨ (t.txLocation id).isSome = true := by
  have hplaced : (∃ p ∈ b.transactions.zipIdx, p.1.id = id) ↔
      id ∈ b.transactions.map Transaction.id := by
    rw [List.mem_map]
    constructor
    · rintro ⟨p, hp, hid⟩
      exact ⟨p.1, List.fst_mem_of_mem_zipIdx hp, hid⟩
    · rintro ⟨t, ht, hid⟩
      obtain ⟨i, hi⟩ := List.mem_iff_getElem?.mp ht
      exact ⟨(t, i), List.mk_mem_zipIdx_iff_getElem?.mpr hi, hid⟩
  rw [← hplaced]
  exact locateAll_isSome

end Tables

namespace Batch

/-- The carried parent is the header at the head, and the ids of the open write are indexed. -/
structure Coherent (w : Batch) : Prop where
  parent : ∀ header, w.parent = some header →
    ∃ b : Block, b.header = header ∧ w.tables.requireBlock w.head.height = .ok b
  pending : ∀ id ∈ w.pending, (w.tables.txLocation id).isSome = true

theorem coherent_begin (t : Tables) : Coherent (begin t) where
  parent _ h := nomatch h
  pending _ h := nomatch h

theorem parentHeader_begin {w : Batch} (h : w.Coherent) :
    (begin w.write).parentHeader = w.parentHeader := by
  unfold parentHeader begin
  cases hparent : w.parent with
  | none => rfl
  | some header =>
    obtain ⟨b, rfl, hb⟩ := h.parent header hparent
    simp only [Tables.requireBlock_write]
    have hwrite : w.write.head = w.head := rfl
    rw [hwrite, hb]
    rfl

theorem committed_begin {w : Batch} (h : w.Coherent) :
    w.write.committedTransactions [] = w.tables.committedTransactions w.pending := by
  funext id
  unfold Tables.committedTransactions
  by_cases hid : id ∈ w.pending
  · have hsome : (w.write.txLocation id).isSome = true := h.pending id hid
    simp [hid, hsome]
  · have hsame : w.write.txLocation id = w.tables.txLocation id := rfl
    simp [hid, hsame]

variable [Platform]

omit [Platform] in
theorem acceptanceContext_begin {w : Batch} (h : w.Coherent) (parent : BlockHeader) :
    (begin w.write).acceptanceContext parent = w.acceptanceContext parent := by
  unfold acceptanceContext
  rw [← committed_begin h]
  rfl

/-- What one block can do to an open write. -/
theorem stage_cases {policy : BlockAcceptancePolicy} {w w' : Batch} {b : Block}
    (h : w.stage policy b = .ok w') :
    (b.header.height ≤ w.head.height ∧ w.tables.requireBlock b.header.height = .ok b ∧
      w' = { w with alreadyPresent := w.alreadyPresent + 1 }) ∨
    (b.header.height = w.head.height + 1 ∧ w.head.height < u64Max ∧ (∃ parent,
      w.parentHeader = .ok parent ∧ policy (w.acceptanceContext parent) b = .ok ()) ∧
      w' = w.push b) := by
  unfold stage at h
  dsimp only at h
  split at h
  · rename_i hle
    obtain ⟨committed, hcommitted, h⟩ := bind_eq_ok.mp h
    split at h
    · rename_i heq
      rw [heq] at hcommitted
      exact .inl ⟨hle, hcommitted, (Except.ok.inj h).symm⟩
    · cases h
  · obtain ⟨expected, hnext, h⟩ := bind_eq_ok.mp h
    obtain ⟨rfl, hroom⟩ := nextHeight_eq_ok.mp (mapErr_eq_ok.mp hnext)
    obtain ⟨_, hheight, h⟩ := bind_eq_ok.mp h
    obtain ⟨parent, hparent, h⟩ := bind_eq_ok.mp h
    obtain ⟨_, hpolicy, h⟩ := bind_eq_ok.mp h
    exact .inr ⟨ensure_eq_ok.mp hheight, hroom, ⟨parent, hparent, mapErr_eq_ok.mp hpolicy⟩,
      (Except.ok.inj h).symm⟩

theorem Coherent.stage {policy : BlockAcceptancePolicy} {w w' : Batch} {b : Block}
    (hw : w.Coherent) (h : w.stage policy b = .ok w') : w'.Coherent := by
  rcases stage_cases h with ⟨-, -, rfl⟩ | ⟨-, -, -, rfl⟩
  · exact ⟨hw.parent, hw.pending⟩
  · refine ⟨?_, ?_⟩
    · intro header hheader
      refine ⟨b, Option.some.inj hheader, Tables.requireBlock_eq_ok.mpr ?_⟩
      simp [push, Tables.insertBlock_blocks]
    · intro id hid
      refine Tables.insertBlock_located.mpr ?_
      rcases List.mem_append.mp hid with hold | hnew
      · exact .inr (hw.pending id hold)
      · exact .inl hnew

/-- A block does to an open write what it does to a new write over the same tables. -/
theorem stage_begin {policy : BlockAcceptancePolicy} {w : Batch} {b : Block} (hw : w.Coherent) :
    ((begin w.write).stage policy b).map write = (w.stage policy b).map write := by
  have hhead : (begin w.write).head = w.head := rfl
  have htables : ∀ height, (begin w.write).tables.requireBlock height =
      w.tables.requireBlock height := fun _ => rfl
  unfold stage
  dsimp only
  rw [hhead, htables, parentHeader_begin hw]
  split
  · cases w.tables.requireBlock b.header.height with
    | error e => rfl
    | ok committed =>
      simp only [ok_bind]
      split <;> rfl
  · cases mapErr StoreError.core (nextHeight w.head.height) with
    | error e => rfl
    | ok expected =>
      simp only [ok_bind]
      cases ensure (b.header.height = expected) (StoreError.nonContiguous expected b.header.height) with
      | error e => rfl
      | ok _ =>
        simp only [ok_bind]
        cases w.parentHeader with
        | error e => rfl
        | ok parent =>
          simp only [ok_bind, acceptanceContext_begin hw]
          cases mapErr StoreError.notAccepted (policy (w.acceptanceContext parent) b) <;> rfl

end Batch

end Irena.Prunella
