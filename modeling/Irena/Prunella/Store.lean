import Irena.Library.Program
import Irena.Prunella.Verify

/-! # The chain store

A chain is its genesis block and the blocks committed after it. Appending is atomic: every block is
judged by the acceptance policy, and one commit makes the whole run visible or none of it. What the
database answers to the coming commits is part of the store. -/

namespace Irena.Prunella

open Irena.Library Irena.Library.Outcome Irena.Library.Strings

inductive AcceptanceError where
  | invalid (findings : List Finding)
  | declined (reason : Text)
deriving DecidableEq

inductive StoreError where
  | alreadyExists
  | database (detail : Text)
  | corruptBlock (height : ℕ)
  | inconsistent (height : ℕ)
  | notAccepted (reason : AcceptanceError)
  | nonContiguous (expected found : ℕ)
  | forkedHistory (height : ℕ) (existing offered : Hash)
  | core (error : CoreError)
deriving DecidableEq

/-- Everything a policy is told about the chain a block would extend. -/
structure AcceptanceContext where
  networkId : NetworkId
  genesisHash : Hash
  head : Option ChainHead
  parent : Option BlockHeader
  committedTransactions : TxId → Bool

abbrev BlockAcceptancePolicy := AcceptanceContext → Block → Except AcceptanceError Unit

variable [Platform]

def AcceptanceContext.blockContext (c : AcceptanceContext) : BlockContext :=
  ⟨c.networkId, c.parent, none, some c.committedTransactions⟩

/-- Accepts a block exactly when deterministic local validation finds nothing wrong. -/
def localDeterministicPolicy : BlockAcceptancePolicy := fun context block =>
  let findings := checkBlock context.blockContext block
  ensure (findings = []) (.invalid findings)

/-- A chain file: the committed blocks by height, and what the database will answer to each coming
commit, a failure or none. -/
structure LocalChainStore where
  networkId : NetworkId
  genesis : Block
  later : List Block
  faults : List (Option Text)

structure LocatedTransaction where
  height : ℕ
  index : ℕ
  transaction : Transaction
deriving DecidableEq

namespace LocalChainStore

def blocks (s : LocalChainStore) : List Block := s.genesis :: s.later

def headBlock (s : LocalChainStore) : Block := s.later.getLast?.getD s.genesis

def head (s : LocalChainStore) : ChainHead := ⟨s.later.length, s.headBlock.hash⟩

def genesisHash (s : LocalChainStore) : Hash := s.genesis.hash

def getBlock (s : LocalChainStore) (height : ℕ) : Option Block := s.blocks[height]?

/-- The blocks from genesis up to `last`, which is not above the head. -/
def iterBlocks (s : LocalChainStore) (last : ℕ) : List Block := s.blocks.take (last + 1)

/-- The first transaction with an id, among blocks that start at a height. -/
def findTransaction (id : TxId) : ℕ → List Block → Option LocatedTransaction
  | _, [] => none
  | height, b :: rest =>
    match b.transactions.zipIdx.find? fun p => p.1.id == id with
    | some (t, index) => some ⟨height, index, t⟩
    | none => findTransaction id (height + 1) rest

def getTransaction (s : LocalChainStore) (id : TxId) : Option LocatedTransaction :=
  findTransaction id 0 s.blocks

def containsTransaction (s : LocalChainStore) (id : TxId) : Bool :=
  s.blocks.any fun b => b.transactions.any fun t => t.id == id

def push (s : LocalChainStore) (b : Block) : LocalChainStore := { s with later := s.later ++ [b] }

/-- What a policy is told about the block that would follow the head. -/
def acceptanceContext (s : LocalChainStore) : AcceptanceContext :=
  ⟨s.networkId, s.genesisHash, some s.head, some s.headBlock.header, s.containsTransaction⟩

structure BatchOutcome where
  appended : ℕ
  alreadyPresent : ℕ
  head : ChainHead
deriving DecidableEq

inductive AppendStatus where
  | committed
  | alreadyPresent
deriving DecidableEq

structure AppendOutcome where
  status : AppendStatus
  head : ChainHead
deriving DecidableEq

/-- One block of a run: the store inside the write, and how many were appended and present. -/
def offer (policy : BlockAcceptancePolicy) (w : LocalChainStore × ℕ × ℕ) (block : Block) :
    Except StoreError (LocalChainStore × ℕ × ℕ) :=
  let (s, appended, present) := w
  let height := block.header.height
  if height ≤ s.head.height then
    match s.getBlock height with
    | none => .error (.inconsistent height)
    | some committed =>
      if committed = block then .ok (s, appended, present + 1)
      else .error (.forkedHistory height committed.hash block.hash)
  else do
    let expected ← mapErr .core (nextHeight s.head.height)
    ensure (height = expected) (.nonContiguous expected height)
    mapErr .notAccepted (policy s.acceptanceContext block)
    return (s.push block, appended + 1, present)

/-- Ends a write with the commit; a failed one leaves the chain as it was. -/
def commit (before after : LocalChainStore) : Except StoreError Unit × LocalChainStore :=
  match before.faults with
  | some detail :: faults => (.error (.database detail), { before with faults })
  | _ => (.ok (), { after with faults := before.faults.tail })

def appendBlocksWith (policy : BlockAcceptancePolicy) (bs : List Block) (s : LocalChainStore) :
    Except StoreError BatchOutcome × LocalChainStore :=
  if bs = [] then (.ok ⟨0, 0, s.head⟩, s)
  else
    match bs.foldlM (offer policy) (s, 0, 0) with
    | .error e => (.error e, s)
    | .ok (after, appended, present) =>
      match commit s after with
      | (.error e, s') => (.error e, s')
      | (.ok (), s') => (.ok ⟨appended, present, after.head⟩, s')

def appendBlocks : List Block → LocalChainStore → Except StoreError BatchOutcome × LocalChainStore :=
  appendBlocksWith localDeterministicPolicy

def appendBlock (s : LocalChainStore) (b : Block) :
    Except StoreError AppendOutcome × LocalChainStore :=
  match appendBlocks [b] s with
  | (.error e, s') => (.error e, s')
  | (.ok outcome, s') =>
    (.ok ⟨if outcome.appended = 1 then .committed else .alreadyPresent, outcome.head⟩, s')

/-- A new chain from a genesis specification. -/
def initGenesisWith (policy : BlockAcceptancePolicy) (spec : GenesisSpec) (faults : List (Option Text)) :
    Except StoreError LocalChainStore := do
  let block ← mapErr .core spec.build
  mapErr .notAccepted
    (policy ⟨spec.networkId, block.hash, none, none, fun _ => false⟩ block)
  match faults with
  | some detail :: _ => .error (.database detail)
  | _ => .ok ⟨spec.networkId, block, [], faults.tail⟩

def initGenesis := initGenesisWith localDeterministicPolicy

omit [Platform] in
@[simp] theorem blocks_push (s : LocalChainStore) (b : Block) : (s.push b).blocks = s.blocks ++ [b] :=
  rfl

omit [Platform] in
@[simp] theorem headBlock_push (s : LocalChainStore) (b : Block) : (s.push b).headBlock = b := by
  simp [headBlock, push]

@[simp] theorem head_push (s : LocalChainStore) (b : Block) :
    (s.push b).head = ⟨s.head.height + 1, b.hash⟩ := by
  simp [head, push, headBlock]

@[simp] theorem blocks_length (s : LocalChainStore) : s.blocks.length = s.head.height + 1 := rfl

theorem getBlock_head (s : LocalChainStore) : s.getBlock s.head.height = some s.headBlock := by
  unfold getBlock blocks head headBlock
  rcases List.eq_nil_or_concat s.later with h | ⟨init, last, h⟩
  · simp [h]
  · simp [h]

theorem localDeterministicPolicy_ok {s : LocalChainStore} {b : Block} {u : Unit} :
    localDeterministicPolicy s.acceptanceContext b = .ok u ↔
      ChildOf s.networkId s.headBlock.header s.containsTransaction b := by
  simp only [localDeterministicPolicy, ensure_eq_ok]
  exact checkBlock_child

/-- A block below the head is only ever compared. -/
theorem offer_of_le {policy : BlockAcceptancePolicy} {s : LocalChainStore} {b : Block} {n m : ℕ}
    (h : b.header.height ≤ s.head.height) {w : LocalChainStore × ℕ × ℕ} :
    offer policy (s, n, m) b = .ok w ↔
      s.getBlock b.header.height = some b ∧ w = (s, n, m + 1) := by
  simp only [offer, if_pos h]
  cases hb : s.getBlock b.header.height with
  | none => simp
  | some committed =>
    by_cases heq : committed = b
    · simp [heq, eq_comm]
    · simp [heq]

/-- A block above the head is pushed when it is next and accepted. -/
theorem offer_of_lt {policy : BlockAcceptancePolicy} {s : LocalChainStore} {b : Block} {n m : ℕ}
    (h : s.head.height < b.header.height) {w : LocalChainStore × ℕ × ℕ} :
    offer policy (s, n, m) b = .ok w ↔
      s.head.height < u64Max ∧ b.header.height = s.head.height + 1 ∧
        policy s.acceptanceContext b = .ok () ∧ w = (s.push b, n + 1, m) := by
  simp only [offer, if_neg (Nat.not_le.mpr h), bind_eq_ok, mapErr_eq_ok, nextHeight_eq_ok,
    ensure_eq_ok, pure_eq_ok, Except.ok.injEq]
  constructor
  · rintro ⟨_, ⟨rfl, hroom⟩, _, hheight, _, hpolicy, rfl⟩
    exact ⟨hroom, hheight, hpolicy, rfl⟩
  · rintro ⟨hroom, hheight, hpolicy, rfl⟩
    exact ⟨_, ⟨rfl, hroom⟩, (), hheight, (), hpolicy, rfl⟩

/-- The same chain, whatever the database will answer next. -/
def SameChain (s t : LocalChainStore) : Prop :=
  t.networkId = s.networkId ∧ t.genesis = s.genesis ∧ t.later = s.later

omit [Platform] in
theorem commit_cases (before after : LocalChainStore) :
    (∃ e t, commit before after = (.error e, t) ∧ SameChain before t) ∨
    (∃ t, commit before after = (.ok (), t) ∧ SameChain after t) := by
  unfold commit
  split
  · exact .inl ⟨_, _, rfl, rfl, rfl, rfl⟩
  · exact .inr ⟨_, rfl, rfl, rfl, rfl⟩

/-- What one call of append can do: refuse, find the block present, or commit it. -/
theorem appendBlock_cases {b : Block} {s t : LocalChainStore} {r : Except StoreError AppendOutcome}
    (h : s.appendBlock b = (r, t)) :
    (∃ e, r = .error e ∧ SameChain s t) ∨
    (r = .ok ⟨.alreadyPresent, s.head⟩ ∧ SameChain s t ∧ b.header.height ≤ s.head.height ∧
      s.getBlock b.header.height = some b) ∨
    (r = .ok ⟨.committed, (s.push b).head⟩ ∧ SameChain (s.push b) t ∧
      b.header.height = s.head.height + 1 ∧ s.head.height < u64Max ∧
      ChildOf s.networkId s.headBlock.header s.containsTransaction b) := by
  unfold appendBlock appendBlocks appendBlocksWith at h
  rw [if_neg (List.cons_ne_nil _ _)] at h
  cases hoffer : [b].foldlM (offer localDeterministicPolicy) (s, 0, 0) with
  | error e =>
    rw [hoffer] at h
    obtain ⟨rfl, rfl⟩ := Prod.mk.inj h
    exact .inl ⟨e, rfl, rfl, rfl, rfl⟩
  | ok w =>
    have hone : offer localDeterministicPolicy (s, 0, 0) b = .ok w := by simpa using hoffer
    rw [hoffer] at h
    obtain ⟨after, n, m⟩ := w
    dsimp only at h
    rcases commit_cases s after with ⟨e, u, hcommit, hsame⟩ | ⟨u, hcommit, hsame⟩
    · rw [hcommit] at h
      obtain ⟨rfl, rfl⟩ := Prod.mk.inj h
      exact .inl ⟨_, rfl, hsame⟩
    · rw [hcommit] at h
      obtain ⟨rfl, rfl⟩ := Prod.mk.inj h
      rcases Nat.lt_or_ge s.head.height b.header.height with hlt | hle
      · obtain ⟨hroom, hheight, hpolicy, hw⟩ := (offer_of_lt hlt).mp hone
        obtain ⟨rfl, rfl, rfl⟩ : after = s.push b ∧ n = 1 ∧ m = 0 := by simpa using hw
        exact .inr (.inr ⟨rfl, hsame, hheight, hroom, localDeterministicPolicy_ok.mp hpolicy⟩)
      · obtain ⟨hget, hw⟩ := (offer_of_le hle).mp hone
        obtain ⟨rfl, rfl, rfl⟩ : after = s ∧ n = 0 ∧ m = 1 := by simpa using hw
        exact .inr (.inl ⟨rfl, hsame, hle, hget⟩)

/-- Whether the database will take the next commit. -/
def Commits (s : LocalChainStore) : Prop := ∀ detail, s.faults.head? ≠ some (some detail)

instance (s : LocalChainStore) : Decidable s.Commits :=
  match h : s.faults.head? with
  | some (some detail) => isFalse fun hc => hc detail h
  | some none => isTrue fun detail hd => by simp [h] at hd
  | none => isTrue fun detail hd => by simp [h] at hd

/-- An acceptable next block is committed when the database takes the commit. -/
theorem appendBlock_of_child {s : LocalChainStore} {b : Block}
    (hheight : b.header.height = s.head.height + 1) (hroom : s.head.height < u64Max)
    (hb : ChildOf s.networkId s.headBlock.header s.containsTransaction b) (hcommits : s.Commits) :
    s.appendBlock b = (.ok ⟨.committed, (s.push b).head⟩, { s.push b with faults := s.faults.tail }) := by
  have hoffer : offer localDeterministicPolicy (s, 0, 0) b = .ok (s.push b, 1, 0) :=
    (offer_of_lt (by omega)).mpr ⟨hroom, hheight, localDeterministicPolicy_ok.mpr hb, rfl⟩
  have hcommit : commit s (s.push b) = (.ok (), { s.push b with faults := s.faults.tail }) := by
    unfold commit
    split
    · rename_i detail faults hfaults
      exact absurd (by rw [hfaults]; rfl) (hcommits detail)
    · rfl
  unfold appendBlock appendBlocks appendBlocksWith
  rw [if_neg (List.cons_ne_nil _ _)]
  simp only [List.foldlM_cons, List.foldlM_nil, hoffer, ok_bind, pure_eq_ok, hcommit]
  rfl

/-- Every block of the chain follows from the ones before it by the deterministic rules. -/
inductive WellFormed : LocalChainStore → Prop
  | genesis {network : NetworkId} {b : Block} (h : GenesisOf network b) (faults : List (Option Text)) :
    WellFormed ⟨network, b, [], faults⟩
  | push {s t : LocalChainStore} {b : Block} (hs : WellFormed s)
    (hb : ChildOf s.networkId s.headBlock.header s.containsTransaction b)
    (ht : SameChain (s.push b) t) : WellFormed t

theorem WellFormed.of_sameChain {s t : LocalChainStore} (hs : WellFormed s) (h : SameChain s t) :
    WellFormed t := by
  obtain ⟨hn, hg, hl⟩ := h
  cases hs with
  | genesis hgen faults =>
    obtain ⟨network, g, later, faults'⟩ := t
    dsimp only at hn hg hl
    subst hn hg hl
    exact .genesis hgen _
  | push hs hb ht => exact .push hs hb ⟨hn.trans ht.1, hg.trans ht.2.1, hl.trans ht.2.2⟩

/-- Appending keeps a chain well-formed. -/
theorem WellFormed.appendBlock {b : Block} {s t : LocalChainStore}
    {r : Except StoreError AppendOutcome} (hs : WellFormed s)
    (h : s.appendBlock b = (r, t)) : WellFormed t := by
  rcases appendBlock_cases h with ⟨_, -, hsame⟩ | ⟨-, hsame, -⟩ | ⟨-, hsame, -, -, hb⟩
  · exact hs.of_sameChain hsame
  · exact hs.of_sameChain hsame
  · exact .push hs hb hsame

end LocalChainStore

end Irena.Prunella
