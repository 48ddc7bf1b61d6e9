import Irena.Prunella.Batch
import Irena.Prunella.VerifyChain
import Mathlib.Data.List.Chain

/-! # What holds in every chain file

The tables always hold the blocks of a well-formed chain and index exactly these, through every
sequence of creations and appends and whatever their results. -/

namespace Irena.Prunella

open Irena.Library Irena.Library.Outcome Irena.Library.Strings
open LocalChainStore (findTransaction findTransaction_append findTransaction_some
  findTransaction_eq_none SameChain)

/-- The tables hold `bs` by position and index them and nothing else. -/
structure Tables.Indexes [Platform] (t : Tables) (bs : List Block) : Prop where
  blocks : ∀ height, t.blocks height = bs[height]?.map Block.codec.encode
  heightByHash : ∀ hash height, t.heightByHash hash = some height ↔
    ∃ b, bs[height]? = some b ∧ b.hash = hash
  txLocation : ∀ id, t.txLocation id =
    (findTransaction id 0 bs).map fun l => locationCodec.encode (l.height, l.index)

/-- Different headers have different hashes. -/
def HeadersCollisionFree [Platform] : Prop :=
  Function.Injective BlockHeader.blockHash

namespace Tables

/-- With distinct ids, a transaction's location is the place it stands at. -/
theorem locateAll_eq {height start : ℕ} {table : TxId → Option Bytes} {ts : List Transaction}
    (hlength : start + ts.length ≤ u32Max + 1) (hnodup : (ts.map Transaction.id).Nodup) (id : TxId) :
    locateAll height table (ts.zipIdx start) id =
      (((ts.zipIdx start).find? fun p => p.1.id == id).map fun p =>
        locationCodec.encode (height, p.2)).or (table id) := by
  unfold locateAll
  induction ts generalizing start table with
  | nil => rfl
  | cons t ts ih =>
    rw [List.length_cons] at hlength
    obtain ⟨hfirst, hrest⟩ := List.nodup_cons.mp hnodup
    rw [List.zipIdx_cons, List.foldl_cons, ih (by omega) hrest, List.find?_cons]
    have hmin : min start u32Max = start := Nat.min_eq_left (by omega)
    by_cases hid : t.id = id
    · have hnone : (ts.zipIdx (start + 1)).find? (fun p => p.1.id == id) = none := by
        rw [List.find?_eq_none]
        intro p hp heq
        refine hfirst (List.mem_map.mpr ⟨p.1, List.fst_mem_of_mem_zipIdx hp, ?_⟩)
        rw [hid]
        exact eq_of_beq heq
      simp [hnone, hid, hmin]
    · have hne : (t.id == id) = false := beq_false_of_ne hid
      simp only [hne, Function.update_of_ne (Ne.symm hid)]

variable [Platform]

theorem indexes_blank (networkId : NetworkId) (hash : Hash) :
    (Place.blank networkId hash).Indexes [] where
  blocks _ := rfl
  heightByHash _ _ := by simp [Place.blank]
  txLocation _ := rfl

/-- Inserting the block that comes next extends what is indexed by it. -/
theorem Indexes.insertBlock {t : Tables} {bs : List Block} {b : Block} (h : t.Indexes bs)
    (hheight : b.header.height = bs.length) (hhash : ∀ c ∈ bs, c.hash ≠ b.hash)
    (hlength : b.transactions.length ≤ u32Max) (hnodup : (b.transactions.map Transaction.id).Nodup)
    (hfresh : ∀ x ∈ b.transactions, findTransaction x.id 0 bs = none) :
    (t.insertBlock b b.hash).Indexes (bs ++ [b]) where
  blocks height := by
    rw [insertBlock_blocks, hheight]
    rcases Nat.lt_trichotomy height bs.length with hlt | rfl | hgt
    · rw [if_neg hlt.ne, h.blocks, List.getElem?_append_left hlt]
    · simp
    · rw [if_neg hgt.ne', h.blocks, List.getElem?_eq_none hgt.le, List.getElem?_eq_none (by simp; omega)]
  heightByHash hash height := by
    have hupdate : (t.insertBlock b b.hash).heightByHash hash =
        if hash = b.hash then some b.header.height else t.heightByHash hash := by
      simp only [Tables.insertBlock, Function.update_apply]
    rw [hupdate, hheight]
    by_cases heq : hash = b.hash
    · rw [if_pos heq, Option.some.injEq]
      constructor
      · rintro rfl
        exact ⟨b, by simp, heq.symm⟩
      · rintro ⟨c, hc, hchash⟩
        rcases Nat.lt_or_ge height bs.length with hlt | hge
        · rw [List.getElem?_append_left hlt] at hc
          exact absurd (hchash.trans heq) (hhash c (List.mem_of_getElem? hc))
        · have hlt := (List.getElem?_eq_some_iff.mp hc).1
          rw [List.length_append, List.length_singleton] at hlt
          omega
    · rw [if_neg heq, h.heightByHash]
      constructor
      · rintro ⟨c, hc, hchash⟩
        have hlt := (List.getElem?_eq_some_iff.mp hc).1
        exact ⟨c, by rw [List.getElem?_append_left hlt, hc], hchash⟩
      · rintro ⟨c, hc, hchash⟩
        rcases Nat.lt_or_ge height bs.length with hlt | hge
        · exact ⟨c, by rwa [List.getElem?_append_left hlt] at hc, hchash⟩
        · rw [List.getElem?_append_right hge] at hc
          have hmem : c ∈ [b] := List.mem_of_getElem? hc
          obtain rfl := List.mem_singleton.mp hmem
          exact absurd hchash.symm heq
  txLocation id := by
    have hlocate : (t.insertBlock b b.hash).txLocation id =
        locateAll b.header.height t.txLocation b.transactions.zipIdx id := rfl
    rw [hlocate, locateAll_eq (by omega) hnodup, h.txLocation, findTransaction_append, hheight,
      findTransaction, Nat.zero_add]
    cases hfind : b.transactions.zipIdx.find? fun p => p.1.id == id with
    | none => cases findTransaction id 0 bs <;> rfl
    | some p =>
      have hid : p.1.id = id := by simpa using List.find?_some hfind
      have hmem := List.fst_mem_of_mem_zipIdx (List.mem_of_find?_eq_some hfind)
      have hnone := hfresh p.1 hmem
      rw [hid] at hnone
      rw [hnone]
      rfl

end Tables

namespace LocalChainStore

variable [Platform]

theorem getLast_blocks (s : LocalChainStore) : s.blocks.getLast? = some s.headBlock := by
  rw [List.getLast?_eq_getElem?, blocks_length]
  exact getBlock_head s

theorem WellFormed.genesis_place {s : LocalChainStore} (hs : s.WellFormed) :
    s.genesis.header.height = 0 ∧ s.genesis.header.previousHash = Hash.zero := by
  induction hs with
  | genesis hgen faults => exact ⟨hgen.height, hgen.previousHash⟩
  | push hs hb ht ih =>
    rw [ht.2.1]
    exact ih

theorem WellFormed.linked {s : LocalChainStore} (hs : s.WellFormed) :
    (s.blocks.map Block.header).IsChain Linked := by
  induction hs with
  | genesis hgen faults => exact List.isChain_singleton _
  | push hs hb ht ih =>
    rename_i s t b
    rw [blocks_of_sameChain ht, blocks_push, List.map_append, List.map_singleton]
    refine List.isChain_append.mpr ⟨ih, List.isChain_singleton _, ?_⟩
    intro parent hparent child hchild
    obtain rfl := Option.some.inj hchild
    rw [List.getLast?_map, getLast_blocks] at hparent
    obtain rfl := Option.some.inj hparent
    exact ⟨hb.height, hb.previousHash, hb.timestamp⟩

theorem WellFormed.sealed {s : LocalChainStore} (hs : s.WellFormed) :
    ∀ b ∈ s.blocks, Sealed s.networkId b := by
  induction hs with
  | genesis hgen faults =>
    intro b hb
    obtain rfl := List.mem_singleton.mp hb
    exact ⟨hgen.version, hgen.network, hgen.length, hgen.txCount, hgen.txRoot, hgen.sound⟩
  | push hs hb ht ih =>
    rename_i s t c
    intro b hmem
    rw [blocks_of_sameChain ht, blocks_push] at hmem
    rw [ht.1]
    rcases List.mem_append.mp hmem with hold | hnew
    · exact ih b hold
    · obtain rfl := List.mem_singleton.mp hnew
      exact ⟨hb.version, hb.network, hb.length, hb.txCount, hb.txRoot, hb.sound⟩

theorem WellFormed.head_le {s : LocalChainStore} (hs : s.WellFormed) : s.head.height ≤ u64Max := by
  cases hs with
  | genesis hgen faults => exact Nat.zero_le _
  | push hs hb ht =>
    rename_i s b
    have hroom := hb.room
    rw [hs.head_height] at hroom
    have hlength := congrArg List.length (blocks_of_sameChain ht)
    rw [blocks_length, blocks_push, List.length_append, blocks_length, List.length_singleton]
      at hlength
    omega

omit [Platform] in
theorem blockIds_blocks (s : LocalChainStore) :
    blockIds s.blocks = s.transactions.map Transaction.id := by
  rw [transactions, List.map_flatMap]
  rfl

end LocalChainStore

open LocalChainStore (WellFormed)

/-- The tables hold the chain of `s`. -/
structure Tables.Represents [Platform] (t : Tables) (s : LocalChainStore) : Prop where
  networkId : t.networkId = s.networkId
  genesisHash : t.genesisHash = s.genesisHash
  head : t.head = s.head
  transactionCount : t.transactionCount = s.transactions.length
  indexes : t.Indexes s.blocks

namespace Tables

variable [Platform] {t : Tables} {s : LocalChainStore}

theorem Represents.readBlock (h : t.Represents s) (height : ℕ) :
    t.readBlock height = .ok (s.getBlock height) := by
  unfold Tables.readBlock
  rw [h.indexes.blocks]
  unfold LocalChainStore.getBlock
  cases s.blocks[height]? with
  | none => rfl
  | some b => simp only [Option.map_some, decode_eq_ok.mpr rfl]

theorem Represents.requireBlock (h : t.Represents s) {height : ℕ} {b : Block} :
    t.requireBlock height = .ok b ↔ s.getBlock height = some b := by
  simp only [Tables.requireBlock, h.readBlock, ok_bind, orError_eq_ok]

theorem Represents.committed (h : t.Represents s) :
    t.committedTransactions [] = s.containsTransaction := by
  funext id
  have hsome : (t.txLocation id).isSome = (s.getTransaction id).isSome := by
    rw [h.indexes.txLocation, Option.isSome_map]
    rfl
  simp only [committedTransactions, List.contains_nil, Bool.false_or, hsome]
  cases hfind : s.getTransaction id with
  | none =>
    exact (LocalChainStore.containsTransaction_eq_false.mpr
      (LocalChainStore.getTransaction_eq_none.mp hfind)).symm
  | some l =>
    have hmem : id ∈ s.transactions.map Transaction.id := by
      by_contra hout
      rw [LocalChainStore.getTransaction_eq_none.mpr hout] at hfind
      cases hfind
    exact (LocalChainStore.containsTransaction_iff.mpr hmem).symm

/-- What one append does to the tables of a chain it does to the chain. -/
theorem Represents.appendOne (hfree : HeadersCollisionFree) (hs : s.WellFormed) (h : t.Represents s)
    {b : Block} {t' : Tables} (happend : t.appendOne b = .ok t') :
    (t' = t ∧ s.getBlock b.header.height = some b) ∨
      ∃ s', s' = s.push b ∧ s'.WellFormed ∧ t'.Represents s' := by
  rw [appendOne_eq] at happend
  cases hstage : (Batch.begin t).stage localDeterministicPolicy b with
  | error e =>
    rw [hstage] at happend
    cases happend
  | ok w =>
    rw [hstage] at happend
    obtain rfl := Except.ok.inj happend
    rcases Batch.stage_cases hstage with ⟨-, hstored, rfl⟩ | ⟨hheight, -, ⟨parent, hparent, hpolicy⟩, rfl⟩
    · exact .inl ⟨rfl, h.requireBlock.mp hstored⟩
    · refine .inr ⟨_, rfl, ?_⟩
      have hhead : (Batch.begin t).head = s.head := h.head
      have hheadBlock : (Batch.begin t).tables.requireBlock (Batch.begin t).head.height =
          .ok s.headBlock := by
        rw [hhead]
        exact h.requireBlock.mpr (LocalChainStore.getBlock_head s)
      have hparentHeader : parent = s.headBlock.header := by
        unfold Batch.parentHeader at hparent
        have hnone : (Batch.begin t).parent = none := rfl
        rw [hnone, hheadBlock] at hparent
        exact (Except.ok.inj hparent).symm
      have hcontext : (Batch.begin t).acceptanceContext parent = s.acceptanceContext := by
        have hids := h.committed
        unfold Batch.acceptanceContext LocalChainStore.acceptanceContext
        rw [hparentHeader, hhead, ← hids, ← h.networkId, ← h.genesisHash]
        rfl
      rw [hcontext] at hpolicy
      have hchild := LocalChainStore.localDeterministicPolicy_ok.mp hpolicy
      rw [hhead] at hheight
      have hposition : b.header.height = s.blocks.length := hheight
      refine ⟨.push hs hchild ⟨rfl, rfl, rfl⟩, h.networkId, h.genesisHash, ?_, ?_, ?_⟩
      · rw [LocalChainStore.head_push, ← hheight]
        rfl
      · have hcount := h.transactionCount
        change t.transactionCount + b.transactions.length = _
        rw [hcount, LocalChainStore.transactions, LocalChainStore.transactions,
          LocalChainStore.blocks_push, List.flatMap_append, List.length_append,
          List.flatMap_singleton]
      · rw [LocalChainStore.blocks_push]
        have hindexes := h.indexes.insertBlock hposition (b := b) ?_ hchild.length hchild.nodup ?_
        · exact ⟨hindexes.blocks, hindexes.heightByHash, hindexes.txLocation⟩
        · intro c hc heq
          obtain ⟨i, hi⟩ := List.mem_iff_getElem?.mp hc
          have hclt := (List.getElem?_eq_some_iff.mp hi).1
          have hplace := hs.height hi
          have hheader : c.header = b.header := hfree heq
          rw [hheader, hposition] at hplace
          omega
        · intro x hx
          exact LocalChainStore.getTransaction_eq_none.mpr
            (LocalChainStore.containsTransaction_eq_false.mp (hchild.fresh x hx))

/-- Verification reads a chain file through its head record and its blocks. -/
def source (t : Tables) : BlockSource where
  networkId := t.networkId
  genesisHash := t.genesisHash
  head := if t.head.height ≤ u64Max then .ok t.head else .error ⟨lit "the head record is malformed"⟩
  blockAt height :=
    match t.readBlock height with
    | .ok stored => .ok stored
    | .error _ => .error ⟨lit "the stored bytes are not a block"⟩
  fits head h := by
    split at h
    · rename_i hle
      obtain rfl := Except.ok.inj h
      exact hle
    · cases h

/-- What the tables of every chain file satisfy. -/
structure Consistent (t : Tables) : Prop where
  stored : ∀ height ≤ t.head.height,
    ∃ b, t.readBlock height = .ok (some b) ∧ b.header.height = height
  above : ∀ height, t.head.height < height → t.blocks height = none
  headHash : ∀ b, t.readBlock t.head.height = .ok (some b) → b.hash = t.head.hash
  heightByHash : ∀ hash height, t.heightByHash hash = some height ↔
    ∃ b, t.readBlock height = .ok (some b) ∧ b.hash = hash
  txLocation : ∀ id height index, t.locate id = some (height, index) ↔
    ∃ b x, t.readBlock height = .ok (some b) ∧ b.transactions[index]? = some x ∧ x.id = id
  transactionCount : ∃ bs : List Block, bs.length = t.head.height + 1 ∧
    (∀ height, t.readBlock height = .ok bs[height]?) ∧ (blockIds bs).Nodup ∧
      t.transactionCount = (bs.map fun b => b.transactions.length).sum
  verifies : (verifyChain t.source {}).findings = []

theorem Represents.verifies (hs : s.WellFormed) (h : t.Represents s) :
    (verifyChain t.source {}).findings = [] := by
  have hle : t.head.height ≤ u64Max := by
    rw [h.head]
    exact hs.head_le
  have hblock : ∀ height, t.source.blockAt height = .ok s.blocks[height]? := by
    intro height
    have hread := h.readBlock height
    simp only [source, hread]
    rfl
  have hchain : ValidChain t.source t.head s.blocks := by
    refine ⟨if_pos hle, ?_, fun height _ => hblock height, ?_, hs.linked, ?_, ?_, ?_⟩
    · rw [h.head]
      exact LocalChainStore.blocks_length s
    · intro b hb
      obtain rfl := Option.some.inj hb
      exact ⟨h.genesisHash.symm, hs.genesis_place.1, hs.genesis_place.2⟩
    · have hnetwork : t.source.networkId = s.networkId := h.networkId
      rw [hnetwork]
      exact hs.sealed
    · rw [LocalChainStore.blockIds_blocks]
      exact hs.nodup
    · intro b hb
      rw [LocalChainStore.getLast_blocks] at hb
      obtain rfl := Option.some.inj hb
      rw [h.head]
      rfl
  exact hchain.verifies

theorem Represents.locate (h : t.Represents s) (id : TxId) :
    t.locate id = (s.getTransaction id).map fun l => (l.height, l.index) := by
  unfold Tables.locate
  rw [h.indexes.txLocation, LocalChainStore.getTransaction]
  cases findTransaction id 0 s.blocks with
  | none => rfl
  | some l => simp only [Option.map_some, Option.bind_some, decode_eq_ok.mpr rfl]; rfl

/-- The tables of a well-formed chain are consistent. -/
theorem Represents.consistent (hs : s.WellFormed) (h : t.Represents s) : t.Consistent where
  stored height hle := by
    rw [h.head] at hle
    have hlt : height < s.blocks.length := by
      rw [LocalChainStore.blocks_length]
      omega
    have hget : s.getBlock height = some s.blocks[height] := List.getElem?_eq_getElem hlt
    exact ⟨_, by rw [h.readBlock, hget], hs.height hget⟩
  above height hlt := by
    rw [h.head] at hlt
    rw [h.indexes.blocks, List.getElem?_eq_none]
    · rfl
    · rw [LocalChainStore.blocks_length]
      omega
  headHash b hb := by
    rw [h.readBlock, h.head, LocalChainStore.getBlock_head] at hb
    rw [h.head]
    have hhead : s.headBlock = b := by simpa using hb
    rw [← hhead]
    rfl
  heightByHash hash height := by
    rw [h.indexes.heightByHash]
    simp only [h.readBlock, Except.ok.injEq]
    rfl
  txLocation id height index := by
    rw [h.locate]
    constructor
    · intro hfound
      obtain ⟨l, hl, hplace⟩ := Option.map_eq_some_iff.mp hfound
      obtain ⟨rfl, rfl⟩ := Prod.mk.inj hplace
      obtain ⟨hid, b, hb, hx⟩ := LocalChainStore.getTransaction_some hl
      exact ⟨b, l.transaction, by rw [h.readBlock, hb], hx, hid⟩
    · rintro ⟨b, x, hb, hx, rfl⟩
      rw [h.readBlock] at hb
      rw [hs.getTransaction (by simpa using hb) hx]
      rfl
  transactionCount := by
    refine ⟨s.blocks, ?_, h.readBlock, ?_, ?_⟩
    · rw [h.head]
      exact LocalChainStore.blocks_length s
    · rw [LocalChainStore.blockIds_blocks]
      exact hs.nodup
    · rw [h.transactionCount, LocalChainStore.transactions, List.length_flatMap]
  verifies := h.verifies hs

end Tables

/-- A call on a chain file. -/
inductive StoreCall where
  | initGenesis (spec : GenesisSpec)
  | appendBlock (b : Block)
  | appendBlocks (bs : List Block)

namespace Place

variable [Platform]

/-- What a call leaves, given what the database answers to it. Without a chain there is no store to
append to. -/
def perform (p : Place) : StoreCall × DatabaseAnswers → Place
  | (.initGenesis spec, answers) => (p.initGenesis spec answers).2
  | (.appendBlock b, answers) =>
    match p with
    | .chain t => .chain (t.appendBlock b answers.commit).2
    | p => p
  | (.appendBlocks bs, answers) =>
    match p with
    | .chain t => .chain (t.appendBlocks bs answers.commit).2
    | p => p

def run (calls : List (StoreCall × DatabaseAnswers)) (p : Place) : Place := calls.foldl perform p

/-- The chain at a place, if there is one, is well-formed. -/
def Sound (p : Place) : Prop :=
  ∀ t, p = .chain t → ∃ s : LocalChainStore, s.WellFormed ∧ t.Represents s

/-- The chain at one place goes on at the other. -/
def Extends (p q : Place) : Prop :=
  ∀ t, p = .chain t → ∀ s : LocalChainStore, s.WellFormed → t.Represents s →
    ∃ t' s', q = .chain t' ∧ s'.WellFormed ∧ t'.Represents s' ∧ s.Extends s'

end Place

namespace Tables

variable [Platform] {t : Tables} {s : LocalChainStore}

/-- A run of appends extends the chain. -/
theorem Represents.appendEach (hfree : HeadersCollisionFree) {bs : List Block} {t' : Tables}
    (hs : s.WellFormed) (h : t.Represents s) (happend : t.appendEach bs = .ok t') :
    ∃ s', s'.WellFormed ∧ t'.Represents s' ∧ s.Extends s' := by
  induction bs generalizing t s with
  | nil =>
    obtain rfl := Except.ok.inj happend
    exact ⟨s, hs, h, .refl s⟩
  | cons b bs ih =>
    rw [Tables.appendEach, List.foldlM_cons] at happend
    obtain ⟨u, hone, hrest⟩ := bind_eq_ok.mp happend
    rcases h.appendOne hfree hs hone with ⟨rfl, -⟩ | ⟨s', rfl, hs', hu⟩
    · exact ih hs h hrest
    · obtain ⟨s'', hs'', ht', hext⟩ := ih hs' hu hrest
      exact ⟨s'', hs'', ht', (LocalChainStore.extends_push s b).trans hext⟩

/-- An append leaves the tables as they were, or those of the run that the database took. -/
theorem appendBlocks_snd (t : Tables) (bs : List Block) (refusal : Option Text) :
    (t.appendBlocks bs refusal).2 = t ∨ t.appendEach bs = .ok (t.appendBlocks bs refusal).2 := by
  cases happend : t.appendBlocks bs refusal with
  | mk r t' =>
    cases r with
    | error e => exact .inl (appendBlocks_eq_error happend)
    | ok outcome =>
      cases refusal with
      | none => exact .inr (appendBlocks_eq_ok happend)
      | some detail =>
        unfold appendBlocks appendBlocksWith at happend
        split at happend
        · exact .inl (Prod.mk.inj happend).2.symm
        · split at happend <;> cases happend

theorem appendBlock_snd (t : Tables) (b : Block) (refusal : Option Text) :
    (t.appendBlock b refusal).2 = (t.appendBlocks [b] refusal).2 := by
  unfold appendBlock
  cases t.appendBlocks [b] refusal with
  | mk r t' => cases r <;> rfl

end Tables

namespace Place

section Rules

variable [Platform]

/-- A new chain file holds its genesis block. -/
theorem represents_writeGenesis {networkId : NetworkId} {b : Block} {refusal : Option Text}
    {t : Tables} (h : writeGenesis localDeterministicPolicy networkId b refusal = .ok t) :
    ∃ s : LocalChainStore, s.WellFormed ∧ t.Represents s := by
  have hnone : (blank networkId b.hash).committedTransactions [] = fun _ => false := rfl
  unfold writeGenesis at h
  obtain ⟨_, hpolicy, h⟩ := bind_eq_ok.mp h
  rw [hnone] at hpolicy
  have hgen : GenesisOf networkId b :=
    checkBlock_genesis.mp (ensure_eq_ok.mp (mapErr_eq_ok.mp hpolicy))
  cases refusal with
  | some detail => cases h
  | none =>
    obtain rfl := Except.ok.inj h
    refine ⟨⟨networkId, b, [], []⟩, .genesis hgen [], rfl, rfl, rfl, ?_, ?_⟩
    · simp [LocalChainStore.transactions, LocalChainStore.blocks]
    · have hindexes := (Tables.indexes_blank networkId b.hash).insertBlock (b := b) hgen.height
        (fun c hc => by cases hc) hgen.length hgen.nodup fun x _ => rfl
      exact ⟨hindexes.blocks, hindexes.heightByHash, hindexes.txLocation⟩

theorem writeGenesis_of_genesisOf {networkId : NetworkId} {b : Block}
    (h : GenesisOf networkId b) :
    ∃ t, writeGenesis localDeterministicPolicy networkId b none = .ok t := by
  have hnone : (blank networkId b.hash).committedTransactions [] = fun _ => false := rfl
  have hpolicy : localDeterministicPolicy ⟨networkId, b.hash, none, none,
      (blank networkId b.hash).committedTransactions []⟩ b = .ok () := by
    rw [hnone]
    exact ensure_of (checkBlock_genesis.mpr h)
  exact ⟨_, by simp only [writeGenesis, hpolicy, mapErr_ok, ok_bind]; rfl⟩

/-- A genesis of sound transactions founds a chain where nothing is yet. -/
theorem initGenesis_of_sound {spec : GenesisSpec} (hlength : spec.transactions.length ≤ u32Max)
    (hsound : ∀ x ∈ spec.transactions, x.Sound)
    (hnodup : (spec.transactions.map Transaction.id).Nodup) :
    ∃ t, Place.free.initGenesis spec {} = (.ok t, .chain t) := by
  have hbuild : ∃ b, spec.build = .ok b := ⟨_, BlockDraft.build_eq_ok.mpr ⟨hlength, rfl⟩⟩
  obtain ⟨b, hb⟩ := hbuild
  obtain ⟨-, hblock⟩ := BlockDraft.build_eq_ok.mp hb
  have hgen : GenesisOf spec.networkId b := by
    rw [hblock]
    exact ⟨rfl, rfl, rfl, rfl, hlength, rfl, rfl, hsound, hnodup⟩
  obtain ⟨t, ht⟩ := writeGenesis_of_genesisOf hgen
  exact ⟨t, by simp only [initGenesis, initGenesisWithPolicy, hb, ht]⟩

theorem perform_append (hfree : HeadersCollisionFree) {t : Tables} (bs : List Block)
    (refusal : Option Text) {s : LocalChainStore} (hs : s.WellFormed) (h : t.Represents s) :
    ∃ s', s'.WellFormed ∧ (t.appendBlocks bs refusal).2.Represents s' ∧ s.Extends s' := by
  rcases t.appendBlocks_snd bs refusal with hsame | heach
  · rw [hsame]
    exact ⟨s, hs, h, .refl s⟩
  · exact h.appendEach hfree hs heach

/-- A call on a chain extends it. -/
theorem perform_extends (hfree : HeadersCollisionFree) (p : Place)
    (call : StoreCall × DatabaseAnswers) : p.Extends (p.perform call) := by
  rintro t rfl s hs h
  obtain ⟨call, answers⟩ := call
  cases call with
  | initGenesis spec => exact ⟨t, s, rfl, hs, h, .refl s⟩
  | appendBlock b =>
    obtain ⟨s', hs', ht', hext⟩ := perform_append hfree [b] answers.commit hs h
    exact ⟨_, s', rfl, hs', by rwa [Tables.appendBlock_snd], hext⟩
  | appendBlocks bs =>
    obtain ⟨s', hs', ht', hext⟩ := perform_append hfree bs answers.commit hs h
    exact ⟨_, s', rfl, hs', ht', hext⟩

theorem Sound.perform (hfree : HeadersCollisionFree) {p : Place} (hp : p.Sound)
    (call : StoreCall × DatabaseAnswers) : (p.perform call).Sound := by
  intro t ht
  cases p with
  | chain u =>
    obtain ⟨s, hs, hu⟩ := hp u rfl
    obtain ⟨t', s', hplace, hs', ht', -⟩ := perform_extends hfree (.chain u) call u rfl s hs hu
    rw [ht, Place.chain.injEq] at hplace
    exact ⟨s', hs', hplace ▸ ht'⟩
  | file =>
    obtain ⟨call, answers⟩ := call
    cases call <;> cases ht
  | free =>
    obtain ⟨call, answers⟩ := call
    cases call with
    | appendBlock b => cases ht
    | appendBlocks bs => cases ht
    | initGenesis spec =>
      simp only [Place.perform, initGenesis, initGenesisWithPolicy] at ht
      split at ht
      · cases ht
      · split at ht
        · dsimp only at ht
          split at ht <;> cases ht
        · split at ht
          · cases ht
          · rename_i hwrite
            obtain rfl := Place.chain.inj ht
            exact represents_writeGenesis hwrite

theorem Sound.run (hfree : HeadersCollisionFree) {p : Place} (hp : p.Sound)
    (calls : List (StoreCall × DatabaseAnswers)) : (p.run calls).Sound := by
  induction calls generalizing p with
  | nil => exact hp
  | cons call calls ih => exact ih (hp.perform hfree call)

theorem run_extends (hfree : HeadersCollisionFree) (p : Place)
    (calls : List (StoreCall × DatabaseAnswers)) : p.Extends (p.run calls) := by
  induction calls generalizing p with
  | nil =>
    rintro t rfl s hs h
    exact ⟨t, s, rfl, hs, h, .refl s⟩
  | cons call calls ih =>
    intro t ht s hs h
    obtain ⟨u, v, hu, hv, huv, hext⟩ := perform_extends hfree p call t ht s hs h
    obtain ⟨t', s', ht', hs', hrep, hext'⟩ := ih (p.perform call) u hu v hv huv
    exact ⟨t', s', ht', hs', hrep, hext.trans hext'⟩

theorem sound_free : Place.free.Sound := fun _ h => nomatch h

/-- Through every run the tables are consistent and no committed block changes. -/
theorem run_consistent (hfree : HeadersCollisionFree) (calls : List (StoreCall × DatabaseAnswers)) :
    (∀ t, Place.free.run calls = .chain t → t.Consistent) ∧
      ∀ more t t', Place.free.run calls = .chain t → Place.free.run (calls ++ more) = .chain t' →
        ∀ height raw, t.blocks height = some raw → t'.blocks height = some raw := by
  refine ⟨?_, ?_⟩
  · intro t ht
    obtain ⟨s, hs, h⟩ := sound_free.run hfree calls t ht
    exact h.consistent hs
  · intro more t t' ht ht' height raw hraw
    obtain ⟨s, hs, h⟩ := sound_free.run hfree calls t ht
    rw [run, List.foldl_append] at ht'
    obtain ⟨u, s', hu, hs', h', hext⟩ := run_extends hfree _ more t ht s hs h
    have hsame : u = t' := Place.chain.inj (hu.symm.trans ht')
    rw [← hsame, h'.indexes.blocks]
    rw [h.indexes.blocks] at hraw
    obtain ⟨b, hb, rfl⟩ := Option.map_eq_some_iff.mp hraw
    have hkept := hext.getBlock hb
    unfold LocalChainStore.getBlock at hkept
    rw [hkept, Option.map_some]

end Rules

section Samples

attribute [local instance] Sample.numberingPlatform

def emptySpec : GenesisSpec := ⟨⟨lit "net"⟩, 0, []⟩

theorem numbering_collisionFree : HeadersCollisionFree := by
  intro a b h
  rcases hashCanonical_eq h with heq | ⟨hne, hsame⟩
  · exact heq
  · exact absurd (Sample.numbering_injective hsame) hne

/-- A chain is created, and creating it again is refused. -/
theorem run_consistent_created : ∃ t, Place.free.run
    [(.initGenesis emptySpec, {}), (.initGenesis emptySpec, {})] = .chain t ∧ t.Consistent := by
  obtain ⟨t, ht⟩ := @initGenesis_of_sound _ emptySpec (Nat.zero_le _) (fun _ hx => nomatch hx) .nil
  have hrun : Place.free.run [(.initGenesis emptySpec, {}), (.initGenesis emptySpec, {})] =
      .chain t := by
    simp only [run, List.foldl_cons, List.foldl_nil, perform, ht]
    rfl
  exact ⟨t, hrun, (run_consistent numbering_collisionFree _).1 t hrun⟩

end Samples

end Place

end Irena.Prunella
