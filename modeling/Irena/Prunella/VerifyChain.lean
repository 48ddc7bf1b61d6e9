import Irena.Prunella.Chain

/-! # Full-chain verification

A walk from the first to the last height judges every block against its parent and the transaction
ids already seen. Over the whole range it reports nothing exactly for valid chains. -/

namespace Irena.Prunella

open Irena.Library Irena.Library.Outcome Irena.Library.Strings

/-- A chain could not be read. -/
structure SourceError where
  detail : Text
deriving DecidableEq

/-- The read-only view of a chain that verification walks. A height fits 64 bits. -/
structure BlockSource where
  networkId : NetworkId
  genesisHash : Hash
  head : Except SourceError ChainHead
  blockAt : ℕ → Except SourceError (Option Block)
  fits : ∀ h, head = .ok h → h.height ≤ u64Max

/-- What to verify; the whole chain unless bounds are given. -/
structure VerifyOptions where
  from_ : Option ℕ := none
  to_ : Option ℕ := none
  detectDuplicateTransactions : Bool := true

structure VerificationReport where
  networkId : NetworkId
  genesisHash : Hash
  head : Option ChainHead
  rangeStart : Option ℕ
  rangeEnd : Option ℕ
  blocksChecked : ℕ
  transactionsChecked : ℕ
  findings : List Finding
deriving DecidableEq

def VerificationReport.push (r : VerificationReport) (fs : List Finding) : VerificationReport :=
  { r with findings := r.findings ++ fs }

@[simp] theorem VerificationReport.push_findings (r : VerificationReport) (fs : List Finding) :
    (r.push fs).findings = r.findings ++ fs := rfl

/-- A block at `height`, or the finding that there is none to read. -/
def BlockSource.readBlock (source : BlockSource) (height : ℕ) : Except Finding Block :=
  match source.blockAt height with
  | .ok (some block) => .ok block
  | .ok none => .error ⟨.missingBlock, .atHeight height⟩
  | .error _ => .error ⟨.decodeError, .atHeight height⟩

theorem BlockSource.readBlock_eq_ok {source : BlockSource} {height : ℕ} {b : Block} :
    source.readBlock height = .ok b ↔ source.blockAt height = .ok (some b) := by
  unfold readBlock
  split <;> simp_all

variable [Platform]

/-- Checks that the block at height zero is the genesis the chain was created with. -/
def checkGenesisIdentity (source : BlockSource) : List Finding :=
  match source.readBlock 0 with
  | .error finding => [finding]
  | .ok genesis =>
    let here := (Location.atHeight 0).withBlockHash genesis.hash
    findUnless (genesis.hash == source.genesisHash) .genesisMismatch here ++
      findUnless (genesis.header.networkId == source.networkId) .networkMismatch here

/-- The parent header a walk that does not start at genesis needs. -/
def loadParent (source : BlockSource) (from_ : ℕ) : Except Finding BlockHeader :=
  match source.readBlock (from_ - 1) with
  | .error finding => .error finding
  | .ok block => .ok block.header

/-- The walk from `height` on, with `steps` more blocks to come after it. A block that cannot be
read ends it, since no later block's parent is known then. -/
def walk (source : BlockSource) (head : ChainHead) (detect : Bool) :
    ℕ → List TxId → Option BlockHeader → ℕ → VerificationReport → VerificationReport
  | steps, seen, parent, height, report =>
    match source.readBlock height with
    | .error finding => report.push [finding]
    | .ok block =>
      let context : BlockContext :=
        ⟨source.networkId, parent, if height = head.height then some head.hash else none,
          if detect then some fun id => seen.contains id else none⟩
      let report := { report.push (checkBlock context block) with
        blocksChecked := report.blocksChecked + 1
        transactionsChecked := report.transactionsChecked + block.transactions.length
        rangeEnd := some height }
      let seen := if detect then seen ++ block.transactions.map Transaction.id else seen
      match steps with
      | 0 => report
      | steps + 1 =>
        match nextHeight height with
        | .error _ => report
        | .ok next => walk source head detect steps seen (some block.header) next report

/-- Verifies a chain and returns a report, also for a badly damaged one. -/
def verifyChain (source : BlockSource) (options : VerifyOptions) : VerificationReport :=
  let report : VerificationReport :=
    ⟨source.networkId, source.genesisHash, none, none, none, 0, 0, []⟩
  match source.head with
  | .error _ => report.push [⟨.sourceFailure, {}⟩]
  | .ok head =>
    let report := { report with head := some head }.push (checkGenesisIdentity source)
    let from_ := options.from_.getD 0
    let to_ := match options.to_ with
      | none => head.height
      | some to_ => min to_ head.height
    if to_ < from_ then report
    else
      let report := { report with rangeStart := some from_ }
      let detect := options.detectDuplicateTransactions
      if from_ = 0 then walk source head detect (to_ - from_) [] none from_ report
      else
        match loadParent source from_ with
        | .error finding => report.push [finding]
        | .ok parent => walk source head detect (to_ - from_) [] (some parent) from_ report

/-- What a block has to satisfy whatever comes before it. -/
structure Sealed (network : NetworkId) (block : Block) : Prop where
  version : block.header.version = headerVersion
  network : block.header.networkId = network
  length : block.transactions.length ≤ u32Max
  txCount : block.header.txCount = block.transactions.length
  txRoot : block.header.txRoot = merkleRoot (block.transactions.map Transaction.id)
  sound : ∀ t ∈ block.transactions, t.Sound

/-- A block that takes the place after its parent. -/
structure Linked (parent child : BlockHeader) : Prop where
  height : child.height = parent.height + 1
  previousHash : child.previousHash = parent.blockHash
  timestamp : parent.timestampMillis ≤ child.timestampMillis

/-- The transaction ids of blocks, in chain order. -/
def blockIds (blocks : List Block) : List TxId :=
  blocks.flatMap fun b => b.transactions.map Transaction.id

omit [Platform] in
@[simp] theorem blockIds_nil : blockIds [] = [] := rfl

omit [Platform] in
@[simp] theorem blockIds_cons (b : Block) (bs : List Block) :
    blockIds (b :: bs) = b.transactions.map Transaction.id ++ blockIds bs := rfl

/-- `blocks` are what the source stores from genesis to its head, and they are a valid chain. -/
structure ValidChain (source : BlockSource) (head : ChainHead) (blocks : List Block) : Prop where
  reads : source.head = .ok head
  length : blocks.length = head.height + 1
  stored : ∀ height ≤ head.height, source.blockAt height = .ok blocks[height]?
  genesis : ∀ b, blocks.head? = some b → b.hash = source.genesisHash ∧ b.header.height = 0 ∧
    b.header.previousHash = Hash.zero
  linked : (blocks.map Block.header).IsChain Linked
  sealed : ∀ b ∈ blocks, Sealed source.networkId b
  nodup : (blockIds blocks).Nodup
  headHash : ∀ b, blocks.getLast? = some b → b.hash = head.hash

theorem checkBlock_eq_nil {network : NetworkId} {parent : Option BlockHeader}
    {expected : Option Hash} {seen : List TxId} {block : Block} :
    checkBlock ⟨network, parent, expected, some fun id => seen.contains id⟩ block = [] ↔
      Sealed network block ∧
      checkLinkage ⟨network, parent, expected, none⟩ block.header {} = [] ∧
      (block.transactions.map Transaction.id).Nodup ∧
      (∀ id ∈ block.transactions.map Transaction.id, id ∉ seen) ∧
      ∀ hash, expected = some hash → block.hash = hash := by
  have hlinkage : ∀ here there : Location,
      checkLinkage ⟨network, parent, expected, some fun id => seen.contains id⟩ block.header here = [] ↔
        checkLinkage ⟨network, parent, expected, none⟩ block.header there = [] := by
    intro here there
    unfold checkLinkage
    cases parent <;> simp
  simp only [checkBlock, List.append_eq_nil_iff, findUnless_eq_nil,
    checkTransactionCommitments_eq_nil, checkTransactionsFrom_eq_nil,
    hlinkage _ {}, beq_iff_eq, List.not_mem_nil, not_false_eq_true, implies_true, true_and,
    Option.some.injEq, forall_eq', List.forall_mem_map]
  constructor
  · rintro ⟨⟨⟨⟨⟨hv, hn⟩, hk⟩, hl, hc, hr⟩, hs, hd, hf⟩, he⟩
    refine ⟨⟨hv, hn, hl, hc, hr, hs⟩, hk, hd, fun t ht => by simpa using hf t ht, ?_⟩
    rintro hash rfl
    exact (eq_of_beq he).symm
  · rintro ⟨⟨hv, hn, hl, hc, hr, hs⟩, hk, hd, hf, he⟩
    refine ⟨⟨⟨⟨⟨hv, hn⟩, hk⟩, hl, hc, hr⟩, hs, hd, fun t ht => by simpa using hf t ht⟩, ?_⟩
    cases expected with
    | none => rfl
    | some hash => exact beq_iff_eq.mpr (he hash rfl).symm

theorem checkLinkage_none {network : NetworkId} {expected : Option Hash}
    {committed : Option (TxId → Bool)} {header : BlockHeader} {here : Location} :
    checkLinkage ⟨network, none, expected, committed⟩ header here = [] ↔
      header.height = 0 ∧ header.previousHash = Hash.zero := by
  simp [checkLinkage]

theorem checkLinkage_some {network : NetworkId} {parent header : BlockHeader}
    {expected : Option Hash} {committed : Option (TxId → Bool)} {here : Location}
    (hroom : parent.height < u64Max) :
    checkLinkage ⟨network, some parent, expected, committed⟩ header here = [] ↔
      Linked parent header := by
  simp only [checkLinkage, List.append_eq_nil_iff, findUnless_eq_nil, Bool.and_eq_true,
    decide_eq_true_eq, beq_iff_eq, hroom, true_and]
  exact ⟨fun ⟨⟨hh, hp⟩, ht⟩ => ⟨hh, hp, ht⟩, fun ⟨hh, hp, ht⟩ => ⟨⟨hh, hp⟩, ht⟩⟩

theorem checkGenesisIdentity_eq_nil {source : BlockSource} :
    checkGenesisIdentity source = [] ↔ ∃ g, source.blockAt 0 = .ok (some g) ∧
      g.hash = source.genesisHash ∧ g.header.networkId = source.networkId := by
  unfold checkGenesisIdentity
  cases hread : source.readBlock 0 with
  | error finding =>
    have hnone : ∀ g, source.blockAt 0 ≠ .ok (some g) := by
      intro g hg
      rw [BlockSource.readBlock_eq_ok.mpr hg] at hread
      cases hread
    simp [hnone]
  | ok g => simp [BlockSource.readBlock_eq_ok.mp hread]

/-- What one step of a walk that finds nothing has read, and what is left to walk. -/
def Walked (source : BlockSource) (head : ChainHead) :
    ℕ → List TxId → Option BlockHeader → ℕ → Prop
  | steps, seen, parent, height =>
    ∃ b, source.blockAt height = .ok (some b) ∧
      checkBlock ⟨source.networkId, parent, if height = head.height then some head.hash else none,
        some fun id => seen.contains id⟩ b = [] ∧
      match steps with
      | 0 => True
      | steps + 1 =>
        Walked source head steps (seen ++ b.transactions.map Transaction.id) (some b.header)
          (height + 1)

theorem walk_eq_nil {source : BlockSource} {head : ChainHead} {steps : ℕ} {seen : List TxId}
    {parent : Option BlockHeader} {height : ℕ} {report : VerificationReport}
    (hfits : height + steps ≤ u64Max) :
    (walk source head true steps seen parent height report).findings = [] ↔
      report.findings = [] ∧ Walked source head steps seen parent height := by
  induction steps generalizing seen parent height report with
  | zero =>
    unfold walk Walked
    cases hread : source.readBlock height with
    | error finding =>
      have hnone : ∀ b, source.blockAt height ≠ .ok (some b) := by
        intro b hb
        rw [BlockSource.readBlock_eq_ok.mpr hb] at hread
        cases hread
      simp [hnone]
    | ok b => simp [BlockSource.readBlock_eq_ok.mp hread]
  | succ steps ih =>
    unfold walk Walked
    cases hread : source.readBlock height with
    | error finding =>
      have hnone : ∀ b, source.blockAt height ≠ .ok (some b) := by
        intro b hb
        rw [BlockSource.readBlock_eq_ok.mpr hb] at hread
        cases hread
      simp [hnone]
    | ok b =>
      have hnext : nextHeight height = .ok (height + 1) :=
        nextHeight_eq_ok.mpr ⟨rfl, by omega⟩
      simp only [hnext, ih (by omega : height + 1 + steps ≤ u64Max),
        BlockSource.readBlock_eq_ok.mp hread, VerificationReport.push_findings,
        List.append_eq_nil_iff, if_true, Except.ok.injEq, Option.some.injEq, exists_eq_left',
        and_assoc]

/-- `blocks` are stored from `height` on, follow `parent`, and end at the head. -/
structure Continues (source : BlockSource) (head : ChainHead) (parent : Option BlockHeader)
    (seen : List TxId) (height : ℕ) (blocks : List Block) : Prop where
  stored : ∀ i < blocks.length, source.blockAt (height + i) = .ok blocks[i]?
  starts : ∀ b, blocks.head? = some b →
    checkLinkage ⟨source.networkId, parent, none, none⟩ b.header {} = []
  linked : (blocks.map Block.header).IsChain Linked
  sealed : ∀ b ∈ blocks, Sealed source.networkId b
  nodup : (blockIds blocks).Nodup
  fresh : ∀ id ∈ blockIds blocks, id ∉ seen
  headHash : ∀ b, blocks.getLast? = some b → b.hash = head.hash

/-- The last block of a walk. -/
theorem continues_singleton {source : BlockSource} {head : ChainHead} {seen : List TxId}
    {parent : Option BlockHeader} {b : Block} :
    Continues source head parent seen head.height [b] ↔
      source.blockAt head.height = .ok (some b) ∧
      checkBlock ⟨source.networkId, parent, some head.hash, some fun id => seen.contains id⟩ b =
        [] := by
  rw [checkBlock_eq_nil]
  constructor
  · intro h
    refine ⟨h.stored 0 Nat.zero_lt_one, h.sealed b List.mem_cons_self, h.starts b rfl,
      by simpa using h.nodup, fun id hid => h.fresh id (by simpa using hid), ?_⟩
    rintro hash heq
    rw [h.headHash b rfl, Option.some.inj heq]
  · rintro ⟨hstored, hsealed, hstarts, hnodup, hfresh, hhash⟩
    refine ⟨?_, ?_, by simp, by simpa using hsealed, by simpa using hnodup,
      fun id hid => hfresh id (by simpa using hid), ?_⟩
    · intro i hi
      obtain rfl : i = 0 := by simpa using hi
      exact hstored
    · rintro c hc
      obtain rfl := Option.some.inj hc
      exact hstarts
    · rintro c hc
      obtain rfl := Option.some.inj hc
      exact hhash head.hash rfl

/-- A block that is not the last is followed by one that names it as its parent. -/
theorem continues_cons {source : BlockSource} {head : ChainHead} {seen : List TxId}
    {parent : Option BlockHeader} {height : ℕ} {b c : Block} {rest : List Block}
    (hroom : b.header.height < u64Max) :
    Continues source head parent seen height (b :: c :: rest) ↔
      source.blockAt height = .ok (some b) ∧
      checkBlock ⟨source.networkId, parent, none, some fun id => seen.contains id⟩ b = [] ∧
      Continues source head (some b.header) (seen ++ b.transactions.map Transaction.id)
        (height + 1) (c :: rest) := by
  rw [checkBlock_eq_nil]
  constructor
  · intro h
    obtain ⟨hfirst, hrest, hdisjoint⟩ := List.nodup_append.mp h.nodup
    obtain ⟨hlink, hlinked⟩ := List.isChain_cons_cons.mp h.linked
    refine ⟨h.stored 0 (Nat.zero_lt_succ _), ⟨h.sealed b List.mem_cons_self, h.starts b rfl, hfirst,
      fun id hid => h.fresh id (List.mem_append_left _ hid), fun _ heq => nomatch heq⟩, ?_⟩
    refine ⟨?_, ?_, hlinked, fun d hd => h.sealed d (List.mem_cons_of_mem _ hd), hrest, ?_, ?_⟩
    · intro i hi
      have hstored := h.stored (i + 1) (Nat.succ_lt_succ hi)
      rw [← Nat.add_assoc, Nat.add_right_comm] at hstored
      simpa using hstored
    · intro d hd
      obtain rfl := Option.some.inj hd
      exact (checkLinkage_some hroom).mpr hlink
    · intro id hid hmem
      rcases List.mem_append.mp hmem with hseen | hb
      · exact h.fresh id (List.mem_append_right _ hid) hseen
      · exact hdisjoint id hb id hid rfl
    · intro d hd
      exact h.headHash d (by rw [List.getLast?_cons_cons]; exact hd)
  · rintro ⟨hstored, ⟨hsealed, hstarts, hnodup, hfresh, -⟩, h⟩
    refine ⟨?_, ?_, ?_, ?_, ?_, ?_, ?_⟩
    · intro i hi
      cases i with
      | zero => exact hstored
      | succ i =>
        have hnext := h.stored i (Nat.lt_of_succ_lt_succ hi)
        rw [Nat.add_right_comm, Nat.add_assoc] at hnext
        simpa using hnext
    · intro d hd
      obtain rfl := Option.some.inj hd
      exact hstarts
    · exact List.isChain_cons_cons.mpr
        ⟨(checkLinkage_some hroom).mp (h.starts c rfl), h.linked⟩
    · intro d hd
      rcases List.mem_cons.mp hd with rfl | hd
      · exact hsealed
      · exact h.sealed d hd
    · refine List.nodup_append.mpr ⟨hnodup, h.nodup, ?_⟩
      rintro id hid _ hrest rfl
      exact h.fresh id hrest (List.mem_append_right _ hid)
    · intro id hid
      rcases List.mem_append.mp hid with hb | hrest
      · exact hfresh id hb
      · exact fun hseen => h.fresh id hrest (List.mem_append_left _ hseen)
    · intro d hd
      exact h.headHash d (by rw [List.getLast?_cons_cons] at hd; exact hd)

/-- The height after the parent's; without a parent it is genesis. -/
def Follows (parent : Option BlockHeader) (height : ℕ) : Prop :=
  match parent with
  | none => height = 0
  | some p => p.height + 1 = height

omit [Platform] in
theorem follows_none : Follows none 0 := rfl

omit [Platform] in
theorem follows_some {header : BlockHeader} {height : ℕ} (h : header.height = height) :
    Follows (some header) (height + 1) := congrArg (· + 1) h

theorem height_of_checkLinkage {network : NetworkId} {parent : Option BlockHeader} {height : ℕ}
    {header : BlockHeader} (hplace : Follows parent height) (hfits : height ≤ u64Max)
    (h : checkLinkage ⟨network, parent, none, none⟩ header {} = []) : header.height = height := by
  cases parent with
  | none => rw [(checkLinkage_none.mp h).1, hplace]
  | some p =>
    have hroom : p.height < u64Max := by
      have : p.height + 1 = height := hplace
      omega
    rw [((checkLinkage_some hroom).mp h).height]
    exact hplace

/-- A walk to the head finds nothing exactly when the source stores what continues the walk. -/
theorem walked_iff {source : BlockSource} {head : ChainHead} {steps : ℕ} {seen : List TxId}
    {parent : Option BlockHeader} {height : ℕ} (hplace : Follows parent height)
    (hhead : height + steps = head.height) (hfits : head.height ≤ u64Max) :
    Walked source head steps seen parent height ↔
      ∃ bs, bs.length = steps + 1 ∧ Continues source head parent seen height bs := by
  induction steps generalizing seen parent height with
  | zero =>
    obtain rfl : height = head.height := hhead
    unfold Walked
    simp only [if_true, and_true, ← continues_singleton]
    constructor
    · rintro ⟨b, h⟩
      exact ⟨[b], rfl, h⟩
    · rintro ⟨bs, hlen, h⟩
      obtain ⟨b, rfl⟩ := List.length_eq_one_iff.mp hlen
      exact ⟨b, h⟩
  | succ steps ih =>
    have hlt : height ≠ head.height := by omega
    unfold Walked
    simp only [if_neg hlt]
    constructor
    · rintro ⟨b, hstored, hcheck, hwalked⟩
      have hheight : b.header.height = height :=
        height_of_checkLinkage hplace (by omega) (checkBlock_eq_nil.mp hcheck).2.1
      obtain ⟨bs, hlen, hbs⟩ := (ih (follows_some hheight) (by omega)).mp hwalked
      cases bs with
      | nil => cases hlen
      | cons c rest =>
        exact ⟨b :: c :: rest, by simpa using hlen,
          (continues_cons (by omega)).mpr ⟨hstored, hcheck, hbs⟩⟩
    · rintro ⟨bs, hlen, hbs⟩
      obtain ⟨b, c, rest, rfl⟩ : ∃ b c rest, bs = b :: c :: rest := by
        match bs, hlen with
        | b :: c :: rest, _ => exact ⟨b, c, rest, rfl⟩
      have hheight : b.header.height = height :=
        height_of_checkLinkage hplace (by omega) (hbs.starts b rfl)
      obtain ⟨hstored, hcheck, hrest⟩ := (continues_cons (by omega)).mp hbs
      exact ⟨b, hstored, hcheck,
        (ih (follows_some hheight) (by omega)).mpr ⟨c :: rest, by simpa using hlen, hrest⟩⟩

/-- A valid chain is what continues from nothing and starts at the recorded genesis. -/
theorem validChain_iff {source : BlockSource} {head : ChainHead} {blocks : List Block} :
    ValidChain source head blocks ↔ source.head = .ok head ∧ blocks.length = head.height + 1 ∧
      (∀ b, blocks.head? = some b → b.hash = source.genesisHash) ∧
      Continues source head none [] 0 blocks := by
  constructor
  · intro h
    refine ⟨h.reads, h.length, fun b hb => (h.genesis b hb).1, ?_, ?_, h.linked, h.sealed, h.nodup,
      fun _ _ => List.not_mem_nil, h.headHash⟩
    · intro i hi
      rw [Nat.zero_add]
      exact h.stored i (by rw [h.length] at hi; omega)
    · intro b hb
      exact checkLinkage_none.mpr (h.genesis b hb).2
  · rintro ⟨hhead, hlen, hgenesis, h⟩
    refine ⟨hhead, hlen, ?_, ?_, h.linked, h.sealed, h.nodup, h.headHash⟩
    · intro height hle
      have hstored := h.stored height (by omega)
      rwa [Nat.zero_add] at hstored
    · intro b hb
      exact ⟨hgenesis b hb, checkLinkage_none.mp (h.starts b hb)⟩

/-- What the whole pass finds, once the head is read. -/
theorem verifyChain_eq_nil_of_head {source : BlockSource} {head : ChainHead}
    (hhead : source.head = .ok head) :
    (verifyChain source {}).findings = [] ↔ checkGenesisIdentity source = [] ∧
      ∃ bs, bs.length = head.height + 1 ∧ Continues source head none [] 0 bs := by
  have hfits := source.fits head hhead
  unfold verifyChain
  simp only [hhead, Option.getD_none, Nat.not_lt_zero, if_false, if_true, Nat.sub_zero,
    walk_eq_nil (by omega : 0 + head.height ≤ u64Max),
    walked_iff follows_none (Nat.zero_add head.height) hfits,
    VerificationReport.push_findings, List.nil_append]

/-- No rule is violated on a valid chain. -/
theorem ValidChain.verifies {source : BlockSource} {head : ChainHead} {blocks : List Block}
    (h : ValidChain source head blocks) : (verifyChain source {}).findings = [] := by
  obtain ⟨hhead, hlen, hgenesis, hcontinues⟩ := validChain_iff.mp h
  refine (verifyChain_eq_nil_of_head hhead).mpr ⟨?_, blocks, hlen, hcontinues⟩
  cases blocks with
  | nil => cases hlen
  | cons g rest =>
    exact checkGenesisIdentity_eq_nil.mpr ⟨g, hcontinues.stored 0 (Nat.zero_lt_succ _),
      hgenesis g rfl, (hcontinues.sealed g List.mem_cons_self).network⟩

/-- A pass that finds nothing has walked a valid chain. -/
theorem ValidChain.of_verifyChain {source : BlockSource}
    (h : (verifyChain source {}).findings = []) :
    ∃ head blocks, ValidChain source head blocks := by
  cases hhead : source.head with
  | error e => simp [verifyChain, hhead] at h
  | ok head =>
    obtain ⟨hidentity, blocks, hlen, hcontinues⟩ := (verifyChain_eq_nil_of_head hhead).mp h
    obtain ⟨g, hg, hhash, -⟩ := checkGenesisIdentity_eq_nil.mp hidentity
    refine ⟨head, blocks, validChain_iff.mpr ⟨hhead, hlen, ?_, hcontinues⟩⟩
    intro b hb
    have hstored := hcontinues.stored 0 (by omega)
    rw [Nat.zero_add, hg, ← List.head?_eq_getElem?, hb] at hstored
    obtain rfl : g = b := by simpa using hstored
    exact hhash

/-- Verification of the whole chain reports nothing exactly when the chain is valid. -/
theorem verifyChain_findings_eq_nil (source : BlockSource) :
    (verifyChain source {}).findings = [] ↔ ∃ head blocks, ValidChain source head blocks :=
  ⟨ValidChain.of_verifyChain, fun ⟨_, _, h⟩ => h.verifies⟩

end Irena.Prunella
