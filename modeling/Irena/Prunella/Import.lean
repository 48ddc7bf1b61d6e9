import Irena.Prunella.StoreRuns

/-! # Applying documents to a chain

A document is planned against a chain without a write, and an import applies what was planned
through the store, which asks its own acceptance policy. -/

namespace Irena.Prunella

open Irena.Library Irena.Library.Outcome Irena.Library.Strings
open LocalChainStore (BatchOutcome)

inductive DocumentKind where
  | full
  | range
  | projection
deriving DecidableEq

def DocumentKind.asStr : DocumentKind → Text
  | .full => lit "full"
  | .range => lit "range"
  | .projection => lit "projection"

def DocumentKind.isImportable (kind : DocumentKind) : Bool := kind = .full ∨ kind = .range

/-- The filter a projection was produced with. -/
structure Projection where
  filterNamespace : Namespace
deriving DecidableEq

/-- A block of a document, and the hash the producer declared for it. -/
structure DocumentBlock where
  block : Block
  declaredHash : Hash
deriving DecidableEq

structure ChainDocument where
  kind : DocumentKind
  networkId : NetworkId
  genesisHash : Hash
  rangeStart : ℕ
  rangeEnd : ℕ
  projection : Option Projection
  blocks : List DocumentBlock
deriving DecidableEq

/-- Why a document cannot found a chain. -/
inductive RestoreRefusal where
  | kind (kind : DocumentKind)
  | noBlocks
  | notAtGenesis (height : ℕ)
  | rebuildsTo (declared rebuilt : Hash)
deriving DecidableEq

inductive XmlError where
  | networkMismatch (expected found : NetworkId)
  | genesisMismatch (expected found : Hash)
  | declaredHashMismatch (height : ℕ) (declared computed : Hash)
  | gap (head expected found : ℕ)
  | fork (height : ℕ) (existing offered : Hash)
  | invalidBlocks (findings : List Finding)
  | notImportable (kind namespace_ : Text)
  | notRestorable (reason : RestoreRefusal)
  | chainUnreadable (height : ℕ)
  | store (error : StoreError)
  | core (error : CoreError)
deriving DecidableEq

/-- What an import would do. -/
structure ImportPlan where
  kind : DocumentKind
  rangeStart : ℕ
  rangeEnd : ℕ
  blocksInDocument : ℕ
  blocksAlreadyPresent : ℕ
  blocksToAppend : ℕ
  resultingHead : ChainHead
deriving DecidableEq

section Rules

variable [Platform]

/-- Rejects a document that is not for this chain, or not importable at all. -/
def checkDocumentIdentity (t : Tables) (document : ChainDocument) : Except XmlError Unit := do
  ensure (document.kind.isImportable = true) (.notImportable document.kind.asStr
    (match document.projection with
      | none => lit "unknown"
      | some p => p.filterNamespace.value))
  ensure (document.networkId = t.networkId) (.networkMismatch t.networkId document.networkId)
  ensure (document.genesisHash = t.genesisHash)
    (.genesisMismatch t.genesisHash document.genesisHash)

/-- Compares each declared hash with what the contents derive. -/
def checkDeclaredHashes : List DocumentBlock → Except XmlError Unit
  | [] => .ok ()
  | entry :: rest => do
    ensure (entry.block.hash = entry.declaredHash)
      (.declaredHashMismatch entry.block.header.height entry.declaredHash entry.block.hash)
    checkDeclaredHashes rest

/-- One block of a document: already committed, to be appended, or a fork. -/
def sortOut (t : Tables) (w : ℕ × List Block) (entry : DocumentBlock) :
    Except XmlError (ℕ × List Block) :=
  let height := entry.block.header.height
  if height ≤ t.head.height then do
    let stored ← mapErr .store (t.readBlock height)
    let committed ← orError stored (.chainUnreadable height)
    if committed = entry.block then return (w.1 + 1, w.2)
    else throw (.fork height committed.hash entry.block.hash)
  else return (w.1, w.2 ++ [entry.block])

/-- The findings of a run that follows `parent`, where `pending` ids came before in the run. -/
def validateRunFrom (t : Tables) : BlockHeader → List TxId → List Block → List Finding
  | _, _, [] => []
  | parent, pending, block :: rest =>
    checkBlock ⟨t.networkId, some parent, none, some (t.committedTransactions pending)⟩ block ++
      validateRunFrom t block.header (pending ++ block.transactions.map Transaction.id) rest

/-- Applies the deterministic rules to a run of blocks that would extend the chain. -/
def validateRun (t : Tables) (blocks : List Block) : Except XmlError (List Finding) := do
  let stored ← mapErr .store (t.readBlock t.head.height)
  let parent ← orError stored (.chainUnreadable t.head.height)
  return validateRunFrom t parent.header [] blocks

/-- Checks a document against a chain without writing anything. -/
def planImport (t : Tables) (document : ChainDocument) : Except XmlError ImportPlan := do
  checkDocumentIdentity t document
  checkDeclaredHashes document.blocks
  let (alreadyPresent, toAppend) ← document.blocks.foldlM (sortOut t) (0, [])
  match toAppend with
  | [] =>
    return ⟨document.kind, document.rangeStart, document.rangeEnd, document.blocks.length,
      alreadyPresent, 0, t.head⟩
  | first :: rest =>
    let expected ← mapErr .core (nextHeight t.head.height)
    ensure (first.header.height = expected) (.gap t.head.height expected first.header.height)
    let findings ← validateRun t (first :: rest)
    ensure (findings = []) (.invalidBlocks findings)
    let last := (first :: rest).getLast (List.cons_ne_nil _ _)
    return ⟨document.kind, document.rangeStart, document.rangeEnd, document.blocks.length,
      alreadyPresent, (first :: rest).length, ⟨last.header.height, last.hash⟩⟩

/-- Applies a document to a chain whose store has a policy. -/
def importDocument (policy : BlockAcceptancePolicy) (document : ChainDocument)
    (refusal : Option Text) (t : Tables) : Except XmlError BatchOutcome × Tables :=
  match planImport t document with
  | .error e => (.error e, t)
  | .ok _ =>
    match t.appendBlocksWith policy (document.blocks.map DocumentBlock.block) refusal with
    | (.error e, t') => (.error (.store e), t')
    | (.ok outcome, t') => (.ok outcome, t')

/-- The genesis a full document founds a chain with, rebuilt from its own height-zero block. -/
def rebuildGenesis (document : ChainDocument) : Except XmlError GenesisSpec := do
  ensure (document.kind = .full) (.notRestorable (.kind document.kind))
  let entry ← orError document.blocks.head? (.notRestorable .noBlocks)
  let genesis := entry.block
  ensure (genesis.header.height = 0) (.notRestorable (.notAtGenesis genesis.header.height))
  let rebuilt ← mapErr .core (GenesisSpec.build
    ⟨genesis.header.networkId, genesis.header.timestampMillis, genesis.transactions⟩)
  ensure (rebuilt.hash = document.genesisHash)
    (.notRestorable (.rebuildsTo document.genesisHash rebuilt.hash))
  return ⟨rebuilt.header.networkId, rebuilt.header.timestampMillis, rebuilt.transactions⟩

/-- Creates a chain from a full backup and applies it; the database answers to its creation and to
the commit of the import. -/
def Place.restore (document : ChainDocument) (answers : DatabaseAnswers × Option Text) (p : Place) :
    Except XmlError (Tables × BatchOutcome) × Place :=
  match rebuildGenesis document with
  | .error e => (.error e, p)
  | .ok spec =>
    match p.initGenesis spec answers.1 with
    | (.error e, p') => (.error (.store e), p')
    | (.ok t, _) =>
      match importDocument localDeterministicPolicy document answers.2 t with
      | (.error e, t') => (.error e, .chain t')
      | (.ok outcome, t') => (.ok (t', outcome), .chain t')

/-- A policy takes each block of a run where it would stand, after `parent`. -/
def Accepts (policy : BlockAcceptancePolicy) (t : Tables) :
    ChainHead → BlockHeader → List TxId → List Block → Prop
  | _, _, _, [] => True
  | head, parent, pending, b :: rest =>
    policy ⟨t.networkId, t.genesisHash, some head, some parent, t.committedTransactions pending⟩ b =
      .ok () ∧
    Accepts policy t ⟨b.header.height, b.hash⟩ b.header
      (pending ++ b.transactions.map Transaction.id) rest

/-- A policy takes a run on the stored head. -/
def Takes (policy : BlockAcceptancePolicy) (t : Tables) (bs : List Block) : Prop :=
  bs = [] ∨ ∃ parent, t.requireBlock t.head.height = .ok parent ∧
    Accepts policy t t.head parent.header [] bs

/-- Heights that go up by one from `height` on. -/
def Consecutive : ℕ → List Block → Prop
  | _, [] => True
  | height, b :: rest =>
    height < u64Max ∧ b.header.height = height + 1 ∧ Consecutive (height + 1) rest

/-- The head after a run. -/
def headAfter (head : ChainHead) (bs : List Block) : ChainHead :=
  match bs.getLast? with
  | none => head
  | some b => ⟨b.header.height, b.hash⟩

theorem headAfter_cons (head : ChainHead) (b : Block) (bs : List Block) :
    headAfter head (b :: bs) = headAfter ⟨b.header.height, b.hash⟩ bs := by
  unfold headAfter
  rw [List.getLast?_cons]
  cases bs.getLast? <;> rfl

theorem accepts_local_iff {t : Tables} {head : ChainHead} {parent : BlockHeader}
    {pending : List TxId} {bs : List Block} :
    Accepts localDeterministicPolicy t head parent pending bs ↔
      validateRunFrom t parent pending bs = [] := by
  induction bs generalizing head parent pending with
  | nil => exact iff_of_true trivial rfl
  | cons b bs ih =>
    unfold Accepts validateRunFrom
    rw [ih, List.append_eq_nil_iff]
    refine and_congr_left fun _ => ?_
    exact ensure_eq_ok

/-- Blocks that follow each other have consecutive heights. -/
theorem consecutive_of_accepts {t : Tables} {head : ChainHead} {parent : BlockHeader}
    {pending : List TxId} {bs : List Block}
    (h : Accepts localDeterministicPolicy t head parent pending bs) :
    Consecutive parent.height bs := by
  induction bs generalizing head parent pending with
  | nil => trivial
  | cons b bs ih =>
    obtain ⟨hpolicy, hrest⟩ := h
    have hchild := checkBlock_child.mp (ensure_eq_ok.mp hpolicy)
    have hnext := ih hrest
    rw [hchild.height] at hnext
    exact ⟨hchild.room, hchild.height, hnext⟩

/-- The blocks of a run that lie above the head. -/
def Tables.above (t : Tables) (bs : List Block) : List Block :=
  bs.filter fun b => t.head.height < b.header.height

omit [Platform] in
theorem Tables.above_cons_of_lt {t : Tables} {b : Block} {bs : List Block}
    (h : t.head.height < b.header.height) : t.above (b :: bs) = b :: t.above bs := by
  simp [above, h]

omit [Platform] in
theorem Tables.above_cons_of_le {t : Tables} {b : Block} {bs : List Block}
    (h : b.header.height ≤ t.head.height) : t.above (b :: bs) = t.above bs := by
  simp [above, Nat.not_lt.mpr h]

def ChainDocument.newBlocks (document : ChainDocument) (t : Tables) : List Block :=
  t.above (document.blocks.map DocumentBlock.block)

/-- What a document must satisfy for the chain to take it by the deterministic rules. -/
structure Importable (t : Tables) (document : ChainDocument) : Prop where
  kind : document.kind.isImportable = true
  networkId : document.networkId = t.networkId
  genesisHash : document.genesisHash = t.genesisHash
  declared : ∀ entry ∈ document.blocks, entry.block.hash = entry.declaredHash
  overlap : ∀ entry ∈ document.blocks, entry.block.header.height ≤ t.head.height →
    t.requireBlock entry.block.header.height = .ok entry.block
  next : ∀ b, (document.newBlocks t).head? = some b →
    t.head.height < u64Max ∧ b.header.height = t.head.height + 1
  run : Takes localDeterministicPolicy t (document.newBlocks t)

/-- The plan of such a document. -/
def ChainDocument.planOn (document : ChainDocument) (t : Tables) : ImportPlan :=
  ⟨document.kind, document.rangeStart, document.rangeEnd, document.blocks.length,
    document.blocks.length - (document.newBlocks t).length, (document.newBlocks t).length,
    headAfter t.head (document.newBlocks t)⟩

omit [Platform] in
theorem checkDocumentIdentity_eq_ok {t : Tables} {document : ChainDocument} {u : Unit} :
    checkDocumentIdentity t document = .ok u ↔ document.kind.isImportable = true ∧
      document.networkId = t.networkId ∧ document.genesisHash = t.genesisHash := by
  simp [checkDocumentIdentity]

theorem checkDeclaredHashes_eq_ok {entries : List DocumentBlock} {u : Unit} :
    checkDeclaredHashes entries = .ok u ↔
      ∀ entry ∈ entries, entry.block.hash = entry.declaredHash := by
  induction entries with
  | nil => simp [checkDeclaredHashes]
  | cons entry entries ih => simp [checkDeclaredHashes, ih]

omit [Platform] in
theorem requireBlock_eq_ok_iff {t : Tables} {height : ℕ} {b : Block} :
    t.requireBlock height = .ok b ↔ t.readBlock height = .ok (some b) := by
  rw [Tables.requireBlock_eq_ok, Tables.readBlock_eq_ok]

/-- Sorting out keeps the committed blocks apart from the new ones. -/
theorem foldlM_sortOut {t : Tables} {entries : List DocumentBlock} {n : ℕ} {acc : List Block}
    {w : ℕ × List Block} :
    entries.foldlM (sortOut t) (n, acc) = .ok w ↔
      (∀ entry ∈ entries, entry.block.header.height ≤ t.head.height →
        t.requireBlock entry.block.header.height = .ok entry.block) ∧
      w = (n + ((entries.map DocumentBlock.block).filter
          fun b => b.header.height ≤ t.head.height).length,
        acc ++ (entries.map DocumentBlock.block).filter
          fun b => t.head.height < b.header.height) := by
  induction entries generalizing n acc with
  | nil => simp [eq_comm]
  | cons entry entries ih =>
    rw [List.foldlM_cons, bind_eq_ok]
    rcases Nat.lt_or_ge t.head.height entry.block.header.height with hlt | hle
    · have hstep : sortOut t (n, acc) entry = .ok (n, acc ++ [entry.block]) := by
        unfold sortOut
        dsimp only
        rw [if_neg (Nat.not_le.mpr hlt)]
        rfl
      rw [hstep]
      simp only [Except.ok.injEq, exists_eq_left', ih, List.forall_mem_cons, List.map_cons,
        List.filter_cons, hlt, Nat.not_le.mpr hlt, decide_true, decide_false, if_true,
        Bool.false_eq_true, if_false, false_implies, true_and, List.append_assoc,
        List.singleton_append]
    · have hstep : ∀ w', sortOut t (n, acc) entry = .ok w' ↔
          t.requireBlock entry.block.header.height = .ok entry.block ∧ w' = (n + 1, acc) := by
        intro w'
        rw [requireBlock_eq_ok_iff]
        unfold sortOut
        dsimp only
        rw [if_pos hle]
        simp only [bind_eq_ok, mapErr_eq_ok, orError_eq_ok]
        constructor
        · rintro ⟨stored, hstored, committed, rfl, h⟩
          split at h
          · rename_i heq
            subst heq
            exact ⟨hstored, (Except.ok.inj h).symm⟩
          · cases h
        · rintro ⟨hstored, rfl⟩
          exact ⟨_, hstored, _, rfl, by rw [if_pos rfl]; rfl⟩
      simp only [hstep, and_assoc, exists_and_left, exists_eq_left, ih, List.forall_mem_cons,
        List.map_cons, List.filter_cons, hle, Nat.not_lt.mpr hle, decide_true, decide_false,
        if_true, Bool.false_eq_true, if_false, forall_const, List.length_cons, Nat.add_assoc,
        Nat.add_comm 1]

omit [Platform] in
theorem validateRun_eq_ok [Platform] {t : Tables} {bs : List Block} {findings : List Finding} :
    validateRun t bs = .ok findings ↔ ∃ parent, t.requireBlock t.head.height = .ok parent ∧
      findings = validateRunFrom t parent.header [] bs := by
  unfold validateRun
  simp only [requireBlock_eq_ok_iff, bind_eq_ok, mapErr_eq_ok, orError_eq_ok, pure_eq_ok,
    Except.ok.injEq]
  constructor
  · rintro ⟨stored, hstored, parent, rfl, rfl⟩
    exact ⟨parent, hstored, rfl⟩
  · rintro ⟨parent, hstored, rfl⟩
    exact ⟨_, hstored, parent, rfl, rfl⟩

omit [Platform] in
theorem length_newBlocks (t : Tables) (document : ChainDocument) :
    ((document.blocks.map DocumentBlock.block).filter
      fun b => b.header.height ≤ t.head.height).length =
        document.blocks.length - (document.newBlocks t).length := by
  have hsplit := List.length_eq_length_filter_add (l := document.blocks.map DocumentBlock.block)
    fun b => decide (b.header.height ≤ t.head.height)
  have hnew : (document.blocks.map DocumentBlock.block).filter
      (fun b => !decide (b.header.height ≤ t.head.height)) = document.newBlocks t :=
    List.filter_congr fun b _ => by rw [← decide_not, decide_eq_decide, Nat.not_le]
  rw [hnew, List.length_map] at hsplit
  omega

/-- A document is planned exactly when the chain can take it. -/
theorem planImport_eq_ok {t : Tables} {document : ChainDocument} {plan : ImportPlan} :
    planImport t document = .ok plan ↔ Importable t document ∧ plan = document.planOn t := by
  have hlength := length_newBlocks t document
  have hsplit : planImport t document = .ok plan ↔
      (document.kind.isImportable = true ∧ document.networkId = t.networkId ∧
        document.genesisHash = t.genesisHash) ∧
      (∀ entry ∈ document.blocks, entry.block.hash = entry.declaredHash) ∧
      (∀ entry ∈ document.blocks, entry.block.header.height ≤ t.head.height →
        t.requireBlock entry.block.header.height = .ok entry.block) ∧
      (∀ b, (document.newBlocks t).head? = some b →
        t.head.height < u64Max ∧ b.header.height = t.head.height + 1) ∧
      Takes localDeterministicPolicy t (document.newBlocks t) ∧ plan = document.planOn t := by
    unfold planImport
    simp only [bind_eq_ok, checkDocumentIdentity_eq_ok, checkDeclaredHashes_eq_ok, foldlM_sortOut,
      exists_const, and_assoc, exists_and_left, exists_eq_left, hlength, List.nil_append,
      Nat.zero_add]
    refine and_congr_right fun _ => and_congr_right fun _ => and_congr_right fun _ =>
      and_congr_right fun _ => and_congr_right fun _ => ?_
    have hnew : (document.blocks.map DocumentBlock.block).filter
        (fun b => decide (t.head.height < b.header.height)) = document.newBlocks t := rfl
    rw [hnew]
    unfold ChainDocument.planOn Takes headAfter
    cases document.newBlocks t with
    | nil => simp [eq_comm]
    | cons first rest =>
      simp only [bind_eq_ok, mapErr_eq_ok, nextHeight_eq_ok, ensure_eq_ok, exists_const,
        validateRun_eq_ok, pure_eq_ok, Except.ok.injEq, List.head?_cons, Option.some.injEq,
        forall_eq', reduceCtorEq, false_or, accepts_local_iff, List.getLast?_eq_some_getLast
          (List.cons_ne_nil first rest)]
      constructor
      · rintro ⟨expected, ⟨rfl, hroom⟩, hheight, findings, ⟨parent, hparent, hfindings⟩, hnil, rfl⟩
        exact ⟨⟨hroom, hheight⟩, ⟨parent, hparent, hfindings ▸ hnil⟩, rfl⟩
      · rintro ⟨⟨hroom, hheight⟩, ⟨parent, hparent, hfindings⟩, rfl⟩
        exact ⟨_, ⟨rfl, hroom⟩, hheight, [], ⟨parent, hparent, hfindings.symm⟩, rfl, rfl⟩
  rw [hsplit]
  constructor
  · rintro ⟨⟨hkind, hnetwork, hgenesis⟩, hdeclared, hoverlap, hnext, hrun, hplan⟩
    exact ⟨⟨hkind, hnetwork, hgenesis, hdeclared, hoverlap, hnext, hrun⟩, hplan⟩
  · rintro ⟨h, hplan⟩
    exact ⟨⟨h.kind, h.networkId, h.genesisHash⟩, h.declared, h.overlap, h.next, h.run, hplan⟩

/-- An open write that has gone on from `t` by blocks with the ids `pending`. -/
structure Ahead (t : Tables) (w : Batch) (pending : List TxId) : Prop where
  networkId : w.tables.networkId = t.networkId
  genesisHash : w.tables.genesisHash = t.genesisHash
  blocks : ∀ height ≤ t.head.height, w.tables.blocks height = t.blocks height
  head : t.head.height ≤ w.head.height
  committed : w.tables.committedTransactions w.pending = t.committedTransactions pending

omit [Platform] in
theorem ahead_begin (t : Tables) : Ahead t (.begin t) [] :=
  ⟨rfl, rfl, fun _ _ => rfl, le_rfl, rfl⟩

theorem Ahead.push {t : Tables} {w : Batch} {pending : List TxId} (h : Ahead t w pending)
    {b : Block} (hheight : b.header.height = w.head.height + 1) :
    Ahead t (w.push b) (pending ++ b.transactions.map Transaction.id) where
  networkId := h.networkId
  genesisHash := h.genesisHash
  blocks height hle := by
    have hne : height ≠ b.header.height := by
      have := h.head
      omega
    have hblocks : (w.push b).tables.blocks height = w.tables.blocks height := by
      simp only [Batch.push, Tables.insertBlock_blocks, if_neg hne]
    rw [hblocks, h.blocks height hle]
  head := by
    have := h.head
    simp only [Batch.push]
    omega
  committed := by
    funext id
    have hbefore := congrFun h.committed id
    unfold Tables.committedTransactions at hbefore ⊢
    rw [Bool.eq_iff_iff] at hbefore ⊢
    simp only [Batch.push, Bool.or_eq_true, List.contains_iff_mem, List.mem_append,
      Tables.insertBlock_located] at hbefore ⊢
    tauto

/-- A block at or below the old head is only compared. -/
theorem Ahead.stage_old {policy : BlockAcceptancePolicy} {t : Tables} {w : Batch}
    {pending : List TxId} (h : Ahead t w pending) {b : Block}
    (hle : b.header.height ≤ t.head.height)
    (hstored : t.requireBlock b.header.height = .ok b) :
    w.stage policy b = .ok { w with alreadyPresent := w.alreadyPresent + 1 } := by
  have hsame : w.tables.requireBlock b.header.height = .ok b := by
    rw [Tables.requireBlock_eq_ok] at hstored ⊢
    rw [h.blocks _ hle, hstored]
  unfold Batch.stage
  dsimp only
  rw [if_pos (hle.trans h.head), hsame, ok_bind, if_pos rfl]
  rfl

/-- The next block is taken exactly when the policy takes it. -/
theorem Ahead.stage_new {policy : BlockAcceptancePolicy} {t : Tables} {w : Batch}
    {pending : List TxId} (h : Ahead t w pending) {parent : BlockHeader}
    (hparent : w.parentHeader = .ok parent) {b : Block} (hroom : w.head.height < u64Max)
    (hheight : b.header.height = w.head.height + 1) :
    w.stage policy b = (mapErr .notAccepted (policy
      ⟨t.networkId, t.genesisHash, some w.head, some parent, t.committedTransactions pending⟩ b)).map
        fun _ => w.push b := by
  have hnext : nextHeight w.head.height = .ok (w.head.height + 1) := nextHeight_eq_ok.mpr ⟨rfl, hroom⟩
  have hcontext : w.acceptanceContext parent =
      ⟨t.networkId, t.genesisHash, some w.head, some parent, t.committedTransactions pending⟩ := by
    unfold Batch.acceptanceContext
    rw [h.networkId, h.genesisHash, h.committed]
  unfold Batch.stage
  dsimp only
  rw [if_neg (by omega), hnext, mapErr_ok, ok_bind, ensure_of hheight, ok_bind, hparent, ok_bind,
    hcontext]
  generalize policy _ b = accepted
  cases accepted <;> rfl

/-- The write of a document's blocks: old ones are counted, and new ones are taken exactly when the
policy takes them one after the other. -/
theorem Ahead.foldlM_stage {policy : BlockAcceptancePolicy} {t : Tables} {bs : List Block}
    {w : Batch} {pending : List TxId} {parent : BlockHeader} (h : Ahead t w pending)
    (hparent : t.above bs ≠ [] → w.parentHeader = .ok parent)
    (hold : ∀ b ∈ bs, b.header.height ≤ t.head.height → t.requireBlock b.header.height = .ok b)
    (hnew : Consecutive w.head.height (t.above bs)) :
    (∃ w', bs.foldlM (Batch.stage policy) w = .ok w') ↔
      Accepts policy t w.head parent pending (t.above bs) := by
  induction bs generalizing w pending parent with
  | nil => exact iff_of_true ⟨w, rfl⟩ trivial
  | cons b bs ih =>
    have htail : ∀ c ∈ bs, c.header.height ≤ t.head.height →
        t.requireBlock c.header.height = .ok c := fun c hc => hold c (List.mem_cons_of_mem _ hc)
    rw [List.foldlM_cons]
    rcases Nat.lt_or_ge t.head.height b.header.height with hlt | hle
    · rw [Tables.above_cons_of_lt hlt] at hparent hnew ⊢
      obtain ⟨hroom, hheight, hrest⟩ := hnew
      rw [h.stage_new (hparent (List.cons_ne_nil _ _)) hroom hheight]
      unfold Accepts
      cases policy ⟨t.networkId, t.genesisHash, some w.head, some parent,
          t.committedTransactions pending⟩ b with
      | error e => simp [mapErr, Except.map]
      | ok u =>
        rw [← hheight] at hrest
        have hih := @ih (w.push b) _ b.header (h.push hheight) (fun _ => rfl) htail hrest
        simp only [mapErr_ok, true_and]
        exact hih
    · rw [Tables.above_cons_of_le hle] at hparent hnew ⊢
      rw [h.stage_old hle (hold b List.mem_cons_self hle), ok_bind]
      exact @ih { w with alreadyPresent := w.alreadyPresent + 1 } _ _
        ⟨h.networkId, h.genesisHash, h.blocks, h.head, h.committed⟩ hparent htail hnew

/-- What the write of a document's blocks counts, and where it ends. -/
theorem outcome_of_foldlM {policy : BlockAcceptancePolicy} {t : Tables} {bs : List Block}
    {w w' : Batch} (hhead : t.head.height ≤ w.head.height)
    (hnew : Consecutive w.head.height (t.above bs))
    (h : bs.foldlM (Batch.stage policy) w = .ok w') :
    w'.appended = w.appended + (t.above bs).length ∧
      w'.alreadyPresent + (t.above bs).length = w.alreadyPresent + bs.length ∧
      w'.head = headAfter w.head (t.above bs) ∧
      w'.head.height = w.head.height + (t.above bs).length := by
  induction bs generalizing w with
  | nil =>
    obtain rfl := Except.ok.inj h
    exact ⟨rfl, rfl, rfl, rfl⟩
  | cons b bs ih =>
    rw [List.foldlM_cons] at h
    obtain ⟨next, hstage, hrest⟩ := bind_eq_ok.mp h
    rcases Nat.lt_or_ge t.head.height b.header.height with hlt | hle
    · rw [Tables.above_cons_of_lt hlt] at hnew ⊢
      obtain ⟨-, hheight, hconsecutive⟩ := hnew
      rcases Batch.stage_cases hstage with ⟨hbelow, -, -⟩ | ⟨-, -, -, rfl⟩
      · omega
      · rw [← hheight] at hconsecutive
        obtain ⟨happended, hpresent, hend, hlast⟩ :=
          ih (by simp only [Batch.push]; omega) hconsecutive hrest
        rw [headAfter_cons, List.length_cons, List.length_cons]
        simp only [Batch.push] at happended hpresent hend hlast
        exact ⟨by omega, by omega, hend, by omega⟩
    · rw [Tables.above_cons_of_le hle] at hnew ⊢
      rcases Batch.stage_cases hstage with ⟨-, -, rfl⟩ | ⟨hheight, -, -, -⟩
      · obtain ⟨happended, hpresent, hend, hlast⟩ :=
          @ih { w with alreadyPresent := w.alreadyPresent + 1 } hhead hnew hrest
        rw [List.length_cons]
        dsimp only at happended hpresent hend hlast
        exact ⟨happended, by omega, hend, hlast⟩
      · omega

section Exact

variable {policy : BlockAcceptancePolicy} {t t' : Tables} {document : ChainDocument}
  {refusal : Option Text}

theorem Importable.consecutive (h : Importable t document) :
    Consecutive t.head.height (document.newBlocks t) := by
  have hnext := h.next
  have hrun := h.run
  cases hnew : document.newBlocks t with
  | nil => trivial
  | cons first rest =>
    rw [hnew] at hnext hrun
    obtain ⟨hroom, hheight⟩ := hnext first rfl
    rcases hrun with hnil | ⟨parent, -, -, hrest⟩
    · cases hnil
    · have hconsecutive := consecutive_of_accepts hrest
      rw [hheight] at hconsecutive
      exact ⟨hroom, hheight, hconsecutive⟩

theorem Importable.overlap_blocks (h : Importable t document) :
    ∀ b ∈ document.blocks.map DocumentBlock.block, b.header.height ≤ t.head.height →
      t.requireBlock b.header.height = .ok b := by
  intro b hb
  obtain ⟨entry, hentry, rfl⟩ := List.mem_map.mp hb
  exact h.overlap entry hentry

/-- The parent of the new blocks of a document, where it has any. -/
theorem Importable.parent (h : Importable t document) :
    ∃ parent : BlockHeader,
      (document.newBlocks t ≠ [] → (Batch.begin t).parentHeader = .ok parent) ∧
        ∀ policy, Takes policy t (document.newBlocks t) ↔
          Accepts policy t t.head parent [] (document.newBlocks t) := by
  rcases h.run with hnil | ⟨parent, hparent, -⟩
  · refine ⟨default, fun hne => absurd hnil hne, fun policy => ?_⟩
    rw [hnil]
    exact iff_of_true (.inl rfl) trivial
  · refine ⟨parent.header, fun _ => ?_, fun policy => ?_⟩
    · have hbegin : (Batch.begin t).parentHeader = (do
          let block ← t.requireBlock t.head.height
          return block.header) := rfl
      rw [hbegin, hparent]
      rfl
    · constructor
      · rintro (hnil | ⟨other, hother, haccepts⟩)
        · rw [hnil]
          trivial
        · obtain rfl := Except.ok.inj (hparent.symm.trans hother)
          exact haccepts
      · exact fun haccepts => .inr ⟨parent, hparent, haccepts⟩

/-- The write of a document the chain can take succeeds exactly when the policy takes its new
blocks. -/
theorem Importable.foldlM_stage (h : Importable t document) :
    (∃ w, (document.blocks.map DocumentBlock.block).foldlM (Batch.stage policy) (.begin t) =
      .ok w) ↔ Takes policy t (document.newBlocks t) := by
  obtain ⟨parent, hparent, htakes⟩ := h.parent
  rw [htakes]
  exact (ahead_begin t).foldlM_stage hparent h.overlap_blocks h.consecutive

/-- An import that ends well ends as planned. -/
theorem Importable.outcome (h : Importable t document) {outcome : BatchOutcome}
    (happend : t.appendBlocksWith policy (document.blocks.map DocumentBlock.block) refusal =
      (.ok outcome, t')) :
    outcome = ⟨(document.planOn t).blocksToAppend, (document.planOn t).blocksAlreadyPresent,
      (document.planOn t).resultingHead⟩ ∧ t'.head = (document.planOn t).resultingHead ∧
      t'.head.height = t.head.height + (document.planOn t).blocksToAppend := by
  unfold Tables.appendBlocksWith at happend
  split at happend
  · rename_i hnil
    have hblocks : document.blocks = [] := List.map_eq_nil_iff.mp hnil
    have hnew : document.newBlocks t = [] := by
      unfold ChainDocument.newBlocks
      rw [hblocks]
      rfl
    obtain ⟨houtcome, rfl⟩ := Prod.mk.inj happend
    obtain rfl := Except.ok.inj houtcome
    simp only [ChainDocument.planOn, hnew, hblocks]
    exact ⟨rfl, rfl, rfl⟩
  · cases hfold : (document.blocks.map DocumentBlock.block).foldlM (Batch.stage policy)
        (.begin t) with
    | error e =>
      rw [hfold] at happend
      cases happend
    | ok w =>
      rw [hfold] at happend
      cases refusal with
      | some detail => cases happend
      | none =>
        obtain ⟨houtcome, rfl⟩ := Prod.mk.inj happend
        obtain rfl := Except.ok.inj houtcome
        obtain ⟨happended, hpresent, hhead, hheight⟩ :=
          outcome_of_foldlM (Nat.le_refl _) h.consecutive hfold
        have hnew : t.above (document.blocks.map DocumentBlock.block) = document.newBlocks t := rfl
        have hzero : (Batch.begin t).appended = 0 ∧ (Batch.begin t).alreadyPresent = 0 := ⟨rfl, rfl⟩
        rw [hnew] at happended hpresent hhead hheight
        rw [List.length_map] at hpresent
        simp only [ChainDocument.planOn, LocalChainStore.BatchOutcome.mk.injEq]
        exact ⟨⟨by omega, by omega, hhead⟩, hhead, hheight⟩

/-- An append that is refused leaves the tables as they were. -/
theorem appendBlocksWith_unchanged {bs : List Block} {e : StoreError}
    (h : t.appendBlocksWith policy bs refusal = (.error e, t')) : t' = t := by
  unfold Tables.appendBlocksWith at h
  split at h
  · cases h
  · split at h
    · exact (Prod.mk.inj h).2.symm
    · cases refusal with
      | some detail => exact (Prod.mk.inj h).2.symm
      | none => cases h

theorem appendBlocksWith_isOk {bs : List Block} :
    (∃ outcome t', t.appendBlocksWith policy bs refusal = (.ok outcome, t')) ↔
      (∃ w, bs.foldlM (Batch.stage policy) (.begin t) = .ok w) ∧ (bs = [] ∨ refusal = none) := by
  unfold Tables.appendBlocksWith
  by_cases hnil : bs = []
  · simp [hnil]
  · rw [if_neg hnil]
    cases bs.foldlM (Batch.stage policy) (.begin t) with
    | error e => simp
    | ok w => cases refusal <;> simp [hnil]

/-- What the plan of an import promises of the import on the same chain. -/
structure PlanExact (policy : BlockAcceptancePolicy) (refusal : Option Text) (t : Tables)
    (document : ChainDocument) : Prop where
  agrees : (∃ plan, planImport t document = .ok plan) ↔
    ∃ outcome t', importDocument policy document refusal t = (.ok outcome, t')
  asPlanned : ∀ plan outcome t', planImport t document = .ok plan →
    importDocument policy document refusal t = (.ok outcome, t') →
      outcome = ⟨plan.blocksToAppend, plan.blocksAlreadyPresent, plan.resultingHead⟩ ∧
        t'.head = plan.resultingHead ∧ t'.head.height = t.head.height + plan.blocksToAppend
  unchanged : ∀ e t', importDocument policy document refusal t = (.error e, t') → t' = t

theorem importDocument_isOk :
    (∃ outcome t', importDocument policy document refusal t = (.ok outcome, t')) ↔
      Importable t document ∧ Takes policy t (document.newBlocks t) ∧
        (document.blocks = [] ∨ refusal = none) := by
  cases hplan : planImport t document with
  | error e =>
    have hnot : ¬ Importable t document := by
      intro h
      rw [planImport_eq_ok.mpr ⟨h, rfl⟩] at hplan
      cases hplan
    simp [importDocument, hplan, hnot]
  | ok plan =>
    obtain ⟨h, -⟩ := planImport_eq_ok.mp hplan
    have happend := @appendBlocksWith_isOk _ policy t refusal
      (document.blocks.map DocumentBlock.block)
    rw [h.foldlM_stage, List.map_eq_nil_iff] at happend
    rw [← happend]
    simp only [h, true_and]
    unfold importDocument
    rw [hplan]
    dsimp only
    cases t.appendBlocksWith policy (document.blocks.map DocumentBlock.block) refusal with
    | mk result t'' => cases result <;> simp

end Exact

section Founding

/-- The tables of a chain right after its genesis was written. -/
def founding (genesis : Block) : Tables :=
  { (Place.blank genesis.header.networkId genesis.hash).insertBlock genesis genesis.hash with
    transactionCount := genesis.transactions.length }

theorem requireBlock_founding {genesis : Block} (h : genesis.header.height = 0) :
    (founding genesis).requireBlock 0 = .ok genesis := by
  rw [Tables.requireBlock_eq_ok]
  have hblocks := Tables.insertBlock_blocks (Place.blank genesis.header.networkId genesis.hash)
    genesis genesis.hash 0
  rw [h, if_pos rfl] at hblocks
  exact hblocks

def emptyGenesis : Block :=
  ⟨⟨headerVersion, ⟨lit "net"⟩, 0, Hash.zero, merkleRoot [], 0, 0⟩, []⟩

def emptyChild : Block :=
  ⟨⟨headerVersion, ⟨lit "net"⟩, 1, emptyGenesis.hash, merkleRoot [], 0, 0⟩, []⟩

/-- A document of some blocks of the empty chain, each declared as `declared` says. -/
def emptyDocument (kind : DocumentKind) (declared : Block → Hash) (blocks : List Block) :
    ChainDocument :=
  ⟨kind, ⟨lit "net"⟩, emptyGenesis.hash, 0, 0, none, blocks.map fun b => ⟨b, declared b⟩⟩

theorem childOf_emptyChild (committed : TxId → Bool) :
    ChildOf ⟨lit "net"⟩ emptyGenesis.header committed emptyChild where
  version := rfl
  network := rfl
  room := (by decide : 0 < u64Max)
  height := rfl
  previousHash := rfl
  timestamp := le_rfl
  length := Nat.zero_le _
  txCount := rfl
  txRoot := rfl
  sound _ ht := nomatch ht
  nodup := .nil
  fresh _ ht := nomatch ht

theorem importable_emptyChild :
    Importable (founding emptyGenesis) (emptyDocument .range Block.hash [emptyChild]) where
  kind := rfl
  networkId := rfl
  genesisHash := rfl
  declared entry hentry := by
    obtain rfl := List.mem_singleton.mp hentry
    rfl
  overlap entry hentry hle := by
    obtain rfl := List.mem_singleton.mp hentry
    cases hle
  next b hb := by
    obtain rfl := Option.some.inj hb
    exact ⟨(by decide : 0 < u64Max), rfl⟩
  run := .inr ⟨emptyGenesis, requireBlock_founding rfl,
    ensure_of (checkBlock_child.mpr (childOf_emptyChild _)), trivial⟩

end Founding

def refuseEverything : BlockAcceptancePolicy := fun _ _ =>
  .error (.declined (lit "this policy accepts nothing"))

/-- A plan is exact wherever the store's policy takes the new blocks of a document that the rules
allow and the database takes the commit; so it is under the deterministic policy. -/
theorem planImport_exact_iff (policy : BlockAcceptancePolicy) (refusal : Option Text) (t : Tables)
    (document : ChainDocument) :
    (PlanExact policy refusal t document ↔ (Importable t document →
      Takes policy t (document.newBlocks t) ∧ (document.blocks = [] ∨ refusal = none))) ∧
    PlanExact localDeterministicPolicy none t document := by
  have hplan : (∃ plan, planImport t document = .ok plan) ↔ Importable t document := by
    simp only [planImport_eq_ok, exists_and_left, exists_eq, and_true]
  have hrest : ∀ policy refusal, (Importable t document → Takes policy t (document.newBlocks t) ∧
      (document.blocks = [] ∨ refusal = none)) → PlanExact policy refusal t document := by
    intro policy refusal hcondition
    refine ⟨?_, fun plan outcome t' hplanned himport => ?_, fun e t' himport => ?_⟩
    · rw [hplan, importDocument_isOk]
      exact ⟨fun h => ⟨h, hcondition h⟩, And.left⟩
    · obtain ⟨h, rfl⟩ := planImport_eq_ok.mp hplanned
      unfold importDocument at himport
      rw [hplanned] at himport
      dsimp only at himport
      split at himport
      · cases himport
      · rename_i found t'' happend
        obtain ⟨houtcome, rfl⟩ := Prod.mk.inj himport
        obtain rfl := Except.ok.inj houtcome
        exact h.outcome happend
    · unfold importDocument at himport
      split at himport
      · exact (Prod.mk.inj himport).2.symm
      · split at himport
        · rename_i happend
          obtain ⟨-, rfl⟩ := Prod.mk.inj himport
          exact appendBlocksWith_unchanged happend
        · cases himport
  refine ⟨⟨fun hexact h => ?_, hrest policy refusal⟩, hrest _ _ fun h => ⟨h.run, .inr rfl⟩⟩
  exact (importDocument_isOk.mp (hexact.agrees.mp (hplan.mpr h))).2

end Rules

section Samples

attribute [local instance] Sample.platform

/-- A document is planned on a chain whose policy then refuses it. -/
theorem planImport_refused :
    (∃ plan, planImport (founding emptyGenesis)
      (emptyDocument .range Block.hash [emptyChild]) = .ok plan) ∧
    ¬ ∃ outcome t', importDocument refuseEverything
      (emptyDocument .range Block.hash [emptyChild]) none (founding emptyGenesis) =
        (.ok outcome, t') := by
  refine ⟨⟨_, planImport_eq_ok.mpr ⟨importable_emptyChild, rfl⟩⟩, fun himport => ?_⟩
  obtain ⟨-, htakes, -⟩ := importDocument_isOk.mp himport
  rcases htakes with hnil | ⟨parent, -, hrefused, -⟩
  · cases hnil
  · cases hrefused

end Samples

end Irena.Prunella
