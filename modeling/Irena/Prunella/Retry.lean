import Irena.Prunella.Import

/-! # Trying again at the same place

A chain is founded at a place where nothing is. A call that fails after the file was made leaves it
there, and every later call at the place is refused. -/

namespace Irena.Prunella

open Irena.Library Irena.Library.Outcome Irena.Library.Strings

namespace Place

section Rules

variable [Platform]

/-- A document that founds a chain at a free place, where the database does what it is asked. -/
def Restorable (document : ChainDocument) : Prop :=
  ∃ result q, Place.free.restore document ({}, none) = (.ok result, q)

def Creatable (policy : BlockAcceptancePolicy) (spec : GenesisSpec) : Prop :=
  ∃ t q, Place.free.initGenesisWithPolicy policy spec {} = (.ok t, q)

/-- After a failed restore, every document that could found a chain founds it at the same place. -/
def RestoreRetries (document : ChainDocument) (answers : DatabaseAnswers × Option Text) : Prop :=
  ∀ e q, Place.free.restore document answers = (.error e, q) →
    ∀ document', Restorable document' →
      ∃ result q', q.restore document' ({}, none) = (.ok result, q')

def InitRetries (policy : BlockAcceptancePolicy) (spec : GenesisSpec) (answers : DatabaseAnswers) :
    Prop :=
  ∀ e q, Place.free.initGenesisWithPolicy policy spec answers = (.error e, q) →
    ∀ policy' spec', Creatable policy' spec' →
      ∃ t q', q.initGenesisWithPolicy policy' spec' {} = (.ok t, q')

/-- The first block of a full document, rebuilt into the genesis the document declares. -/
def Founds (document : ChainDocument) (genesis : Block) : Prop :=
  document.kind = .full ∧ ∃ entry, document.blocks.head? = some entry ∧
    entry.block.header.height = 0 ∧
      GenesisSpec.build ⟨entry.block.header.networkId, entry.block.header.timestampMillis,
        entry.block.transactions⟩ = .ok genesis ∧ genesis.hash = document.genesisHash

/-- The database did not create the file, and left none behind. -/
def LeavesNothing (answers : DatabaseAnswers) : Prop :=
  ∃ detail, answers.creation = some (detail, false)

/-- At a place that is not free nothing is created. -/
theorem initGenesisWithPolicy_occupied {policy : BlockAcceptancePolicy} {spec : GenesisSpec}
    {answers : DatabaseAnswers} {p : Place} (h : p ≠ .free) :
    p.initGenesisWithPolicy policy spec answers = (.error .alreadyExists, p) := by
  cases p with
  | free => exact absurd rfl h
  | file => rfl
  | chain t => rfl

/-- The tables of a chain file that was created. -/
def foundedBy (spec : GenesisSpec) (block : Block) : Tables :=
  { (blank spec.networkId block.hash).insertBlock block block.hash with
    transactionCount := block.transactions.length }

theorem writeGenesis_cases (policy : BlockAcceptancePolicy) (networkId : NetworkId) (block : Block)
    (refusal : Option Text) :
    (policy ⟨networkId, block.hash, none, none, fun _ => false⟩ block = .ok () ∧ refusal = none ∧
      writeGenesis policy networkId block refusal =
        .ok { (blank networkId block.hash).insertBlock block block.hash with
          transactionCount := block.transactions.length }) ∨
    (¬ (policy ⟨networkId, block.hash, none, none, fun _ => false⟩ block = .ok () ∧
      refusal = none) ∧ ∃ e, writeGenesis policy networkId block refusal = .error e) := by
  have hnone : (blank networkId block.hash).committedTransactions [] = fun _ => false := rfl
  unfold writeGenesis
  simp only [hnone]
  cases policy ⟨networkId, block.hash, none, none, fun _ => false⟩ block with
  | error e => exact .inr ⟨(fun h => nomatch h.1), _, rfl⟩
  | ok u =>
    cases refusal with
    | none => exact .inl ⟨rfl, rfl, rfl⟩
    | some detail => exact .inr ⟨(fun h => nomatch h.2), _, rfl⟩

/-- A creation of a genesis block that builds succeeds, or fails and leaves a file, or fails because the
database did not create one. -/
theorem initGenesis_of_build (policy : BlockAcceptancePolicy) {spec : GenesisSpec}
    (answers : DatabaseAnswers) {block : Block} (hbuild : spec.build = .ok block) :
    (answers.creation = none ∧
      policy ⟨spec.networkId, block.hash, none, none, fun _ => false⟩ block = .ok () ∧
      answers.commit = none ∧ Place.free.initGenesisWithPolicy policy spec answers =
        (.ok (foundedBy spec block), .chain (foundedBy spec block))) ∨
    (LeavesNothing answers ∧
      ∃ e, Place.free.initGenesisWithPolicy policy spec answers = (.error e, .free)) ∨
    (¬ LeavesNothing answers ∧ ¬ (answers.creation = none ∧
        policy ⟨spec.networkId, block.hash, none, none, fun _ => false⟩ block = .ok () ∧
        answers.commit = none) ∧
      ∃ e, Place.free.initGenesisWithPolicy policy spec answers = (.error e, .file)) := by
  cases hcreation : answers.creation with
  | some refused =>
    obtain ⟨detail, left⟩ := refused
    cases left with
    | false =>
      refine .inr (.inl ⟨⟨detail, hcreation⟩, .database detail, ?_⟩)
      simp only [initGenesisWithPolicy, hbuild, hcreation]
      rfl
    | true =>
      refine .inr (.inr ⟨?_, ?_, .database detail, ?_⟩)
      · rintro ⟨_, h⟩
        rw [hcreation] at h
        cases h
      · rintro ⟨h, -⟩
        cases h
      · simp only [initGenesisWithPolicy, hbuild, hcreation]
        rfl
  | none =>
    rcases writeGenesis_cases policy spec.networkId block answers.commit with
      ⟨hpolicy, hcommit, hwrite⟩ | ⟨hnot, e, he⟩
    · refine .inl ⟨rfl, hpolicy, hcommit, ?_⟩
      simp only [initGenesisWithPolicy, hbuild, hcreation, hwrite]
      rfl
    · refine .inr (.inr ⟨?_, fun h => hnot h.2, e, ?_⟩)
      · rintro ⟨_, h⟩
        rw [hcreation] at h
        cases h
      · simp only [initGenesisWithPolicy, hbuild, hcreation, he]

/-- A failed creation can be tried again exactly when no file was made. -/
theorem initRetries_iff (policy : BlockAcceptancePolicy) (spec : GenesisSpec)
    (answers : DatabaseAnswers) (hsome : ∃ policy spec, Creatable policy spec) :
    InitRetries policy spec answers ↔ ∀ block, spec.build = .ok block →
      LeavesNothing answers ∨ answers.creation = none ∧
        policy ⟨spec.networkId, block.hash, none, none, fun _ => false⟩ block = .ok () ∧
        answers.commit = none := by
  constructor
  · intro hretries block hbuild
    rcases initGenesis_of_build policy answers hbuild with
      ⟨hcreation, hpolicy, hcommit, -⟩ | ⟨hnothing, -⟩ | ⟨-, -, e, hfails⟩
    · exact .inr ⟨hcreation, hpolicy, hcommit⟩
    · exact .inl hnothing
    · obtain ⟨policy', spec', hcreatable⟩ := hsome
      obtain ⟨t, q, hretry⟩ := hretries _ _ hfails policy' spec' hcreatable
      cases hretry
  · intro hcondition e q hfails policy' spec' hcreatable
    cases hbuild : spec.build with
    | error e' =>
      simp only [initGenesisWithPolicy, hbuild] at hfails
      obtain ⟨-, rfl⟩ := Prod.mk.inj hfails
      exact hcreatable
    | ok block =>
      rcases initGenesis_of_build policy answers hbuild with
        ⟨-, -, -, hok⟩ | ⟨-, e', hfree⟩ | ⟨hleft, hnot, -⟩
      · rw [hfails] at hok
        cases hok
      · obtain ⟨-, rfl⟩ := Prod.mk.inj (hfails.symm.trans hfree)
        exact hcreatable
      · exact absurd (hcondition block hbuild) (not_or.mpr ⟨hleft, hnot⟩)

theorem rebuildGenesis_eq_ok {document : ChainDocument} {spec : GenesisSpec} :
    rebuildGenesis document = .ok spec ↔ ∃ genesis, Founds document genesis ∧
      spec = ⟨genesis.header.networkId, genesis.header.timestampMillis, genesis.transactions⟩ := by
  unfold rebuildGenesis Founds
  simp only [bind_eq_ok, ensure_eq_ok, orError_eq_ok, mapErr_eq_ok, exists_const, pure_eq_ok,
    Except.ok.injEq]
  constructor
  · rintro ⟨hkind, entry, hentry, hheight, genesis, hbuild, hhash, rfl⟩
    exact ⟨genesis, ⟨hkind, entry, hentry, hheight, hbuild, hhash⟩, rfl⟩
  · rintro ⟨genesis, ⟨hkind, entry, hentry, hheight, hbuild, hhash⟩, rfl⟩
    exact ⟨hkind, entry, hentry, hheight, genesis, hbuild, hhash, rfl⟩

/-- The rebuilt genesis builds to itself. -/
theorem Founds.build {document : ChainDocument} {genesis : Block} (h : Founds document genesis) :
    GenesisSpec.build ⟨genesis.header.networkId, genesis.header.timestampMillis,
      genesis.transactions⟩ = .ok genesis := by
  obtain ⟨-, entry, -, -, hbuild, -⟩ := h
  unfold GenesisSpec.build at hbuild ⊢
  obtain ⟨hlength, rfl⟩ := BlockDraft.build_eq_ok.mp hbuild
  exact BlockDraft.build_eq_ok.mpr ⟨hlength, rfl⟩

theorem restore_occupied {document : ChainDocument} {answers : DatabaseAnswers × Option Text}
    {p : Place} (h : p ≠ .free) : ∃ e, p.restore document answers = (.error e, p) := by
  unfold restore
  cases rebuildGenesis document with
  | error e => exact ⟨e, rfl⟩
  | ok spec => exact ⟨_, by simp only [initGenesis, initGenesisWithPolicy_occupied h]; rfl⟩

/-- Restoring succeeds where the database creates the file, the rebuilt genesis is accepted, the rest is
importable onto it, and the database takes both commits. -/
def Restores (document : ChainDocument) (answers : DatabaseAnswers × Option Text)
    (genesis : Block) : Prop :=
  (answers.1.creation = none ∧
    localDeterministicPolicy
      ⟨genesis.header.networkId, genesis.hash, none, none, fun _ => false⟩ genesis = .ok () ∧
    answers.1.commit = none) ∧ Importable (founding genesis) document ∧ answers.2 = none

theorem restore_of_founds {document : ChainDocument} {answers : DatabaseAnswers × Option Text}
    {genesis : Block} (h : Founds document genesis) :
    (Restores document answers genesis ∧
      ∃ result q, Place.free.restore document answers = (.ok result, q)) ∨
    (LeavesNothing answers.1 ∧
      ∃ e, Place.free.restore document answers = (.error e, .free)) ∨
    (¬ LeavesNothing answers.1 ∧ ¬ Restores document answers genesis ∧
      ∃ e q, Place.free.restore document answers = (.error e, q) ∧ q ≠ .free) := by
  have hspec := rebuildGenesis_eq_ok.mpr ⟨genesis, h, rfl⟩
  unfold restore
  simp only [hspec, initGenesis]
  rcases initGenesis_of_build localDeterministicPolicy answers.1 h.build
    with ⟨hcreation, hpolicy, hcommit, hok⟩ | ⟨hnothing, e, hfree⟩ | ⟨hleft, hnot, e, hfile⟩
  · have hfounding : foundedBy ⟨genesis.header.networkId, genesis.header.timestampMillis,
        genesis.transactions⟩ genesis = founding genesis := rfl
    rw [hfounding] at hok
    simp only [hok]
    have himport := @importDocument_isOk _ localDeterministicPolicy (founding genesis) document
      answers.2
    have hblocks : document.blocks ≠ [] := by
      obtain ⟨-, entry, hentry, -⟩ := h
      rintro hnil
      rw [hnil] at hentry
      cases hentry
    have hleft : ¬ LeavesNothing answers.1 := by
      rintro ⟨_, hdetail⟩
      rw [hcreation] at hdetail
      cases hdetail
    cases hresult : importDocument localDeterministicPolicy document answers.2 (founding genesis)
      with
    | mk result t' =>
      rw [hresult] at himport
      cases result with
      | ok outcome =>
        obtain ⟨himportable, -, hrefusal⟩ := himport.mp ⟨outcome, t', rfl⟩
        exact .inl ⟨⟨⟨hcreation, hpolicy, hcommit⟩, himportable, hrefusal.resolve_left hblocks⟩,
          _, _, rfl⟩
      | error e =>
        refine .inr (.inr ⟨hleft, fun hrestores => ?_, e, _, rfl, by rintro ⟨⟩⟩)
        obtain ⟨outcome, u, hok⟩ :=
          himport.mpr ⟨hrestores.2.1, hrestores.2.1.run, .inr hrestores.2.2⟩
        cases hok
  · simp only [hfree]
    exact .inr (.inl ⟨hnothing, _, rfl⟩)
  · simp only [hfile]
    exact .inr (.inr ⟨hleft, fun hrestores => hnot hrestores.1, _, _, rfl, by rintro ⟨⟩⟩)

theorem restoreRetries_iff (document : ChainDocument) (answers : DatabaseAnswers × Option Text)
    (hsome : ∃ document, Restorable document) :
    RestoreRetries document answers ↔ ∀ genesis, Founds document genesis →
      LeavesNothing answers.1 ∨ Restores document answers genesis := by
  constructor
  · intro hretries genesis hfounds
    rcases @restore_of_founds _ _ answers _ hfounds with ⟨hrestores, -⟩ | ⟨hnothing, -⟩ |
      ⟨-, -, e, q, hfails, hoccupied⟩
    · exact .inr hrestores
    · exact .inl hnothing
    · obtain ⟨document', hrestorable⟩ := hsome
      obtain ⟨result, q', hretry⟩ := hretries e q hfails document' hrestorable
      obtain ⟨e', he'⟩ := @restore_occupied _ document' ({}, none) _ hoccupied
      rw [he'] at hretry
      cases hretry
  · intro hcondition e q hfails document' hrestorable
    cases hrebuild : rebuildGenesis document with
    | error e' =>
      simp only [restore, hrebuild] at hfails
      obtain ⟨-, rfl⟩ := Prod.mk.inj hfails
      exact hrestorable
    | ok spec =>
      obtain ⟨genesis, hfounds, -⟩ := rebuildGenesis_eq_ok.mp hrebuild
      rcases @restore_of_founds _ _ answers _ hfounds with ⟨-, result, q', hok⟩ | ⟨-, e', hfree⟩ |
        ⟨hleft, hnot, -⟩
      · rw [hfails] at hok
        cases hok
      · obtain ⟨-, rfl⟩ := Prod.mk.inj (hfails.symm.trans hfree)
        exact hrestorable
      · exact absurd (hcondition genesis hfounds) (not_or.mpr ⟨hleft, hnot⟩)

theorem founds_emptyGenesis (declared : Block → Hash) (rest : List Block) :
    Founds (emptyDocument .full declared (emptyGenesis :: rest)) emptyGenesis :=
  ⟨rfl, _, rfl, rfl, BlockDraft.build_eq_ok.mpr ⟨Nat.zero_le _, rfl⟩, rfl⟩

theorem genesisOf_emptyGenesis : GenesisOf ⟨lit "net"⟩ emptyGenesis :=
  ⟨rfl, rfl, rfl, rfl, Nat.zero_le _, rfl, rfl, (fun _ ht => nomatch ht), .nil⟩

theorem restorable_empty : Restorable (emptyDocument .full Block.hash [emptyGenesis]) := by
  have hrestores : Restores (emptyDocument .full Block.hash [emptyGenesis]) ({}, none)
      emptyGenesis := by
    refine ⟨⟨rfl, ensure_of (checkBlock_genesis.mpr genesisOf_emptyGenesis), rfl⟩, ?_, rfl⟩
    exact {
      kind := rfl
      networkId := rfl
      genesisHash := rfl
      declared := fun entry hentry => by
        obtain rfl := List.mem_singleton.mp hentry
        rfl
      overlap := fun entry hentry _ => by
        obtain rfl := List.mem_singleton.mp hentry
        exact requireBlock_founding rfl
      next := fun b hb => nomatch hb
      run := .inl rfl }
  rcases restore_of_founds (founds_emptyGenesis _ _) with ⟨-, hok⟩ | ⟨⟨_, hrefused⟩, -⟩ |
    ⟨-, hnot, -⟩
  · exact hok
  · cases hrefused
  · exact absurd hrestores hnot

theorem creatable_empty : Creatable localDeterministicPolicy emptySpec := by
  obtain ⟨t, ht⟩ := @initGenesis_of_sound _ emptySpec (Nat.zero_le _) (fun _ hx => nomatch hx) .nil
  exact ⟨t, _, ht⟩

/-- A failed creation or restore can be tried again at the same place exactly when no file is there:
what was asked for could not be built, or the database did not create the file and left none. -/
theorem retries_iff :
    (∀ policy spec answers, InitRetries policy spec answers ↔
      ∀ block, spec.build = .ok block → LeavesNothing answers ∨ answers.creation = none ∧
        policy ⟨spec.networkId, block.hash, none, none, fun _ => false⟩ block = .ok () ∧
        answers.commit = none) ∧
    ∀ document answers, RestoreRetries document answers ↔
      ∀ genesis, Founds document genesis →
        LeavesNothing answers.1 ∨ Restores document answers genesis :=
  ⟨fun policy spec answers => initRetries_iff policy spec answers ⟨_, _, creatable_empty⟩,
    fun document answers => restoreRetries_iff document answers ⟨_, restorable_empty⟩⟩

end Rules

section Samples

attribute [local instance] Sample.numberingPlatform

/-- A backup in which the block after the genesis declares the genesis hash for its own. -/
def mislabelled : ChainDocument :=
  emptyDocument .full (fun _ => emptyGenesis.hash) [emptyGenesis, emptyChild]

/-- A restore fails on a wrong declared hash, and the sound backup is then refused there. -/
theorem restore_stuck : ∃ e q, Place.free.restore mislabelled ({}, none) = (.error e, q) ∧
    Restorable (emptyDocument .full Block.hash [emptyGenesis]) ∧
    ¬ ∃ result q', q.restore (emptyDocument .full Block.hash [emptyGenesis]) ({}, none) =
      (.ok result, q') := by
  have hnot : ¬ Restores mislabelled ({}, none) emptyGenesis := by
    rintro ⟨-, himportable, -⟩
    have hhash : emptyChild.hash = emptyGenesis.hash :=
      himportable.declared ⟨emptyChild, emptyGenesis.hash⟩ (by simp [mislabelled, emptyDocument])
    have hheader : emptyChild.header = emptyGenesis.header := numbering_collisionFree hhash
    exact Nat.one_ne_zero (congrArg BlockHeader.height hheader)
  rcases restore_of_founds (founds_emptyGenesis _ _) with ⟨hrestores, -⟩ | ⟨⟨_, hrefused⟩, -⟩ |
    ⟨-, -, e, q, hfails, hoccupied⟩
  · exact absurd hrestores hnot
  · cases hrefused
  · refine ⟨e, q, hfails, restorable_empty, ?_⟩
    rintro ⟨result, q', hretry⟩
    obtain ⟨e', he'⟩ := restore_occupied hoccupied
    rw [he'] at hretry
    cases hretry

end Samples

end Place

end Irena.Prunella
