import Irena.Prunella.Retry
import Irena.Sample.Chain

/-! # Labels on the chain

The constructors of network ids and namespaces enforce the label grammar, and decoding does not. A
store holds the blocks it was given, so its labels are in the grammar exactly when theirs were. -/

namespace Irena.Prunella

open Irena.Library Irena.Library.Outcome Irena.Library.Strings
open LocalChainStore (BatchOutcome AppendOutcome)
open Irena.Ledger (sound_signTransaction)

def NetworkId.Valid (id : NetworkId) : Prop := validateLabel id.value = .ok ()

def Namespace.Valid (n : Namespace) : Prop := validateLabel n.value = .ok ()

theorem NetworkId.valid_of_new {value : Text} {id : NetworkId} (h : NetworkId.new value = .ok id) :
    id.Valid := by
  unfold NetworkId.new at h
  split at h
  · cases h
  · rename_i hvalid
    obtain rfl := Except.ok.inj h
    exact hvalid

theorem Namespace.valid_of_new {value : Text} {n : Namespace} (h : Namespace.new value = .ok n) :
    n.Valid := by
  unfold Namespace.new at h
  split at h
  · cases h
  · rename_i hvalid
    obtain rfl := Except.ok.inj h
    exact hvalid

/-- The labels of a block are in the grammar. -/
structure Block.Labelled (b : Block) : Prop where
  network : b.header.networkId.Valid
  namespaces : ∀ x ∈ b.transactions, x.namespace_.Valid

section Rules

variable [Platform]

/-- The blocks a call offers to a store; a creation offers the genesis block. -/
def StoreCall.Offers : StoreCall → Block → Prop
  | .initGenesis spec, b => spec.build = .ok b
  | .appendBlock c, b => b = c
  | .appendBlocks bs, b => b ∈ bs

namespace Tables

/-- The store's network id and the labels of every committed block are in the grammar. -/
structure Labelled (t : Tables) : Prop where
  network : t.networkId.Valid
  blocks : ∀ b, t.Holds b → b.Labelled

/-- The tables reached by successful calls. -/
inductive Reached : List StoreCall → Tables → Prop
  | initGenesis {spec : GenesisSpec} {answers : DatabaseAnswers} {t : Tables} {q : Place}
      (h : Place.free.initGenesis spec answers = (.ok t, q)) : Reached [.initGenesis spec] t
  | appendBlock {calls : List StoreCall} {t t' : Tables} {b : Block} {refusal : Option Text}
      {outcome : AppendOutcome} (hreached : Reached calls t)
      (h : t.appendBlock b refusal = (.ok outcome, t')) : Reached (calls ++ [.appendBlock b]) t'
  | appendBlocks {calls : List StoreCall} {t t' : Tables} {bs : List Block}
      {refusal : Option Text} {outcome : BatchOutcome} (hreached : Reached calls t)
      (h : t.appendBlocks bs refusal = (.ok outcome, t')) :
      Reached (calls ++ [.appendBlocks bs]) t'

variable {t t' : Tables} {b : Block}

omit [Platform] in
/-- A block inserted above the head is held beside those held before. -/
theorem holds_insertBlock {hash : Hash} {u : Tables} (hheight : b.header.height = t.head.height + 1)
    (hblocks : u.blocks = (t.insertBlock b hash).blocks) (hhead : u.head.height = b.header.height)
    (c : Block) : u.Holds c ↔ t.Holds c ∨ c = b := by
  unfold Holds
  rw [requireBlock_eq_ok, requireBlock_eq_ok, hblocks, insertBlock_blocks, hhead, hheight]
  constructor
  · rintro ⟨hle, hstored⟩
    split at hstored
    · exact .inr (Block.codec.encode_injective (Option.some.inj hstored)).symm
    · exact .inl ⟨by omega, hstored⟩
  · rintro (⟨hle, hstored⟩ | rfl)
    · rw [if_neg (by omega)]
      exact ⟨by omega, hstored⟩
    · rw [if_pos hheight]
      exact ⟨hheight.le, rfl⟩

/-- An append that succeeds holds its block beside those held before. -/
theorem holds_appendOne (h : t.appendOne b = .ok t') :
    t'.networkId = t.networkId ∧ ∀ c, t'.Holds c ↔ t.Holds c ∨ c = b := by
  rw [appendOne_eq] at h
  cases hstage : (Batch.begin t).stage localDeterministicPolicy b with
  | error e =>
    rw [hstage] at h
    cases h
  | ok w =>
    rw [hstage] at h
    obtain rfl := Except.ok.inj h
    rcases Batch.stage_cases hstage with ⟨hle, hstored, rfl⟩ | ⟨hheight, -, -, rfl⟩
    · refine ⟨rfl, fun c => ⟨.inl, ?_⟩⟩
      rintro (hc | rfl)
      · exact hc
      · exact ⟨hle, hstored⟩
    · exact ⟨rfl, @holds_insertBlock t b b.hash _ hheight rfl rfl⟩

theorem holds_appendEach {bs : List Block} (h : t.appendEach bs = .ok t') :
    t'.networkId = t.networkId ∧ ∀ c, t'.Holds c ↔ t.Holds c ∨ c ∈ bs := by
  induction bs generalizing t with
  | nil =>
    obtain rfl := Except.ok.inj h
    exact ⟨rfl, fun c => by simp⟩
  | cons b bs ih =>
    rw [appendEach, List.foldlM_cons] at h
    obtain ⟨u, hone, hrest⟩ := bind_eq_ok.mp h
    obtain ⟨hnetwork, hheld⟩ := holds_appendOne hone
    obtain ⟨hnetwork', hheld'⟩ := ih hrest
    refine ⟨hnetwork'.trans hnetwork, fun c => ?_⟩
    rw [hheld', hheld, List.mem_cons, or_assoc]

theorem appendEach_of_ok {bs : List Block} {refusal : Option Text} {outcome : BatchOutcome}
    (h : t.appendBlocks bs refusal = (.ok outcome, t')) : t.appendEach bs = .ok t' := by
  cases refusal with
  | none => exact appendBlocks_eq_ok h
  | some detail =>
    rcases (appendBlocksWith_isOk.mp ⟨outcome, t', h⟩).2 with rfl | hnone
    · obtain ⟨-, rfl⟩ := Prod.mk.inj h
      rfl
    · cases hnone

/-- A creation that succeeds holds its genesis block alone. -/
theorem initGenesis_holds {spec : GenesisSpec} {answers : DatabaseAnswers} {q : Place}
    (h : Place.free.initGenesis spec answers = (.ok t, q)) :
    ∃ g, spec.build = .ok g ∧ g.header.height = 0 ∧ g.header.networkId = spec.networkId ∧
      (∀ height, t.blocks height = if height = 0 then some (Block.codec.encode g) else none) ∧
        t.head.height = 0 ∧ t.networkId = spec.networkId := by
  unfold Place.initGenesis Place.initGenesisWithPolicy at h
  cases hbuild : spec.build with
  | error e =>
    simp only [hbuild] at h
    cases h
  | ok g =>
    have hblock := (BlockDraft.build_eq_ok.mp hbuild).2
    have hheight : g.header.height = 0 := by rw [hblock]
    have hnetwork : g.header.networkId = spec.networkId := by rw [hblock]
    cases hcreation : answers.creation with
    | some refused =>
      simp only [hbuild, hcreation] at h
      cases h
    | none =>
      simp only [hbuild, hcreation] at h
      rcases Place.writeGenesis_cases localDeterministicPolicy spec.networkId g answers.commit with
        ⟨-, -, hwrite⟩ | ⟨-, e, he⟩
      · simp only [hwrite] at h
        obtain rfl := Except.ok.inj (Prod.mk.inj h).1
        refine ⟨g, rfl, hheight, hnetwork, fun height => ?_, rfl, rfl⟩
        have hinsert := insertBlock_blocks (Place.blank spec.networkId g.hash) g g.hash height
        rw [hheight] at hinsert
        exact hinsert
      · simp only [he] at h
        cases h

/-- What is held after successful calls is what they offered. -/
theorem Reached.holds_iff {calls : List StoreCall} (h : Reached calls t) :
    (∀ b, t.Holds b ↔ ∃ call ∈ calls, call.Offers b) ∧
      ∃ b, t.Holds b ∧ b.header.networkId = t.networkId := by
  induction h with
  | initGenesis h =>
    rename_i spec answers t q
    obtain ⟨g, hbuild, hheight, hnetwork, hblocks, hhead, hid⟩ := initGenesis_holds h
    have hheld : ∀ b, t.Holds b ↔ b = g := by
      intro b
      unfold Holds
      rw [requireBlock_eq_ok, hblocks, hhead]
      constructor
      · rintro ⟨hle, hstored⟩
        rw [if_pos (Nat.le_zero.mp hle)] at hstored
        exact (Block.codec.encode_injective (Option.some.inj hstored)).symm
      · rintro rfl
        rw [if_pos hheight]
        exact ⟨hheight.le, rfl⟩
    refine ⟨fun b => ?_, g, (hheld g).mpr rfl, hnetwork.trans hid.symm⟩
    rw [hheld]
    simp [StoreCall.Offers, hbuild, eq_comm]
  | appendBlock hreached h ih =>
    rename_i calls t t' b refusal outcome
    unfold Tables.appendBlock at h
    cases happend : t.appendBlocks [b] refusal with
    | mk result u =>
      rw [happend] at h
      cases result with
      | error e => cases h
      | ok batch =>
        obtain ⟨-, rfl⟩ := Prod.mk.inj h
        obtain ⟨hnetwork, hheld⟩ := holds_appendEach (appendEach_of_ok happend)
        obtain ⟨hiff, g, hg, hgnetwork⟩ := ih
        refine ⟨fun c => ?_, g, (hheld g).mpr (.inl hg), hgnetwork.trans hnetwork.symm⟩
        rw [hheld, hiff, List.mem_singleton]
        simp [or_and_right, exists_or, StoreCall.Offers]
  | appendBlocks hreached h ih =>
    rename_i calls t t' bs refusal outcome
    obtain ⟨hnetwork, hheld⟩ := holds_appendEach (appendEach_of_ok h)
    obtain ⟨hiff, g, hg, hgnetwork⟩ := ih
    refine ⟨fun b => ?_, g, (hheld g).mpr (.inl hg), hgnetwork.trans hnetwork.symm⟩
    rw [hheld, hiff]
    simp [or_and_right, exists_or, StoreCall.Offers]

/-- The labels of a store reached by successful calls are in the grammar exactly when those of the
blocks offered to it were; the constructors make no others. -/
theorem Reached.labelled_iff {calls : List StoreCall} (h : Reached calls t) :
    (t.Labelled ↔ ∀ call ∈ calls, ∀ b, call.Offers b → b.Labelled) ∧
      (∀ value id, NetworkId.new value = .ok id → id.Valid) ∧
        ∀ value n, Namespace.new value = .ok n → n.Valid := by
  obtain ⟨hiff, g, hg, hnetwork⟩ := h.holds_iff
  refine ⟨?_, fun _ _ => NetworkId.valid_of_new, fun _ _ => Namespace.valid_of_new⟩
  constructor
  · exact fun hlabelled call hcall b hoffers => hlabelled.blocks b ((hiff b).mpr ⟨call, hcall, hoffers⟩)
  · intro hoffered
    have hblocks : ∀ b, t.Holds b → b.Labelled := by
      intro b hb
      obtain ⟨call, hcall, hoffers⟩ := (hiff b).mp hb
      exact hoffered call hcall b hoffers
    exact ⟨hnetwork ▸ (hblocks g hg).network, hblocks⟩

end Tables

end Rules

section Samples

open Sample (signed)

attribute [local instance] Sample.platform Sample.signaturesVerify

/-- The genesis of the empty chain is written as its tables. -/
theorem initGenesis_empty : Place.free.initGenesis Place.emptySpec {} =
    (.ok (founding emptyGenesis), .chain (founding emptyGenesis)) := by
  have hbuild : Place.emptySpec.build = .ok emptyGenesis :=
    BlockDraft.build_eq_ok.mpr ⟨Nat.zero_le _, rfl⟩
  unfold Place.initGenesis Place.initGenesisWithPolicy
  simp only [hbuild]
  rcases Place.writeGenesis_cases localDeterministicPolicy Place.emptySpec.networkId emptyGenesis
    none with ⟨-, -, hwrite⟩ | ⟨hnot, -⟩
  · simp only [hwrite]
    rfl
  · exact absurd ⟨ensure_of (checkBlock_genesis.mpr Place.genesisOf_emptyGenesis), rfl⟩ hnot

/-- A signed transaction in a namespace, as it is spelled. -/
def noted (namespace_ : Text) : Transaction := signed Sample.ann namespace_ [] 0

def notedBlock (namespace_ : Text) : Block :=
  ⟨⟨headerVersion, ⟨lit "net"⟩, 1, emptyGenesis.hash, merkleRoot [(noted namespace_).id], 1, 0⟩,
    [noted namespace_]⟩

theorem childOf_notedBlock (namespace_ : Text) : ChildOf ⟨lit "net"⟩ emptyGenesis.header
    ((founding emptyGenesis).committedTransactions []) (notedBlock namespace_) where
  version := rfl
  network := rfl
  room := (by decide : 0 < u64Max)
  height := rfl
  previousHash := rfl
  timestamp := le_rfl
  length := (by decide : 1 ≤ u32Max)
  txCount := rfl
  txRoot := rfl
  sound t ht := by
    obtain rfl := List.mem_singleton.mp ht
    exact sound_signTransaction Sample.ann _
  nodup := List.nodup_singleton _
  fresh t ht := by
    obtain rfl := List.mem_singleton.mp ht
    rfl

theorem appendBlock_noted (namespace_ : Text) : ∃ outcome t,
    (founding emptyGenesis).appendBlock (notedBlock namespace_) none = (.ok outcome, t) := by
  have hparent : (Batch.begin (founding emptyGenesis)).parentHeader = .ok emptyGenesis.header := by
    have hbegin : (Batch.begin (founding emptyGenesis)).parentHeader = (do
        let block ← (founding emptyGenesis).requireBlock 0
        return block.header) := rfl
    rw [hbegin, requireBlock_founding rfl]
    rfl
  have hpolicy : localDeterministicPolicy ⟨⟨lit "net"⟩, emptyGenesis.hash,
      some (Batch.begin (founding emptyGenesis)).head, some emptyGenesis.header,
      (founding emptyGenesis).committedTransactions []⟩ (notedBlock namespace_) = .ok () :=
    ensure_of (checkBlock_child.mpr (childOf_notedBlock namespace_))
  have hstage := @Ahead.stage_new _ localDeterministicPolicy _ _ _ (ahead_begin (founding emptyGenesis))
    _ hparent (notedBlock namespace_) (by decide : 0 < u64Max) rfl
  have hone : (founding emptyGenesis).appendOne (notedBlock namespace_) =
      .ok ((Batch.begin (founding emptyGenesis)).push (notedBlock namespace_)).write := by
    rw [Tables.appendOne_eq, hstage]
    have hnetwork : (founding emptyGenesis).networkId = ⟨lit "net"⟩ := rfl
    have hgenesis : (founding emptyGenesis).genesisHash = emptyGenesis.hash := rfl
    rw [hnetwork, hgenesis, hpolicy]
    rfl
  unfold Tables.appendOne at hone
  cases happend : (founding emptyGenesis).appendBlock (notedBlock namespace_) none with
  | mk result t =>
    rw [happend] at hone
    cases result with
    | error e => cases hone
    | ok outcome => exact ⟨outcome, t, rfl⟩

/-- A store that took a transaction in a namespace of the grammar has labels of the grammar. -/
theorem labelled_noted : ∃ outcome t,
    (founding emptyGenesis).appendBlock (notedBlock (lit "notes")) none = (.ok outcome, t) ∧
      t.Labelled ∧ t.Holds (notedBlock (lit "notes")) := by
  obtain ⟨outcome, t, happend⟩ := appendBlock_noted (lit "notes")
  have hreached : Tables.Reached [.initGenesis Place.emptySpec, .appendBlock (notedBlock (lit "notes"))]
      t := .appendBlock (.initGenesis initGenesis_empty) happend
  have hnet : validateLabel (lit "net") = .ok () := by decide
  have hnotes : validateLabel (lit "notes") = .ok () := by decide
  refine ⟨outcome, t, happend, (Tables.Reached.labelled_iff hreached).1.mpr fun call hcall b hoffers =>
    ?_, (hreached.holds_iff.1 _).mpr ⟨_, List.mem_cons_of_mem _ List.mem_cons_self, rfl⟩⟩
  rcases List.mem_cons.mp hcall with rfl | hcall
  · obtain ⟨-, rfl⟩ := BlockDraft.build_eq_ok.mp hoffers
    exact ⟨hnet, fun x hx => absurd hx List.not_mem_nil⟩
  · obtain rfl := List.mem_singleton.mp hcall
    obtain rfl : b = notedBlock (lit "notes") := hoffers
    exact ⟨hnet, List.forall_mem_singleton.mpr hnotes⟩

/-- A block decoded from canonical bytes brings a label outside the grammar into a store. -/
theorem reached_spaced : ∃ bytes b t, decode Block.codec bytes = .ok b ∧
    Tables.Reached [.initGenesis Place.emptySpec, .appendBlock b] t ∧ ¬ t.Labelled := by
  obtain ⟨outcome, t, happend⟩ := appendBlock_noted (lit "Has Space")
  have hreached : Tables.Reached
      [.initGenesis Place.emptySpec, .appendBlock (notedBlock (lit "Has Space"))] t :=
    .appendBlock (.initGenesis initGenesis_empty) happend
  refine ⟨_, notedBlock (lit "Has Space"), t, decode_eq_ok.mpr rfl, hreached, fun hlabelled => ?_⟩
  have hheld := (hreached.holds_iff.1 (notedBlock (lit "Has Space"))).mpr
    ⟨.appendBlock (notedBlock (lit "Has Space")), by simp, rfl⟩
  have hlabel : validateLabel (lit "Has Space") = .ok () :=
    (hlabelled.blocks _ hheld).namespaces _ (List.mem_singleton_self _)
  exact absurd hlabel (by decide)

end Samples

end Irena.Prunella
