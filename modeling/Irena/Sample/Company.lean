import Irena.Ledger.Publish
import Irena.Sample.Platform

/-! # A company to run on

A company with a collective channel of its shareholders and an individual channel of its director,
founded on a chain of its own, and what committing one more transaction does to such a chain. -/

namespace Irena.Sample

open Irena.Library Irena.Library.Strings Irena.Library.Utf8
open Irena.Core Irena.Bornite Irena.Prunella Irena.Prunella.LocalChainStore Irena.Ledger

def company : CompanyIdV1 := ⟨lit "acme", by decide +kernel⟩

def network : NetworkId := ⟨lit "net"⟩

def notarisation : NotarisationV1 where
  id := ⟨lit "n1", by decide +kernel⟩
  name := lit "Notary"
  address := none
  at_ := ⟨lit "2026-01-01T00:00:00Z", by decide +kernel⟩
  statement := none
  sourceDigest := none

/-- The director, who signs for the company and for its governance. -/
def ann : SigningKey := ⟨1⟩

/-- The sole shareholder. -/
def bob : SigningKey := ⟨2⟩

/-- Someone the company does not know. -/
def eve : SigningKey := ⟨3⟩

theorem annId_valid : validateVoterId (lit "ann") = none := by
  decide +kernel

def annId : VoterIdV1 := ⟨lit "ann", annId_valid⟩

theorem bobId_valid : validateVoterId (lit "bob") = none := by
  decide +kernel

def bobId : VoterIdV1 := ⟨lit "bob", bobId_valid⟩

def person (id : VoterIdV1) (key : SigningKey) : PersonV1 := ⟨id, none, none, some (publicKeyOf key)⟩

def identities : IdentitiesV1 :=
  (IdentitiesV1.new [person annId ann, person bobId bob]).toOption.get (by decide +kernel)

/-- The identities once the director has another key. -/
def rotated : IdentitiesV1 :=
  (IdentitiesV1.new [person annId eve, person bobId bob]).toOption.get (by decide +kernel)

def register : ShareStructureV1 :=
  (ShareStructureV1.new [⟨bobId, none, ⟨1, u64Max_pos⟩⟩]).toOption.get (by decide +kernel)

/-- The register with the director in it. -/
def widened : ShareStructureV1 :=
  (ShareStructureV1.new [⟨annId, none, ⟨1, u64Max_pos⟩⟩, ⟨bobId, none, ⟨1, u64Max_pos⟩⟩]).toOption.get
    (by decide +kernel)

def majority : VotingRulesV1 :=
  ⟨.equal, false, .none, .simpleMajority .votesCast, .excluded, .reject⟩

/-- The collective channel of the shareholders. -/
def shareholders : DecisionChannelV1 :=
  ⟨⟨lit "all", by decide +kernel⟩, .shareRegister, .collective majority, none⟩

def directorId : ChannelIdV1 := ⟨lit "ceo", by decide +kernel⟩

def everyPart : ChannelScopeV1 :=
  (ChannelScopeV1.new directorId [.shareStructure, .decisionChannels, .identities,
    .authorisation]).toOption.get (by decide +kernel)

def annAlone : RosterV1 :=
  (RosterV1.new directorId [⟨annId, none, ⟨1, u64Max_pos⟩⟩]).toOption.get (by decide +kernel)

/-- The director's own channel, scoped to every part it can amend. -/
def director : DecisionChannelV1 := ⟨directorId, .roster annAlone, .individual, some everyPart⟩

def channels : DecisionChannelsV1 :=
  (DecisionChannelsV1.new [shareholders, director]).toOption.get (by decide +kernel)

def authorisation : AuthorisationV1 :=
  (AuthorisationV1.new [⟨annId, .company⟩, ⟨annId, .governance⟩]).toOption.get (by decide +kernel)

def genesis : CompanyGenesisV1 :=
  ⟨⟨lit "Acme", none, none⟩, none, register, channels, identities, authorisation⟩

def personXml (id : Text) (key : PublicKey) : Text :=
  lit "<person" ++ writeAttribute (lit "id") id ++ writeAttribute (lit "key") key.toHex ++ lit "/>"

/-- The identities in which the director holds a key. -/
def identitiesXml (key : SigningKey) : Text :=
  lit "<identities>" ++ personXml (lit "ann") (publicKeyOf key) ++
    personXml (lit "bob") (publicKeyOf bob) ++ lit "</identities>"

def holderXml (id : Text) : Text :=
  lit "<holder" ++ writeAttribute (lit "id") id ++ writeAttribute (lit "shares") (lit "1") ++
    lit "/>"

def registerXml (holders : List Text) : Text :=
  lit "<share-structure>" ++ holders.flatMap holderXml ++ lit "</share-structure>"

def widenedXml : Text := registerXml [lit "ann", lit "bob"]

def rulesXml : Text :=
  lit "<voting-rules version=\"1.0\"><weight type=\"equal\"/><exclusions enabled=\"false\"/>" ++
    lit "<quorum type=\"none\"/><threshold type=\"simple-majority\" basis=\"votes-cast\"/>" ++
    lit "<abstentions treatment=\"exclude\"/><tie treatment=\"reject\"/></voting-rules>"

def shareholdersXml (id : Text) : Text :=
  lit "<channel" ++ writeAttribute (lit "id") id ++
    lit " mode=\"collective\"><actors source=\"share-register\"/>" ++ rulesXml ++ lit "</channel>"

def directorXml : Text :=
  lit "<channel id=\"ceo\" mode=\"individual\"><actors source=\"roster\"><member id=\"ann\"/>" ++
    lit "</actors><scope><amend part=\"share-structure\"/><amend part=\"decision-channels\"/>" ++
    lit "<amend part=\"identities\"/><amend part=\"authorisation\"/></scope></channel>"

def channelsXml (channels : List Text) : Text :=
  lit "<decision-channels>" ++ channels.flatten ++ lit "</decision-channels>"

def authorisationXml (governance : List Text) : Text :=
  lit "<authorisation><signer person=\"ann\" records=\"company\"/>" ++
    governance.flatMap (fun id =>
      lit "<signer" ++ writeAttribute (lit "person") id ++ lit " records=\"governance\"/>") ++
    lit "</authorisation>"

def genesisXml : Text :=
  lit "<company-genesis><identity name=\"Acme\"/>" ++ registerXml [lit "bob"] ++
    identitiesXml ann ++ lit "<governance>" ++
    channelsXml [shareholdersXml (lit "all"), directorXml] ++ lit "</governance>" ++
    authorisationXml [lit "ann"] ++ lit "</company-genesis>"

/-- The block that follows a chain with some transactions. -/
def blockOf [Platform] (s : LocalChainStore) (transactions : List Transaction) : Block :=
  ⟨⟨headerVersion, s.networkId, s.head.height + 1, s.headBlock.hash,
    merkleRoot (transactions.map Transaction.id), transactions.length, 0⟩, transactions⟩

/-- A signed transaction that holds a payload. -/
def signed [Platform] (key : SigningKey) (namespace_ : Text) (payload : Bytes) (nonce : ℕ) :
    Transaction :=
  key.signTransaction ⟨⟨namespace_⟩, schemaVersion, payload, Platform.publicKey key, nonce⟩

section Growth

variable [Platform]

/-- A chain grows by sound transactions that are new to it, as many to a block as fit. -/
theorem wellFormed_push_blockOf {s : LocalChainStore} (hs : s.WellFormed)
    {transactions : List Transaction} (hroom : s.head.height < u64Max)
    (htime : s.headBlock.header.timestampMillis = 0) (hlength : transactions.length ≤ u32Max)
    (hsound : ∀ t ∈ transactions, t.Sound) (hnodup : (transactions.map Transaction.id).Nodup)
    (hfresh : ∀ t ∈ transactions, s.containsTransaction t.id = false) :
    (s.push (blockOf s transactions)).WellFormed := by
  have hhead := hs.head_height
  refine .push hs ?_ ⟨rfl, rfl, rfl⟩
  exact {
    version := rfl
    network := rfl
    room := hhead ▸ hroom
    height := by rw [hhead]; rfl
    previousHash := rfl
    timestamp := htime ▸ Nat.zero_le _
    length := hlength
    txCount := rfl
    txRoot := rfl
    sound := hsound
    nodup := hnodup
    fresh := hfresh }

/-- The chain with further blocks of transactions. -/
def grown (s : LocalChainStore) (blocks : List (List Transaction)) : LocalChainStore :=
  blocks.foldl (fun s transactions => s.push (blockOf s transactions)) s

theorem head_grown (s : LocalChainStore) (blocks : List (List Transaction)) :
    (grown s blocks).head.height = s.head.height + blocks.length := by
  induction blocks generalizing s with
  | nil => rfl
  | cons transactions blocks ih =>
    have hhead : (s.push (blockOf s transactions)).head.height = s.head.height + 1 :=
      congrArg ChainHead.height (head_push ..)
    rw [grown, List.foldl_cons, ← grown, ih, hhead, List.length_cons]
    omega

theorem extends_grown (s : LocalChainStore) (blocks : List (List Transaction)) :
    s.Extends (grown s blocks) := by
  induction blocks generalizing s with
  | nil => exact .refl s
  | cons transactions blocks ih => exact (extends_push s _).trans (ih _)

theorem grown_append (s : LocalChainStore) (first more : List (List Transaction)) :
    grown s (first ++ more) = grown (grown s first) more :=
  List.foldl_append

theorem transactions_push_blockOf (s : LocalChainStore) (transactions : List Transaction) :
    (s.push (blockOf s transactions)).transactions = s.transactions ++ transactions := by
  rw [LocalChainStore.transactions, blocks_push, List.flatMap_append, List.flatMap_singleton]
  rfl

theorem transactions_grown (s : LocalChainStore) (blocks : List (List Transaction)) :
    (grown s blocks).transactions = s.transactions ++ blocks.flatten := by
  induction blocks generalizing s with
  | nil => exact (List.append_nil _).symm
  | cons transactions blocks ih =>
    rw [grown, List.foldl_cons, ← grown, ih, transactions_push_blockOf, List.flatten_cons,
      List.append_assoc]

/-- A chain grown by sound transactions with ids of their own is well formed. -/
theorem wellFormed_grown {s : LocalChainStore} (hs : s.WellFormed)
    {blocks : List (List Transaction)} (hroom : s.head.height + blocks.length ≤ u64Max)
    (htime : s.headBlock.header.timestampMillis = 0)
    (hlength : ∀ transactions ∈ blocks, transactions.length ≤ u32Max)
    (hsound : ∀ transactions ∈ blocks, ∀ t ∈ transactions, t.Sound)
    (hnodup : ((s.transactions ++ blocks.flatten).map Transaction.id).Nodup) :
    (grown s blocks).WellFormed := by
  induction blocks generalizing s with
  | nil => exact hs
  | cons transactions blocks ih =>
    rw [List.length_cons] at hroom
    rw [List.flatten_cons, ← List.append_assoc, List.map_append] at hnodup
    have hnew := (List.nodup_append.mp hnodup).1
    rw [List.map_append, List.nodup_append] at hnew
    obtain ⟨-, hblock, hdisjoint⟩ := hnew
    have hpush : (s.push (blockOf s transactions)).WellFormed := by
      refine wellFormed_push_blockOf hs (by omega) htime (hlength _ List.mem_cons_self)
        (hsound _ List.mem_cons_self) hblock fun t ht => ?_
      exact containsTransaction_eq_false.mpr fun hmem =>
        hdisjoint _ hmem _ (List.mem_map_of_mem ht) rfl
    refine ih hpush ?_ (by rw [headBlock_push]; rfl)
      (fun u hu => hlength u (List.mem_cons_of_mem _ hu))
      (fun u hu => hsound u (List.mem_cons_of_mem _ hu)) ?_
    · rw [head_push]
      dsimp only
      omega
    · rw [transactions_push_blockOf, List.map_append]
      exact hnodup

/-- Every transaction is found in the block that brought it. -/
theorem getTransaction_grown {s : LocalChainStore} {blocks : List (List Transaction)}
    (hs : (grown s blocks).WellFormed) {i j : ℕ} {transactions : List Transaction}
    {t : Transaction} (hi : blocks[i]? = some transactions) (ht : transactions[j]? = some t) :
    (grown s blocks).getTransaction t.id = some ⟨s.head.height + 1 + i, j, t⟩ := by
  obtain ⟨hlt, rfl⟩ := List.getElem?_eq_some_iff.mp hi
  have hsplit : blocks = blocks.take i ++ blocks[i] :: blocks.drop (i + 1) := by
    rw [List.getElem_cons_drop, List.take_append_drop]
  have hlen : (grown s (blocks.take i)).blocks.length = s.head.height + 1 + i := by
    rw [blocks_length, head_grown, List.length_take]
    omega
  have hblock : (grown s blocks).getBlock (s.head.height + 1 + i) =
      some (blockOf (grown s (blocks.take i)) blocks[i]) := by
    have hgrown : grown s blocks = grown ((grown s (blocks.take i)).push
        (blockOf (grown s (blocks.take i)) blocks[i])) (blocks.drop (i + 1)) := by
      conv_lhs => rw [hsplit, grown_append]
      rfl
    rw [hgrown]
    refine (extends_grown _ _).getBlock ?_
    rw [getBlock, blocks_push, ← hlen, List.getElem?_concat_length]
  exact hs.getTransaction hblock ht

end Growth

attribute [local instance] platform

def genesisTransaction : Transaction :=
  signed ann (RecordKindV1.namespaceOf .companyGenesis)
    (utf8 (recordText .companyGenesis company none notarisation genesisXml)) 0

/-- The chain that founds the company. -/
def founded : LocalChainStore :=
  ⟨network, ⟨⟨headerVersion, network, 0, Hash.zero, merkleRoot [genesisTransaction.id], 1, 0⟩,
    [genesisTransaction]⟩, [], []⟩

/-- The chain is what founding the company on a new store makes. -/
example :
    (genesisWithCompany network ann company genesisXml notarisation 0).map
      GenesisSpec.transactions = .ok founded.genesis.transactions := by
  decide +kernel

def foundingRecord : RecordRefV1 :=
  ⟨0, 0, genesisTransaction.id, publicKeyOf ann, ⟨company, none, notarisation,
    .companyGenesis genesis⟩⟩

/-- The company as founded. -/
def acme : CompanyStateV1 where
  company := company
  at_ := 0
  genesisTxId := genesisTransaction.id
  genesisHeight := 0
  identity := .fromRecord foundingRecord genesis.identity
  shares := .fromRecord foundingRecord register
  channels := .fromRecord foundingRecord channels
  identities := .fromRecord foundingRecord identities
  authorisation := .fromRecord foundingRecord authorisation
  applied := [foundingRecord]

theorem companyNow_founded : companyNow founded = .ok acme := by
  decide +kernel

theorem founded_wellFormed : founded.WellFormed := by
  refine .genesis ?_ _
  refine checkBlock_genesis.mp ?_
  decide +kernel

end Irena.Sample
