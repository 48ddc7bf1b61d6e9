import Irena.Prunella.Content
import Irena.Prunella.Heights

/-! # What a document shows

The document that is read from a text, beside the tree of the text: which node each of its values
comes from, and when every node of the text is shown in it. -/

namespace Irena.Prunella.Read

open Irena.Library Irena.Library.Outcome Irena.Library.Strings Irena.Library.Markup
open Irena.Library.Markup.Reads Irena.Library.Utf8

section Reader

variable [DocumentPlatform] {α σ : Type} {p : Context}

/-- A field whose base64 text is a value of a fixed width. -/
inductive BinaryShows (name : Text) (width : ℕ) (codec : Codec α) : Node → α → Prop
  | field {bound tag written content bytes value} : noAttributes tag name = .ok () →
      content.all isBinary = true → decodeField name (fieldText content) = .ok bytes →
      fixed width codec bytes = .ok value →
      BinaryShows name width codec (.element bound tag false written content) value

/-- A payload: nothing, base64 text, or the text of the one element it holds. -/
inductive PayloadShows (p : Context) : Node → Bytes → Prop
  | nothing {bound tag written} : payloadEncoding p tag = .ok .base64 →
      PayloadShows p (.element bound tag true written []) []
  | base64 {bound tag written content bytes} : payloadEncoding p tag = .ok .base64 →
      content.all isBinary = true → decodeField (lit "payload") (fieldText content) = .ok bytes →
      PayloadShows p (.element bound tag false written content) bytes
  | xml {bound tag written before inner isEmpty text content after bound'} :
      payloadEncoding p tag = .ok .xml → before.all isBlankText = true →
      after.all isBlankText = true →
      PayloadShows p (.element bound tag false written
        (before ++ .element bound' inner isEmpty text content :: after)) (utf8 text)

abbrev SignerShows : Node → PublicKey → Prop := BinaryShows (lit "signer") 32 PublicKey.codec

abbrev SignatureShows : Node → Signature → Prop := BinaryShows (lit "signature") 64 Signature.codec

/-- A field of a transaction. -/
inductive FieldNode (p : Context) (s : Parts) : Node → Parts → Prop
  | signer {node key} : node.isNamed (lit "signer") = true → SignerShows node key →
      FieldNode p s node { s with signer := some key }
  | payload {node bytes} : node.isNamed (lit "payload") = true → PayloadShows p node bytes →
      FieldNode p s node { s with payload := some bytes }
  | signature {node signature} : node.isNamed (lit "signature") = true →
      SignatureShows node signature → FieldNode p s node { s with signature := some signature }

/-- A transaction of the attributes and the fields of its element. -/
inductive TransactionNode (p : Context) (index : ℕ) : Node → Transaction → Prop
  | element {bound tag written content slots parts tx} : localName tag.name = lit "transaction" →
      transactionStart tag index = .ok slots → Folds (FieldNode p) content {} parts →
      transactionOf slots parts = .ok tx →
      TransactionNode p index (.element bound tag false written content) tx

/-- A transaction of a block, in its place. -/
inductive TransactionChild (p : Context) (txs : List Transaction) : Node → List Transaction → Prop
  | transaction {node tx} : TransactionNode p txs.length node tx →
      TransactionChild p txs node (txs ++ [tx])

/-- A child of a block. -/
inductive BlockChild (p : Context) (height : ℕ) (networkId : NetworkId) (s : BlockParts) :
    Node → BlockParts → Prop
  | header {bound tag isEmpty written content h} : localName tag.name = lit "header" →
      Read.header tag height networkId = .ok h →
      BlockChild p height networkId s (.element bound tag isEmpty written content)
        { s with header := some h }
  | transactions {bound tag isEmpty written content txs} :
      localName tag.name = lit "transactions" → Folds (TransactionChild p) content [] txs →
      BlockChild p height networkId s (.element bound tag isEmpty written content)
        { s with transactions := some txs }

/-- A block of the attributes and the children of its element. -/
inductive BlockNode (p : Context) (networkId : NetworkId) : Node → DocumentBlock → Prop
  | element {bound tag written content height hash parts h txs} :
      localName tag.name = lit "block" → blockStart tag = .ok (height, hash) →
      Folds (BlockChild p height networkId) content {} parts → parts.header = some h →
      parts.transactions = some txs →
      BlockNode p networkId (.element bound tag false written content) ⟨⟨h, txs⟩, hash⟩

/-- A child of the root. -/
inductive RootChild (p : Context) (networkId : NetworkId) (s : Body) : Node → Body → Prop
  | projection {bound tag isEmpty written content filter} :
      localName tag.name = lit "projection" → Read.projection tag = .ok filter →
      RootChild p networkId s (.element bound tag isEmpty written content)
        { s with projection := some filter }
  | block {node entry} : node.isNamed (lit "block") = true → BlockNode p networkId node entry →
      RootChild p networkId s node
        { s with blocks := s.blocks ++ [entry], previous := some entry.block.header.height }

section Lawful

variable [LawfulNamespaceScanner]

theorem field_nodes {s s' : Parts} {child : Tag} {isEmpty : Bool} {c c' : Cursor}
    (hc : c.rest <:+ p.source) (h : field p s child isEmpty c = .ok (s', c')) :
    ∃ content, ContentOf isEmpty c content c' ∧
      ∀ bound written, FieldNode p s (.element bound child isEmpty written content) s' := by
  cases isEmpty with
  | true =>
    unfold field at h
    rw [if_pos rfl, lift_ok] at h
    obtain ⟨h, rfl⟩ := h
    refine ⟨[], ⟨rfl, rfl⟩, fun bound written => ?_⟩
    unfold emptyField at h
    split_ifs at h with hsigner hpayload hsignature
    · obtain ⟨_, -, h⟩ := Outcome.bind_eq_ok.mp h
      obtain ⟨_, hfixed, -⟩ := Outcome.bind_eq_ok.mp h
      cases hfixed
    · obtain ⟨encoding, hencoding, h⟩ := Outcome.bind_eq_ok.mp h
      obtain ⟨_, hbase64, h⟩ := Outcome.bind_eq_ok.mp h
      obtain rfl := Except.ok.inj h
      cases encoding with
      | base64 => exact .payload (Node.isNamed_element hpayload) (.nothing hencoding)
      | xml => exact absurd rfl (ensure_eq_ok.mp hbase64)
    · obtain ⟨_, -, h⟩ := Outcome.bind_eq_ok.mp h
      obtain ⟨_, hfixed, -⟩ := Outcome.bind_eq_ok.mp h
      cases hfixed
    · cases h
  | false =>
    unfold field startField at h
    simp only [Bool.false_eq_true, if_false] at h
    split_ifs at h with hsigner hpayload hsignature
    · obtain ⟨_, hnone, h⟩ := lift_bind_ok.mp h
      obtain ⟨bytes, c₂, hread, h⟩ := bind_ok.mp h
      obtain ⟨key, hfixed, h⟩ := lift_bind_ok.mp h
      obtain ⟨rfl, rfl⟩ := pure_ok.mp h
      obtain ⟨content, hforest, hbinary, hdecode⟩ := binaryText_nodes hread
      exact ⟨content, hforest, fun bound written =>
        .signer (Node.isNamed_element hsigner) (.field hnone hbinary hdecode hfixed)⟩
    · obtain ⟨encoding, hencoding, h⟩ := lift_bind_ok.mp h
      obtain ⟨bytes, c₂, hread, h⟩ := bind_ok.mp h
      obtain ⟨rfl, rfl⟩ := pure_ok.mp h
      cases encoding with
      | base64 =>
        obtain ⟨content, hforest, hbinary, hdecode⟩ := binaryText_nodes hread
        exact ⟨content, hforest, fun bound written =>
          .payload (Node.isNamed_element hpayload) (.base64 hencoding hbinary hdecode)⟩
      | xml =>
        obtain ⟨before, bound', inner, isEmpty, text, content, after, hforest, hbefore, hafter,
          rfl⟩ := nestedPayload_nodes hc hread
        exact ⟨_, hforest, fun bound written =>
          .payload (Node.isNamed_element hpayload) (.xml hencoding hbefore hafter)⟩
    · obtain ⟨_, hnone, h⟩ := lift_bind_ok.mp h
      obtain ⟨bytes, c₂, hread, h⟩ := bind_ok.mp h
      obtain ⟨key, hfixed, h⟩ := lift_bind_ok.mp h
      obtain ⟨rfl, rfl⟩ := pure_ok.mp h
      obtain ⟨content, hforest, hbinary, hdecode⟩ := binaryText_nodes hread
      exact ⟨content, hforest, fun bound written =>
        .signature (Node.isNamed_element hsignature) (.field hnone hbinary hdecode hfixed)⟩
    · cases h

theorem onTransaction_nodes {txs txs' : List Transaction} {child : Tag} {isEmpty : Bool}
    {c c' : Cursor} (hc : c.rest <:+ p.source)
    (h : onTransaction p txs child isEmpty c = .ok (txs', c')) :
    ∃ content, ContentOf isEmpty c content c' ∧
      ∀ bound written, TransactionChild p txs (.element bound child isEmpty written content) txs' := by
  unfold onTransaction at h
  split at h
  · rename_i hcase
    obtain ⟨rfl, hname⟩ := hcase
    obtain ⟨_, -, h⟩ := lift_bind_ok.mp h
    obtain ⟨_, -, h⟩ := lift_bind_ok.mp h
    obtain ⟨tx, c₃, hread, h⟩ := bind_ok.mp h
    obtain ⟨rfl, rfl⟩ := pure_ok.mp h
    obtain ⟨slots, hstart, h⟩ := lift_bind_ok.mp hread
    obtain ⟨parts, c₅, hfields, h⟩ := bind_ok.mp h
    obtain ⟨htx, rfl⟩ := lift_ok.mp h
    obtain ⟨content, hforest, hfolds⟩ := children_nodes forward_field field_nodes hc hfields
    exact ⟨content, hforest, fun bound written =>
      .transaction (.element hname hstart hfolds htx)⟩
  · rw [lift_ok] at h
    cases h.1

theorem onBlockChild_nodes {height : ℕ} {networkId : NetworkId} {s s' : BlockParts} {child : Tag}
    {isEmpty : Bool} {c c' : Cursor} (hc : c.rest <:+ p.source)
    (h : onBlockChild p height networkId s child isEmpty c = .ok (s', c')) :
    ∃ content, ContentOf isEmpty c content c' ∧ ∀ bound written,
      BlockChild p height networkId s (.element bound child isEmpty written content) s' := by
  unfold onBlockChild at h
  split at h
  · rename_i hcase
    obtain ⟨rfl, hname⟩ := hcase
    obtain ⟨header, hread, h⟩ := lift_bind_ok.mp h
    obtain ⟨rfl, rfl⟩ := pure_ok.mp h
    exact ⟨[], ⟨rfl, rfl⟩, fun bound written => .header hname hread⟩
  · split at h
    · rename_i hname
      obtain ⟨_, -, h⟩ := lift_bind_ok.mp h
      cases isEmpty with
      | true =>
        obtain ⟨rfl, rfl⟩ := pure_ok.mp h
        exact ⟨[], ⟨rfl, rfl⟩, fun bound written => .transactions hname .nil⟩
      | false =>
        obtain ⟨txs, c₂, hread, h⟩ := bind_ok.mp h
        obtain ⟨rfl, rfl⟩ := pure_ok.mp h
        obtain ⟨content, hforest, hfolds⟩ :=
          children_nodes forward_onTransaction onTransaction_nodes hc hread
        exact ⟨content, hforest, fun bound written => .transactions hname hfolds⟩
    · rw [lift_ok] at h
      cases h.1

theorem onRootChild_nodes {networkId : NetworkId} {s s' : Body} {child : Tag} {isEmpty : Bool}
    {c c' : Cursor} (hc : c.rest <:+ p.source)
    (h : onRootChild p networkId s child isEmpty c = .ok (s', c')) :
    ∃ content, ContentOf isEmpty c content c' ∧ ∀ bound written,
      RootChild p networkId s (.element bound child isEmpty written content) s' := by
  rcases onRootChild_ok.mp h with
    ⟨rfl, hname, rfl, filter, hfilter, rfl⟩ | ⟨rfl, hname, -, entry, hread, -, rfl⟩
  · exact ⟨[], ⟨rfl, rfl⟩, fun bound written => .projection hname hfilter⟩
  · obtain ⟨⟨height, hash⟩, hstart, h⟩ := lift_bind_ok.mp hread
    obtain ⟨parts, c₂, hchildren, h⟩ := bind_ok.mp h
    obtain ⟨header, hheader, h⟩ := lift_bind_ok.mp h
    obtain ⟨txs, htxs, h⟩ := lift_bind_ok.mp h
    obtain ⟨rfl, rfl⟩ := pure_ok.mp h
    obtain ⟨content, hforest, hfolds⟩ :=
      children_nodes forward_onBlockChild onBlockChild_nodes hc hchildren
    exact ⟨content, hforest, fun bound written => .block (Node.isNamed_element hname)
      (.element hname hstart hfolds (orError_eq_ok.mp hheader) (orError_eq_ok.mp htxs))⟩

end Lawful

/-- No text other than whitespace stands among the nodes. -/
def blank (nodes : List Node) : Bool :=
  nodes.all fun
    | .text content => content.all isAsciiWhitespace
    | _ => true

/-- The header of a block, by its element. -/
inductive HeaderShows (networkId : NetworkId) : Node → BlockHeader → Prop
  | element {bound tag isEmpty written content h} : Read.header tag h.height networkId = .ok h →
      HeaderShows networkId (.element bound tag isEmpty written content) h

inductive ProjectionShows : Node → Projection → Prop
  | element {bound tag isEmpty written content filter} : Read.projection tag = .ok filter →
      ProjectionShows (.element bound tag isEmpty written content) filter

/-- An element holds exactly one child of a name, and it shows a value. -/
def Exactly {β : Type} (name : Text) (nodes : List Node) (Shows : Node → β → Prop) (value : β) :
    Prop :=
  ∃ node, named name nodes = [node] ∧ Shows node value

/-- Every part of a transaction element is shown in the transaction. -/
structure StrictTransaction (p : Context) (node : Node) (tx : Transaction) : Prop where
  signer : Exactly (lit "signer") node.content SignerShows tx.signer
  payload : Exactly (lit "payload") node.content (PayloadShows p) tx.payload
  signature : Exactly (lit "signature") node.content SignatureShows tx.signature
  blank : blank node.content = true

/-- The transactions of a block, one by one. -/
structure TransactionsShow (p : Context) (node : Node) (txs : List Transaction) : Prop where
  each : List.Forall₂ (StrictTransaction p) (named (lit "transaction") node.content) txs
  blank : blank node.content = true

structure StrictBlock (p : Context) (networkId : NetworkId) (node : Node) (entry : DocumentBlock) :
    Prop where
  header : Exactly (lit "header") node.content (HeaderShows networkId) entry.block.header
  transactions : Exactly (lit "transactions") node.content (TransactionsShow p)
    entry.block.transactions
  blank : blank node.content = true

/-- What a text spells: its root element, and what stands before and after it. -/
structure Layout where
  before : List Node
  root : Tag
  content : List Node
  after : List Node

/-- What stands outside the root element. -/
inductive Outside : Cursor → List Node → Cursor → Prop
  | here {c} : Outside c [] c
  | text {c c₁ d bound content nodes} : c.next = some (bound, .text content, c₁) →
      Outside c₁ nodes d → Outside c (.text content :: nodes) d
  | other {c c₁ d bound e nodes} : c.next = some (bound, e, c₁) → e.isOther = true →
      Outside c₁ nodes d → Outside c (.other e :: nodes) d

def Spells (xml : Text) (l : Layout) : Prop :=
  ∃ c c₀ c₁ d d' bound bound', Outside (Cursor.start xml) l.before c ∧
    c.next = some (bound, .start l.root, c₀) ∧ Forest c₀ l.content c₁ ∧ Outside c₁ l.after d ∧
    d.next = some (bound', .eof, d')

/-- What the reader of a document knows after its root. -/
def Parsed.context (d : Parsed) (xml : Text) : Context :=
  ⟨xml, (namespaceForVersion d.formatVersion).getD [], d.formatVersion⟩

/-- Every part of a text is shown in the document: exactly one header and one list of transactions
for each block, one signer, payload and signature for each transaction, at most one projection, and
no stray text. -/
structure StrictDocument (xml : Text) (l : Layout) (d : Parsed) : Prop where
  projection : (named (lit "projection") l.content).length ≤ 1 ∧
    ∀ node ∈ named (lit "projection") l.content, ∃ filter, d.projection = some filter ∧
      ProjectionShows node filter
  blocks : List.Forall₂ (StrictBlock (d.context xml) d.networkId) (named (lit "block") l.content)
    d.blocks
  blank : blank l.before = true ∧ blank l.content = true ∧ blank l.after = true

structure UnrepeatedTransaction (node : Node) : Prop where
  signer : (named (lit "signer") node.content).length ≤ 1
  payload : (named (lit "payload") node.content).length ≤ 1
  signature : (named (lit "signature") node.content).length ≤ 1
  blank : blank node.content = true

structure UnrepeatedBlock (node : Node) : Prop where
  header : (named (lit "header") node.content).length ≤ 1
  transactions : (named (lit "transactions") node.content).length ≤ 1
  each : ∀ a ∈ named (lit "transactions") node.content, blank a.content = true ∧
    ∀ t ∈ named (lit "transaction") a.content, UnrepeatedTransaction t
  blank : blank node.content = true

/-- No child takes the place of an earlier one, and no text is passed over but whitespace. -/
structure UnrepeatedDocument (l : Layout) : Prop where
  projection : (named (lit "projection") l.content).length ≤ 1
  blocks : ∀ node ∈ named (lit "block") l.content, UnrepeatedBlock node
  blank : blank l.before = true ∧ blank l.content = true ∧ blank l.after = true

instance {node : Node} : Decidable (UnrepeatedTransaction node) :=
  decidable_of_iff (_ ∧ _ ∧ _ ∧ _) ⟨fun ⟨signer, payload, signature, blank⟩ =>
    ⟨signer, payload, signature, blank⟩, fun h => ⟨h.signer, h.payload, h.signature, h.blank⟩⟩

instance {node : Node} : Decidable (UnrepeatedBlock node) :=
  decidable_of_iff (_ ∧ _ ∧ _ ∧ _) ⟨fun ⟨header, transactions, each, blank⟩ =>
    ⟨header, transactions, each, blank⟩, fun h => ⟨h.header, h.transactions, h.each, h.blank⟩⟩

instance {l : Layout} : Decidable (UnrepeatedDocument l) :=
  decidable_of_iff (_ ∧ _ ∧ _) ⟨fun ⟨projection, blocks, blank⟩ => ⟨projection, blocks, blank⟩,
    fun h => ⟨h.projection, h.blocks, h.blank⟩⟩

omit [DocumentPlatform] in
theorem forall_of_forall₂ {β : Type} {R : Node → β → Prop} {P : Node → Prop} {nodes : List Node}
    {values : List β} (h : List.Forall₂ R nodes values) (hR : ∀ node value, R node value → P node) :
    ∀ node ∈ nodes, P node :=
  ((List.forall₂_and_left nodes values).mp (h.imp fun node value hr =>
    (⟨hR node value hr, trivial⟩ : P node ∧ True))).1

theorem StrictTransaction.unrepeated {node : Node} {tx : Transaction}
    (h : StrictTransaction p node tx) : UnrepeatedTransaction node := by
  obtain ⟨⟨a, ha, -⟩, ⟨b, hb, -⟩, ⟨c, hc, -⟩, hblank⟩ := h
  exact ⟨by rw [ha]; rfl, by rw [hb]; rfl, by rw [hc]; rfl, hblank⟩

theorem StrictBlock.unrepeated {networkId : NetworkId} {node : Node} {entry : DocumentBlock}
    (h : StrictBlock p networkId node entry) : UnrepeatedBlock node := by
  obtain ⟨⟨a, ha, -⟩, ⟨b, hb, heach, hbetween⟩, hblank⟩ := h
  refine ⟨by rw [ha]; rfl, by rw [hb]; rfl, fun b' hb' => ?_, hblank⟩
  obtain rfl : b' = b := by
    rw [hb] at hb'
    exact List.mem_singleton.mp hb'
  exact ⟨hbetween, forall_of_forall₂ heach fun _ _ hstrict => hstrict.unrepeated⟩

theorem StrictDocument.unrepeated {xml : Text} {l : Layout} {d : Parsed}
    (h : StrictDocument xml l d) : UnrepeatedDocument l :=
  ⟨h.projection.1, forall_of_forall₂ h.blocks fun _ _ hstrict => hstrict.unrepeated, h.blank⟩

omit [DocumentPlatform] in
theorem transactionOf_fields {slots : TransactionSlots} {parts : Parts} {tx : Transaction}
    (h : transactionOf slots parts = .ok tx) : parts.signer = some tx.signer ∧
      parts.payload = some tx.payload ∧ parts.signature = some tx.signature := by
  unfold transactionOf at h
  simp only [Outcome.bind_eq_ok, orError_eq_ok] at h
  obtain ⟨id, -, name, -, version, -, payload, hpayload, signer, hsigner, nonce, -, signature,
    hsignature, h⟩ := h
  obtain rfl := Except.ok.inj h
  exact ⟨hsigner, hpayload, hsignature⟩

theorem TransactionNode.strict {index : ℕ} {node : Node} {tx : Transaction}
    (h : TransactionNode p index node tx) (hone : UnrepeatedTransaction node) :
    StrictTransaction p node tx := by
  obtain ⟨-, -, hfolds, htx⟩ := h
  obtain ⟨hsigner, hpayload, hsignature⟩ := transactionOf_fields htx
  refine ⟨hfolds.one _ Parts.signer _ ?_ ?_ rfl hsigner hone.signer,
    hfolds.one _ Parts.payload _ ?_ ?_ rfl hpayload hone.payload,
    hfolds.one _ Parts.signature _ ?_ ?_ rfl hsignature hone.signature, hone.blank⟩
  · intro s node s' hnode hname
    cases hnode with
    | signer hnamed => exact absurd (hnamed.symm.trans hname) (by decide)
    | payload => rfl
    | signature => rfl
  · intro s node s' hnode hname
    cases hnode with
    | signer _ hshows => exact ⟨_, hshows, rfl⟩
    | payload hnamed =>
      exact absurd (hname.symm.trans (Node.isNamed_ne hnamed (by decide))) (by decide)
    | signature hnamed =>
      exact absurd (hname.symm.trans (Node.isNamed_ne hnamed (by decide))) (by decide)
  · intro s node s' hnode hname
    cases hnode with
    | signer => rfl
    | payload hnamed => exact absurd (hnamed.symm.trans hname) (by decide)
    | signature => rfl
  · intro s node s' hnode hname
    cases hnode with
    | signer hnamed =>
      exact absurd (hname.symm.trans (Node.isNamed_ne hnamed (by decide))) (by decide)
    | payload _ hshows => exact ⟨_, hshows, rfl⟩
    | signature hnamed =>
      exact absurd (hname.symm.trans (Node.isNamed_ne hnamed (by decide))) (by decide)
  · intro s node s' hnode hname
    cases hnode with
    | signer => rfl
    | payload => rfl
    | signature hnamed => exact absurd (hnamed.symm.trans hname) (by decide)
  · intro s node s' hnode hname
    cases hnode with
    | signer hnamed =>
      exact absurd (hname.symm.trans (Node.isNamed_ne hnamed (by decide))) (by decide)
    | payload hnamed =>
      exact absurd (hname.symm.trans (Node.isNamed_ne hnamed (by decide))) (by decide)
    | signature _ hshows => exact ⟨_, hshows, rfl⟩

theorem TransactionChild.all_strict {content : List Node} {txs : List Transaction}
    (h : Folds (TransactionChild p) content [] txs)
    (hone : ∀ node ∈ named (lit "transaction") content, UnrepeatedTransaction node) :
    List.Forall₂ (StrictTransaction p) (named (lit "transaction") content) txs := by
  have hnamed {index : ℕ} {node : Node} {tx : Transaction} (h : TransactionNode p index node tx) :
      node.isNamed (lit "transaction") = true := by
    obtain ⟨hname, -⟩ := h
    exact Node.isNamed_element hname
  have hlist : ∃ vs, txs = [] ++ vs ∧ List.Forall₂
      (fun node tx => ∃ index, TransactionNode p index node tx)
      (named (lit "transaction") content) vs := by
    refine h.list _ id _ (fun {s node s'} hnode hname => ?_) fun {s node s'} hnode _ => ?_
    · cases hnode with
      | transaction hnode => exact absurd ((hnamed hnode).symm.trans hname) (by decide)
    · cases hnode with
      | transaction hnode => exact ⟨_, ⟨_, hnode⟩, rfl⟩
  obtain ⟨vs, rfl, hall⟩ := hlist
  refine ((List.forall₂_and_left _ _).mpr ⟨hone, hall⟩).imp fun node tx hnode => ?_
  obtain ⟨hunrepeated, index, hnode⟩ := hnode
  exact hnode.strict hunrepeated

theorem BlockNode.strict {networkId : NetworkId} {node : Node} {entry : DocumentBlock}
    (h : BlockNode p networkId node entry) (hone : UnrepeatedBlock node) :
    StrictBlock p networkId node entry := by
  obtain @⟨bound, tag, written, content, height, hash, parts, h, txs, -, -, hfolds, hheader,
    htransactions⟩ := h
  refine ⟨hfolds.one _ BlockParts.header _ ?_ ?_ rfl hheader hone.header, ?_, hone.blank⟩
  · intro s node s' hnode hname
    cases hnode with
    | header htag => exact absurd ((Node.isNamed_element htag).symm.trans hname) (by decide)
    | transactions htag => rfl
  · intro s node s' hnode hname
    cases hnode with
    | @header _ _ _ _ _ h _ hread =>
      have hheight : h.height = _ := ends_header.value hread
      exact ⟨h, .element (hheight ▸ hread), rfl⟩
    | transactions htag =>
      exact absurd (hname.symm.trans (Node.isNamed_ne (Node.isNamed_element htag) (by decide))) (by decide)
  · have hshown : ∃ node, named (lit "transactions") content = [node] ∧
        Folds (TransactionChild p) node.content [] txs := by
      refine hfolds.one _ BlockParts.transactions
        (fun node txs => Folds (TransactionChild p) node.content [] txs) ?_ ?_ rfl htransactions
        hone.transactions
      · intro s node s' hnode hname
        cases hnode with
        | header htag => rfl
        | transactions htag => exact absurd ((Node.isNamed_element htag).symm.trans hname) (by decide)
      · intro s node s' hnode hname
        cases hnode with
        | header htag =>
          exact absurd (hname.symm.trans (Node.isNamed_ne (Node.isNamed_element htag) (by decide))) (by decide)
        | transactions _ htxs => exact ⟨_, htxs, rfl⟩
    obtain ⟨node, hnode, hshows⟩ := hshown
    have heach := hone.each node (hnode ▸ List.mem_singleton_self node)
    exact ⟨node, hnode, TransactionChild.all_strict hshows heach.2, heach.1⟩

/-- The content of a root that repeats nothing is shown whole. -/
theorem RootChild.all_strict {networkId : NetworkId} {content : List Node} {s : Body}
    (h : Folds (RootChild p networkId) content {} s)
    (hone : ∀ node ∈ named (lit "block") content, UnrepeatedBlock node) :
    List.Forall₂ (StrictBlock p networkId) (named (lit "block") content) s.blocks := by
  have hlist : ∃ entries, s.blocks = [] ++ entries ∧
      List.Forall₂ (BlockNode p networkId) (named (lit "block") content) entries := by
    refine h.list _ Body.blocks _ (fun {s node s'} hnode hname => ?_) fun {s node s'} hnode hname => ?_
    · cases hnode with
      | projection => rfl
      | block hnamed => exact absurd (hnamed.symm.trans hname) (by decide)
    · cases hnode with
      | projection htag =>
        exact absurd (hname.symm.trans (Node.isNamed_ne (Node.isNamed_element htag) (by decide)))
          (by decide)
      | block _ hblock => exact ⟨_, hblock, rfl⟩
  obtain ⟨entries, hentries, hall⟩ := hlist
  rw [List.nil_append] at hentries
  rw [hentries]
  exact ((List.forall₂_and_left _ _).mpr ⟨hone, hall⟩).imp fun _ _ hnode => hnode.2.strict hnode.1

theorem RootChild.projection_shows {networkId : NetworkId} {content : List Node} {s : Body}
    (h : Folds (RootChild p networkId) content {} s)
    (hone : (named (lit "projection") content).length ≤ 1) :
    ∀ node ∈ named (lit "projection") content, ∃ filter, s.projection = some filter ∧
      ProjectionShows node filter := by
  have hslot := h.slot (lit "projection") Body.projection ProjectionShows
    (fun {s node s'} hnode hname => by
      cases hnode with
      | projection htag =>
        exact absurd ((Node.isNamed_element htag).symm.trans hname) (by decide)
      | block => rfl)
    fun {s node s'} hnode hname => by
      cases hnode with
      | projection _ hread => exact ⟨_, .element hread, rfl⟩
      | block hnamed =>
        exact absurd (hname.symm.trans (Node.isNamed_ne hnamed (by decide))) (by decide)
  intro node hnode
  rcases hnodes : named (lit "projection" (spells _)) content with _ | ⟨a, rest⟩
  · rw [hnodes] at hnode
    cases hnode
  · rw [hnodes] at hnode hone
    obtain rfl : rest = [] := by simpa using hone
    obtain rfl := List.mem_singleton.mp hnode
    obtain ⟨filter, hshows, hfilter⟩ := hslot.2 node hnodes
    exact ⟨filter, hfilter, hshows⟩

theorem Outside.unique {c d d' : Cursor} {ns ms : List Node} (h : Outside c ns d)
    (h' : Outside c ms d') (hd : ∀ b e c', d.next = some (b, e, c') → e.isTag = true ∨ e = .eof)
    (hd' : ∀ b e c', d'.next = some (b, e, c') → e.isTag = true ∨ e = .eof) :
    ns = ms ∧ d = d' := by
  induction h generalizing ms with
  | here =>
    cases h' with
    | here => exact ⟨rfl, rfl⟩
    | text hm => exact absurd (hd _ _ _ hm) (by simp [Event.isTag])
    | @other _ _ _ _ e _ hm he =>
      rcases hd _ _ _ hm with htag | rfl
      · cases e <;> first | (cases he; done) | cases htag
      · cases he
  | text hn _ ih =>
    cases h' with
    | here => exact absurd (hd' _ _ _ hn) (by simp [Event.isTag])
    | text hm ho =>
      rw [hn] at hm
      obtain ⟨rfl, rfl, rfl⟩ : _ ∧ _ ∧ _ := by simpa using hm
      obtain ⟨rfl, rfl⟩ := ih ho hd
      exact ⟨rfl, rfl⟩
    | other hm he => rw [hn] at hm; grind [Event.isOther]
  | @other _ _ _ _ e _ hn he _ ih =>
    cases h' with
    | here =>
      rcases hd' _ _ _ hn with htag | rfl
      · cases e <;> first | (cases he; done) | cases htag
      · cases he
    | text hm => rw [hn] at hm; grind [Event.isOther]
    | other hm _ ho =>
      rw [hn] at hm
      obtain ⟨rfl, rfl, rfl⟩ : _ ∧ _ ∧ _ := by simpa using hm
      obtain ⟨rfl, rfl⟩ := ih ho hd
      exact ⟨rfl, rfl⟩

/-- A text spells one layout at most. -/
theorem Spells.unique {xml : Text} {l l' : Layout} (h : Spells xml l) (h' : Spells xml l') :
    l = l' := by
  obtain ⟨c, c₀, c₁, d, e, b, b', hbefore, hroot, hforest, hafter, heof⟩ := h
  obtain ⟨c', c₀', c₁', d', e', b₁, b₁', hbefore', hroot', hforest', hafter', heof'⟩ := h'
  have htag {c c₀ : Cursor} {b : Option Text} {root : Tag}
      (h : c.next = some (b, .start root, c₀)) :
      ∀ b e c', c.next = some (b, e, c') → e.isTag = true ∨ e = .eof := by
    rintro b e c' hnext
    rw [h] at hnext
    obtain ⟨-, rfl, -⟩ : _ ∧ _ ∧ _ := by simpa using hnext
    exact .inl rfl
  have hend {c c₀ : Cursor} {b : Option Text} (h : c.next = some (b, .eof, c₀)) :
      ∀ b e c', c.next = some (b, e, c') → e.isTag = true ∨ e = .eof := by
    rintro b e c' hnext
    rw [h] at hnext
    obtain ⟨-, rfl, -⟩ : _ ∧ _ ∧ _ := by simpa using hnext
    exact .inr rfl
  obtain ⟨hbeforeEq, rfl⟩ := hbefore.unique hbefore' (htag hroot) (htag hroot')
  rw [hroot] at hroot'
  obtain ⟨-, hrootEq, rfl⟩ : _ ∧ _ ∧ _ := by simpa using hroot'
  obtain ⟨hcontentEq, rfl⟩ := hforest.unique hforest'
  obtain ⟨hafterEq, -⟩ := hafter.unique hafter' (hend heof) (hend heof')
  rcases l with ⟨before, root, content, after⟩
  rcases l' with ⟨before', root', content', after'⟩
  obtain rfl : before = before' := hbeforeEq
  obtain rfl : root = root' := hrootEq
  obtain rfl : content = content' := hcontentEq
  obtain rfl : after = after' := hafterEq
  rfl

/-- What stands outside the root, where it is no longer than the fuel. -/
def outside : ℕ → Cursor → Option (List Node × Cursor)
  | 0, _ => none
  | fuel + 1, c =>
    match c.next with
    | none => none
    | some (_, .text content, c₁) => do
      let (nodes, d) ← outside fuel c₁
      return (.text content :: nodes, d)
    | some (_, e, c₁) =>
      if e.isOther then do
        let (nodes, d) ← outside fuel c₁
        return (.other e :: nodes, d)
      else some ([], c)

theorem outside_spells {fuel : ℕ} {c d : Cursor} {nodes : List Node}
    (h : outside fuel c = some (nodes, d)) : Outside c nodes d := by
  induction fuel generalizing c nodes with
  | zero => cases h
  | succ fuel ih =>
    unfold outside at h
    split at h
    · cases h
    · rename_i hnext
      obtain ⟨⟨rest, d'⟩, hrest, h⟩ := Option.bind_eq_some_iff.mp h
      obtain ⟨rfl, rfl⟩ : _ ∧ _ := by simpa using h
      exact .text hnext (ih hrest)
    · rename_i hnext
      split_ifs at h with hother
      · obtain ⟨⟨rest, d'⟩, hrest, h⟩ := Option.bind_eq_some_iff.mp h
        obtain ⟨rfl, rfl⟩ : _ ∧ _ := by simpa using h
        exact .other hnext hother (ih hrest)
      · obtain ⟨rfl, rfl⟩ : _ ∧ _ := by simpa using h
        exact .here

/-- The layout that a text spells. -/
def layout (xml : Text) : Option Layout := do
  let fuel := xml.length + 1
  let (before, c) ← outside fuel (Cursor.start xml)
  match c.next with
  | some (_, .start root, c₀) =>
    let (content, c₁) ← forest fuel c₀
    let (after, d) ← outside fuel c₁
    match d.next with
    | some (_, .eof, _) => some ⟨before, root, content, after⟩
    | _ => none
  | _ => none

theorem layout_spells {xml : Text} {l : Layout} (h : layout xml = some l) : Spells xml l := by
  obtain ⟨⟨before, c⟩, hbefore, h⟩ := Option.bind_eq_some_iff.mp h
  dsimp only at h
  split at h
  · rename_i hroot
    obtain ⟨⟨content, c₁⟩, hforest, h⟩ := Option.bind_eq_some_iff.mp h
    obtain ⟨⟨after, d⟩, hafter, h⟩ := Option.bind_eq_some_iff.mp h
    dsimp only at h
    split at h
    · rename_i heof
      obtain rfl := Option.some.inj h
      exact ⟨c, _, c₁, d, _, _, _, outside_spells hbefore, hroot, forest_spells hforest,
        outside_spells hafter, heof⟩
    · cases h
  · cases h

section Lawful

variable [LawfulNamespaceScanner]

omit [LawfulNamespaceScanner] in
/-- Rounds that pass over one event each pass over what stands outside the root. -/
theorem outside_of_rounds {body : Unit → Reads (Unit ⊕ α)}
    (hpass : ∀ {c c' : Cursor}, body () c = .ok (.inl (), c') → ∃ node, ∀ {nodes d},
      Outside c' nodes d → Outside c (node :: nodes) d) {c d : Cursor}
    (h : Rounds body ((), c) ((), d)) : ∃ nodes, Outside c nodes d := by
  suffices hall : ∀ q, Rounds body q ((), d) → ∃ nodes, Outside q.2 nodes d from hall _ h
  intro q hq
  induction hq using Relation.ReflTransGen.head_induction_on with
  | refl => exact ⟨[], .here⟩
  | head hround _ ih =>
    obtain ⟨nodes, houtside⟩ := ih
    obtain ⟨node, hnode⟩ := hpass hround
    exact ⟨node :: nodes, hnode houtside⟩

/-- What stands before the root of a document that is read. -/
theorem prolog_nodes {root : Tag × Option Text} {c c₀ : Cursor}
    (h : loop onProlog () c = .ok (root, c₀)) :
    ∃ nodes d, Outside c nodes d ∧ d.next = some (root.2, .start root.1, c₀) := by
  obtain ⟨_, d, hrounds, hlast⟩ := (loop_ok consumes_onProlog).mp h
  obtain ⟨nodes, houtside⟩ := outside_of_rounds (fun {c c'} hround => by
    obtain ⟨⟨bound, e⟩, c₁, hraw, h⟩ := bind_ok.mp hround
    have hnext := rawEvent_ok.mp hraw
    cases e with
    | declaration =>
      obtain ⟨-, rfl⟩ := pure_ok.mp h
      exact ⟨_, fun ho => .other hnext rfl ho⟩
    | text t =>
      obtain ⟨-, rfl⟩ := pure_ok.mp h
      exact ⟨_, fun ho => .text hnext ho⟩
    | comment t =>
      obtain ⟨-, rfl⟩ := pure_ok.mp h
      exact ⟨_, fun ho => .other hnext rfl ho⟩
    | start root => cases (pure_ok.mp h).1
    | _ => cases h) hrounds
  obtain ⟨⟨bound, e⟩, c₁, hraw, h⟩ := bind_ok.mp hlast
  have hnext := rawEvent_ok.mp hraw
  cases e with
  | start tag =>
    obtain ⟨hroot, rfl⟩ := pure_ok.mp h
    obtain rfl := Sum.inr.inj hroot
    exact ⟨nodes, d, houtside, hnext⟩
  | declaration => cases (pure_ok.mp h).1
  | text t => cases (pure_ok.mp h).1
  | comment t => cases (pure_ok.mp h).1
  | _ => cases h

theorem consumes_onEpilog : Consumes (onEpilog p) := by
  intro s s' c c' h
  obtain ⟨e, c₁, hevent, h⟩ := bind_ok.mp h
  cases e with
  | declaration =>
    obtain ⟨-, rfl⟩ := pure_ok.mp h
    exact event_consumes hevent (by simp)
  | text t =>
    obtain ⟨-, rfl⟩ := pure_ok.mp h
    exact event_consumes hevent (by simp)
  | comment t =>
    obtain ⟨-, rfl⟩ := pure_ok.mp h
    exact event_consumes hevent (by simp)
  | eof => cases (pure_ok.mp h).1
  | _ => cases h

/-- What stands after it. -/
theorem epilog_nodes {u : Unit} {c c' : Cursor} (h : loop (onEpilog p) () c = .ok (u, c')) :
    ∃ nodes d bound, Outside c nodes d ∧ d.next = some (bound, .eof, c') := by
  obtain ⟨_, d, hrounds, hlast⟩ := (loop_ok consumes_onEpilog).mp h
  obtain ⟨nodes, houtside⟩ := outside_of_rounds (fun {c c'} hround => by
    obtain ⟨e, c₁, hevent, h⟩ := bind_ok.mp hround
    obtain ⟨bound, hnext, -⟩ := event_ok.mp hevent
    cases e with
    | declaration =>
      obtain ⟨-, rfl⟩ := pure_ok.mp h
      exact ⟨_, fun ho => .other hnext rfl ho⟩
    | text t =>
      obtain ⟨-, rfl⟩ := pure_ok.mp h
      exact ⟨_, fun ho => .text hnext ho⟩
    | comment t =>
      obtain ⟨-, rfl⟩ := pure_ok.mp h
      exact ⟨_, fun ho => .other hnext rfl ho⟩
    | eof => cases (pure_ok.mp h).1
    | _ => cases h) hrounds
  obtain ⟨e, c₁, hevent, h⟩ := bind_ok.mp hlast
  obtain ⟨bound, hnext, -⟩ := event_ok.mp hevent
  cases e with
  | eof =>
    obtain ⟨-, rfl⟩ := pure_ok.mp h
    exact ⟨nodes, d, bound, houtside, hnext⟩
  | declaration => cases (pure_ok.mp h).1
  | text t => cases (pure_ok.mp h).1
  | comment t => cases (pure_ok.mp h).1
  | _ => cases h

omit [DocumentPlatform] [LawfulNamespaceScanner] in
/-- The document keeps what its root declares. -/
theorem finish_ok {declared d : Parsed} {s : Body} (h : finish declared s = .ok d) :
    d = { declared with projection := s.projection, blocks := s.blocks } := by
  obtain ⟨_, -, h⟩ := Outcome.bind_eq_ok.mp h
  obtain ⟨_, -, h⟩ := Outcome.bind_eq_ok.mp h
  obtain ⟨_, -, h⟩ : ∃ u : Unit, True ∧
      pure { declared with projection := s.projection, blocks := s.blocks } = Except.ok d := by
    split at h
    · cases h
    · obtain ⟨_, -, h⟩ := Outcome.bind_eq_ok.mp h
      obtain ⟨u, -, h⟩ := Outcome.bind_eq_ok.mp h
      exact ⟨u, trivial, h⟩
    · obtain ⟨u, -, h⟩ := Outcome.bind_eq_ok.mp h
      exact ⟨u, trivial, h⟩
  exact (Except.ok.inj h).symm

omit [DocumentPlatform] [LawfulNamespaceScanner] in
theorem rootContext_ok {source : Text} {root : Tag} {bound : Option Text} {declared : Parsed}
    (h : rootContext source root bound = .ok (declared, p)) : declared.context source = p := by
  obtain ⟨_, -, h⟩ := Outcome.bind_eq_ok.mp h
  obtain ⟨document, -, h⟩ := Outcome.bind_eq_ok.mp h
  obtain ⟨name, hname, h⟩ := Outcome.bind_eq_ok.mp h
  obtain ⟨_, -, h⟩ := Outcome.bind_eq_ok.mp h
  obtain ⟨rfl, rfl⟩ : document = declared ∧ (⟨source, name, document.formatVersion⟩ : Context) = p := by
    simpa using Except.ok.inj h
  rw [Parsed.context, orError_eq_ok.mp hname]
  rfl

theorem Outside.suffix {c d : Cursor} {nodes : List Node} (h : Outside c nodes d) :
    d.rest <:+ c.rest := by
  induction h with
  | here => exact List.suffix_refl _
  | text hnext _ ih => exact ih.trans (LawfulNamespaceScanner.suffix hnext)
  | other hnext _ _ ih => exact ih.trans (LawfulNamespaceScanner.suffix hnext)

/-- What a document that is read spells: its root declares what it declares, and its content folds
into its projection and its blocks. -/
theorem readDocument_layout {xml : Text} {maxBytes : ℕ} {d : Parsed}
    (h : readDocumentWithLimit xml maxBytes = .ok d) :
    ∃ l s, Spells xml l ∧ Folds (RootChild (d.context xml) d.networkId) l.content {} s ∧
      d.projection = s.projection ∧ d.blocks = s.blocks := by
  obtain ⟨_, -, h⟩ := Outcome.bind_eq_ok.mp h
  obtain ⟨⟨d', c⟩, hdocument, h⟩ := Outcome.bind_eq_ok.mp h
  obtain rfl : d' = d := Except.ok.inj h
  obtain ⟨root, c₀, hprolog, h⟩ := bind_ok.mp hdocument
  obtain ⟨⟨declared, p⟩, hcontext, h⟩ := lift_bind_ok.mp h
  obtain ⟨s, c₁, hchildren, h⟩ := bind_ok.mp h
  obtain ⟨_, c₂, hepilog, h⟩ := bind_ok.mp h
  obtain ⟨hfinish, rfl⟩ := lift_ok.mp h
  obtain ⟨before, e, hbefore, hroot⟩ := prolog_nodes hprolog
  obtain ⟨after, f, bound, hafter, heof⟩ := epilog_nodes hepilog
  obtain rfl := rootContext_ok hcontext
  have hsource : c₀.rest <:+ (declared.context xml).source :=
    (LawfulNamespaceScanner.suffix hroot).trans hbefore.suffix
  obtain ⟨nodes, hforest, hfolds⟩ :=
    children_nodes forward_onRootChild onRootChild_nodes hsource hchildren
  obtain rfl := finish_ok hfinish
  exact ⟨⟨before, root.1, nodes, after⟩, s,
    ⟨e, c₀, c₁, f, _, _, bound, hbefore, hroot, hforest, hafter, heof⟩, hfolds, rfl, rfl⟩

/-- A document shows all of its text exactly where the text repeats nothing. -/
theorem readDocument_strict_iff {xml : Text} {maxBytes : ℕ} {d : Parsed}
    (h : readDocumentWithLimit xml maxBytes = .ok d) :
    (∃ l, Spells xml l ∧ StrictDocument xml l d) ↔ ∃ l, Spells xml l ∧ UnrepeatedDocument l := by
  constructor
  · rintro ⟨l, hspells, hstrict⟩
    exact ⟨l, hspells, hstrict.unrepeated⟩
  · rintro ⟨l, hspells, hone⟩
    obtain ⟨l', s, hspells', hfolds, hprojection, hblocks⟩ := readDocument_layout h
    obtain rfl := hspells.unique hspells'
    refine ⟨l, hspells, ⟨hone.projection, ?_⟩, ?_, hone.blank⟩
    · rw [hprojection]
      exact RootChild.projection_shows hfolds hone.projection
    · rw [hblocks]
      exact RootChild.all_strict hfolds hone.blocks

end Lawful

end Reader

section Samples

attribute [local instance] Sample.documentPlatform Sample.lawfulNamespaces

/-- A document with a transaction whose payload is an element. -/
theorem strict_note : ∃ d, readDocumentWithLimit noteDocument defaultMaxDocumentBytes = .ok d ∧
    ∃ l, Spells noteDocument l ∧ StrictDocument noteDocument l d := by
  have hlayout : ∃ l, layout noteDocument = some l ∧ UnrepeatedDocument l := by decide +kernel
  have hread : (readDocumentWithLimit noteDocument defaultMaxDocumentBytes).toOption.isSome = true := by
    decide +kernel
  obtain ⟨l, hl, hone⟩ := hlayout
  rcases h : readDocumentWithLimit noteDocument defaultMaxDocumentBytes with e | d
  · rw [h] at hread
    cases hread
  · exact ⟨d, rfl, (readDocument_strict_iff h).mpr ⟨l, layout_spells hl, hone⟩⟩

/-- A document of one block with two headers: the second takes the place of the first. -/
def repeatedHeader : Text :=
  Sample.chainDocument (lit "full") 0 0 <|
    Sample.blockElement 0 (Sample.headerElement 1 ++ Sample.headerElement 2 ++ lit "<transactions/>")

theorem readDocument_overrides : ∃ d, readDocument repeatedHeader = .ok d ∧
    ¬ ∃ l, Spells repeatedHeader l ∧ StrictDocument repeatedHeader l d := by
  have hlayout : ∃ l, layout repeatedHeader = some l ∧ ¬ UnrepeatedDocument l := by decide +kernel
  have hread : (readDocument repeatedHeader).toOption.isSome = true := by decide +kernel
  obtain ⟨l, hl, hrepeated⟩ := hlayout
  rcases h : readDocument repeatedHeader with e | d
  · rw [h] at hread
    cases hread
  · refine ⟨d, rfl, fun ⟨l', hspells, hstrict⟩ => hrepeated ?_⟩
    rw [(layout_spells hl).unique hspells]
    exact hstrict.unrepeated

end Samples

end Irena.Prunella.Read
