import Irena.Library.Pull
import Irena.Prunella.Import

/-! # Parsing a document

The strict reader of chain documents: a root with its declarations, blocks with their headers and
transactions, and fields that are base64 text or one nested element cut out of the source byte for
byte. Byte positions and the scanner's own messages are left out of errors. -/

namespace Irena.Prunella.Read

open Irena.Library Irena.Library.Outcome Irena.Library.Strings Irena.Library.Markup
open Irena.Library.Utf8

/-- What the reader takes from other packages: the scanner of a nested payload alone, character
references and base64. -/
class DocumentPlatform extends NamespaceScanner, Scanner where
  resolvesCharRef : Text → Bool
  decodeBase64 : Text → Option Bytes

/-- What a malformed document is reported for. -/
inductive Detail where
  | illFormed
  | badAttribute
  | message (text : Text)
  | unknownAttribute (element key : Text)
  | unknownElement (parent element : Text)
  | missingAttribute (element key : Text)
  | missingElement (parent element : Text)
  | invalidNumber (name value : Text)
  | unknownNamespace (value : Text)
  | unknownKind (value : Text)
  | unknownEncoding (value : Text)
  | invalidBase64 (element : Text)
deriving DecidableEq

/-- The refusals of the reader; `panicked` is an operation that would have panicked. -/
inductive ReadError where
  | malformed (detail : Detail)
  | unsupportedFormatVersion (found : ℕ) (supported : List ℕ)
  | nonContiguousDocument (height previous : ℕ)
  | tooManyBlocks (found limit : ℕ)
  | tooManyTransactions (limit : ℕ)
  | fieldTooLarge (element : Text) (found limit : ℕ)
  | tooLarge (found limit : ℕ)
  | core (error : CoreError)
  | hexLength (kind : Text) (expected found : ℕ)
  | hexDigits (kind : Text) (offending : Char)
  | panicked
deriving DecidableEq

def malformed (text : Text) : ReadError := .malformed (.message text)

def xmlNamespace : Text := lit "urn:prunella:chain:2"
def xmlNamespaceV1 : Text := lit "urn:prunella:chain:1"
def supportedFormatVersions : List ℕ := [1, 2]

def namespaceForVersion : ℕ → Option Text
  | 1 => some xmlNamespaceV1
  | 2 => some xmlNamespace
  | _ => none

def defaultMaxDocumentBytes : ℕ := 2 ^ 30
def maxBlocks : ℕ := 16000000
def maxTransactionsPerBlock : ℕ := 4000000
def maxBinaryFieldChars : ℕ := 96 * 1024 * 1024
def u16Max : ℕ := 2 ^ 16 - 1

/-- A decimal integer of at most `most`; a plus sign may precede it. -/
def integer (most : ℕ) (name value : Text) : Except ReadError ℕ :=
  match ofDecimal ((stripPrefix value (lit "+")).getD value) with
  | some n => if n ≤ most then .ok n else .error (.malformed (.invalidNumber name value))
  | none => .error (.malformed (.invalidNumber name value))

/-- The number 64 lowercase hexadecimal characters spell. -/
def hexBytes (kind text : Text) : Except ReadError ℕ :=
  if byteLength text = 64 then
    match text.find? fun c => (Numeral.hexValue c).isNone with
    | some offending => .error (.hexDigits kind offending)
    | none => orError (Numeral.fromHex 64 text) (.hexLength kind 64 (byteLength text))
  else .error (.hexLength kind 64 (byteLength text))

def hashFromHex (text : Text) : Except ReadError Hash := Hash.mk <$> hexBytes (lit "hash") text

def txIdFromHex (text : Text) : Except ReadError TxId :=
  (fun n => ⟨⟨n⟩⟩) <$> hexBytes (lit "transaction id") text

def DocumentKind.parse (text : Text) : Option DocumentKind :=
  if text = lit "full" then some .full
  else if text = lit "range" then some .range
  else if text = lit "projection" then some .projection
  else none

inductive PayloadEncoding where
  | base64
  | xml
deriving DecidableEq

def PayloadEncoding.parse (text : Text) : Option PayloadEncoding :=
  if text = lit "base64" then some .base64
  else if text = lit "xml" then some .xml
  else none

def require {α : Type} (value : Option α) (element key : Text) : Except ReadError α :=
  orError value (.malformed (.missingAttribute element key))

def attributes (tag : Tag) : Except ReadError (List (Text × Text)) :=
  orError tag.attributes (.malformed .badAttribute)

/-- Reads the attributes of an element one after the other. -/
def readAttributes {σ : Type} (tag : Tag) (onAttribute : σ → Text → Text → Except ReadError σ)
    (s : σ) : Except ReadError σ := do
  (← attributes tag).foldlM (fun s (name, value) => onAttribute s name value) s

def unknownAttribute {α : Type} (element key : Text) : Except ReadError α :=
  .error (.malformed (.unknownAttribute element key))

def describe : Event → Text
  | .start _ => lit "an opening tag"
  | .close _ => lit "a closing tag"
  | .empty _ => lit "an empty element"
  | .text _ => lit "text"
  | .cdata _ => lit "a CDATA section"
  | .comment _ => lit "a comment"
  | .declaration => lit "an XML declaration"
  | .instruction => lit "a processing instruction"
  | .doctype => lit "a doctype"
  | .reference _ => lit "an entity reference"
  | .eof => lit "the end of the document"

def unexpected {α : Type} (e : Event) : Except ReadError α :=
  .error (malformed (lit "unexpected " ++ describe e))

/-- The content of a text event with its line ends as `\n`. -/
def xml10Content : Text → Text
  | '\r' :: '\n' :: t => '\n' :: xml10Content t
  | '\r' :: t => '\n' :: xml10Content t
  | c :: t => c :: xml10Content t
  | [] => []

def isAsciiWhitespace (c : Char) : Bool :=
  c = ' ' || c = '\t' || c = '\n' || c = '\r' || c = Char.ofNat 12

/-- The document's source, and what its root has established. -/
structure Context where
  source : Text
  namespace_ : Text
  formatVersion : ℕ

section Reader

variable [DocumentPlatform] {α σ : Type}

abbrev Reads := Markup.Reads ReadError

/-- A loop over events. -/
def loop (body : σ → Reads (σ ⊕ α)) (s : σ) : Reads α :=
  Markup.Reads.loop (.malformed .illFormed) body s

/-- One event with the namespace its element is in, without any check. -/
def rawEvent : Reads (Option Text × Event) := fun c =>
  match c.next with
  | none => .error (.malformed .illFormed)
  | some (bound, e, c') => .ok ((bound, e), c')

/-- One event of the document proper: every element must be in the document's namespace. -/
def event (p : Context) : Reads Event := do
  let next ← rawEvent
  ensure (next.2.isTag = true → next.1 = some p.namespace_) <|
    malformed (lit "every element must be in the " ++ p.namespace_ ++ lit " namespace")
  return next.2

/-- The reader's byte offset into the input. -/
def position (p : Context) : Reads ℕ := fun c =>
  .ok (byteLength p.source - byteLength c.rest, c)

/-- One round over the content of an element: text and comments are passed over, a child is handed
to `onChild`, the end tag ends the loop. -/
def onContent (p : Context) (onChild : σ → Tag → Bool → Reads σ) (s : σ) : Reads (σ ⊕ σ) := do
  match ← event p with
  | .text _ => return .inl s
  | .comment _ => return .inl s
  | .empty child => return .inl (← onChild s child true)
  | .start child => return .inl (← onChild s child false)
  | .close _ => return .inr s
  | other => unexpected other

/-- The loop over the children of an element. -/
def children (p : Context) (onChild : σ → Tag → Bool → Reads σ) (s : σ) : Reads σ :=
  loop (onContent p onChild) s

/-- A child no branch of a loop is for. -/
def unexpectedChild (child : Tag) (isEmpty : Bool) : Except ReadError α :=
  unexpected (if isEmpty then .empty child else .start child)

def fixed (width : ℕ) (codec : Codec α) (bytes : Bytes) : Except ReadError α :=
  let refusal := malformed (lit "expected " ++ decimal width ++ lit " bytes, found " ++
    decimal bytes.length)
  if bytes.length = width then orError (codec.read bytes) refusal else .error refusal

/-- One round over the text of a field. -/
def onBinary (p : Context) (name text : Text) : Reads (Text ⊕ Text) := do
  match ← event p with
  | .text chunk => return .inl (text ++ xml10Content chunk)
  | .cdata chunk => return .inl (text ++ chunk)
  | .comment _ => return .inl text
  | .close _ => return .inr text
  | other => throw (malformed (name ++ lit " must hold only text, found " ++ describe other))

/-- Decodes the base64 text of a field; whitespace is stripped first. -/
def decodeField (name text : Text) : Except ReadError Bytes := do
  ensure (byteLength text ≤ maxBinaryFieldChars)
    (.fieldTooLarge name (byteLength text) maxBinaryFieldChars)
  orError (DocumentPlatform.decodeBase64 (text.filter fun c => !isAsciiWhitespace c))
    (.malformed (.invalidBase64 name))

/-- Reads the base64 text of an element and consumes its end tag. -/
def binaryText (p : Context) (name : Text) : Reads Bytes := do
  decodeField name (← loop (onBinary p name) [])

/-- The references that need no declaration. -/
def knownReference (name : Text) : Bool :=
  if (lit "#").isPrefixOf name then DocumentPlatform.resolvesCharRef name
  else [lit "lt", lit "gt", lit "amp", lit "apos", lit "quot"].contains name

/-- Scans on to the end of a text; the fuel bounds the events. -/
def singleWithin : ℕ → ℕ → Bool → Reader → Bool
  | 0, _, _, _ => false
  | fuel + 1, depth, seenRoot, r =>
    match Scanner.scan r with
    | none => false
    | some (.eof, _) => seenRoot && depth = 0
    | some (.start _, r') =>
      if seenRoot && depth = 0 then false else singleWithin fuel (depth + 1) true r'
    | some (.close _, r') =>
      match depth with
      | 0 => false
      | depth + 1 => singleWithin fuel depth seenRoot r'
    | some (.empty _, r') =>
      if depth = 0 then !seenRoot && singleWithin fuel depth true r'
      else singleWithin fuel depth seenRoot r'
    | some (.reference name, r') =>
      0 < depth && knownReference name && singleWithin fuel depth seenRoot r'
    | some (.text _, r') => 0 < depth && singleWithin fuel depth seenRoot r'
    | some (.cdata _, r') => 0 < depth && singleWithin fuel depth seenRoot r'
    | some (.comment _, r') => 0 < depth && singleWithin fuel depth seenRoot r'
    | some (.instruction, r') => 0 < depth && singleWithin fuel depth seenRoot r'
    | some _ => false

/-- Whether a text is exactly one well-formed element and nothing else. -/
def isSingleElement (text : Text) : Bool :=
  text.head? = some '<' && text.getLast? = some '>' &&
    singleWithin (text.length + 1) 0 false ⟨[], text⟩

/-- What the reader of a nested payload has found: the element's first and last position, how deep
it is inside it, and where the element it is inside of started. -/
structure Nested where
  element : Option (ℕ × ℕ)
  depth : ℕ
  start : ℕ
deriving DecidableEq

def Nested.initial : Nested := ⟨none, 0, 0⟩

def secondElement : ReadError :=
  malformed (lit "an xml-encoded payload must hold exactly one element, found a second")

/-- What an event between two positions does; nothing is left at the payload's own end tag. -/
def nestedStep (s : Nested) (before : ℕ) (e : Event) (after : ℕ) :
    Except ReadError (Option Nested) :=
  let other : Except ReadError (Option Nested) :=
    .error (malformed (lit "an xml-encoded payload may hold only one element, found " ++ describe e))
  match e with
  | .start _ =>
    if s.depth = 0 then
      if s.element.isSome then .error secondElement
      else .ok (some { s with depth := 1, start := before })
    else .ok (some { s with depth := s.depth + 1 })
  | .empty _ =>
    if s.depth = 0 then
      if s.element.isSome then .error secondElement
      else .ok (some { s with element := some (before, after) })
    else .ok (some s)
  | .close _ =>
    match s.depth with
    | 0 => .ok none
    | 1 => .ok (some { s with depth := 0, element := some (s.start, after) })
    | depth + 2 => .ok (some { s with depth := depth + 1 })
  | .text content =>
    if s.depth = 0 then
      if (xml10Content content).all isAsciiWhitespace then .ok (some s)
      else .error (malformed
        (lit "an xml-encoded payload may hold only one element and whitespace, found text"))
    else .ok (some s)
  | .cdata _ => if 0 < s.depth then .ok (some s) else other
  | .comment _ => if 0 < s.depth then .ok (some s) else other
  | .reference _ => if 0 < s.depth then .ok (some s) else other
  | .instruction => if 0 < s.depth then .ok (some s) else other
  | .eof => .error (malformed (lit "document ends inside a payload"))
  | _ => other

/-- The size test after every event. -/
def Nested.checkSize (s : Nested) : Except ReadError Unit :=
  match s.element with
  | some (_, finish) =>
    ensure (finish - s.start ≤ maxBinaryFieldChars)
      (.fieldTooLarge (lit "payload") (finish - s.start) maxBinaryFieldChars)
  | none => .ok ()

/-- One round over the content of a nested payload. -/
def onNested (p : Context) (s : Nested) : Reads (Nested ⊕ Option (ℕ × ℕ)) := do
  let before ← position p
  let next ← rawEvent
  let after ← position p
  match ← nestedStep s before next.2 after with
  | none => return .inr s.element
  | some s' =>
    s'.checkSize
    return .inl s'

/-- The text between two byte offsets, unless they fall outside it or inside a character. -/
def slice (source : Text) (first last : ℕ) : Option Text :=
  if first ≤ last ∧ last ≤ byteLength source then
    fromUtf8 (((utf8 source).take last).drop first)
  else none

/-- The exact source bytes of the one element a payload holds. -/
def cutOut (p : Context) (element : Option (ℕ × ℕ)) : Except ReadError Bytes := do
  let (first, last) ← orError element
    (malformed (lit "an xml-encoded payload must hold exactly one element, found none"))
  let bytes ← orError (slice p.source first last)
    (malformed (lit "payload element positions fall outside the input"))
  ensure (isSingleElement bytes = true) <| malformed
    (lit "the bytes cut out for an xml-encoded payload are not one well-formed element")
  return utf8 bytes

/-- Reads a nested payload and consumes the payload's end tag. -/
def nestedPayload (p : Context) : Reads Bytes := do
  cutOut p (← loop (onNested p) Nested.initial)

def noAttributes (tag : Tag) (name : Text) : Except ReadError Unit := do
  match ← attributes tag with
  | [] => return ()
  | (key, _) :: _ => unknownAttribute name key

def encodingAttribute (p : Context) (_ : Option PayloadEncoding) (name value : Text) :
    Except ReadError (Option PayloadEncoding) := do
  if name = lit "encoding" ∧ p.formatVersion ≠ 1 then
    return some (← orError (PayloadEncoding.parse value) (.malformed (.unknownEncoding value)))
  else unknownAttribute (lit "payload") name

/-- The encoding of a payload element, base64 by default. -/
def payloadEncoding (p : Context) (tag : Tag) : Except ReadError PayloadEncoding := do
  return (← readAttributes tag (encodingAttribute p) none).getD .base64

structure TransactionSlots where
  index : Option ℕ := none
  id : Option TxId := none
  namespace_ : Option Namespace := none
  schemaVersion : Option ℕ := none
  nonce : Option ℕ := none

def transactionAttribute (s : TransactionSlots) (name value : Text) :
    Except ReadError TransactionSlots := do
  if name = lit "index" then return { s with index := some (← integer u32Max name value) }
  else if name = lit "id" then return { s with id := some (← txIdFromHex value) }
  else if name = lit "namespace" then
    return { s with namespace_ := some (← mapErr .core (Namespace.new value)) }
  else if name = lit "schema-version" then
    return { s with schemaVersion := some (← integer u32Max name value) }
  else if name = lit "nonce" then return { s with nonce := some (← integer u64Max name value) }
  else unknownAttribute (lit "transaction") name

/-- The fields of a transaction met so far. -/
structure Parts where
  signer : Option PublicKey := none
  payload : Option Bytes := none
  signature : Option Signature := none

def unknownElement (parent element : Text) : Except ReadError α :=
  .error (.malformed (.unknownElement parent element))

/-- A field written as an empty-element tag. -/
def emptyField (p : Context) (s : Parts) (child : Tag) : Except ReadError Parts := do
  if localName child.name = lit "signer" then
    noAttributes child (lit "signer")
    return { s with signer := some (← fixed 32 PublicKey.codec []) }
  else if localName child.name = lit "payload" then
    ensure ((← payloadEncoding p child) ≠ .xml) <| malformed
      (lit "an xml-encoded payload cannot be empty: it must hold one element")
    return { s with payload := some [] }
  else if localName child.name = lit "signature" then
    noAttributes child (lit "signature")
    return { s with signature := some (← fixed 64 Signature.codec []) }
  else unknownElement (lit "transaction") (localName child.name)

/-- Reads a payload by its encoding. -/
def payload (p : Context) : PayloadEncoding → Reads Bytes
  | .base64 => binaryText p (lit "payload")
  | .xml => nestedPayload p

/-- A field with content. -/
def startField (p : Context) (s : Parts) (child : Tag) : Reads Parts := do
  if localName child.name = lit "signer" then
    noAttributes child (lit "signer")
    let bytes ← binaryText p (lit "signer")
    return { s with signer := some (← fixed 32 PublicKey.codec bytes) }
  else if localName child.name = lit "payload" then
    let encoding ← payloadEncoding p child
    return { s with payload := some (← payload p encoding) }
  else if localName child.name = lit "signature" then
    noAttributes child (lit "signature")
    let bytes ← binaryText p (lit "signature")
    return { s with signature := some (← fixed 64 Signature.codec bytes) }
  else unknownElement (lit "transaction") (localName child.name)

def field (p : Context) (s : Parts) (child : Tag) (isEmpty : Bool) : Reads Parts :=
  if isEmpty then emptyField p s child else startField p s child

/-- What a transaction's attributes state, at its place among the block's. -/
def transactionStart (tag : Tag) (expectedIndex : ℕ) : Except ReadError TransactionSlots := do
  let s ← readAttributes tag transactionAttribute {}
  let index ← require s.index (lit "transaction") (lit "index")
  ensure (index = expectedIndex) <| malformed
    (lit "transaction indexes must ascend from zero: expected " ++ decimal expectedIndex ++
      lit ", found " ++ decimal index)
  return s

/-- The transaction of attributes and fields. -/
def transactionOf (s : TransactionSlots) (parts : Parts) : Except ReadError Transaction := do
  return {
    id := ← require s.id (lit "transaction") (lit "id")
    namespace_ := ← require s.namespace_ (lit "transaction") (lit "namespace")
    schemaVersion := ← require s.schemaVersion (lit "transaction") (lit "schema-version")
    payload := ← orError parts.payload
      (.malformed (.missingElement (lit "transaction") (lit "payload")))
    signer := ← orError parts.signer
      (.malformed (.missingElement (lit "transaction") (lit "signer")))
    nonce := ← require s.nonce (lit "transaction") (lit "nonce")
    signature := ← orError parts.signature
      (.malformed (.missingElement (lit "transaction") (lit "signature"))) }

def transaction (p : Context) (tag : Tag) (expectedIndex : ℕ) : Reads Transaction := do
  let s ← transactionStart tag expectedIndex
  transactionOf s (← children p (field p) {})

def transactionsAttributes (tag : Tag) : Except ReadError Unit :=
  readAttributes tag
    (fun _ name _ =>
      if name = lit "included-count" then .ok () else unknownAttribute (lit "transactions") name)
    ()

def onTransaction (p : Context) (transactions : List Transaction) (child : Tag) (isEmpty : Bool) :
    Reads (List Transaction) := do
  if isEmpty = false ∧ localName child.name = lit "transaction" then
    ensure (transactions.length < maxTransactionsPerBlock)
      (ReadError.tooManyTransactions maxTransactionsPerBlock)
    ensure (transactions.length ≤ u32Max) (malformed (lit "too many transactions in one block"))
    return transactions ++ [← transaction p child transactions.length]
  else unexpectedChild child isEmpty

def transactions (p : Context) : Reads (List Transaction) := children p (onTransaction p) []

structure HeaderSlots where
  version : Option ℕ := none
  previousHash : Option Hash := none
  txRoot : Option Hash := none
  txCount : Option ℕ := none
  timestampMillis : Option ℕ := none

def headerAttribute (s : HeaderSlots) (name value : Text) : Except ReadError HeaderSlots := do
  if name = lit "version" then return { s with version := some (← integer u16Max name value) }
  else if name = lit "previous-hash" then
    return { s with previousHash := some (← hashFromHex value) }
  else if name = lit "tx-root" then return { s with txRoot := some (← hashFromHex value) }
  else if name = lit "tx-count" then return { s with txCount := some (← integer u32Max name value) }
  else if name = lit "timestamp-millis" then
    return { s with timestampMillis := some (← integer u64Max name value) }
  else unknownAttribute (lit "header") name

def header (tag : Tag) (height : ℕ) (networkId : NetworkId) : Except ReadError BlockHeader := do
  let s ← readAttributes tag headerAttribute {}
  return {
    version := ← require s.version (lit "header") (lit "version")
    networkId
    height
    previousHash := ← require s.previousHash (lit "header") (lit "previous-hash")
    txRoot := ← require s.txRoot (lit "header") (lit "tx-root")
    txCount := ← require s.txCount (lit "header") (lit "tx-count")
    timestampMillis := ← require s.timestampMillis (lit "header") (lit "timestamp-millis") }

structure BlockSlots where
  height : Option ℕ := none
  hash : Option Hash := none

def blockAttribute (s : BlockSlots) (name value : Text) : Except ReadError BlockSlots := do
  if name = lit "height" then return { s with height := some (← integer u64Max name value) }
  else if name = lit "hash" then return { s with hash := some (← hashFromHex value) }
  else unknownAttribute (lit "block") name

/-- The height and the hash a block's start tag states. -/
def blockStart (tag : Tag) : Except ReadError (ℕ × Hash) := do
  let s ← readAttributes tag blockAttribute {}
  return (← require s.height (lit "block") (lit "height"),
    ← require s.hash (lit "block") (lit "hash"))

/-- The children of a block met so far. -/
structure BlockParts where
  header : Option BlockHeader := none
  transactions : Option (List Transaction) := none

def onBlockChild (p : Context) (height : ℕ) (networkId : NetworkId) (s : BlockParts) (child : Tag)
    (isEmpty : Bool) : Reads BlockParts := do
  if isEmpty = true ∧ localName child.name = lit "header" then
    return { s with header := some (← header child height networkId) }
  else if localName child.name = lit "transactions" then
    transactionsAttributes child
    if isEmpty then return { s with transactions := some [] }
    else return { s with transactions := some (← transactions p) }
  else unexpectedChild child isEmpty

def block (p : Context) (tag : Tag) (networkId : NetworkId) : Reads DocumentBlock := do
  let (height, declaredHash) ← blockStart tag
  let s ← children p (onBlockChild p height networkId) {}
  let header ← require s.header (lit "block") (lit "header")
  let transactions ← orError s.transactions <| malformed
    (lit "block at height " ++ decimal height ++ lit " has no transactions element")
  return ⟨⟨header, transactions⟩, declaredHash⟩

structure RootSlots where
  formatVersion : Option ℕ := none
  kind : Option DocumentKind := none
  networkId : Option NetworkId := none
  genesisHash : Option Hash := none
  rangeStart : Option ℕ := none
  rangeEnd : Option ℕ := none
  blockCount : Option ℕ := none
  exportedAtMillis : Option ℕ := none

def rootAttribute (s : RootSlots) (name value : Text) : Except ReadError RootSlots := do
  if name = lit "xmlns" then
    ensure (value = xmlNamespace ∨ value = xmlNamespaceV1) (.malformed (.unknownNamespace value))
    return s
  else if name = lit "format-version" then
    return { s with formatVersion := some (← integer u32Max name value) }
  else if name = lit "kind" then
    return { s with
      kind := some (← orError (DocumentKind.parse value) (.malformed (.unknownKind value))) }
  else if name = lit "network-id" then
    return { s with networkId := some (← mapErr .core (NetworkId.new value)) }
  else if name = lit "genesis-hash" then return { s with genesisHash := some (← hashFromHex value) }
  else if name = lit "range-start" then
    return { s with rangeStart := some (← integer u64Max name value) }
  else if name = lit "range-end" then
    return { s with rangeEnd := some (← integer u64Max name value) }
  else if name = lit "block-count" then
    return { s with blockCount := some (← integer u64Max name value) }
  else if name = lit "exported-at-millis" then
    return { s with exportedAtMillis := some (← integer u64Max name value) }
  else unknownAttribute (lit "prunella-chain") name

def checkedSub (a b : ℕ) : Option ℕ := if b ≤ a then some (a - b) else none

def checkedAdd (a b : ℕ) : Option ℕ := if a + b ≤ u64Max then some (a + b) else none

/-- A document with the version of its format. -/
structure Parsed extends ChainDocument where
  formatVersion : ℕ
  exportedAtMillis : ℕ
deriving DecidableEq

/-- What the root declares, with the declared range and count cross-checked. -/
def rootAttributes (tag : Tag) : Except ReadError Parsed := do
  let root := lit "prunella-chain"
  let s ← readAttributes tag rootAttribute {}
  let formatVersion ← require s.formatVersion root (lit "format-version")
  ensure (formatVersion ∈ supportedFormatVersions)
    (.unsupportedFormatVersion formatVersion supportedFormatVersions)
  let rangeStart ← require s.rangeStart root (lit "range-start")
  let rangeEnd ← require s.rangeEnd root (lit "range-end")
  ensure (rangeStart ≤ rangeEnd) <| malformed
    (lit "document declares an empty range " ++ decimal rangeStart ++ lit "..=" ++ decimal rangeEnd)
  let declaredSpan ← orError ((checkedSub rangeEnd rangeStart).bind (checkedAdd · 1))
    (malformed (lit "declared height range is larger than u64"))
  let blockCount ← require s.blockCount root (lit "block-count")
  ensure (blockCount = declaredSpan) <| malformed
    (lit "document declares " ++ decimal blockCount ++ lit " block(s) but a height range of " ++
      decimal declaredSpan)
  ensure (blockCount ≤ maxBlocks) (.tooManyBlocks blockCount maxBlocks)
  return {
    kind := ← require s.kind root (lit "kind")
    networkId := ← require s.networkId root (lit "network-id")
    genesisHash := ← require s.genesisHash root (lit "genesis-hash")
    rangeStart
    rangeEnd
    projection := none
    blocks := []
    formatVersion
    exportedAtMillis := ← require s.exportedAtMillis root (lit "exported-at-millis") }

def projection (tag : Tag) : Except ReadError Projection := do
  let filter ← readAttributes tag (fun _ name value => do
    if name = lit "filter-namespace" then return some (← mapErr .core (Namespace.new value))
    else unknownAttribute (lit "projection") name) none
  return ⟨← require filter (lit "projection") (lit "filter-namespace")⟩

/-- The projection, the blocks and the last height met so far. -/
structure Body where
  projection : Option Projection := none
  blocks : List DocumentBlock := []
  previous : Option ℕ := none

/-- The sum of two 64-bit integers; the build keeps overflow checks on. -/
def addU64 (a b : ℕ) : Except ReadError ℕ := if a + b ≤ u64Max then .ok (a + b) else .error .panicked

/-- A height must follow the one before it. -/
def checkHeight (previous : Option ℕ) (height : ℕ) : Except ReadError Unit :=
  match previous with
  | none => .ok ()
  | some previous => do
    let expected ← addU64 previous 1
    ensure (height = expected) (.nonContiguousDocument height previous)

def onRootChild (p : Context) (networkId : NetworkId) (s : Body) (child : Tag) (isEmpty : Bool) :
    Reads Body := do
  if isEmpty = true ∧ localName child.name = lit "projection" then
    return { s with projection := some (← projection child) }
  else if isEmpty = false ∧ localName child.name = lit "block" then
    ensure (s.blocks.length < maxBlocks) (ReadError.tooManyBlocks (maxBlocks + 1) maxBlocks)
    let entry ← block p child networkId
    let height := entry.block.header.height
    checkHeight s.previous height
    return { s with blocks := s.blocks ++ [entry], previous := some height }
  else unexpectedChild child isEmpty

/-- One round before the root: its start tag and the namespace it is in end the loop. -/
def onProlog (_ : Unit) : Reads (Unit ⊕ Tag × Option Text) := do
  let next ← rawEvent
  match next.2 with
  | .declaration => return .inl ()
  | .text _ => return .inl ()
  | .comment _ => return .inl ()
  | .start root => return .inr (root, next.1)
  | .empty _ =>
    throw (malformed (lit "a prunella-chain document needs at least a root element with content"))
  | .eof => throw (malformed (lit "document is empty"))
  | other => unexpected other

/-- One round after the root. -/
def onEpilog (p : Context) (_ : Unit) : Reads (Unit ⊕ Unit) := do
  match ← event p with
  | .eof => return .inr ()
  | .text _ => return .inl ()
  | .comment _ => return .inl ()
  | .declaration => return .inl ()
  | other => throw (malformed (lit "trailing " ++ describe other ++ lit " after the root element"))

/-- What the root establishes for the rest of the document. -/
def rootContext (source : Text) (root : Tag) (bound : Option Text) :
    Except ReadError (Parsed × Context) := do
  ensure (localName root.name = lit "prunella-chain") <| malformed
    (lit "expected a prunella-chain element, found " ++ localName root.name)
  let document ← rootAttributes root
  let namespace_ ← orError (namespaceForVersion document.formatVersion)
    (malformed (lit "unreachable: version accepted without a namespace"))
  ensure (bound = some namespace_) <| malformed
    (lit "a format-version " ++ decimal document.formatVersion ++ lit " document must be in the " ++
      namespace_ ++ lit " namespace, found " ++ bound.getD (lit "no namespace"))
  return (document, ⟨source, namespace_, document.formatVersion⟩)

/-- Cross-checks the document-level declarations against the blocks actually present. -/
def finish (document : Parsed) (s : Body) : Except ReadError Parsed := do
  ensure (document.kind = .projection → s.projection ≠ none) <| malformed
    (lit "a projection document must carry a projection element naming its filter")
  ensure (document.kind ≠ .projection → s.projection = none) <| malformed
    (lit "only a projection document may carry a projection element")
  match s.previous, s.blocks with
  | some _, [] => throw .panicked
  | some last, entry :: _ =>
    let first := entry.block.header.height
    ensure (first = document.rangeStart ∧ last = document.rangeEnd) <| malformed
      (lit "document declares heights " ++ decimal document.rangeStart ++ lit "..=" ++
        decimal document.rangeEnd ++ lit " but carries " ++ decimal first ++ lit "..=" ++
        decimal last)
    ensure (document.kind = .full → first = 0) <| malformed
      (lit "a full document must start at height 0, this one starts at " ++ decimal first)
  | none, blocks =>
    ensure (¬ (blocks = [] ∧ document.rangeStart ≤ document.rangeEnd)) <| malformed
      (lit "document declares heights " ++ decimal document.rangeStart ++ lit "..=" ++
        decimal document.rangeEnd ++ lit " but carries no blocks")
  return { document with projection := s.projection, blocks := s.blocks }

def document (source : Text) : Reads Parsed := do
  let (root, bound) ← loop onProlog ()
  let (declared, p) ← rootContext source root bound
  let body ← children p (onRootChild p declared.networkId) {}
  loop (onEpilog p) ()
  finish declared body

/-- Parses a document, refusing input larger than `maxBytes`. -/
def readDocumentWithLimit (xml : Text) (maxBytes : ℕ) : Except ReadError Parsed := do
  ensure (byteLength xml ≤ maxBytes) (.tooLarge (byteLength xml) maxBytes)
  return (← document xml (Cursor.start xml)).1

def readDocument (xml : Text) : Except ReadError Parsed :=
  readDocumentWithLimit xml defaultMaxDocumentBytes

end Reader

end Irena.Prunella.Read
