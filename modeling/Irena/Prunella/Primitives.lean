import Irena.Library.Codec
import Irena.Library.Markup
import Irena.Library.Outcome

/-! # Primitive values of the chain

Digests, keys, signatures and labels, their canonical bytes and their text. The hash function, the
signature scheme and the markup scanner come from other packages and are operations of a
`Platform`. A digest is a number; the ones the hash function of the source returns fit 32 bytes. -/

namespace Irena.Prunella

open Irena.Library Irena.Library.Strings Irena.Library.Numeral Irena.Library.Utf8
open Irena.Library.Markup

structure Hash where
  value : ℕ
deriving DecidableEq, Inhabited

structure TxId where
  hash : Hash
deriving DecidableEq, Inhabited

structure PublicKey where
  value : ℕ
deriving DecidableEq, Inhabited

structure Signature where
  value : ℕ
deriving DecidableEq, Inhabited

/-- A private key, by its seed. -/
structure SigningKey where
  seed : ℕ
deriving DecidableEq, Inhabited

/-- What the program takes from other packages. -/
class Platform extends Scanner where
  blake3 : Bytes → Hash
  publicKey : SigningKey → PublicKey
  sign : SigningKey → Bytes → Signature
  /-- Strict verification; absent where the key is not a point of the curve. -/
  verifyStrict : PublicKey → Bytes → Signature → Option Bool

/-- Two byte strings that share a digest. -/
def Collision [Platform] (a b : Bytes) : Prop := a ≠ b ∧ Platform.blake3 a = Platform.blake3 b

/-- A signature made with a key verifies under its public key. -/
class SignaturesVerify [Platform] : Prop where
  verifies : ∀ (key : SigningKey) (message : Bytes),
    Platform.verifyStrict (Platform.publicKey key) message (Platform.sign key message) = some true

def Hash.codec : Codec Hash :=
  (Codec.unsigned 31).iso Hash.value Hash.mk (fun _ => rfl) fun _ => rfl

def TxId.codec : Codec TxId :=
  Hash.codec.iso TxId.hash TxId.mk (fun _ => rfl) fun _ => rfl

def PublicKey.codec : Codec PublicKey :=
  (Codec.unsigned 31).iso PublicKey.value PublicKey.mk (fun _ => rfl) fun _ => rfl

def Signature.codec : Codec Signature :=
  (Codec.unsigned 63).iso Signature.value Signature.mk (fun _ => rfl) fun _ => rfl

def Hash.asBytes (h : Hash) : Bytes := Hash.codec.encode h

/-- What is hashed for `bytes` within the domain named by `tag`. -/
def domainBytes (tag : Text) (bytes : Bytes) : Bytes :=
  Codec.u32.encode (utf8 tag).length ++ utf8 tag ++ bytes

def hashDomain [Platform] (tag : Text) (bytes : Bytes) : Hash :=
  Platform.blake3 (domainBytes tag bytes)

/-- No tag is a prefix of another tag and what follows it. -/
theorem domainBytes_inj {tag tag' : Text} {bytes bytes' : Bytes}
    (h : domainBytes tag bytes = domainBytes tag' bytes') : tag = tag' ∧ bytes = bytes' := by
  rw [domainBytes, domainBytes, List.append_assoc, List.append_assoc] at h
  obtain ⟨hlen, hrest⟩ := Codec.u32.encode_append_inj h
  obtain ⟨htag, hbytes⟩ := List.append_inj hrest hlen
  exact ⟨utf8_injective htag, hbytes⟩

/-- What is hashed for a value within the domain named by `tag`. -/
def canonicalBytes {α : Type} (tag : Text) (codec : Codec α) (value : α) : Bytes :=
  domainBytes tag (codec.encode value)

def hashCanonical [Platform] {α : Type} (tag : Text) (codec : Codec α) (value : α) : Hash :=
  Platform.blake3 (canonicalBytes tag codec value)

/-- A digest determines the value, unless the values are a collision. -/
theorem hashCanonical_eq [Platform] {α : Type} {tag : Text} {codec : Codec α} {a b : α}
    (h : hashCanonical tag codec a = hashCanonical tag codec b) :
    a = b ∨ Collision (canonicalBytes tag codec a) (canonicalBytes tag codec b) := by
  by_cases heq : canonicalBytes tag codec a = canonicalBytes tag codec b
  · exact .inl (codec.encode_injective (domainBytes_inj heq).2)
  · exact .inr ⟨heq, h⟩

def Hash.zero : Hash := ⟨0⟩

def Hash.toHex (h : Hash) : Text := Numeral.toHex 64 h.value
def Hash.fromHex (t : Text) : Option Hash := (Numeral.fromHex 64 t).map Hash.mk
def TxId.toHex (id : TxId) : Text := id.hash.toHex
def TxId.fromHex (t : Text) : Option TxId := (Hash.fromHex t).map TxId.mk
def PublicKey.toHex (k : PublicKey) : Text := Numeral.toHex 64 k.value
def PublicKey.fromHex (t : Text) : Option PublicKey := (Numeral.fromHex 64 t).map PublicKey.mk
def Signature.toHex (s : Signature) : Text := Numeral.toHex 128 s.value
def Signature.fromHex (t : Text) : Option Signature := (Numeral.fromHex 128 t).map Signature.mk

@[simp] theorem Hash.fromHex_toHex (h : Hash) : Hash.fromHex h.toHex = some h := by
  simp [Hash.fromHex, Hash.toHex]

@[simp] theorem TxId.fromHex_toHex (id : TxId) : TxId.fromHex id.toHex = some id := by
  simp [TxId.fromHex, TxId.toHex]

inductive LabelRejection where
  | empty
  | tooLong
  | badFirstCharacter
  | badCharacter
deriving DecidableEq

inductive CoreError where
  | invalidNetworkId (value : Text) (reason : LabelRejection)
  | invalidNamespace (value : Text) (reason : LabelRejection)
  | tooManyTransactions (count : ℕ)
  | heightOverflow (height : ℕ)
deriving DecidableEq

def maxLabelLen : ℕ := 64

def labelCharacter (c : Char) : Bool :=
  isAsciiLowercase c || isAsciiDigit c || c == '.' || c == '_' || c == '-'

def validateLabel : Text → Except LabelRejection Unit
  | [] => .error .empty
  | first :: characters =>
    if maxLabelLen < byteLength (first :: characters) then .error .tooLong
    else if !isAsciiLowercase first && !isAsciiDigit first then .error .badFirstCharacter
    else if characters.all labelCharacter then .ok () else .error .badCharacter

structure NetworkId where
  value : Text
deriving DecidableEq, Inhabited

structure Namespace where
  value : Text
deriving DecidableEq, Inhabited

def NetworkId.new (value : Text) : Except CoreError NetworkId :=
  match validateLabel value with
  | .error reason => .error (.invalidNetworkId value reason)
  | .ok () => .ok ⟨value⟩

def Namespace.new (value : Text) : Except CoreError Namespace :=
  match validateLabel value with
  | .error reason => .error (.invalidNamespace value reason)
  | .ok () => .ok ⟨value⟩

def NetworkId.codec : Codec NetworkId :=
  Codec.text.iso NetworkId.value NetworkId.mk (fun _ => rfl) fun _ => rfl

def Namespace.codec : Codec Namespace :=
  Codec.text.iso Namespace.value Namespace.mk (fun _ => rfl) fun _ => rfl

/-- The next height, unless it would not fit 64 bits. -/
def nextHeight (height : ℕ) : Except CoreError ℕ :=
  if height < u64Max then .ok (height + 1) else .error (.heightOverflow height)

@[simp] theorem nextHeight_eq_ok {height next : ℕ} :
    nextHeight height = .ok next ↔ next = height + 1 ∧ height < u64Max := by
  unfold nextHeight
  split <;> simp_all [eq_comm]

end Irena.Prunella
