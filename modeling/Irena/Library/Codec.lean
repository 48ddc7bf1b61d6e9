import Irena.Library.Utf8

/-! # Codecs

A codec pairs an encoder with a reader of prefixes and carries both laws: what is encoded reads
back, and nothing else reads. Codecs compose by pairs, vectors, options and refinements, so that a
record's codec is assembled from those of its fields and needs no proof of its own. -/

namespace Irena.Library

open Strings Numeral Utf8

structure Codec (α : Type) where
  encode : α → Bytes
  decode : Bytes → Option (α × Bytes)
  decode_encode : ∀ a rest, decode (encode a ++ rest) = some (a, rest)
  eq_append_of_decode : ∀ {bytes a rest}, decode bytes = some (a, rest) → bytes = encode a ++ rest

namespace Codec

variable {α β γ : Type}

/-- Reads a whole byte string, refusing trailing bytes. -/
def read (c : Codec α) (bytes : Bytes) : Option α :=
  match c.decode bytes with
  | some (a, []) => some a
  | _ => none

@[simp] theorem read_encode (c : Codec α) (a : α) : c.read (c.encode a) = some a := by
  have h := c.decode_encode a []
  rw [List.append_nil] at h
  rw [read, h]

theorem encode_injective (c : Codec α) : Function.Injective c.encode := by
  intro a b h
  have ha := c.read_encode a
  rw [h, read_encode] at ha
  exact (Option.some.inj ha).symm

/-- Encodings are self-delimiting. -/
theorem encode_append_inj (c : Codec α) {a b : α} {r s : Bytes}
    (h : c.encode a ++ r = c.encode b ++ s) : a = b ∧ r = s := by
  have ha := c.decode_encode a r
  rw [h, c.decode_encode] at ha
  simpa [eq_comm] using ha

/-- An unsigned integer in `low + 1` little-endian bytes. -/
def unsigned (low : ℕ) : Codec ℕ where
  encode := littleEndian low
  decode := readLittleEndian low
  decode_encode := readLittleEndian_append low
  eq_append_of_decode := eq_append_of_readLittleEndian

def u8 : Codec ℕ := unsigned 0
def u16 : Codec ℕ := unsigned 1
def u32 : Codec ℕ := unsigned 3
def u64 : Codec ℕ := unsigned 7

def pair (c : Codec α) (d : Codec β) : Codec (α × β) where
  encode p := c.encode p.1 ++ d.encode p.2
  decode bytes := (c.decode bytes).bind fun p => (d.decode p.2).map fun q => ((p.1, q.1), q.2)
  decode_encode p rest := by
    rw [List.append_assoc, c.decode_encode]
    simp [d.decode_encode]
  eq_append_of_decode h := by
    obtain ⟨⟨a, r⟩, ha, h⟩ := Option.bind_eq_some_iff.mp h
    obtain ⟨⟨b, s⟩, hb, h⟩ := Option.map_eq_some_iff.mp h
    obtain ⟨rfl, rfl⟩ := Prod.mk.inj h
    have hr := d.eq_append_of_decode hb
    dsimp only at hr ⊢
    rw [c.eq_append_of_decode ha, hr, List.append_assoc]

/-- Values of `α` written as values of `β`; `ofBase` accepts exactly what `toBase` writes. -/
def refine (c : Codec β) (toBase : α → β) (ofBase : β → Option α)
    (ofBase_toBase : ∀ a, ofBase (toBase a) = some a)
    (toBase_of : ∀ {b a}, ofBase b = some a → toBase a = b) : Codec α where
  encode a := c.encode (toBase a)
  decode bytes := (c.decode bytes).bind fun p => (ofBase p.1).map fun a => (a, p.2)
  decode_encode a rest := by simp [c.decode_encode, ofBase_toBase]
  eq_append_of_decode h := by
    obtain ⟨⟨b, r⟩, hb, h⟩ := Option.bind_eq_some_iff.mp h
    obtain ⟨a, ha, h⟩ := Option.map_eq_some_iff.mp h
    obtain ⟨rfl, rfl⟩ := Prod.mk.inj h
    dsimp only
    rw [c.eq_append_of_decode hb, toBase_of ha]

/-- A record written as the tuple of its fields. -/
def iso (c : Codec β) (toBase : α → β) (ofBase : β → α)
    (left : ∀ a, ofBase (toBase a) = a) (right : ∀ b, toBase (ofBase b) = b) : Codec α :=
  c.refine toBase (fun b => some (ofBase b)) (fun a => by rw [left]) fun h => by
    obtain rfl := Option.some.inj h
    exact right _

def decodeMany (c : Codec α) : ℕ → Bytes → Option (List α × Bytes)
  | 0, bytes => some ([], bytes)
  | n + 1, bytes =>
    (c.decode bytes).bind fun p => (decodeMany c n p.2).map fun q => (p.1 :: q.1, q.2)

theorem decodeMany_append (c : Codec α) (as : List α) (rest : Bytes) :
    c.decodeMany as.length (as.flatMap c.encode ++ rest) = some (as, rest) := by
  induction as with
  | nil => rfl
  | cons a as ih =>
    rw [List.flatMap_cons, List.append_assoc, List.length_cons, decodeMany, c.decode_encode]
    simp [ih]

theorem eq_append_of_decodeMany {c : Codec α} {n : ℕ} {bytes rest : Bytes} {as : List α}
    (h : c.decodeMany n bytes = some (as, rest)) :
    as.length = n ∧ bytes = as.flatMap c.encode ++ rest := by
  induction n generalizing bytes as with
  | zero =>
    simp only [decodeMany, Option.some.injEq, Prod.mk.injEq] at h
    obtain ⟨rfl, rfl⟩ := h
    exact ⟨rfl, rfl⟩
  | succ n ih =>
    rw [decodeMany] at h
    obtain ⟨⟨a, r⟩, ha, h⟩ := Option.bind_eq_some_iff.mp h
    obtain ⟨⟨as, s⟩, has, h⟩ := Option.map_eq_some_iff.mp h
    obtain ⟨rfl, rfl⟩ := Prod.mk.inj h
    obtain ⟨hlen, hbytes⟩ := ih has
    refine ⟨by simp [hlen], ?_⟩
    dsimp only at hbytes ⊢
    rw [c.eq_append_of_decode ha, List.flatMap_cons, List.append_assoc, ← hbytes]

/-- A vector: its length as a `u32`, then its elements. -/
def vec (c : Codec α) : Codec (List α) where
  encode as := u32.encode as.length ++ as.flatMap c.encode
  decode bytes := (u32.decode bytes).bind fun p => c.decodeMany p.1 p.2
  decode_encode as rest := by
    rw [List.append_assoc, u32.decode_encode]
    exact c.decodeMany_append as rest
  eq_append_of_decode h := by
    obtain ⟨⟨n, r⟩, hn, h⟩ := Option.bind_eq_some_iff.mp h
    obtain ⟨rfl, hr⟩ := eq_append_of_decodeMany h
    dsimp only at hr
    rw [u32.eq_append_of_decode hn, List.append_assoc, ← hr]

def bytes : Codec Bytes := u8.vec

/-- A string: the vector of its UTF-8 bytes, refused where they spell no text. -/
def text : Codec Text :=
  bytes.refine utf8 fromUtf8 fromUtf8_utf8 fun h => (eq_utf8_of_fromUtf8 h).symm

/-- An option: a zero byte, or a one byte and the value. -/
def option (c : Codec α) : Codec (Option α) where
  encode
    | none => [0]
    | some a => 1 :: c.encode a
  decode
    | 0 :: rest => some (none, rest)
    | 1 :: rest => (c.decode rest).map fun p => (some p.1, p.2)
    | _ => none
  decode_encode o rest := by
    cases o with
    | none => rfl
    | some a => simp [c.decode_encode]
  eq_append_of_decode {bytes o rest} h := by
    split at h
    · simp only [Option.some.injEq, Prod.mk.injEq] at h
      obtain ⟨rfl, rfl⟩ := h
      rfl
    · obtain ⟨⟨a, r⟩, ha, h⟩ := Option.map_eq_some_iff.mp h
      obtain ⟨rfl, rfl⟩ := Prod.mk.inj h
      rw [c.eq_append_of_decode ha]
      rfl
    · cases h

/-- A choice between two forms, told apart by their first byte. -/
def either (c : Codec α) (d : Codec β) : Codec (α ⊕ β) where
  encode
    | .inl a => 0 :: c.encode a
    | .inr b => 1 :: d.encode b
  decode
    | 0 :: rest => (c.decode rest).map fun p => (.inl p.1, p.2)
    | 1 :: rest => (d.decode rest).map fun p => (.inr p.1, p.2)
    | _ => none
  decode_encode s rest := by
    cases s with
    | inl a => simp [c.decode_encode]
    | inr b => simp [d.decode_encode]
  eq_append_of_decode h := by
    split at h
    · obtain ⟨⟨a, r⟩, ha, h⟩ := Option.map_eq_some_iff.mp h
      obtain ⟨rfl, rfl⟩ := Prod.mk.inj h
      rw [c.eq_append_of_decode ha]
      rfl
    · obtain ⟨⟨b, r⟩, hb, h⟩ := Option.map_eq_some_iff.mp h
      obtain ⟨rfl, rfl⟩ := Prod.mk.inj h
      rw [d.eq_append_of_decode hb]
      rfl
    · cases h

/-- A codec whose values form a subset, by a test made on reading. -/
def subset (c : Codec α) (p : α → Prop) [DecidablePred p] : Codec { a // p a } :=
  c.refine Subtype.val (fun a => if h : p a then some ⟨a, h⟩ else none)
    (fun a => by simp [a.2]) fun {b a} h => by
      split at h
      · obtain rfl := Option.some.inj h
        rfl
      · cases h

/-- An unsigned integer that fits 64 bits. -/
def word64 : Codec U64 := u64.subset (· ≤ u64Max)

/-- One byte that names a value of an enumeration. -/
def enum (tagOf : α → ℕ) (ofTag : ℕ → Option α) (ofTag_tagOf : ∀ a, ofTag (tagOf a) = some a)
    (tagOf_of : ∀ {n a}, ofTag n = some a → tagOf a = n) : Codec α :=
  u8.refine tagOf ofTag ofTag_tagOf tagOf_of

def bool : Codec Bool :=
  enum Bool.toNat (fun n => if n = 0 then some false else if n = 1 then some true else none)
    (fun b => by cases b <;> rfl) fun {n b} h => by
      split at h
      · rename_i hn
        obtain rfl := Option.some.inj h
        exact hn.symm
      · split at h
        · rename_i hn
          obtain rfl := Option.some.inj h
          exact hn.symm
        · cases h

end Codec

end Irena.Library
