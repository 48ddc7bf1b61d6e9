import Irena.Prunella.Merkle

/-! # Canonical bytes

Decoding a whole byte string. It inverts encoding, refuses trailing bytes, and accepts no second
spelling of a value. -/

namespace Irena.Prunella

open Irena.Library Irena.Library.Strings

inductive CanonicalError where
  | decode
  | trailingBytes (trailing : ℕ)
deriving DecidableEq

/-- Decodes a value from canonical bytes, rejecting any trailing input. -/
def decode {α : Type} (codec : Codec α) (bytes : Bytes) : Except CanonicalError α :=
  match codec.decode bytes with
  | none => .error .decode
  | some (value, []) => .ok value
  | some (_, b :: rest) => .error (.trailingBytes (b :: rest).length)

theorem decode_eq_ok {α : Type} {codec : Codec α} {bytes : Bytes} {value : α} :
    decode codec bytes = .ok value ↔ codec.encode value = bytes := by
  unfold decode
  constructor
  · intro h
    split at h
    · cases h
    · rename_i read hread
      obtain rfl := Except.ok.inj h
      rw [codec.eq_append_of_decode hread, List.append_nil]
    · cases h
  · rintro rfl
    have hread := codec.decode_encode value []
    rw [List.append_nil] at hread
    rw [hread]

/-- Whatever follows an encoding is refused, with its length. -/
theorem decode_append {α : Type} (codec : Codec α) (value : α) {rest : Bytes} (h : rest ≠ []) :
    decode codec (codec.encode value ++ rest) = .error (.trailingBytes rest.length) := by
  unfold decode
  rw [codec.decode_encode]
  cases rest with
  | nil => exact absurd rfl h
  | cons b rest => rfl

/-- Decoding inverts encoding and accepts nothing but encodings. -/
structure StrictlyInverse {α : Type} (codec : Codec α) : Prop where
  decode_encode : ∀ value, decode codec (codec.encode value) = .ok value
  encode_decode : ∀ bytes value, decode codec bytes = .ok value → codec.encode value = bytes
  no_trailing : ∀ value rest, rest ≠ [] →
    decode codec (codec.encode value ++ rest) = .error (.trailingBytes rest.length)

theorem strictlyInverse {α : Type} (codec : Codec α) : StrictlyInverse codec where
  decode_encode _ := decode_eq_ok.mpr rfl
  encode_decode _ _ h := decode_eq_ok.mp h
  no_trailing value _ h := decode_append codec value h

def sideCodec : Codec Side :=
  Codec.enum (fun | .left => 0 | .right => 1)
    (fun | 0 => some .left | 1 => some .right | _ => none)
    (fun side => by cases side <;> rfl) fun {n side} h => by
      split at h <;> first | (obtain rfl := Option.some.inj h; rfl) | cases h

def ProofStep.codec : Codec ProofStep :=
  (sideCodec.pair Hash.codec).iso (fun s => (s.side, s.hash)) (fun (s, h) => ⟨s, h⟩)
    (fun _ => rfl) fun _ => rfl

def InclusionProof.codec : Codec InclusionProof :=
  (Codec.u32.pair ProofStep.codec.vec).iso (fun p => (p.index, p.steps)) (fun (i, s) => ⟨i, s⟩)
    (fun _ => rfl) fun _ => rfl

end Irena.Prunella
