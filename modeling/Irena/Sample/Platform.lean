import Irena.Library.PlainMarkup
import Irena.Prunella.Verify
import Mathlib.Logic.Equiv.List

/-! # A platform to run on

The plain scanner, a digest below a prime of 255 bits, and signatures that are digests of the
message under the public key: enough to evaluate the program on concrete chains. A second platform
has digests without collisions. -/

namespace Irena.Sample

open Irena.Library Irena.Library.Strings Irena.Library.Markup Irena.Prunella

def modulus : ℕ := 2 ^ 255 - 19

/-- A digest by Horner's rule. The match has each intermediate value computed before it is used. -/
def digestFrom (start : ℕ) : Bytes → ℕ
  | [] => start
  | byte :: rest =>
    match (start * 257 + byte + 1) % modulus with
    | 0 => digestFrom 0 rest
    | n + 1 => digestFrom (n + 1) rest

def publicKeyOf (key : SigningKey) : PublicKey := ⟨key.seed⟩

@[reducible] def platform : Platform where
  toScanner := Plain.scanner
  blake3 bytes := ⟨digestFrom 1 bytes⟩
  publicKey := publicKeyOf
  sign key message := ⟨digestFrom (publicKeyOf key).value message⟩
  verifyStrict key message signature := some (signature.value == digestFrom key.value message)

theorem signaturesVerify : @SignaturesVerify platform :=
  @SignaturesVerify.mk platform fun _ _ => congrArg some (beq_self_eq_true _)

theorem lawfulScanner : @LawfulScanner platform.toScanner := Plain.scanner_lawful

theorem writingScanner : @WritingScanner platform.toScanner := Plain.scanner_writing

/-- The same with a digest that numbers the byte strings. -/
@[reducible] def numberingPlatform : Platform :=
  { platform with blake3 := fun bytes => ⟨Encodable.encode bytes⟩ }

theorem numbering_injective : Function.Injective numberingPlatform.blake3 := by
  intro a b h
  exact Encodable.encode_injective (congrArg Hash.value h)

end Irena.Sample
