import Irena.Library.PlainNamespaces
import Irena.Prunella.Read

/-! # Documents to read

The plain scanner with namespaces, base64, and the parts of chain documents as they are written. -/

namespace Irena.Sample

open Irena.Library Irena.Library.Strings Irena.Library.Markup Irena.Prunella.Read

def base64Digit (c : Char) : Option ℕ :=
  let n := c.toNat
  if 65 ≤ n ∧ n ≤ 90 then some (n - 65)
  else if 97 ≤ n ∧ n ≤ 122 then some (n - 71)
  else if 48 ≤ n ∧ n ≤ 57 then some (n + 4)
  else if c = '+' then some 62
  else if c = '/' then some 63
  else none

/-- Groups of four digits; a padded group leaves no bits over. -/
def decodeBase64 : Text → Option Bytes
  | [] => some []
  | [a, b, '=', '='] => do
    let n := 64 * (← base64Digit a) + (← base64Digit b)
    if n % 16 = 0 then some [n / 16] else none
  | [a, b, c, '='] => do
    let n := 4096 * (← base64Digit a) + 64 * (← base64Digit b) + (← base64Digit c)
    if n % 4 = 0 then some [n / 1024, n / 4 % 256] else none
  | a :: b :: c :: d :: t => do
    let n := 262144 * (← base64Digit a) + 4096 * (← base64Digit b) + 64 * (← base64Digit c) +
      (← base64Digit d)
    let rest ← decodeBase64 t
    return n / 65536 :: n / 256 % 256 :: n % 256 :: rest
  | _ => none

/-- Decimal character references. -/
def resolvesCharRef (name : Text) : Bool :=
  match ofDecimal (name.drop 1) with
  | some n => n ≠ 0 && (n < 0xD800 || (0xDFFF < n && n < 0x110000))
  | none => false

@[reducible] def documentPlatform : DocumentPlatform where
  toNamespaceScanner := Plain.namespaceScanner
  scan := Plain.exactScan
  resolvesCharRef := resolvesCharRef
  decodeBase64 := decodeBase64

instance : DecidableEq (@NamespaceScanner.Scope documentPlatform.toNamespaceScanner) :=
  inferInstanceAs (DecidableEq Plain.Scope)

theorem lawfulNamespaces : @LawfulNamespaceScanner documentPlatform.toNamespaceScanner :=
  Plain.namespaceScanner_lawful

def zeros : Text := List.replicate 64 '0'

/-- A document of the heights `first` to `last`. -/
def chainDocument (kind : Text) (first last : ℕ) (content : Text) : Text :=
  lit "<prunella-chain xmlns=\"urn:prunella:chain:2\" format-version=\"2\" kind=\"" ++ kind ++
    lit "\" network-id=\"acme\" genesis-hash=\"" ++ zeros ++ lit "\" range-start=\"" ++
    decimal first ++ lit "\" range-end=\"" ++ decimal last ++ lit "\" block-count=\"" ++
    decimal (last - first + 1) ++ lit "\" exported-at-millis=\"0\">" ++ content ++
    lit "</prunella-chain>"

def headerElement (timestamp : ℕ) : Text :=
  lit "<header version=\"1\" previous-hash=\"" ++ zeros ++ lit "\" tx-root=\"" ++ zeros ++
    lit "\" tx-count=\"0\" timestamp-millis=\"" ++ decimal timestamp ++ lit "\"/>"

def blockElement (height : ℕ) (content : Text) : Text :=
  lit "<block height=\"" ++ decimal height ++ lit "\" hash=\"" ++ zeros ++ lit "\">" ++ content ++
    lit "</block>"

/-- A block without transactions. -/
def emptyBlock (height : ℕ) : Text :=
  blockElement height (headerElement 0 ++ lit "<transactions/>")

def transactionElement (content : Text) : Text :=
  lit "<transaction index=\"0\" id=\"" ++ zeros ++
    lit "\" namespace=\"notes\" schema-version=\"1\" nonce=\"0\">" ++ content ++ lit "</transaction>"

def signerElement : Text :=
  lit "<signer>" ++ List.replicate 43 'A' ++ lit "=</signer>"

def signatureElement : Text :=
  lit "<signature>" ++ List.replicate 86 'A' ++ lit "==</signature>"

end Irena.Sample
