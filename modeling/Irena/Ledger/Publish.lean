import Irena.Ledger.Append
import Irena.Ledger.Immutability

/-! # Publishing an amendment

Publishing reads the company at one head, judges the amendment against it, reads the head again to
choose the parent block, appends, and reads the transaction back. Every store access is a step of
its own; run alone, the accesses see one chain. -/

namespace Irena.Ledger

open Irena.Library Irena.Library.Outcome Irena.Library.Strings Irena.Library.Utf8
open Irena.Core Irena.Bornite Irena.Prunella Irena.Prunella.LocalChainStore

variable [Platform]

abbrev LedgerProgram (α : Type) := ChainProgram LedgerError α

def ledgerFaults : ChainFaults LedgerError :=
  ⟨.store, .ledger, fun height => .malformed (.missingHead height)⟩

def readTransaction (id : TxId) : LedgerProgram LocatedTransaction :=
  Program.read fun s => orError (s.getTransaction id) (.malformed (.notReadBack id))

/-- Reconstruction as the store is accessed: the head, then a snapshot of the blocks. -/
def reconstructing (at_ : ℕ) : LedgerProgram CompanyStateV1 := do
  let head ← readHead
  let last := min at_ head.height
  let blocks ← Program.read fun s => .ok (s.iterBlocks last)
  Program.lift (reconstructBlocks blocks at_ last)

def readCompanyNow : LedgerProgram CompanyStateV1 := do
  let head ← readHead
  reconstructing head.height

/-- Whether a published body would lock the company out. -/
def lockoutOf (state : CompanyStateV1) : RecordBodyV1 → Option Text
  | .identities identities => lockoutAfter identities state.authorisation.value
  | .authorisation authorisation => lockoutAfter state.identities.value authorisation
  | _ => none

/-- The payload of an amendment of a company, judged against that company. -/
def composeAmendment (state : CompanyStateV1) (key : SigningKey) (kind : RecordKindV1)
    (bodyXml : Text) (supersedes : Option TxId) (notarisation : NotarisationV1) :
    Except LedgerError Text := do
  let _ ← authorisedSigner state .company (Platform.publicKey key)
  let expected := state.providerOf kind
  ensure (supersedes = some expected) (.staleAmendment kind expected supersedes)
  let payload ← mapErr .record (composeRecord kind state.company supersedes notarisation bodyXml)
  let record ← mapErr .record (readRecord payload)
  match lockoutOf state record.body with
  | some detail => .error (.lockedOut detail)
  | none => return payload

/-- Publishes an amendment to one part of the company, in its own block. -/
def publish (key : SigningKey) (kind : RecordKindV1) (bodyXml : Text) (supersedes : Option TxId)
    (notarisation : NotarisationV1) (timestampMillis : ℕ) : LedgerProgram RecordRefV1 := do
  Program.lift (ensure (kind ≠ .companyGenesis) (.malformed .foundedOnce))
  let state ← readCompanyNow
  let payload ← Program.lift (composeAmendment state key kind bodyXml supersedes notarisation)
  let (txId, height) ←
    appendTransaction ledgerFaults key kind.namespaceOf (utf8 payload) timestampMillis
  let committed ← readTransaction txId
  let text ← Program.lift (orError (fromUtf8 committed.transaction.payload) (.malformed .notUtf8))
  let record ← Program.lift (mapErr .record (readRecord text))
  return ⟨height, committed.index, txId, Platform.publicKey key, record⟩

/-- The genesis specification that founds a company. -/
def genesisWithCompany (network : NetworkId) (key : SigningKey) (company : CompanyIdV1)
    (genesisXml : Text) (notarisation : NotarisationV1) (timestampMillis : ℕ) :
    Except LedgerError GenesisSpec := do
  let genesis ← mapErr .record (readCompanyGenesisDocument genesisXml)
  match lockoutAfter genesis.identities genesis.authorisation with
  | some detail => .error (.lockedOut detail)
  | none => do
    let payload ← mapErr .record
      (composeRecord .companyGenesis company none notarisation genesisXml)
    let transaction ← mapErr .ledger
      (transactionFor key RecordKindV1.companyGenesis.namespaceOf (utf8 payload) 0)
    return ⟨network, timestampMillis, [transaction]⟩

@[simp] theorem run_reconstructing (at_ : ℕ) (s : LocalChainStore) :
    (reconstructing at_).run s = (reconstruct s at_, s) := rfl

@[simp] theorem run_readCompanyNow (s : LocalChainStore) :
    readCompanyNow.run s = (companyNow s, s) := rfl

omit [Platform] in
theorem namespace_new_namespaceOf (kind : RecordKindV1) :
    Namespace.new kind.namespaceOf = .ok ⟨kind.namespaceOf⟩ := by
  cases kind <;> decide +kernel

end Irena.Ledger
