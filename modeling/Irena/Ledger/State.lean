import Irena.Core.Xml
import Irena.Prunella.Chain

/-! # Reconstructing a company

The company at a height is a fold over the transactions up to it. The first record founds the
company; every later one must be an amendment of it, signed by a company signer's key, that
supersedes the record in force and locks nobody out. Anything else stops the reconstruction. -/

namespace Irena.Ledger

open Irena.Library Irena.Library.Outcome Irena.Library.Strings Irena.Library.Utf8
open Irena.Core Irena.Bornite Irena.Prunella

inductive UnreadableDetail where
  | notUtf8
  | record (error : IrenaError)
  | foreignNamespace (kind : RecordKindV1)
deriving DecidableEq

inductive MalformedChain where
  | tooManyTransactions (height : ℕ)
  | foundedOnce
  | missingHead (height : ℕ)
  | notReadBack (txId : TxId)
  | notUtf8
deriving DecidableEq

inductive LedgerError where
  | record (error : IrenaError)
  | noCompany (at_ : ℕ)
  | noGenesisFirst (height : ℕ) (txId : TxId) (kind : RecordKindV1)
  | secondGenesis (first : TxId) (height : ℕ) (txId : TxId)
  | foreignCompany (expected found : CompanyIdV1) (height : ℕ) (txId : TxId)
  | staleAmendment (kind : RecordKindV1) (expected : TxId) (found : Option TxId)
  | unauthorisedSigner (family : RecordFamilyV1) (signer : PublicKey) (detail : Text)
  | lockedOut (detail : Text)
  | unauthorisedRecord (height : ℕ) (txId : TxId) (kind : RecordKindV1) (signer : PublicKey)
    (detail : Text)
  | lockout (height : ℕ) (txId : TxId) (detail : Text)
  | brokenAmendmentChain (company : CompanyIdV1) (kind : RecordKindV1) (height : ℕ) (txId : TxId)
    (expected found : Option TxId)
  | unreadableRecord (height : ℕ) (txId : TxId) (namespace_ : Namespace) (detail : UnreadableDetail)
  | malformed (detail : MalformedChain)
  | store (error : StoreError)
  | ledger (error : Prunella.CoreError)
deriving DecidableEq

/-- The person authorised for a family who holds a key. -/
def signerOf (identities : IdentitiesV1) (authorisation : AuthorisationV1) (family : RecordFamilyV1)
    (key : PublicKey) : Except LedgerError PersonV1 :=
  match identities.holderOf key with
  | none =>
    .error (.unauthorisedSigner family key
      (lit "no person in the identities in force holds this key"))
  | some person =>
    if authorisation.allows person.id family then .ok person
    else .error (.unauthorisedSigner family key
      (person.id.value ++ lit " holds this key but is not a " ++ family.asStr ++
        lit " signer in the authorisation in force"))

theorem signerOf_eq_ok {identities : IdentitiesV1} {authorisation : AuthorisationV1}
    {family : RecordFamilyV1} {key : PublicKey} {person : PersonV1} :
    signerOf identities authorisation family key = .ok person ↔
      identities.holderOf key = some person ∧ authorisation.allows person.id family = true := by
  unfold signerOf
  cases identities.holderOf key with
  | none => simp
  | some holder =>
    by_cases hallows : authorisation.allows holder.id family = true
    · simp only [if_pos hallows, Except.ok.injEq, Option.some.injEq]
      constructor
      · rintro rfl
        exact ⟨rfl, hallows⟩
      · exact fun h => h.1
    · simp only [if_neg hallows, reduceCtorEq, Option.some.injEq, false_iff, not_and]
      rintro rfl
      exact hallows

/-- Why these parts together would lock the company out, if they would. -/
def lockoutAfter (identities : IdentitiesV1) (authorisation : AuthorisationV1) : Option Text :=
  let signers := authorisation.personsFor .company
  if signers.any fun person => (identities.keyOf person).isSome then none
  else
    let listed := signers.map fun person =>
      person.value ++
        if (identities.get person).isSome then lit " (no key)" else lit " (not in the identities)"
    some (lit "no company signer holds a key; company signers: " ++
      if listed = [] then lit "none" else (lit ", ").intercalate listed)

theorem lockoutAfter_eq_none {identities : IdentitiesV1} {authorisation : AuthorisationV1} :
    lockoutAfter identities authorisation = none ↔
      ∃ person ∈ authorisation.personsFor .company, (identities.keyOf person).isSome := by
  unfold lockoutAfter
  simp only [ite_eq_left_iff, reduceCtorEq, imp_false, not_not, List.any_eq_true]

/-- A record as found on the ledger. -/
structure RecordRefV1 where
  height : ℕ
  index : ℕ
  txId : TxId
  signer : PublicKey
  record : IrenaRecordV1
deriving DecidableEq

/-- A part of the company with the record that provides it. -/
structure InForceV1 (α : Type) where
  value : α
  txId : TxId
  height : ℕ
  notarisation : NotarisationV1
  supersedes : Option TxId
deriving DecidableEq

def InForceV1.fromRecord {α : Type} (found : RecordRefV1) (value : α) : InForceV1 α :=
  ⟨value, found.txId, found.height, found.record.notarisation, found.record.supersedes⟩

/-- The company as reconstructed at one height. -/
structure CompanyStateV1 where
  company : CompanyIdV1
  at_ : ℕ
  genesisTxId : TxId
  genesisHeight : ℕ
  identity : InForceV1 IdentityV1
  shares : InForceV1 ShareStructureV1
  channels : InForceV1 DecisionChannelsV1
  identities : InForceV1 IdentitiesV1
  authorisation : InForceV1 AuthorisationV1
  applied : List RecordRefV1
deriving DecidableEq

def authorisedSigner (state : CompanyStateV1) (family : RecordFamilyV1) (key : PublicKey) :
    Except LedgerError PersonV1 :=
  signerOf state.identities.value state.authorisation.value family key

namespace CompanyStateV1

/-- The transaction currently providing a part. -/
def providerOf (s : CompanyStateV1) : RecordKindV1 → TxId
  | .companyGenesis => s.genesisTxId
  | .identity => s.identity.txId
  | .shareStructure => s.shares.txId
  | .decisionChannels => s.channels.txId
  | .identities => s.identities.txId
  | .authorisation => s.authorisation.txId

/-- The records that have provided a part, in chain order. -/
def historyOf (s : CompanyStateV1) (kind : RecordKindV1) : List RecordRefV1 :=
  s.applied.filter fun found => found.record.kind = .companyGenesis ∨ found.record.kind = kind

/-- The company with the part a record carries replaced by it. -/
def replace (s : CompanyStateV1) (found : RecordRefV1) : CompanyStateV1 :=
  match found.record.body with
  | .companyGenesis _ => s
  | .identity value => { s with identity := .fromRecord found value }
  | .shareStructure value => { s with shares := .fromRecord found value }
  | .decisionChannels value => { s with channels := .fromRecord found value }
  | .identities value => { s with identities := .fromRecord found value }
  | .authorisation value => { s with authorisation := .fromRecord found value }

end CompanyStateV1

/-- The first record must found the company. -/
def foundCompany (found : RecordRefV1) : Except LedgerError CompanyStateV1 :=
  match found.record.body with
  | .companyGenesis genesis => do
    ensure (found.record.supersedes = none)
      (.brokenAmendmentChain found.record.company .companyGenesis found.height found.txId none
        found.record.supersedes)
    match lockoutAfter genesis.identities genesis.authorisation with
    | some detail => .error (.lockout found.height found.txId detail)
    | none =>
      return {
        company := found.record.company
        at_ := found.height
        genesisTxId := found.txId
        genesisHeight := found.height
        identity := .fromRecord found genesis.identity
        shares := .fromRecord found genesis.shares
        channels := .fromRecord found genesis.channels
        identities := .fromRecord found genesis.identities
        authorisation := .fromRecord found genesis.authorisation
        applied := [found] }
  | _ => .error (.noGenesisFirst found.height found.txId found.record.kind)

/-- Applies one amendment to the company. -/
def apply (state : CompanyStateV1) (found : RecordRefV1) : Except LedgerError CompanyStateV1 := do
  ensure (found.record.company = state.company)
    (.foreignCompany state.company found.record.company found.height found.txId)
  let kind := found.record.kind
  ensure (kind ≠ .companyGenesis) (.secondGenesis state.genesisTxId found.height found.txId)
  match authorisedSigner state .company found.signer with
  | .error (.unauthorisedSigner _ _ detail) =>
    .error (.unauthorisedRecord found.height found.txId kind found.signer detail)
  | _ => do
    ensure (found.record.supersedes = some (state.providerOf kind))
      (.brokenAmendmentChain state.company kind found.height found.txId
        (some (state.providerOf kind)) found.record.supersedes)
    let state := state.replace found
    match lockoutAfter state.identities.value state.authorisation.value with
    | some detail => .error (.lockout found.height found.txId detail)
    | none => return { state with applied := state.applied ++ [found] }

/-- Signer refusals are the only errors of the signer check. -/
theorem authorisedSigner_error {state : CompanyStateV1} {family : RecordFamilyV1} {key : PublicKey}
    {e : LedgerError} (h : authorisedSigner state family key = .error e) :
    ∃ detail, e = .unauthorisedSigner family key detail := by
  unfold authorisedSigner signerOf at h
  split at h
  · exact ⟨_, (Except.error.inj h).symm⟩
  · split at h
    · cases h
    · exact ⟨_, (Except.error.inj h).symm⟩

/-- What an applied amendment satisfies, and what it makes of the company. -/
structure Amends (state : CompanyStateV1) (found : RecordRefV1) : Prop where
  company : found.record.company = state.company
  amendment : found.record.kind ≠ .companyGenesis
  signer : ∃ person, authorisedSigner state .company found.signer = .ok person
  supersedes : found.record.supersedes = some (state.providerOf found.record.kind)
  open_ : lockoutAfter (state.replace found).identities.value
    (state.replace found).authorisation.value = none

theorem apply_eq_ok {state next : CompanyStateV1} {found : RecordRefV1} :
    apply state found = .ok next ↔ Amends state found ∧
      next = { state.replace found with applied := (state.replace found).applied ++ [found] } := by
  unfold apply
  cases hsigner : authorisedSigner state .company found.signer with
  | error e =>
    obtain ⟨detail, rfl⟩ := authorisedSigner_error hsigner
    simp only [bind_eq_ok, ensure_eq_ok, reduceCtorEq, and_false, exists_const, false_iff, not_and]
    rintro ⟨-, -, ⟨person, hperson⟩, -, -⟩
    rw [hsigner] at hperson
    cases hperson
  | ok person =>
    simp only [bind_eq_ok, ensure_eq_ok]
    cases hlock : lockoutAfter (state.replace found).identities.value
        (state.replace found).authorisation.value with
    | some detail =>
      simp only [reduceCtorEq, and_false, exists_const, false_iff, not_and]
      rintro ⟨-, -, -, -, hopen⟩
      rw [hlock] at hopen
      cases hopen
    | none =>
      simp only [pure_eq_ok, Except.ok.injEq]
      constructor
      · rintro ⟨-, hcompany, -, hkind, -, hsupersedes, rfl⟩
        exact ⟨⟨hcompany, hkind, ⟨person, hsigner⟩, hsupersedes, hlock⟩, rfl⟩
      · rintro ⟨⟨hcompany, hkind, -, hsupersedes, -⟩, rfl⟩
        exact ⟨(), hcompany, (), hkind, (), hsupersedes, rfl⟩

/-- The company namespace a transaction is in, if any. -/
def kindOfNamespace (namespace_ : Text) : Option Text :=
  (RecordKindV1.all.map RecordKindV1.namespaceOf).find? fun candidate => candidate = namespace_

variable [Platform]

/-- The record a transaction of a company namespace holds. -/
def recordAt (height index : ℕ) (t : Transaction) (namespace_ : Text) :
    Except LedgerError RecordRefV1 := do
  let unreadable := LedgerError.unreadableRecord height t.id t.namespace_
  let text ← orError (fromUtf8 t.payload) (unreadable .notUtf8)
  let record ← mapErr (fun e => unreadable (.record e)) (readRecord text)
  ensure (record.kind.namespaceOf = namespace_) (unreadable (.foreignNamespace record.kind))
  ensure (index ≤ u32Max) (.malformed (.tooManyTransactions height))
  return ⟨height, index, t.id, t.signer, record⟩

/-- One transaction of a block at a height: the company before it and after it. -/
def step (height : ℕ) (state : Option CompanyStateV1) (p : Transaction × ℕ) :
    Except LedgerError (Option CompanyStateV1) :=
  match kindOfNamespace p.1.namespace_.value with
  | none => .ok state
  | some namespace_ => do
    let found ← recordAt height p.2 p.1 namespace_
    match state with
    | none => some <$> foundCompany found
    | some current => some <$> apply current found

def applyBlock (state : Option CompanyStateV1) (block : Block) :
    Except LedgerError (Option CompanyStateV1) :=
  block.transactions.zipIdx.foldlM (step block.header.height) state

/-- The company as it stands after the blocks up to height `last`, seen from height `at_`. -/
def reconstructBlocks (blocks : List Block) (at_ last : ℕ) : Except LedgerError CompanyStateV1 := do
  let state ← blocks.foldlM applyBlock none
  let state ← orError state (.noCompany last)
  return { state with at_ := at_ }

/-- Reconstructs the company at a height, or at the head if that is lower. -/
def reconstruct (s : LocalChainStore) (at_ : ℕ) : Except LedgerError CompanyStateV1 :=
  let last := min at_ s.head.height
  reconstructBlocks (s.iterBlocks last) at_ last

/-- The company at the chain head. -/
def companyNow (s : LocalChainStore) : Except LedgerError CompanyStateV1 :=
  reconstruct s s.head.height

end Irena.Ledger
