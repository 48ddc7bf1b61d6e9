import Irena.Core.Compose
import Irena.Ledger.Publish
import Irena.Ledger.Trail
import Irena.Sample.Company

/-! # How a company grows

A block after the head takes the reconstruction one step on. What publishing checks before it
appends is what that step asks for, so a published amendment is the amendment that is reconstructed. -/

namespace Irena.Ledger

open Irena.Library Irena.Library.Outcome Irena.Library.Strings Irena.Library.Utf8
open Irena.Library.Markup Irena.Core Irena.Bornite Irena.Prunella Irena.Prunella.LocalChainStore

theorem replace_with_at (company : CompanyStateV1) (found : RecordRefV1) (n : ℕ) :
    ({ company with at_ := n } : CompanyStateV1).replace found =
      { company.replace found with at_ := n } := by
  unfold CompanyStateV1.replace
  split <;> rfl

theorem providerOf_with_at (company : CompanyStateV1) (n : ℕ) (kind : RecordKindV1) :
    ({ company with at_ := n } : CompanyStateV1).providerOf kind = company.providerOf kind := by
  cases kind <;> rfl

/-- Whether a record amends a company does not depend on the height it is seen from. -/
theorem amends_with_at {company : CompanyStateV1} {n : ℕ} {found : RecordRefV1} :
    Amends { company with at_ := n } found ↔ Amends company found := by
  constructor
  · rintro ⟨hcompany, hkind, hsigner, hsupersedes, hopen⟩
    rw [providerOf_with_at] at hsupersedes
    rw [replace_with_at] at hopen
    exact ⟨hcompany, hkind, hsigner, hsupersedes, hopen⟩
  · rintro ⟨hcompany, hkind, hsigner, hsupersedes, hopen⟩
    refine ⟨hcompany, hkind, hsigner, ?_, ?_⟩
    · rw [providerOf_with_at]
      exact hsupersedes
    · rw [replace_with_at]
      exact hopen

section Rules

variable [Platform]

theorem reconstruct_of_sameChain {s t : LocalChainStore} (h : SameChain s t) (at_ : ℕ) :
    reconstruct t at_ = reconstruct s at_ := by
  have hheight : t.head.height = s.head.height := by
    rw [head, head, h.2.2]
  simp only [reconstruct, iterBlocks, blocks_of_sameChain h, hheight]

theorem companyNow_of_sameChain {s t : LocalChainStore} (h : SameChain s t) :
    companyNow t = companyNow s := by
  have hheight : t.head.height = s.head.height := by
    rw [head, head, h.2.2]
  rw [companyNow, companyNow, hheight, reconstruct_of_sameChain h]

theorem companyNow_eq (s : LocalChainStore) :
    companyNow s = (companyAfter (placed s.blocks) >>= fun state =>
      orError state (.noCompany s.head.height) >>= fun state =>
        pure { state with at_ := s.head.height }) := by
  rw [companyNow, reconstruct_eq, Nat.min_self, companyUpTo_eq, iterBlocks_head]

theorem companyNow_eq_ok {s : LocalChainStore} {state : CompanyStateV1} :
    companyNow s = .ok state ↔ ∃ company, companyAfter (placed s.blocks) = .ok (some company) ∧
      state = { company with at_ := s.head.height } := by
  simp only [companyNow_eq, bind_eq_ok, orError_eq_ok, pure_eq_ok, Except.ok.injEq]
  constructor
  · rintro ⟨_, hafter, company, rfl, rfl⟩
    exact ⟨company, hafter, rfl⟩
  · rintro ⟨company, hafter, rfl⟩
    exact ⟨_, hafter, company, rfl, rfl⟩

theorem companyAfter_append (ls ms : List LocatedTransaction) :
    companyAfter (ls ++ ms) = companyAfter ls >>= fun state => ms.foldlM stepAt state :=
  List.foldlM_append

/-- One more block with one transaction is one more step. -/
theorem companyAfter_push {s : LocalChainStore} {b : Block} {t : Transaction}
    (hb : b.transactions = [t]) :
    companyAfter (placed (s.push b).blocks) = companyAfter (placed s.blocks) >>= fun state =>
      stepAt state ⟨b.header.height, 0, t⟩ := by
  have hplaced : placed [b] = [⟨b.header.height, 0, t⟩] := by
    simp [placed, hb]
  rw [blocks_push, placed_append, companyAfter_append, hplaced]
  simp only [List.foldlM_cons, List.foldlM_nil, bind_pure]

/-- A company amended in the next block. -/
theorem companyNow_push_amended {s : LocalChainStore} {state : CompanyStateV1} {b : Block}
    {t : Transaction} {found : RecordRefV1} (hstate : companyNow s = .ok state)
    (hb : b.transactions = [t]) (hfound : recordIn ⟨b.header.height, 0, t⟩ = some found)
    (hamends : Amends state found) :
    companyNow (s.push b) = .ok { state.replace found with
      at_ := s.head.height + 1
      applied := state.applied ++ [found] } := by
  obtain ⟨company, hafter, rfl⟩ := companyNow_eq_ok.mp hstate
  have happly := apply_eq_ok.mpr ⟨amends_with_at.mp hamends, rfl⟩
  refine companyNow_eq_ok.mpr ⟨{ company.replace found with
    applied := (company.replace found).applied ++ [found] }, ?_, ?_⟩
  · rw [companyAfter_push hb, hafter, ok_bind]
    exact stepAt_eq_ok.mpr (.inr ⟨found, _, hfound, rfl, .inr ⟨company, rfl, happly⟩⟩)
  · rw [replace_with_at, replace_applied, head_push]

/-- Foreign transactions change nothing. -/
theorem foldlM_stepAt_foreign {ls : List LocatedTransaction} (state : Option CompanyStateV1)
    (hforeign : ∀ l ∈ ls, kindOfNamespace l.transaction.namespace_.value = none) :
    ls.foldlM stepAt state = .ok state := by
  induction ls with
  | nil => rfl
  | cons l ls ih =>
    have hstep : stepAt state l = .ok state :=
      stepAt_eq_ok.mpr (.inl ⟨hforeign l List.mem_cons_self, rfl⟩)
    rw [List.foldlM_cons, hstep, ok_bind]
    exact ih fun k hk => hforeign k (List.mem_cons_of_mem _ hk)

/-- A company is untouched by blocks of foreign transactions. -/
theorem companyNow_foreign {s t : LocalChainStore} {state : CompanyStateV1} {blocks : List Block}
    (hstate : companyNow s = .ok state) (hgrown : t.blocks = s.blocks ++ blocks)
    (hforeign : ∀ b ∈ blocks, ∀ t ∈ b.transactions, kindOfNamespace t.namespace_.value = none) :
    companyNow t = .ok { state with at_ := t.head.height } := by
  obtain ⟨company, hafter, rfl⟩ := companyNow_eq_ok.mp hstate
  refine companyNow_eq_ok.mpr ⟨company, ?_, rfl⟩
  rw [hgrown, placed_append, companyAfter_append, hafter, ok_bind]
  refine foldlM_stepAt_foreign _ fun l hl => ?_
  obtain ⟨b, hb, hl⟩ := List.mem_flatMap.mp hl
  obtain ⟨p, hp, rfl⟩ := List.mem_map.mp hl
  exact hforeign b hb p.1 (List.fst_mem_of_mem_zipIdx hp)

theorem companyNow_push_foreign {s : LocalChainStore} {state : CompanyStateV1} {b : Block}
    (hstate : companyNow s = .ok state)
    (hforeign : ∀ t ∈ b.transactions, kindOfNamespace t.namespace_.value = none) :
    companyNow (s.push b) = .ok { state with at_ := s.head.height + 1 } := by
  have hnow := companyNow_foreign hstate (blocks_push s b) (by simpa using hforeign)
  rw [head_push] at hnow
  exact hnow

/-- A company of now can be amended by somebody. -/
theorem open_of_companyNow {s : LocalChainStore} {state : CompanyStateV1}
    (h : companyNow s = .ok state) :
    lockoutAfter state.identities.value state.authorisation.value = none := by
  obtain ⟨company, hafter, rfl⟩ := companyNow_eq_ok.mp h
  rcases companyAfter_eq_ok hafter with ⟨hnone, -⟩ | ⟨company', hsome, htrail⟩
  · cases hnone
  · obtain rfl := Option.some.inj hsome
    exact htrail.open_

omit [Platform] in
/-- Parts that cannot lock a company out are not looked at. -/
theorem open_of_lockoutOf {state : CompanyStateV1} {found : RecordRefV1}
    (hopen : lockoutAfter state.identities.value state.authorisation.value = none)
    (h : lockoutOf state found.record.body = none) :
    lockoutAfter (state.replace found).identities.value
      (state.replace found).authorisation.value = none := by
  unfold CompanyStateV1.replace
  cases hbody : found.record.body with
  | identities identities =>
    rw [hbody] at h
    exact h
  | authorisation authorisation =>
    rw [hbody] at h
    exact h
  | _ => exact hopen

/-- An amendment is composed for a company signer around the record it supersedes, if a record is
composed of it that locks nobody out. -/
theorem composeAmendment_eq_ok_iff [WritingScanner] {state : CompanyStateV1} {key : SigningKey}
    {kind : RecordKindV1} {bodyXml payload : Text} {supersedes : Option TxId} {n : NotarisationV1} :
    composeAmendment state key kind bodyXml supersedes n = .ok payload ↔
      (∃ person, authorisedSigner state .company (Platform.publicKey key) = .ok person) ∧
        supersedes = some (state.providerOf kind) ∧
        composeRecord kind state.company supersedes n bodyXml = .ok payload ∧
        ∃ body, readBodyDocument kind (normaliseBody bodyXml) = .ok body ∧
          lockoutOf state body = none := by
  simp only [composeAmendment, bind_eq_ok, mapErr_eq_ok, ensure_eq_ok]
  constructor
  · rintro ⟨person, hperson, _, hsupersedes, text, hcompose, record, hrecord, h⟩
    obtain ⟨-, body, hbody, hread, -⟩ := readRecord_of_compose hcompose
    rw [hread, Except.ok.injEq] at hrecord
    subst hrecord
    cases hlock : lockoutOf state body with
    | some detail =>
      rw [hlock] at h
      cases h
    | none =>
      rw [hlock] at h
      obtain rfl := Except.ok.inj h
      exact ⟨⟨person, hperson⟩, hsupersedes, hcompose, body, hbody, hlock⟩
  · rintro ⟨⟨person, hperson⟩, hsupersedes, hcompose, body, hbody, hlock⟩
    obtain ⟨-, body', hbody', hread, -⟩ := readRecord_of_compose hcompose
    obtain rfl := Except.ok.inj (hbody.symm.trans hbody')
    refine ⟨person, hperson, (), hsupersedes, payload, hcompose, _, hread, ?_⟩
    rw [hlock]
    rfl

/-- What a composed amendment says, and what it was judged by. -/
theorem composeAmendment_eq_ok [WritingScanner] {state : CompanyStateV1} {key : SigningKey}
    {kind : RecordKindV1} {bodyXml payload : Text} {supersedes : Option TxId} {n : NotarisationV1}
    (h : composeAmendment state key kind bodyXml supersedes n = .ok payload) :
    ∃ body, readBodyDocument kind (normaliseBody bodyXml) = .ok body ∧ body.kind = kind ∧
      readRecord payload = .ok ⟨state.company, supersedes, n, body⟩ ∧
      (∃ person, authorisedSigner state .company (Platform.publicKey key) = .ok person) ∧
      supersedes = some (state.providerOf kind) ∧ lockoutOf state body = none := by
  obtain ⟨hperson, hsupersedes, hcompose, body, hbody, hlock⟩ := composeAmendment_eq_ok_iff.mp h
  obtain ⟨-, body', hbody', hread, hkind⟩ := readRecord_of_compose hcompose
  obtain rfl := Except.ok.inj (hbody.symm.trans hbody')
  exact ⟨body, hbody, hkind, hread, hperson, hsupersedes, hlock⟩

omit [Platform] in
theorem kindOfNamespace_namespaceOf (kind : RecordKindV1) :
    kindOfNamespace kind.namespaceOf = some kind.namespaceOf := by
  cases kind <;> decide +kernel

/-- The record in the one transaction of a block after the head. -/
theorem recordIn_next {height : ℕ} {key : SigningKey} {nonce : ℕ} {text : Text}
    {record : IrenaRecordV1} {kind : RecordKindV1} (hread : readRecord text = .ok record)
    (hkind : record.kind = kind) :
    recordIn ⟨height, 0, key.signTransaction ⟨⟨kind.namespaceOf⟩, schemaVersion, utf8 text,
        Platform.publicKey key, nonce⟩⟩ =
      some ⟨height, 0, (key.signTransaction ⟨⟨kind.namespaceOf⟩, schemaVersion, utf8 text,
        Platform.publicKey key, nonce⟩).id, Platform.publicKey key, record⟩ := by
  refine recordIn_eq_some.mpr ⟨kind.namespaceOf, kindOfNamespace_namespaceOf kind, ?_⟩
  refine recordAt_eq_ok.mpr ⟨text, record, fromUtf8_utf8 text, hread, ?_, Nat.zero_le _, rfl⟩
  rw [hkind]

/-- The record that publishing a payload at the head leaves on the chain. -/
def publishedRecord (s : LocalChainStore) (key : SigningKey) (kind : RecordKindV1) (payload : Text)
    (record : IrenaRecordV1) : RecordRefV1 :=
  ⟨s.head.height + 1, 0, (nextTransaction s key kind.namespaceOf (utf8 payload)).id,
    Platform.publicKey key, record⟩

/-- Publishing alone either refuses and leaves the chain, or commits the composed amendment and
returns it. -/
theorem publish_cases [WritingScanner] {key : SigningKey} {kind : RecordKindV1} {bodyXml : Text}
    {supersedes : Option TxId} {n : NotarisationV1} {time : ℕ} {s t : LocalChainStore}
    {r : Except LedgerError RecordRefV1} (hs : s.WellFormed)
    (h : (publish key kind bodyXml supersedes n time).run s = (r, t)) :
    (∃ e, r = .error e ∧ SameChain s t) ∨
    ∃ state payload record, kind ≠ .companyGenesis ∧ companyNow s = .ok state ∧
      composeAmendment state key kind bodyXml supersedes n = .ok payload ∧
      readRecord payload = .ok record ∧ r = .ok (publishedRecord s key kind payload record) ∧
      SameChain (s.push (nextBlock s (nextTransaction s key kind.namespaceOf (utf8 payload)) time)) t ∧
      ChildOf s.networkId s.headBlock.header s.containsTransaction
        (nextBlock s (nextTransaction s key kind.namespaceOf (utf8 payload)) time) := by
  have hsame : SameChain s s := ⟨rfl, rfl, rfl⟩
  simp only [publish, Program.run_bind, Program.run_lift, run_readCompanyNow] at h
  by_cases hkind : kind = .companyGenesis
  · rw [ensure_of_not (not_not.mpr hkind)] at h
    obtain ⟨rfl, rfl⟩ := Prod.mk.inj h
    exact .inl ⟨_, rfl, hsame⟩
  rw [ensure_of hkind] at h
  cases hstate : companyNow s with
  | error e =>
    simp only [hstate] at h
    obtain ⟨rfl, rfl⟩ := Prod.mk.inj h
    exact .inl ⟨_, rfl, hsame⟩
  | ok state =>
    simp only [hstate] at h
    cases hpayload : composeAmendment state key kind bodyXml supersedes n with
    | error e =>
      simp only [hpayload] at h
      obtain ⟨rfl, rfl⟩ := Prod.mk.inj h
      exact .inl ⟨_, rfl, hsame⟩
    | ok payload =>
      simp only [hpayload] at h
      rcases happend : (appendTransaction ledgerFaults key kind.namespaceOf (utf8 payload) time).run s
        with ⟨a, u⟩
      rw [happend] at h
      rcases appendTransaction_cases hs happend with ⟨e, rfl, hchain⟩ | ⟨rfl, hchain, hchild⟩
      · obtain ⟨rfl, rfl⟩ := Prod.mk.inj h
        exact .inl ⟨e, rfl, hchain⟩
      · -- The committed transaction is found again and reads as it was composed.
        obtain ⟨body, -, -, hread, -⟩ := composeAmendment_eq_ok hpayload
        have hfind := getTransaction_next hs hchild hchain
        have hpayload' : (nextTransaction s key kind.namespaceOf (utf8 payload)).payload =
            utf8 payload := rfl
        simp only [readTransaction, Program.run_read, hfind, orError_some, hpayload', fromUtf8_utf8,
          hread, mapErr_ok, Program.run_pure] at h
        obtain ⟨rfl, rfl⟩ := Prod.mk.inj h
        exact .inr ⟨state, payload, _, hkind, rfl, hpayload, hread, rfl, hchain, hchild⟩

/-- Publishing alone commits the composed amendment where the chain takes the block. -/
theorem publish_of_child [WritingScanner] {key : SigningKey} {kind : RecordKindV1} {bodyXml : Text}
    {supersedes : Option TxId} {n : NotarisationV1} {time : ℕ} {s : LocalChainStore}
    {state : CompanyStateV1} {payload : Text} (hs : s.WellFormed) (hkind : kind ≠ .companyGenesis)
    (hstate : companyNow s = .ok state)
    (hpayload : composeAmendment state key kind bodyXml supersedes n = .ok payload)
    (hchild : ChildOf s.networkId s.headBlock.header s.containsTransaction
      (nextBlock s (nextTransaction s key kind.namespaceOf (utf8 payload)) time))
    (hcommits : s.Commits) :
    ∃ record, readRecord payload = .ok record ∧
      (publish key kind bodyXml supersedes n time).run s =
        (.ok (publishedRecord s key kind payload record),
          { s.push (nextBlock s (nextTransaction s key kind.namespaceOf (utf8 payload)) time) with
            faults := s.faults.tail }) := by
  obtain ⟨body, -, -, hread, -⟩ := composeAmendment_eq_ok hpayload
  have happend := @appendTransaction_of_child _ _ ledgerFaults _ _ _ _ _ hs
    (namespace_new_namespaceOf kind) hchild hcommits
  have hfind := getTransaction_next (u := { s.push (nextBlock s (nextTransaction s key
    kind.namespaceOf (utf8 payload)) time) with faults := s.faults.tail }) hs hchild ⟨rfl, rfl, rfl⟩
  have hpayload' : (nextTransaction s key kind.namespaceOf (utf8 payload)).payload =
      utf8 payload := rfl
  refine ⟨_, hread, ?_⟩
  simp only [publish, Program.run_bind, Program.run_lift, run_readCompanyNow, ensure_of hkind, hstate,
    hpayload, happend, readTransaction, Program.run_read, hfind, orError_some, hpayload',
    fromUtf8_utf8, hread, mapErr_ok, Program.run_pure]
  rfl

/-- The company that a published amendment amends. -/
theorem companyNow_published [WritingScanner] {key : SigningKey} {kind : RecordKindV1}
    {bodyXml : Text} {supersedes : Option TxId} {n : NotarisationV1} {time : ℕ}
    {s t : LocalChainStore} {state : CompanyStateV1} {payload : Text} {record : IrenaRecordV1}
    (hs : s.WellFormed) (hkind : kind ≠ .companyGenesis) (hstate : companyNow s = .ok state)
    (hpayload : composeAmendment state key kind bodyXml supersedes n = .ok payload)
    (hread : readRecord payload = .ok record)
    (hchain : SameChain
      (s.push (nextBlock s (nextTransaction s key kind.namespaceOf (utf8 payload)) time)) t) :
    companyNow t = .ok { state.replace (publishedRecord s key kind payload record) with
      at_ := s.head.height + 1
      applied := state.applied ++ [publishedRecord s key kind payload record] } := by
  obtain ⟨body, -, hbodyKind, hread', hsigner, hsupersedes, hlock⟩ := composeAmendment_eq_ok hpayload
  rw [hread, Except.ok.injEq] at hread'
  subst hread'
  have hnumber : (nextBlock s (nextTransaction s key kind.namespaceOf (utf8 payload)) time).header.height
      = s.head.height + 1 := by
    change s.headBlock.header.height + 1 = s.head.height + 1
    rw [hs.head_height]
  rw [companyNow_of_sameChain hchain]
  refine companyNow_push_amended hstate rfl ?_ ?_
  · rw [hnumber]
    exact recordIn_next hread hbodyKind
  · refine ⟨rfl, ?_, hsigner, ?_, open_of_lockoutOf (open_of_companyNow hstate) hlock⟩
    · change body.kind ≠ _
      rw [hbodyKind]
      exact hkind
    · change supersedes = some (state.providerOf body.kind)
      rw [hbodyKind]
      exact hsupersedes

/-- Publishing alone agrees with reconstruction: what it returns is the amendment that the company
at the new head has been amended by, and a refusal leaves the chain as it was. -/
theorem publish_reconstructs [WritingScanner] {key : SigningKey} {kind : RecordKindV1}
    {bodyXml : Text} {supersedes : Option TxId} {n : NotarisationV1} {time : ℕ}
    {s t : LocalChainStore} {r : Except LedgerError RecordRefV1} {state : CompanyStateV1}
    (hs : s.WellFormed) (hstate : companyNow s = .ok state)
    (h : (publish key kind bodyXml supersedes n time).run s = (r, t)) :
    match r with
    | .error _ => SameChain s t
    | .ok found =>
      kind ≠ .companyGenesis ∧ t.WellFormed ∧ s.Extends t ∧
        t.head.height = s.head.height + 1 ∧ found.height = t.head.height ∧
        (∃ transaction, t.getTransaction found.txId = some ⟨found.height, found.index, transaction⟩) ∧
        (∃ body, readBodyDocument kind (normaliseBody bodyXml) = .ok body ∧ body.kind = kind ∧
          found.record = ⟨state.company, supersedes, n, body⟩) ∧
        companyNow t = .ok { state.replace found with
          at_ := t.head.height
          applied := state.applied ++ [found] } := by
  rcases publish_cases hs h with ⟨e, rfl, hchain⟩ |
    ⟨state', payload, record, hkind, hstate', hpayload, hread, rfl, hchain, hchild⟩
  · exact hchain
  rw [hstate, Except.ok.injEq] at hstate'
  subst hstate'
  obtain ⟨body, hbody, hbodyKind, hread', -⟩ := composeAmendment_eq_ok hpayload
  have hnow := companyNow_published hs hkind hstate hpayload hread hchain
  rw [hread, Except.ok.injEq] at hread'
  subst hread'
  have hheight : t.head.height = s.head.height + 1 := by
    rw [head, hchain.2.2]
    exact congrArg ChainHead.height (head_push _ _)
  have hfind := getTransaction_next hs hchild hchain
  refine ⟨hkind, .push hs hchild hchain, (extends_push s _).trans (extends_of_sameChain hchain),
    hheight, hheight.symm, ⟨_, hfind⟩, ⟨body, hbody, hbodyKind, rfl⟩, ?_⟩
  rw [hheight]
  exact hnow

end Rules

section Samples

open Irena.Sample

attribute [local instance] platform signaturesVerify writingScanner

/-- The register amended on the chain that founds the company. -/
def widening : LedgerProgram RecordRefV1 :=
  publish ann .shareStructure widenedXml (some genesisTransaction.id) notarisation 0

def wideningPayload : Text :=
  recordText .shareStructure Sample.company (some genesisTransaction.id) notarisation widenedXml

theorem widening_composes :
    composeAmendment acme ann .shareStructure widenedXml (some genesisTransaction.id) notarisation =
      .ok wideningPayload ∧
    founded.containsTransaction
      (nextTransaction founded ann RecordKindV1.shareStructure.namespaceOf
        (utf8 wideningPayload)).id = false := by
  decide +kernel

theorem widening_runs : ∃ found t, widening.run founded = (.ok found, t) := by
  have htime : founded.headBlock.header.timestampMillis ≤ 0 := Nat.le_refl 0
  have hchild := (childOf_nextBlock founded_wellFormed).mpr
    ⟨by decide, htime, sound_signTransaction _ _, widening_composes.2⟩
  obtain ⟨record, -, hrun⟩ := publish_of_child founded_wellFormed (by decide) companyNow_founded
    widening_composes.1 hchild (by decide)
  exact ⟨_, _, hrun⟩

/-- The company at the new head after the register is amended. -/
theorem publish_reconstructs_widening : ∃ found t, widening.run founded = (.ok found, t) ∧
    t.head.height = founded.head.height + 1 ∧
    (∃ body, readBodyDocument .shareStructure (normaliseBody widenedXml) = .ok body ∧
      body.kind = .shareStructure ∧
      found.record = ⟨acme.company, some genesisTransaction.id, notarisation, body⟩) ∧
    companyNow t = .ok { acme.replace found with
      at_ := t.head.height
      applied := acme.applied ++ [found] } := by
  obtain ⟨found, t, hrun⟩ := widening_runs
  obtain ⟨-, -, -, hheight, -, -, hbody, hnow⟩ :=
    publish_reconstructs founded_wellFormed companyNow_founded hrun
  exact ⟨found, t, hrun, hheight, hbody, hnow⟩

/-- The trail of the amended register. -/
theorem reconstruct_trail_widening : ∃ found t state, widening.run founded = (.ok found, t) ∧
    companyNow t = .ok state ∧
    (state.historyOf .shareStructure).getLast?.map RecordRefV1.txId = some found.txId ∧
    ∃ before person l, After acme.applied before ∧ CompanySigner before person found.signer ∧
      l.transaction ∈ t.transactions ∧ HeldBy l found ∧ l.transaction.Sound := by
  obtain ⟨found, t, hrun, -, ⟨body, -, hkind, hfound⟩, hnow⟩ := publish_reconstructs_widening
  obtain ⟨-, ht, -⟩ := publish_reconstructs founded_wellFormed companyNow_founded hrun
  obtain ⟨htrail, hsplit⟩ := reconstruct_trail hnow
  have hprovider : (acme.replace found).providerOf .shareStructure = found.txId := by
    have hshares : found.record.kind = .shareStructure := by
      rw [hfound]
      exact hkind
    rw [← hshares]
    exact providerOf_replace_self (by rw [hshares]; decide)
  obtain ⟨hsigned, -⟩ := hsplit acme.applied found [] rfl
  obtain ⟨before, person, l, hbefore, hsigner, hmem, hheld, hsound⟩ := hsigned (List.cons_ne_nil _ _)
  exact ⟨found, t, _, hrun, hnow, (htrail .shareStructure).1.trans (congrArg some hprovider), before,
    person, l, hbefore, hsigner, hmem, hheld, hsound ht⟩

end Samples

end Irena.Ledger
