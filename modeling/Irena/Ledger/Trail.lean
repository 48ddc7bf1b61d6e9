import Irena.Ledger.Immutability
import Mathlib.Data.List.Chain

/-! # The trail of a company

A reconstructed company is the result of founding it with its first record and applying every later
one. What each application checks holds along the whole trail: the records that provided a part
supersede one another without a gap, each was signed by a company signer of the company before it,
and no company on the way is locked out. -/

namespace Irena.Ledger

open Irena.Library Irena.Library.Outcome Irena.Library.Strings Irena.Library.Utf8
open Irena.Core Irena.Bornite Irena.Prunella Irena.Prunella.LocalChainStore

/-- The company that a sequence of records founds and amends. -/
inductive After : List RecordRefV1 → CompanyStateV1 → Prop
  | founded {found : RecordRefV1} {state : CompanyStateV1} (h : foundCompany found = .ok state) :
    After [found] state
  | amended {records : List RecordRefV1} {state next : CompanyStateV1} {found : RecordRefV1}
    (h : After records state) (happly : apply state found = .ok next) :
    After (records ++ [found]) next

theorem foundCompany_eq_ok {found : RecordRefV1} {state : CompanyStateV1} :
    foundCompany found = .ok state ↔ ∃ genesis, found.record.body = .companyGenesis genesis ∧
      found.record.supersedes = none ∧
      lockoutAfter genesis.identities genesis.authorisation = none ∧
      state = {
        company := found.record.company
        at_ := found.height
        genesisTxId := found.txId
        genesisHeight := found.height
        identity := .fromRecord found genesis.identity
        shares := .fromRecord found genesis.shares
        channels := .fromRecord found genesis.channels
        identities := .fromRecord found genesis.identities
        authorisation := .fromRecord found genesis.authorisation
        applied := [found] } := by
  unfold foundCompany
  split
  · rename_i genesis hbody
    simp only [bind_eq_ok, ensure_eq_ok, hbody, RecordBodyV1.companyGenesis.injEq, exists_eq_left']
    cases hlock : lockoutAfter genesis.identities genesis.authorisation with
    | none => simp [eq_comm]
    | some detail => simp
  · rename_i hbody
    simp only [reduceCtorEq, false_iff, not_exists, not_and]
    exact fun genesis h => absurd h (hbody genesis)

section Replacing

variable {state : CompanyStateV1} {found : RecordRefV1}

@[simp] theorem replace_company : (state.replace found).company = state.company := by
  unfold CompanyStateV1.replace
  split <;> rfl

@[simp] theorem replace_at : (state.replace found).at_ = state.at_ := by
  unfold CompanyStateV1.replace
  split <;> rfl

@[simp] theorem replace_applied : (state.replace found).applied = state.applied := by
  unfold CompanyStateV1.replace
  split <;> rfl

@[simp] theorem replace_genesisTxId : (state.replace found).genesisTxId = state.genesisTxId := by
  unfold CompanyStateV1.replace
  split <;> rfl

/-- An amendment provides the part it carries. -/
theorem providerOf_replace_self (h : found.record.kind ≠ .companyGenesis) :
    (state.replace found).providerOf found.record.kind = found.txId := by
  unfold IrenaRecordV1.kind at h ⊢
  unfold CompanyStateV1.replace
  cases hbody : found.record.body with
  | companyGenesis genesis =>
    rw [hbody] at h
    exact absurd rfl h
  | _ => rfl

/-- An amendment leaves the providers of all other parts. -/
theorem providerOf_replace_ne {kind : RecordKindV1} (h : kind ≠ found.record.kind) :
    (state.replace found).providerOf kind = state.providerOf kind := by
  unfold IrenaRecordV1.kind at h
  unfold CompanyStateV1.replace
  cases hbody : found.record.body <;> rw [hbody] at h <;> cases kind <;>
    first | rfl | exact absurd rfl h

end Replacing

namespace After

theorem applied {records : List RecordRefV1} {state : CompanyStateV1} (h : After records state) :
    state.applied = records := by
  induction h with
  | founded h =>
    obtain ⟨genesis, -, -, -, rfl⟩ := foundCompany_eq_ok.mp h
    rfl
  | amended h happly ih =>
    obtain ⟨-, rfl⟩ := apply_eq_ok.mp happly
    rw [replace_applied, ih]

theorem ne_nil {records : List RecordRefV1} {state : CompanyStateV1} (h : After records state) :
    records ≠ [] := by
  cases h <;> simp

/-- No company on a trail is locked out. -/
theorem open_ {records : List RecordRefV1} {state : CompanyStateV1} (h : After records state) :
    lockoutAfter state.identities.value state.authorisation.value = none := by
  cases h with
  | founded h =>
    obtain ⟨genesis, -, -, hopen, rfl⟩ := foundCompany_eq_ok.mp h
    exact hopen
  | amended h happly =>
    obtain ⟨hamends, rfl⟩ := apply_eq_ok.mp happly
    exact hamends.open_

/-- Records make one company at most. -/
theorem unique {records : List RecordRefV1} {a b : CompanyStateV1} (h : After records a)
    (k : After records b) : a = b := by
  induction h generalizing b with
  | @founded found a h =>
    generalize hrecords : [found] = records at k
    cases k with
    | founded k =>
      obtain rfl := (List.cons.inj hrecords).1
      exact Except.ok.inj (h.symm.trans k)
    | amended k kapply => exact absurd (List.append_eq_singleton_iff.mp hrecords.symm) (by simp [k.ne_nil])
  | @amended records state next found h happly ih =>
    generalize hrecords : records ++ [found] = all at k
    cases k with
    | founded k => exact absurd (List.append_eq_singleton_iff.mp hrecords) (by simp [h.ne_nil])
    | amended k kapply =>
      obtain ⟨rfl, hfound⟩ := List.append_inj' hrecords rfl
      obtain rfl := (List.cons.inj hfound).1
      obtain rfl := ih k
      exact Except.ok.inj (happly.symm.trans kapply)

/-- Along a trail every record found or amended the company that the records before it made. -/
theorem split {records pre post : List RecordRefV1} {state : CompanyStateV1} {found : RecordRefV1}
    (h : After records state) (hsplit : records = pre ++ found :: post) :
    ∃ after, After (pre ++ [found]) after ∧ ((pre = [] ∧ foundCompany found = .ok after) ∨
      ∃ before, After pre before ∧ apply before found = .ok after) := by
  induction h generalizing post with
  | @founded first state h =>
    cases pre with
    | nil =>
      obtain ⟨rfl, -⟩ := List.cons.inj hsplit
      exact ⟨state, .founded h, .inl ⟨rfl, h⟩⟩
    | cons _ pre =>
      have hlen := congrArg List.length hsplit
      simp at hlen
  | @amended records state next last h happly ih =>
    rcases List.eq_nil_or_concat post with rfl | ⟨post', last', rfl⟩
    · obtain ⟨rfl, hlast⟩ := List.append_inj' hsplit rfl
      obtain ⟨rfl, -⟩ := List.cons.inj hlast
      exact ⟨next, .amended h happly, .inr ⟨state, h, happly⟩⟩
    · have hsplit' : records ++ [last] = (pre ++ found :: post') ++ [last'] := by
        simpa using hsplit
      obtain ⟨hrecords, -⟩ := List.append_inj' hsplit' rfl
      exact ih hrecords

theorem historyOf_founded {found : RecordRefV1} (h : found.record.kind = .companyGenesis)
    {state : CompanyStateV1} (happlied : state.applied = [found]) (kind : RecordKindV1) :
    state.historyOf kind = [found] := by
  simp [CompanyStateV1.historyOf, happlied, h]

/-- An amendment joins the history of the part it carries, and no other. -/
theorem historyOf_amended {state next : CompanyStateV1} {found : RecordRefV1}
    (h : apply state found = .ok next) (kind : RecordKindV1) :
    next.historyOf kind =
      state.historyOf kind ++ if found.record.kind = kind then [found] else [] := by
  obtain ⟨hamends, rfl⟩ := apply_eq_ok.mp h
  simp only [CompanyStateV1.historyOf, replace_applied, List.filter_append]
  by_cases hkind : found.record.kind = kind
  · simp [hkind]
  · simp [hkind, hamends.amendment]

theorem providerOf_amended {state next : CompanyStateV1} {found : RecordRefV1}
    (h : apply state found = .ok next) (kind : RecordKindV1) :
    next.providerOf kind = if found.record.kind = kind then found.txId else state.providerOf kind := by
  obtain ⟨hamends, rfl⟩ := apply_eq_ok.mp h
  have happlied : ∀ (c : CompanyStateV1) records,
      CompanyStateV1.providerOf { c with applied := records } kind = c.providerOf kind := by
    intro c records
    cases kind <;> rfl
  rw [happlied]
  split
  · rename_i hkind
    subst hkind
    exact providerOf_replace_self hamends.amendment
  · rename_i hkind
    exact providerOf_replace_ne (Ne.symm hkind)

/-- The provider of a part is the last of its history. -/
theorem provider {records : List RecordRefV1} {state : CompanyStateV1} (h : After records state)
    (kind : RecordKindV1) :
    (state.historyOf kind).getLast?.map RecordRefV1.txId = some (state.providerOf kind) := by
  induction h with
  | founded h =>
    obtain ⟨genesis, hbody, -, -, rfl⟩ := foundCompany_eq_ok.mp h
    rw [historyOf_founded (by rw [IrenaRecordV1.kind, hbody]; rfl) rfl]
    cases kind <;> rfl
  | @amended records state next found h happly ih =>
    rw [historyOf_amended happly, providerOf_amended happly]
    by_cases hkind : found.record.kind = kind
    · simp [hkind]
    · simp [hkind, ih]

/-- In the history of a part every later record supersedes the one before it. -/
theorem chain {records : List RecordRefV1} {state : CompanyStateV1} (h : After records state)
    (kind : RecordKindV1) :
    (state.historyOf kind).IsChain fun a b => b.record.supersedes = some a.txId := by
  induction h with
  | founded h =>
    obtain ⟨genesis, hbody, -, -, rfl⟩ := foundCompany_eq_ok.mp h
    rw [historyOf_founded (by rw [IrenaRecordV1.kind, hbody]; rfl) rfl]
    exact List.isChain_singleton _
  | @amended records state next found h happly ih =>
    obtain ⟨hamends, -⟩ := apply_eq_ok.mp happly
    rw [historyOf_amended happly]
    by_cases hkind : found.record.kind = kind
    · subst hkind
      rw [if_pos rfl, List.isChain_append]
      refine ⟨ih, List.isChain_singleton _, fun last hlast next hnext => ?_⟩
      obtain rfl := Option.some.inj hnext
      have hprovider := h.provider found.record.kind
      rw [Option.mem_def.mp hlast] at hprovider
      rw [hamends.supersedes, ← Option.some.inj hprovider]
    · rw [if_neg hkind, List.append_nil]
      exact ih

end After

/-- The transactions of blocks, each at its place. -/
def placed (blocks : List Block) : List LocatedTransaction :=
  blocks.flatMap fun b => b.transactions.zipIdx.map fun p => ⟨b.header.height, p.2, p.1⟩

theorem placed_append (bs cs : List Block) : placed (bs ++ cs) = placed bs ++ placed cs :=
  List.flatMap_append

theorem map_transaction_placed (blocks : List Block) :
    (placed blocks).map LocatedTransaction.transaction = blocks.flatMap Block.transactions := by
  simp only [placed, List.map_flatMap, List.map_map]
  congr 1
  funext b
  exact List.zipIdx_map_fst 0 b.transactions

section Rules

variable [Platform]

/-- One transaction at its place: the company before it and after it. -/
def stepAt (state : Option CompanyStateV1) (l : LocatedTransaction) :
    Except LedgerError (Option CompanyStateV1) :=
  step l.height state (l.transaction, l.index)

/-- The company as it stands after transactions at their places. -/
def companyAfter (ls : List LocatedTransaction) : Except LedgerError (Option CompanyStateV1) :=
  ls.foldlM stepAt none

/-- The record a transaction of a company namespace holds, at its place. -/
def recordIn (l : LocatedTransaction) : Option RecordRefV1 := do
  let namespace_ ← kindOfNamespace l.transaction.namespace_.value
  (recordAt l.height l.index l.transaction namespace_).toOption

/-- Going through blocks is going through their transactions. -/
theorem foldlM_applyBlock (blocks : List Block) (state : Option CompanyStateV1) :
    blocks.foldlM applyBlock state = (placed blocks).foldlM stepAt state := by
  induction blocks generalizing state with
  | nil => rfl
  | cons b blocks ih =>
    have hplaced : placed (b :: blocks) =
        b.transactions.zipIdx.map (fun p => ⟨b.header.height, p.2, p.1⟩) ++ placed blocks := rfl
    rw [hplaced, List.foldlM_append, List.foldlM_cons, List.foldlM_map]
    exact congrArg _ (funext ih)

theorem companyUpTo_eq (s : LocalChainStore) (last : ℕ) :
    companyUpTo s last = companyAfter (placed (s.iterBlocks last)) :=
  foldlM_applyBlock _ _

theorem recordAt_eq_ok {height index : ℕ} {t : Transaction} {namespace_ : Text}
    {found : RecordRefV1} :
    recordAt height index t namespace_ = .ok found ↔ ∃ text record,
      fromUtf8 t.payload = some text ∧ readRecord text = .ok record ∧
        record.kind.namespaceOf = namespace_ ∧ index ≤ u32Max ∧
        found = ⟨height, index, t.id, t.signer, record⟩ := by
  simp only [recordAt, bind_eq_ok, orError_eq_ok, mapErr_eq_ok, ensure_eq_ok, pure_eq_ok,
    Except.ok.injEq]
  constructor
  · rintro ⟨text, htext, record, hrecord, _, hns, _, hindex, rfl⟩
    exact ⟨text, record, htext, hrecord, hns, hindex, rfl⟩
  · rintro ⟨text, record, htext, hrecord, hns, hindex, rfl⟩
    exact ⟨text, htext, record, hrecord, (), hns, (), hindex, rfl⟩

/-- What a record at a place says is what its transaction holds. -/
structure HeldBy (l : LocatedTransaction) (found : RecordRefV1) : Prop where
  height : found.height = l.height
  index : found.index = l.index
  txId : found.txId = l.transaction.id
  signer : found.signer = l.transaction.signer
  namespace_ : l.transaction.namespace_.value = found.record.kind.namespaceOf
  reads : ∃ text, fromUtf8 l.transaction.payload = some text ∧ readRecord text = .ok found.record

theorem recordIn_eq_some {l : LocatedTransaction} {found : RecordRefV1} :
    recordIn l = some found ↔ ∃ namespace_,
      kindOfNamespace l.transaction.namespace_.value = some namespace_ ∧
        recordAt l.height l.index l.transaction namespace_ = .ok found := by
  simp only [recordIn, Option.bind_eq_bind, Option.bind_eq_some_iff]
  refine exists_congr fun namespace_ => and_congr_right fun _ => ?_
  cases recordAt l.height l.index l.transaction namespace_ <;> simp [Except.toOption]

theorem heldBy_of_recordIn {l : LocatedTransaction} {found : RecordRefV1}
    (h : recordIn l = some found) : HeldBy l found := by
  obtain ⟨namespace_, hns, hrecord⟩ := recordIn_eq_some.mp h
  obtain ⟨text, record, htext, hread, hkind, -, rfl⟩ := recordAt_eq_ok.mp hrecord
  have hfound : namespace_ = l.transaction.namespace_.value := by
    simpa using List.find?_some hns
  exact ⟨rfl, rfl, rfl, rfl, (hkind.trans hfound).symm, text, htext, hread⟩

/-- A transaction outside the company namespaces changes nothing; one inside founds the company or
amends it. -/
theorem stepAt_eq_ok {state next : Option CompanyStateV1} {l : LocatedTransaction} :
    stepAt state l = .ok next ↔
      (kindOfNamespace l.transaction.namespace_.value = none ∧ next = state) ∨
      ∃ found company, recordIn l = some found ∧ next = some company ∧
        ((state = none ∧ foundCompany found = .ok company) ∨
          ∃ current, state = some current ∧ apply current found = .ok company) := by
  unfold stepAt step
  cases hns : kindOfNamespace l.transaction.namespace_.value with
  | none => simp [recordIn, hns, eq_comm]
  | some namespace_ =>
    simp only [bind_eq_ok, recordIn_eq_some, hns, Option.some.injEq, exists_eq_left', reduceCtorEq,
      false_and, false_or]
    constructor
    · rintro ⟨found, hfound, h⟩
      cases state with
      | none =>
        obtain ⟨company, hcompany, rfl⟩ := map_eq_ok.mp h
        exact ⟨found, company, hfound, rfl, .inl ⟨rfl, hcompany⟩⟩
      | some current =>
        obtain ⟨company, hcompany, rfl⟩ := map_eq_ok.mp h
        exact ⟨found, company, hfound, rfl, .inr ⟨current, rfl, hcompany⟩⟩
    · rintro ⟨found, company, hfound, rfl, ⟨rfl, hcompany⟩ | ⟨current, rfl, hcompany⟩⟩ <;>
        exact ⟨found, hfound, map_eq_ok.mpr ⟨company, hcompany, rfl⟩⟩

/-- The records that transactions hold, in order, make the company there is after them. -/
theorem companyAfter_eq_ok {ls : List LocatedTransaction} {state : Option CompanyStateV1}
    (h : companyAfter ls = .ok state) :
    (state = none ∧ ls.filterMap recordIn = []) ∨
      ∃ company, state = some company ∧ After (ls.filterMap recordIn) company := by
  induction ls using List.reverseRecOn generalizing state with
  | nil =>
    obtain rfl := Except.ok.inj h
    exact .inl ⟨rfl, rfl⟩
  | append_singleton ls l ih =>
    simp only [companyAfter, List.foldlM_append, List.foldlM_cons, List.foldlM_nil, bind_eq_ok,
      pure_eq_ok, Except.ok.injEq] at h
    obtain ⟨before, hbefore, after, hafter, rfl⟩ := h
    rw [List.filterMap_append]
    rcases stepAt_eq_ok.mp hafter with ⟨hns, rfl⟩ | ⟨found, company, hfound, rfl, hstep⟩
    · have hnone : recordIn l = none := by simp [recordIn, hns]
      rw [List.filterMap_cons_none hnone, List.filterMap_nil, List.append_nil]
      exact ih hbefore
    · rw [List.filterMap_cons_some hfound, List.filterMap_nil]
      refine .inr ⟨company, rfl, ?_⟩
      rcases hstep with ⟨rfl, hcompany⟩ | ⟨current, rfl, hcompany⟩
      · rcases ih hbefore with ⟨-, hnil⟩ | ⟨_, hnone, -⟩
        · rw [hnil]
          exact .founded hcompany
        · cases hnone
      · rcases ih hbefore with ⟨hnone, -⟩ | ⟨current', hcurrent, hafter'⟩
        · cases hnone
        · obtain rfl := Option.some.inj hcurrent
          exact .amended hafter' hcompany

/-- A reconstructed company is the one its applied records make, seen from the height asked for. -/
theorem reconstruct_after {s : LocalChainStore} {at_ : ℕ} {state : CompanyStateV1}
    (h : reconstruct s at_ = .ok state) :
    ∃ company, After state.applied company ∧ state = { company with at_ := at_ } ∧
      state.applied = (placed (s.iterBlocks (min at_ s.head.height))).filterMap recordIn := by
  simp only [reconstruct_eq, companyUpTo_eq, bind_eq_ok, orError_eq_ok, pure_eq_ok,
    Except.ok.injEq] at h
  obtain ⟨_, hcompany, company, rfl, rfl⟩ := h
  rcases companyAfter_eq_ok hcompany with ⟨hnone, -⟩ | ⟨company', hsome, hafter⟩
  · cases hnone
  · obtain rfl := Option.some.inj hsome
    have happlied := hafter.applied
    exact ⟨company, happlied ▸ hafter, rfl, happlied⟩

omit [Platform] in
theorem mem_transactions_of_placed {s : LocalChainStore} {last : ℕ} {l : LocatedTransaction}
    (h : l ∈ placed (s.iterBlocks last)) : l.transaction ∈ s.transactions := by
  obtain ⟨b, hb, hl⟩ := List.mem_flatMap.mp h
  obtain ⟨p, hp, rfl⟩ := List.mem_map.mp hl
  exact List.mem_flatMap.mpr ⟨b, List.mem_of_mem_take hb, List.fst_mem_of_mem_zipIdx hp⟩

/-- Each record of a company's trail is held by a transaction of the chain. -/
theorem heldBy_of_applied {s : LocalChainStore} {at_ : ℕ} {state : CompanyStateV1}
    (h : reconstruct s at_ = .ok state) {found : RecordRefV1} (hfound : found ∈ state.applied) :
    ∃ l ∈ placed (s.iterBlocks (min at_ s.head.height)), HeldBy l found := by
  obtain ⟨_, -, -, happlied⟩ := reconstruct_after h
  rw [happlied] at hfound
  obtain ⟨l, hl, hrecord⟩ := List.mem_filterMap.mp hfound
  exact ⟨l, hl, heldBy_of_recordIn hrecord⟩

/-- A person of a company who may sign its records and holds a key. -/
structure CompanySigner (state : CompanyStateV1) (person : PersonV1) (key : PublicKey) : Prop where
  listed : person ∈ state.identities.value.persons
  holds : person.key = some key
  allowed : ⟨person.id, .company⟩ ∈ state.authorisation.value.signers

omit [Platform] in
theorem companySigner_of_authorised {state : CompanyStateV1} {key : PublicKey} {person : PersonV1}
    (h : authorisedSigner state .company key = .ok person) : CompanySigner state person key := by
  obtain ⟨hholder, hallows⟩ := signerOf_eq_ok.mp h
  obtain ⟨hlisted, hholds⟩ := IdentitiesV1.holderOf_eq_some.mp hholder
  exact ⟨hlisted, hholds, AuthorisationV1.allows_iff.mp hallows⟩

omit [Platform] in
theorem companySigner_of_open {state : CompanyStateV1}
    (h : lockoutAfter state.identities.value state.authorisation.value = none) :
    ∃ person key, CompanySigner state person key := by
  obtain ⟨id, hid, hkey⟩ := lockoutAfter_eq_none.mp h
  obtain ⟨key, hkey⟩ := Option.isSome_iff_exists.mp hkey
  obtain ⟨person, hlisted, rfl, hholds⟩ := IdentitiesV1.keyOf_eq_some.mp hkey
  simp only [AuthorisationV1.personsFor, List.mem_map, List.mem_filter, decide_eq_true_eq] at hid
  obtain ⟨signer, ⟨hsigner, hfamily⟩, hperson⟩ := hid
  exact ⟨person, key, hlisted, hholds, by rw [← hperson, ← hfamily]; exact hsigner⟩

/-- The invariant of every reconstructed company: each part is provided by the last of its history,
along which every record supersedes the one before it; every amendment is held by a transaction
signed with the key of a company signer of the company just before it; and after every record
somebody can amend the company. -/
theorem reconstruct_trail {s : LocalChainStore} {at_ : ℕ} {state : CompanyStateV1}
    (h : reconstruct s at_ = .ok state) :
    (∀ kind, (state.historyOf kind).getLast?.map RecordRefV1.txId = some (state.providerOf kind) ∧
      (state.historyOf kind).IsChain fun a b => b.record.supersedes = some a.txId) ∧
    ∀ pre found post, state.applied = pre ++ found :: post →
      (pre ≠ [] → ∃ before person l, After pre before ∧ CompanySigner before person found.signer ∧
        l.transaction ∈ s.transactions ∧ HeldBy l found ∧
        (s.WellFormed → l.transaction.Sound)) ∧
      ∃ after, After (pre ++ [found]) after ∧ ∃ person key, CompanySigner after person key := by
  obtain ⟨company, hafter, hstate, -⟩ := reconstruct_after h
  have hhistory : ∀ kind, state.historyOf kind = company.historyOf kind := by
    intro kind
    rw [hstate]
    rfl
  have hprovider : ∀ kind, state.providerOf kind = company.providerOf kind := by
    intro kind
    rw [hstate]
    cases kind <;> rfl
  refine ⟨fun kind => ?_, fun pre found post hsplit => ?_⟩
  · rw [hhistory, hprovider]
    exact ⟨hafter.provider kind, hafter.chain kind⟩
  · obtain ⟨after, hthen, hstep⟩ := hafter.split hsplit
    refine ⟨fun hpre => ?_, after, hthen, companySigner_of_open hthen.open_⟩
    rcases hstep with ⟨rfl, -⟩ | ⟨before, hbefore, happly⟩
    · exact absurd rfl hpre
    · obtain ⟨hamends, -⟩ := apply_eq_ok.mp happly
      obtain ⟨person, hperson⟩ := hamends.signer
      have hmem : found ∈ state.applied := by simp [hsplit]
      obtain ⟨l, hl, hheld⟩ := heldBy_of_applied h hmem
      have htransaction := mem_transactions_of_placed hl
      exact ⟨before, person, l, hbefore, companySigner_of_authorised hperson, htransaction, hheld,
        fun hs => hs.sound _ htransaction⟩

end Rules

end Irena.Ledger
