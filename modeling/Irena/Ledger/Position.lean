import Irena.Ledger.Trail

/-! # The company before a transaction

Several transactions can share a block. What the company was just before one of them is what the
transactions before it in chain order made of it, those of its own block included. -/

namespace Irena.Ledger

open Irena.Library Irena.Library.Outcome
open Irena.Core Irena.Prunella Irena.Prunella.LocalChainStore

/-- The transactions before one, in chain order. -/
def before (s : LocalChainStore) (l : LocatedTransaction) : List LocatedTransaction :=
  (placed s.blocks).takeWhile fun k => k ≠ l

/-- The transactions before one in its own block. -/
def earlierInBlock (s : LocalChainStore) (l : LocatedTransaction) : List LocatedTransaction :=
  (placed (s.blocks.drop l.height)).takeWhile fun k => k ≠ l

/-- The transactions after one in its own block. -/
def laterInBlock (s : LocalChainStore) (l : LocatedTransaction) : List LocatedTransaction :=
  ((placed (s.iterBlocks l.height)).dropWhile fun k => k ≠ l).tail

section Splitting

variable {α : Type} [DecidableEq α] {xs ys : List α} {x : α}

theorem eq_takeWhile_append_cons (h : x ∈ xs) :
    xs = (xs.takeWhile fun y => y ≠ x) ++ x :: (xs.dropWhile fun y => y ≠ x).tail := by
  have hdrop : ∃ tail, (xs.dropWhile fun y => y ≠ x) = x :: tail := by
    induction xs with
    | nil => cases h
    | cons y ys ih =>
      by_cases hyx : y = x
      · exact ⟨ys, by simp [hyx]⟩
      · obtain ⟨tail, htail⟩ := ih ((List.mem_cons.mp h).resolve_left (Ne.symm hyx))
        exact ⟨tail, by simpa [hyx] using htail⟩
  obtain ⟨tail, htail⟩ := hdrop
  calc xs = (xs.takeWhile fun y => y ≠ x) ++ xs.dropWhile fun y => y ≠ x :=
        (List.takeWhile_append_dropWhile).symm
    _ = _ := by rw [htail, List.tail_cons]

theorem takeWhile_ne_append (ys : List α) (h : x ∈ xs) :
    ((xs ++ ys).takeWhile fun y => y ≠ x) = xs.takeWhile fun y => y ≠ x := by
  induction xs with
  | nil => cases h
  | cons y xs ih =>
    by_cases hyx : y = x
    · simp [hyx]
    · simp only [List.cons_append, ne_eq, hyx, not_false_eq_true, decide_true,
        List.takeWhile_cons_of_pos, List.cons.injEq, true_and]
      exact ih ((List.mem_cons.mp h).resolve_left (Ne.symm hyx))

theorem mem_takeWhile_or {y : α} (hx : x ∈ xs) (hy : y ∈ xs) (hne : x ≠ y) :
    (x ∈ xs.takeWhile fun z => z ≠ y) ∨ y ∈ xs.takeWhile fun z => z ≠ x := by
  induction xs with
  | nil => cases hx
  | cons z zs ih =>
    by_cases hzx : z = x
    · subst hzx
      exact .inl (by simp [hne])
    · by_cases hzy : z = y
      · subst hzy
        exact .inr (by simp [hzx])
      · have hx' := (List.mem_cons.mp hx).resolve_left (Ne.symm hzx)
        have hy' := (List.mem_cons.mp hy).resolve_left (Ne.symm hzy)
        simpa [hzx, hzy, Ne.symm hzx, Ne.symm hzy] using ih hx' hy'

theorem takeWhile_takeWhile_ne {y : α} (h : x ∈ xs.takeWhile fun z => z ≠ y) :
    ((xs.takeWhile fun z => z ≠ y).takeWhile fun z => z ≠ x) = xs.takeWhile fun z => z ≠ x := by
  have happend := takeWhile_ne_append (xs.dropWhile fun z => z ≠ y) h
  rw [List.takeWhile_append_dropWhile] at happend
  exact happend.symm

end Splitting

variable [Platform]

/-- A transaction stands in a chain's blocks where a lookup by place finds it. -/
theorem mem_placed_iff {s : LocalChainStore} (hs : s.WellFormed) {l : LocatedTransaction} :
    l ∈ placed s.blocks ↔
      ∃ b, s.getBlock l.height = some b ∧ b.transactions[l.index]? = some l.transaction := by
  simp only [placed, List.mem_flatMap, List.mem_map]
  constructor
  · rintro ⟨b, hb, p, hp, rfl⟩
    obtain ⟨height, hget⟩ := List.mem_iff_getElem?.mp hb
    obtain rfl := hs.height (b := b) hget
    exact ⟨b, hget, (List.mk_mem_zipIdx_iff_getElem?).mp hp⟩
  · rintro ⟨b, hb, ht⟩
    refine ⟨b, List.mem_of_getElem? hb, (l.transaction, l.index),
      (List.mk_mem_zipIdx_iff_getElem?).mpr ht, ?_⟩
    rw [hs.height hb]

theorem mem_placed_of_getTransaction {s : LocalChainStore} (hs : s.WellFormed) {id : TxId}
    {l : LocatedTransaction} (h : s.getTransaction id = some l) : l ∈ placed s.blocks :=
  (mem_placed_iff hs).mpr (getTransaction_some h).2

theorem getTransaction_of_placed {s : LocalChainStore} (hs : s.WellFormed) {l : LocatedTransaction}
    (h : l ∈ placed s.blocks) : s.getTransaction l.transaction.id = some l := by
  obtain ⟨b, hb, ht⟩ := (mem_placed_iff hs).mp h
  exact hs.getTransaction hb ht

theorem nodup_placed {s : LocalChainStore} (hs : s.WellFormed) :
    ((placed s.blocks).map fun l => l.transaction.id).Nodup := by
  have hnodup := hs.nodup
  rw [transactions, ← map_transaction_placed, List.map_map] at hnodup
  exact hnodup

/-- The blocks below a height hold the transactions below it. -/
theorem mem_placed_take {s : LocalChainStore} (hs : s.WellFormed) {n : ℕ} {l : LocatedTransaction} :
    l ∈ placed (s.blocks.take n) ↔ l ∈ placed s.blocks ∧ l.height < n := by
  constructor
  · intro h
    have hmem : l ∈ placed s.blocks := by
      rw [← List.take_append_drop n s.blocks, placed_append]
      exact List.mem_append_left _ h
    refine ⟨hmem, ?_⟩
    simp only [placed, List.mem_flatMap, List.mem_map] at h
    obtain ⟨b, hb, p, -, rfl⟩ := h
    obtain ⟨height, hget⟩ := List.mem_iff_getElem?.mp hb
    rw [List.getElem?_take] at hget
    split at hget
    · rename_i hlt
      rw [hs.height hget]
      exact hlt
    · cases hget
  · rintro ⟨h, hlt⟩
    obtain ⟨b, hb, ht⟩ := (mem_placed_iff hs).mp h
    simp only [placed, List.mem_flatMap, List.mem_map]
    refine ⟨b, List.mem_of_getElem? (i := l.height) ?_, (l.transaction, l.index),
      (List.mk_mem_zipIdx_iff_getElem?).mpr ht, ?_⟩
    · rw [List.getElem?_take, if_pos hlt]
      exact hb
    · rw [hs.height hb]

theorem before_eq {s : LocalChainStore} (hs : s.WellFormed) {n : ℕ} {l : LocatedTransaction}
    (hl : l ∈ placed s.blocks) (hn : l.height < n) :
    before s l = (placed (s.blocks.take n)).takeWhile fun k => k ≠ l := by
  have hmem : l ∈ placed (s.blocks.take n) := (mem_placed_take hs).mpr ⟨hl, hn⟩
  rw [before, ← takeWhile_ne_append (placed (s.blocks.drop n)) hmem, ← placed_append,
    List.take_append_drop]

/-- What stands before a transaction is the blocks before its own, and what is before it there. -/
theorem before_split {s : LocalChainStore} (hs : s.WellFormed) (l : LocatedTransaction) :
    before s l = placed (s.blocks.take l.height) ++ earlierInBlock s l := by
  have hne : ∀ k ∈ placed (s.blocks.take l.height), k ≠ l := by
    rintro k hk rfl
    exact absurd ((mem_placed_take hs).mp hk).2 (lt_irrefl _)
  rw [before, ← List.take_append_drop l.height s.blocks, placed_append,
    List.takeWhile_append_of_pos (by simpa using hne), List.take_append_drop]
  rfl

theorem placed_iterBlocks_split {s : LocalChainStore} (hs : s.WellFormed) {l : LocatedTransaction}
    (hl : l ∈ placed s.blocks) :
    placed (s.iterBlocks l.height) = before s l ++ l :: laterInBlock s l := by
  have hmem : l ∈ placed (s.iterBlocks l.height) :=
    (mem_placed_take hs).mpr ⟨hl, Nat.lt_succ_self _⟩
  rw [before_eq hs hl (Nat.lt_succ_self _)]
  exact eq_takeWhile_append_cons hmem

/-- The company as it stands after exactly the transactions before one. -/
def companyBefore (s : LocalChainStore) (l : LocatedTransaction) :
    Except LedgerError (Option CompanyStateV1) :=
  companyAfter (before s l)

/-- The company at a transaction's height is what the transaction and the rest of its block make of
the company before it. -/
theorem companyUpTo_height {s : LocalChainStore} (hs : s.WellFormed) {l : LocatedTransaction}
    (hl : l ∈ placed s.blocks) :
    companyUpTo s l.height =
      companyBefore s l >>= fun state => (l :: laterInBlock s l).foldlM stepAt state := by
  rw [companyUpTo_eq, placed_iterBlocks_split hs hl, companyAfter, List.foldlM_append]
  rfl

/-- The company before a transaction is what the earlier ones of its block make of the company at
the height before. -/
theorem companyBefore_eq {s : LocalChainStore} (hs : s.WellFormed) {l : LocatedTransaction}
    {n : ℕ} (hheight : l.height = n + 1) :
    companyBefore s l =
      companyUpTo s n >>= fun state => (earlierInBlock s l).foldlM stepAt state := by
  rw [companyUpTo_eq, companyBefore, before_split hs, companyAfter, List.foldlM_append, hheight]
  rfl

/-- Both companies have the same part of a kind, from the same record. -/
def SamePart (kind : RecordKindV1) (a b : CompanyStateV1) : Prop :=
  match kind with
  | .companyGenesis => a.genesisTxId = b.genesisTxId
  | .identity => a.identity = b.identity
  | .shareStructure => a.shares = b.shares
  | .decisionChannels => a.channels = b.channels
  | .identities => a.identities = b.identities
  | .authorisation => a.authorisation = b.authorisation

namespace SamePart

omit [Platform]

@[refl] theorem refl (kind : RecordKindV1) (a : CompanyStateV1) : SamePart kind a a := by
  cases kind <;> rfl

theorem trans {kind : RecordKindV1} {a b c : CompanyStateV1} (h : SamePart kind a b)
    (k : SamePart kind b c) : SamePart kind a c := by
  cases kind <;> exact Eq.trans h k

theorem provider {kind : RecordKindV1} {a b : CompanyStateV1} (h : SamePart kind a b) :
    a.providerOf kind = b.providerOf kind := by
  cases kind with
  | companyGenesis => exact h
  | _ => exact congrArg InForceV1.txId h

end SamePart

omit [Platform] in
/-- An amendment leaves the parts of all other kinds. -/
theorem samePart_apply {state next : CompanyStateV1} {found : RecordRefV1}
    (h : apply state found = .ok next) (kind : RecordKindV1) (hkind : kind ≠ found.record.kind) :
    SamePart kind state next := by
  obtain ⟨-, rfl⟩ := apply_eq_ok.mp h
  unfold IrenaRecordV1.kind at hkind
  unfold CompanyStateV1.replace
  cases hbody : found.record.body <;> rw [hbody] at hkind <;> cases kind <;>
    first | rfl | exact absurd rfl hkind

/-- One transaction leaves a part, or provides it. -/
theorem samePart_stepAt {state next : CompanyStateV1} {l : LocatedTransaction}
    (h : stepAt (some state) l = .ok (some next)) (kind : RecordKindV1) :
    SamePart kind state next ∨ next.providerOf kind = l.transaction.id := by
  rcases stepAt_eq_ok.mp h with ⟨-, hsame⟩ | ⟨found, company, hfound, hnext, hstep⟩
  · obtain rfl := Option.some.inj hsame
    exact .inl (.refl kind next)
  · obtain rfl := Option.some.inj hnext
    rcases hstep with ⟨hnone, -⟩ | ⟨current, hcurrent, happly⟩
    · cases hnone
    · obtain rfl := Option.some.inj hcurrent
      by_cases hkind : kind = found.record.kind
      · refine .inr ?_
        rw [After.providerOf_amended happly, if_pos hkind.symm, (heldBy_of_recordIn hfound).txId]
      · exact .inl (samePart_apply happly _ hkind)

/-- Transactions leave a part, or one of them provides it. -/
theorem samePart_foldlM {ls : List LocatedTransaction} {state next : CompanyStateV1}
    (h : ls.foldlM stepAt (some state) = .ok (some next)) (kind : RecordKindV1) :
    SamePart kind state next ∨ next.providerOf kind ∈ ls.map fun l => l.transaction.id := by
  induction ls generalizing state with
  | nil =>
    obtain rfl := Option.some.inj (Except.ok.inj h)
    exact .inl (.refl kind state)
  | cons l ls ih =>
    rw [List.foldlM_cons, bind_eq_ok] at h
    obtain ⟨middle, hmiddle, h⟩ := h
    obtain ⟨middle, rfl⟩ : ∃ company, middle = some company := by
      rcases stepAt_eq_ok.mp hmiddle with ⟨-, rfl⟩ | ⟨_, company, -, rfl, -⟩
      · exact ⟨state, rfl⟩
      · exact ⟨company, rfl⟩
    rcases ih h with hsame | hmem
    · rcases samePart_stepAt hmiddle kind with hstep | hprovider
      · exact .inl (hstep.trans hsame)
      · exact .inr (List.mem_cons.mpr (.inl (hsame.provider.symm.trans hprovider)))
    · exact .inr (List.mem_cons.mpr (.inr hmem))

/-- Every part of a company is provided by a transaction before it. -/
theorem provider_mem {ls : List LocatedTransaction} {state : CompanyStateV1}
    (h : companyAfter ls = .ok (some state)) (kind : RecordKindV1) :
    state.providerOf kind ∈ ls.map fun l => l.transaction.id := by
  rcases companyAfter_eq_ok h with ⟨hnone, -⟩ | ⟨company, hsome, hafter⟩
  · cases hnone
  · obtain rfl := Option.some.inj hsome
    have hprovider := hafter.provider kind
    rw [Option.map_eq_some_iff] at hprovider
    obtain ⟨found, hlast, hid⟩ := hprovider
    have hmem : found ∈ state.applied :=
      (List.mem_filter.mp (List.mem_of_getLast? hlast)).1
    rw [hafter.applied] at hmem
    obtain ⟨l, hl, hrecord⟩ := List.mem_filterMap.mp hmem
    refine List.mem_map.mpr ⟨l, hl, ?_⟩
    rw [← hid, (heldBy_of_recordIn hrecord).txId]

/-- A record that has been applied was applied to the company before its transaction. -/
structure AppliedAt (s : LocalChainStore) (l : LocatedTransaction) (found : RecordRefV1)
    (state next : CompanyStateV1) : Prop where
  before : companyBefore s l = .ok (some state)
  holds : recordIn l = some found
  applies : apply state found = .ok next

theorem AppliedAt.amends {s : LocalChainStore} {l : LocatedTransaction} {found : RecordRefV1}
    {state next : CompanyStateV1} (h : AppliedAt s l found state next) : Amends state found :=
  (apply_eq_ok.mp h.applies).1

/-- An amendment in the history of a company at a height was applied where its transaction stands. -/
theorem appliedAt_of_reconstruct {s : LocalChainStore} (hs : s.WellFormed) {at_ : ℕ}
    {state : CompanyStateV1} (h : reconstruct s at_ = .ok state) {found : RecordRefV1}
    (hfound : found ∈ state.applied) (hkind : found.record.kind ≠ .companyGenesis) :
    ∃ l current next, l ∈ placed s.blocks ∧ l.height ≤ at_ ∧ HeldBy l found ∧
      AppliedAt s l found current next := by
  obtain ⟨company, -, -, happlied⟩ := reconstruct_after h
  rw [happlied] at hfound
  obtain ⟨l, hl, hrecord⟩ := List.mem_filterMap.mp hfound
  obtain ⟨hmem, hlt⟩ := (mem_placed_take hs).mp hl
  have hheld := heldBy_of_recordIn hrecord
  simp only [reconstruct_eq, companyUpTo_eq, bind_eq_ok] at h
  obtain ⟨reached, hreached, -⟩ := h
  rw [eq_takeWhile_append_cons hl, companyAfter, List.foldlM_append, bind_eq_ok] at hreached
  obtain ⟨current, hcurrent, hrest⟩ := hreached
  rw [LocalChainStore.iterBlocks, ← before_eq hs hmem hlt] at hcurrent
  rw [List.foldlM_cons, bind_eq_ok] at hrest
  obtain ⟨next, hnext, -⟩ := hrest
  rcases stepAt_eq_ok.mp hnext with ⟨hns, -⟩ | ⟨found', company', hfound', rfl, hstep⟩
  · simp [recordIn, hns] at hrecord
  · obtain rfl := Option.some.inj (hrecord.symm.trans hfound')
    rcases hstep with ⟨rfl, hfounds⟩ | ⟨current, rfl, happly⟩
    · obtain ⟨genesis, hbody, -⟩ := foundCompany_eq_ok.mp hfounds
      exact absurd (by rw [IrenaRecordV1.kind, hbody]; rfl) hkind
    · exact ⟨l, current, company', hmem, by omega, hheld, hcurrent, hrecord, happly⟩

/-- What an applied amendment leaves, and what the transactions between make of it. -/
theorem AppliedAt.reaches {s : LocalChainStore} {l k : LocatedTransaction} {found : RecordRefV1}
    {state next later : CompanyStateV1} (h : AppliedAt s l found state next)
    (hl : l ∈ Ledger.before s k) (hk : companyBefore s k = .ok (some later)) :
    ∃ between, Ledger.before s k = Ledger.before s l ++ l :: between ∧
      between.foldlM stepAt (some next) = .ok (some later) := by
  have hsplit := eq_takeWhile_append_cons hl
  rw [Ledger.before, takeWhile_takeWhile_ne hl] at hsplit
  refine ⟨_, hsplit, ?_⟩
  rw [companyBefore, Ledger.before, hsplit, companyAfter, List.foldlM_append, bind_eq_ok] at hk
  obtain ⟨reached, hreached, hk⟩ := hk
  obtain rfl := Except.ok.inj (h.before.symm.trans hreached)
  rw [List.foldlM_cons, bind_eq_ok] at hk
  obtain ⟨stepped, hstepped, hk⟩ := hk
  rcases stepAt_eq_ok.mp hstepped with ⟨hns, -⟩ | ⟨found', company, hfound', rfl, hstep⟩
  · have hholds := h.holds
    simp [recordIn, hns] at hholds
  · obtain rfl := Option.some.inj (h.holds.symm.trans hfound')
    rcases hstep with ⟨hnone, -⟩ | ⟨current, hcurrent, happly⟩
    · cases hnone
    · obtain rfl := Option.some.inj hcurrent
      obtain rfl := Except.ok.inj (h.applies.symm.trans happly)
      exact hk

/-- No two amendments supersede the same record. -/
theorem AppliedAt.supersedes_ne {s : LocalChainStore} (hs : s.WellFormed)
    {l k : LocatedTransaction} {found found' : RecordRefV1} {state next state' next' : CompanyStateV1}
    (h : AppliedAt s l found state next) (h' : AppliedAt s k found' state' next')
    (hl : l ∈ Ledger.before s k) (hkind : found.record.kind = found'.record.kind) :
    found.record.supersedes ≠ found'.record.supersedes := by
  intro hsame
  obtain ⟨between, hsplit, hbetween⟩ := h.reaches hl h'.before
  have hprovider : state'.providerOf found.record.kind = state.providerOf found.record.kind := by
    have hone := h.amends.supersedes
    have hother := h'.amends.supersedes
    rw [← hsame, hone, ← hkind] at hother
    exact (Option.some.inj hother).symm
  have hbefore := provider_mem h.before found.record.kind
  have hafter : state'.providerOf found.record.kind ∈
      (l :: between).map fun l => l.transaction.id := by
    rcases samePart_foldlM hbetween found.record.kind with hpart | hmem
    · refine List.mem_cons.mpr (.inl ?_)
      rw [← hpart.provider, After.providerOf_amended h.applies, if_pos rfl,
        (heldBy_of_recordIn h.holds).txId]
    · exact List.mem_cons.mpr (.inr hmem)
  have hnodup : ((Ledger.before s k).map fun l => l.transaction.id).Nodup :=
    (nodup_placed hs).sublist ((List.takeWhile_sublist _).map _)
  rw [hsplit, List.map_append, List.nodup_append] at hnodup
  exact hnodup.2.2 _ (hprovider ▸ hbefore) _ hafter rfl

theorem AppliedAt.eq_of_supersedes {s : LocalChainStore} (hs : s.WellFormed)
    {l k : LocatedTransaction} {found found' : RecordRefV1} {state next state' next' : CompanyStateV1}
    (hl : l ∈ placed s.blocks) (hk : k ∈ placed s.blocks) (h : AppliedAt s l found state next)
    (h' : AppliedAt s k found' state' next') (hkind : found.record.kind = found'.record.kind)
    (hsame : found.record.supersedes = found'.record.supersedes) : l = k := by
  by_contra hne
  rcases mem_takeWhile_or hl hk hne with hbefore | hbefore
  · exact h.supersedes_ne hs h' hbefore hkind hsame
  · exact h'.supersedes_ne hs h hbefore hkind.symm hsame.symm

/-- A part that a company had by a height and has just before a later transaction has not moved in
between. -/
theorem samePart_of_provider {s : LocalChainStore} (hs : s.WellFormed) {l : LocatedTransaction}
    {n m : ℕ} {frozen previous state : CompanyStateV1} {kind : RecordKindV1}
    (hfrozen : reconstruct s n = .ok frozen) (hn : n ≤ m) (hheight : l.height = m + 1)
    (hl : l ∈ placed s.blocks) (hprevious : reconstruct s m = .ok previous)
    (hstate : companyBefore s l = .ok (some state))
    (hprovider : state.providerOf kind = frozen.providerOf kind) : SamePart kind previous state := by
  have hhead : m ≤ s.head.height := by
    obtain ⟨b, hb, -⟩ := (mem_placed_iff hs).mp hl
    have := height_le_of_getBlock hb
    omega
  simp only [reconstruct_eq, Nat.min_eq_left hhead, Nat.min_eq_left (hn.trans hhead), bind_eq_ok,
    orError_eq_ok, pure_eq_ok, Except.ok.injEq] at hfrozen hprevious
  obtain ⟨_, hfrozen, frozen, rfl, rfl⟩ := hfrozen
  obtain ⟨_, hprevious, previous, rfl, rfl⟩ := hprevious
  have hstate' := hstate
  rw [companyBefore_eq hs hheight, hprevious, ok_bind] at hstate'
  have hat : SamePart kind { previous with at_ := m } previous := by
    cases kind <;> rfl
  rcases samePart_foldlM hstate' kind with hsame | hmem
  · exact hat.trans hsame
  · rw [companyUpTo_eq] at hfrozen
    have hfirst := provider_mem hfrozen kind
    have hfrozenProvider : ({ frozen with at_ := n } : CompanyStateV1).providerOf kind =
        frozen.providerOf kind := by
      cases kind <;> rfl
    rw [hprovider, hfrozenProvider] at hmem
    have hnodup : ((Ledger.before s l).map fun l => l.transaction.id).Nodup :=
      (nodup_placed hs).sublist ((List.takeWhile_sublist _).map _)
    rw [before_split hs, List.map_append, List.nodup_append] at hnodup
    refine absurd rfl (hnodup.2.2 _ ?_ _ hmem)
    have hprefix : s.iterBlocks n <+: s.blocks.take l.height := by
      rw [LocalChainStore.iterBlocks]
      exact List.take_prefix_take_left (by omega)
    obtain ⟨more, hmore⟩ := hprefix
    rw [← hmore, placed_append, List.map_append]
    exact List.mem_append_left _ hfirst

/-- The company at a height is stepped to the company at a later one. -/
theorem steps_of_reconstruct {s : LocalChainStore} {n m : ℕ} {earlier later : CompanyStateV1}
    (hle : n ≤ m) (hearlier : reconstruct s n = .ok earlier) (hlater : reconstruct s m = .ok later) :
    ∃ first next e l, (first ++ next).Sublist (placed s.blocks) ∧
      companyAfter first = .ok (some e) ∧ next.foldlM stepAt (some e) = .ok (some l) ∧
      earlier = { e with at_ := n } ∧ later = { l with at_ := m } := by
  simp only [reconstruct_eq, companyUpTo_eq, bind_eq_ok, orError_eq_ok, pure_eq_ok, Except.ok.injEq]
    at hearlier hlater
  obtain ⟨_, hfirst, e, rfl, rfl⟩ := hearlier
  obtain ⟨_, hsteps, l, rfl, rfl⟩ := hlater
  have hprefix : s.iterBlocks (min n s.head.height) <+: s.iterBlocks (min m s.head.height) := by
    rw [LocalChainStore.iterBlocks, LocalChainStore.iterBlocks]
    exact List.take_prefix_take_left (by omega)
  obtain ⟨more, hmore⟩ := hprefix
  have hsub : (placed (s.iterBlocks (min m s.head.height))).Sublist (placed s.blocks) := by
    obtain ⟨rest, hrest⟩ := List.take_prefix (min m s.head.height + 1) s.blocks
    have hsplit := placed_append (s.iterBlocks (min m s.head.height)) rest
    rw [LocalChainStore.iterBlocks, hrest] at hsplit
    rw [LocalChainStore.iterBlocks, hsplit]
    exact List.sublist_append_left _ _
  rw [← hmore, placed_append] at hsteps hsub
  rw [companyAfter, List.foldlM_append, ← companyAfter, hfirst, ok_bind] at hsteps
  exact ⟨_, _, e, l, hsub, hfirst, hsteps, rfl, rfl⟩

/-- A part that the same record provides at two heights is the same part. -/
theorem samePart_of_reconstruct {s : LocalChainStore} (hs : s.WellFormed) {n m : ℕ}
    {earlier later : CompanyStateV1} {kind : RecordKindV1} (hle : n ≤ m)
    (hearlier : reconstruct s n = .ok earlier) (hlater : reconstruct s m = .ok later)
    (hprovider : later.providerOf kind = earlier.providerOf kind) : SamePart kind earlier later := by
  obtain ⟨first, next, e, l, hsub, hfirst, hsteps, rfl, rfl⟩ :=
    steps_of_reconstruct hle hearlier hlater
  have hat (state : CompanyStateV1) (height : ℕ) :
      SamePart kind { state with at_ := height } state := by
    cases kind <;> rfl
  have hto (state : CompanyStateV1) (height : ℕ) :
      SamePart kind state { state with at_ := height } := by
    cases kind <;> rfl
  rw [(hat l m).provider, (hat e n).provider] at hprovider
  refine (hat e n).trans (.trans ?_ (hto l m))
  rcases samePart_foldlM hsteps kind with hsame | hmem
  · exact hsame
  · have hprovides := provider_mem hfirst kind
    rw [hprovider] at hmem
    have hnodup := (nodup_placed hs).sublist (hsub.map _)
    rw [List.map_append, List.nodup_append] at hnodup
    exact absurd rfl (hnodup.2.2 _ hprovides _ hmem)

/-- A company keeps its name. -/
theorem company_foldlM {ls : List LocatedTransaction} {state next : CompanyStateV1}
    (h : ls.foldlM stepAt (some state) = .ok (some next)) : next.company = state.company := by
  induction ls generalizing state with
  | nil =>
    obtain rfl := Option.some.inj (Except.ok.inj h)
    rfl
  | cons l ls ih =>
    rw [List.foldlM_cons, bind_eq_ok] at h
    obtain ⟨middle, hmiddle, h⟩ := h
    rcases stepAt_eq_ok.mp hmiddle with ⟨-, rfl⟩ | ⟨found, company, -, rfl, ⟨hnone, -⟩ | hamended⟩
    · exact ih h
    · cases hnone
    · obtain ⟨current, hcurrent, happly⟩ := hamended
      obtain rfl := Option.some.inj hcurrent
      obtain ⟨-, rfl⟩ := apply_eq_ok.mp happly
      rw [ih h]
      exact replace_company

theorem company_of_reconstruct {s : LocalChainStore} {n m : ℕ} {earlier later : CompanyStateV1}
    (hle : n ≤ m) (hearlier : reconstruct s n = .ok earlier) (hlater : reconstruct s m = .ok later) :
    later.company = earlier.company := by
  obtain ⟨_, _, e, l, -, -, hsteps, rfl, rfl⟩ := steps_of_reconstruct hle hearlier hlater
  have hname : l.company = e.company := company_foldlM hsteps
  exact hname

theorem at_of_reconstruct {s : LocalChainStore} {n : ℕ} {state : CompanyStateV1}
    (h : reconstruct s n = .ok state) : state.at_ = n := by
  simp only [reconstruct_eq, bind_eq_ok, pure_eq_ok, Except.ok.injEq] at h
  obtain ⟨_, -, company, -, rfl⟩ := h
  rfl

/-- The company at a height that a chain may not have reached, on the chains it grows to. -/
theorem reconstruct_min {s t : LocalChainStore} (hext : s.Extends t) {n : ℕ}
    {state : CompanyStateV1} (h : reconstruct s n = .ok state) :
    ∃ earlier, reconstruct t (min n s.head.height) = .ok earlier ∧
      state = { earlier with at_ := n } := by
  rw [Ledger.Extends.reconstruct hext (Nat.min_le_right _ _)]
  simp only [reconstruct_eq, bind_eq_ok, orError_eq_ok, pure_eq_ok, Except.ok.injEq] at h ⊢
  obtain ⟨_, hupto, company, rfl, rfl⟩ := h
  refine ⟨_, ⟨_, ?_, company, rfl, rfl⟩, rfl⟩
  rw [Nat.min_assoc, Nat.min_self]
  exact hupto

/-- Above the head the company is the one there is now. -/
theorem reconstruct_above {s : LocalChainStore} {n : ℕ} {state : CompanyStateV1}
    (hnow : companyNow s = .ok state) (hle : s.head.height ≤ n) :
    reconstruct s n = .ok { state with at_ := n } := by
  simp only [companyNow, reconstruct_eq, Nat.min_self, Nat.min_eq_right hle, bind_eq_ok, orError_eq_ok,
    pure_eq_ok, Except.ok.injEq] at hnow ⊢
  obtain ⟨_, hupto, company, rfl, rfl⟩ := hnow
  exact ⟨_, hupto, company, rfl, rfl⟩

end Irena.Ledger
