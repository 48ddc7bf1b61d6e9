import Irena.Ledger.Growth
import Irena.Ledger.Position

/-! # Publishing among others

What others append between two accesses of an operation is one more stretch of the chain. Whatever
it was, an amendment that is on the chain has replaced what it supersedes for good: no transaction
id recurs, so a record that no longer provides its part never provides it again. -/

namespace Irena.Ledger

open Irena.Library Irena.Library.Outcome Irena.Library.Strings Irena.Library.Utf8
open Irena.Library.Markup Irena.Core Irena.Prunella Irena.Prunella.LocalChainStore

variable [Platform]

/-- The company at the head of a longer chain is stepped to from the company at the head of the
shorter one. -/
theorem steps_of_extends {s t : LocalChainStore} (hext : s.Extends t) {earlier later : CompanyStateV1}
    (hearlier : companyNow s = .ok earlier) (hlater : companyNow t = .ok later) :
    ∃ more e l, placed t.blocks = placed s.blocks ++ more ∧
      companyAfter (placed s.blocks) = .ok (some e) ∧ more.foldlM stepAt (some e) = .ok (some l) ∧
      earlier = { e with at_ := s.head.height } ∧ later = { l with at_ := t.head.height } := by
  obtain ⟨e, hafter, rfl⟩ := companyNow_eq_ok.mp hearlier
  obtain ⟨l, hafter', rfl⟩ := companyNow_eq_ok.mp hlater
  obtain ⟨blocks, hblocks⟩ := hext.2
  have hplaced : placed t.blocks = placed s.blocks ++ placed blocks := by
    rw [← hblocks, placed_append]
  rw [hplaced, companyAfter_append, hafter, ok_bind] at hafter'
  exact ⟨_, e, l, hplaced, hafter, hafter', rfl, rfl⟩

/-- A record that no longer provides its part never provides it again. -/
theorem provider_never_recurs {s t u : LocalChainStore} (hu : u.WellFormed) (hst : s.Extends t)
    (htu : t.Extends u) {a b c : CompanyStateV1} (ha : companyNow s = .ok a)
    (hb : companyNow t = .ok b) (hc : companyNow u = .ok c) {kind : RecordKindV1}
    (h : b.providerOf kind ≠ a.providerOf kind) : c.providerOf kind ≠ a.providerOf kind := by
  obtain ⟨first, e, f, hfirst, hafter, -, rfl, hf⟩ := steps_of_extends hst ha hb
  obtain ⟨second, f', g, hsecond, -, hsteps, hf', rfl⟩ := steps_of_extends htu hb hc
  rw [providerOf_with_at] at h ⊢
  rw [providerOf_with_at]
  rcases samePart_foldlM hsteps kind with hsame | hmem
  · rw [← hsame.provider]
    rw [hf', providerOf_with_at] at h
    exact h
  · intro heq
    have hnodup := nodup_placed hu
    rw [hsecond, hfirst, List.append_assoc, List.map_append, List.nodup_append] at hnodup
    refine hnodup.2.2 _ (provider_mem hafter kind) _ ?_ heq.symm
    rw [List.map_append]
    exact List.mem_append_right _ hmem

/-- Where a company is reconstructed, whatever stands in its namespaces reads as a record. -/
theorem recordIn_of_companyNow {s : LocalChainStore} {state : CompanyStateV1}
    (hstate : companyNow s = .ok state) {l : LocatedTransaction} (hl : l ∈ placed s.blocks)
    (hkind : kindOfNamespace l.transaction.namespace_.value ≠ none) :
    ∃ found, recordIn l = some found := by
  obtain ⟨company, hafter, -⟩ := companyNow_eq_ok.mp hstate
  obtain ⟨first, rest, hsplit⟩ := List.append_of_mem hl
  rw [hsplit, companyAfter_append, bind_eq_ok] at hafter
  obtain ⟨current, -, hsteps⟩ := hafter
  rw [List.foldlM_cons, bind_eq_ok] at hsteps
  obtain ⟨next, hnext, -⟩ := hsteps
  rcases stepAt_eq_ok.mp hnext with ⟨hns, -⟩ | ⟨found, -, hfound, -⟩
  · exact absurd hns hkind
  · exact ⟨found, hfound⟩

/-- What an amendment on the chain supersedes does not provide its part any more. -/
theorem superseded_never_provides {s : LocalChainStore} (hs : s.WellFormed) {state : CompanyStateV1}
    (hstate : companyNow s = .ok state) {l : LocatedTransaction} {found : RecordRefV1} {base : TxId}
    (hl : l ∈ placed s.blocks) (hfound : recordIn l = some found)
    (hkind : found.record.kind ≠ .companyGenesis) (hbase : found.record.supersedes = some base) :
    state.providerOf found.record.kind ≠ base := by
  obtain ⟨company, hafter, rfl⟩ := companyNow_eq_ok.mp hstate
  obtain ⟨first, rest, hsplit⟩ := List.append_of_mem hl
  have hnodup := nodup_placed hs
  rw [hsplit, List.map_append, List.nodup_append] at hnodup
  rw [hsplit, companyAfter_append, bind_eq_ok] at hafter
  obtain ⟨current, hcurrent, hsteps⟩ := hafter
  rw [List.foldlM_cons, bind_eq_ok] at hsteps
  obtain ⟨next, hnext, hsteps⟩ := hsteps
  rcases stepAt_eq_ok.mp hnext with ⟨hns, -⟩ | ⟨found', next, hfound', rfl, hstep⟩
  · simp [recordIn, hns] at hfound
  obtain rfl := Option.some.inj (hfound.symm.trans hfound')
  rcases hstep with ⟨rfl, hfounds⟩ | ⟨current, rfl, happly⟩
  · obtain ⟨genesis, hbody, -⟩ := foundCompany_eq_ok.mp hfounds
    exact absurd (by rw [IrenaRecordV1.kind, hbody]; rfl) hkind
  have hsupersedes := (apply_eq_ok.mp happly).1.supersedes
  obtain rfl : base = current.providerOf found.record.kind :=
    Option.some.inj (hbase.symm.trans hsupersedes)
  rw [providerOf_with_at]
  intro heq
  refine hnodup.2.2 _ (provider_mem hcurrent found.record.kind) _ ?_ heq.symm
  rw [List.map_cons, List.mem_cons]
  rcases samePart_foldlM hsteps found.record.kind with hsame | hmem
  · refine .inl ?_
    rw [← hsame.provider, After.providerOf_amended happly, if_pos rfl,
      (heldBy_of_recordIn hfound).txId]
  · exact .inr hmem

/-- Others append what the chain takes. -/
structure Grows (s t : LocalChainStore) : Prop where
  extends_ : s.Extends t
  wellFormed : s.WellFormed → t.WellFormed

namespace Grows

theorem refl (s : LocalChainStore) : Grows s s := ⟨.refl s, id⟩

theorem trans (s t u : LocalChainStore) (h : Grows s t) (k : Grows t u) : Grows s u :=
  ⟨h.extends_.trans k.extends_, fun hs => k.wellFormed (h.wellFormed hs)⟩

theorem appendBlock (s : LocalChainStore) (b : Block) : Grows s (s.appendBlock b).2 := by
  rcases appendBlock_cases (rfl : s.appendBlock b = (_, (s.appendBlock b).2)) with
    ⟨e, -, hsame⟩ | ⟨-, hsame, -⟩ | ⟨-, hsame, -, -, hchild⟩
  · exact ⟨extends_of_sameChain hsame, fun hs => hs.of_sameChain hsame⟩
  · exact ⟨extends_of_sameChain hsame, fun hs => hs.of_sameChain hsame⟩
  · exact ⟨(extends_push s b).trans (extends_of_sameChain hsame), fun hs => .push hs hchild hsame⟩

end Grows

section Moving

variable {ε : Type}

theorem moves_read {α : Type} (f : LocalChainStore → Except ε α) :
    (Program.read f : ChainProgram ε α).Moves Grows :=
  .read Grows.refl f

theorem moves_appendTransaction (faults : ChainFaults ε) (key : SigningKey) (namespace_ : Text)
    (payload : Bytes) (time : ℕ) :
    (appendTransaction faults key namespace_ payload time).Moves Grows := by
  refine .bind (moves_read _) fun head => ?_
  refine .bind (moves_read _) fun parent => ?_
  refine .bind (.lift _) fun height => ?_
  refine .bind (.lift _) fun transaction => ?_
  refine .bind (.lift _) fun block => ?_
  exact .bind (.modify fun s => Grows.appendBlock s block) fun _ => trivial

theorem moves_publish (key : SigningKey) (kind : RecordKindV1) (bodyXml : Text)
    (supersedes : Option TxId) (n : NotarisationV1) (time : ℕ) :
    (publish key kind bodyXml supersedes n time).Moves Grows := by
  refine .bind (.lift _) fun _ => ?_
  refine .bind (.bind (moves_read _) fun _ => .bind (moves_read _) fun _ =>
    .bind (moves_read _) fun _ => .lift _) fun state => ?_
  refine .bind (.lift _) fun payload => ?_
  refine .bind (moves_appendTransaction _ _ _ _ _) fun _ => ?_
  refine .bind (moves_read _) fun committed => ?_
  exact .bind (.lift _) fun _ => .bind (.lift _) fun _ => trivial

end Moving

section Unchanged

variable {ε : Type} {R : LocalChainStore → LocalChainStore → Prop}

/-- A company that is read while others append is the company of the chain that the first access
found. -/
theorem reconstructing_among (hR : ∀ s t, R s t → Grows s t) {at_ : ℕ} {s t : LocalChainStore}
    {state : CompanyStateV1} (h : Program.RunsAmong R (reconstructing at_) s (.ok state) t) :
    ∃ u, R s u ∧ R u t ∧ reconstruct u at_ = .ok state := by
  obtain ⟨head, u, hhead, h⟩ := h.bind_ok
  obtain ⟨hsu, hhead⟩ := hhead.read
  obtain rfl := Except.ok.inj hhead
  obtain ⟨blocks, v, hblocks, h⟩ := h.bind_ok
  obtain ⟨huv, hblocks⟩ := hblocks.read
  obtain rfl := Except.ok.inj hblocks
  obtain ⟨hstate, rfl⟩ := h.lift
  refine ⟨u, hsu, huv, ?_⟩
  rw [reconstruct, hstate, (hR _ _ huv).extends_.iterBlocks (Nat.min_le_right _ _)]

theorem readCompanyNow_among (hR : ∀ s t, R s t → Grows s t)
    (htrans : ∀ s t u, R s t → R t u → R s u) {s t : LocalChainStore} {state : CompanyStateV1}
    (h : Program.RunsAmong R readCompanyNow s (.ok state) t) :
    ∃ u, R s u ∧ R u t ∧ companyNow u = .ok state := by
  obtain ⟨head, u, hhead, h⟩ := h.bind_ok
  obtain ⟨hsu, hhead⟩ := hhead.read
  obtain rfl := Except.ok.inj hhead
  obtain ⟨v, huv, hvt, hstate⟩ := reconstructing_among hR h
  refine ⟨u, hsu, htrans _ _ _ huv hvt, ?_⟩
  rw [companyNow, ← Ledger.Extends.reconstruct (hR _ _ huv).extends_ le_rfl, hstate]

/-- A block that was appended stands on the chain at its height. -/
theorem getBlock_of_appendBlock {s t : LocalChainStore} {b : Block} {outcome : AppendOutcome}
    (h : s.appendBlock b = (.ok outcome, t)) : t.getBlock b.header.height = some b := by
  rcases appendBlock_cases h with ⟨e, he, -⟩ | ⟨-, hsame, -, hget⟩ | ⟨-, hsame, hheight, -⟩
  · cases he
  · exact (extends_of_sameChain hsame).getBlock hget
  · have hpushed := getBlock_head (s.push b)
    rw [head_push, headBlock_push, ← hheight] at hpushed
    exact (extends_of_sameChain hsame).getBlock hpushed

/-- An append that succeeds is of the block that follows the chain whose head it read, whatever
others did since. -/
theorem appendTransaction_among (hR : ∀ s t, R s t → Grows s t) {faults : ChainFaults ε}
    {key : SigningKey} {namespace_ : Text} {payload : Bytes} {time : ℕ} {s t : LocalChainStore}
    {r : TxId × ℕ}
    (h : Program.RunsAmong R (appendTransaction faults key namespace_ payload time) s (.ok r) t) :
    ∃ u v outcome, R s u ∧ Grows u v ∧
      r = ((nextTransaction u key namespace_ payload).id, u.head.height + 1) ∧
      v.appendBlock (nextBlock u (nextTransaction u key namespace_ payload) time) =
        (.ok outcome, t) := by
  obtain ⟨head, u, hhead, h⟩ := h.bind_ok
  obtain ⟨hsu, hhead⟩ := hhead.read
  obtain rfl := Except.ok.inj hhead
  obtain ⟨parent, v, hparent, h⟩ := h.bind_ok
  obtain ⟨huv, hparent⟩ := hparent.read
  obtain rfl := Option.some.inj ((orError_eq_ok.mp hparent.symm).symm.trans
    ((hR _ _ huv).extends_.getBlock (getBlock_head u)))
  obtain ⟨height, _, hnext, h⟩ := h.bind_ok
  obtain ⟨hheight, rfl⟩ := hnext.lift
  obtain ⟨rfl, -⟩ := nextHeight_eq_ok.mp (mapErr_eq_ok.mp hheight.symm)
  obtain ⟨transaction, _, hsigned, h⟩ := h.bind_ok
  obtain ⟨htransaction, rfl⟩ := hsigned.lift
  obtain rfl := transactionFor_eq_ok (mapErr_eq_ok.mp htransaction.symm)
  obtain ⟨block, _, hbuilt, h⟩ := h.bind_ok
  obtain ⟨hblock, rfl⟩ := hbuilt.lift
  obtain ⟨-, rfl⟩ := blockAfter_eq_ok.mp (mapErr_eq_ok.mp hblock.symm)
  obtain ⟨outcome, _, happend, h⟩ := h.bind_ok
  obtain ⟨rfl, rfl⟩ := h.pure_ok
  obtain ⟨w, hvw, happend⟩ := happend.modify
  obtain ⟨houtcome, hafter⟩ := Prod.mk.inj happend
  exact ⟨u, w, outcome, hsu, (hR _ _ huv).trans _ _ _ (hR _ _ hvw), rfl,
    Prod.ext (mapErr_eq_ok.mp houtcome) hafter⟩

/-- A chain that holds the next block extends the chain with that block. -/
theorem extends_push_of_getBlock {s t : LocalChainStore} {b : Block}
    (hext : s.Extends t) (hb : t.getBlock (s.head.height + 1) = some b) : (s.push b).Extends t := by
  obtain ⟨hnetwork, more, hmore⟩ := hext
  rw [getBlock, ← blocks_length, ← hmore, List.getElem?_append_right le_rfl, Nat.sub_self] at hb
  cases more with
  | nil => cases hb
  | cons c rest =>
    obtain rfl := Option.some.inj hb
    exact ⟨hnetwork, rest, by rw [blocks_push, ← hmore, List.append_assoc]; rfl⟩

/-- Where an append succeeds on a well-formed chain, the block follows the chain whose head was read
by the rules, and the chain goes on from it. -/
theorem appended_among (hR : ∀ s t, R s t → Grows s t) {faults : ChainFaults ε} {key : SigningKey}
    {namespace_ : Text} {payload : Bytes} {time : ℕ} {s t : LocalChainStore} {r : TxId × ℕ}
    (hs : s.WellFormed)
    (h : Program.RunsAmong R (appendTransaction faults key namespace_ payload time) s (.ok r) t) :
    ∃ u, R s u ∧ u.WellFormed ∧
      r = ((nextTransaction u key namespace_ payload).id, u.head.height + 1) ∧
      ChildOf u.networkId u.headBlock.header u.containsTransaction
        (nextBlock u (nextTransaction u key namespace_ payload) time) ∧
      (u.push (nextBlock u (nextTransaction u key namespace_ payload) time)).Extends t ∧
      t.WellFormed := by
  obtain ⟨u, v, outcome, hsu, huv, hr, happend⟩ := appendTransaction_among hR h
  have hu := (hR _ _ hsu).wellFormed hs
  have ht := (huv.wellFormed hu).appendBlock happend
  have hut : u.Extends t := by
    have hvt := (Grows.appendBlock v (nextBlock u (nextTransaction u key namespace_ payload) time))
    rw [happend] at hvt
    exact huv.extends_.trans hvt.extends_
  have hext : (u.push (nextBlock u (nextTransaction u key namespace_ payload) time)).Extends t := by
    refine extends_push_of_getBlock hut ?_
    rw [← hu.head_height]
    exact getBlock_of_appendBlock happend
  exact ⟨u, hsu, hu, hr, ht.childOf hext, hext, ht⟩

/-- What others append before an operation reads the head it only finds there. -/
theorem appendTransaction_after (hrefl : ∀ s, R s s) {faults : ChainFaults ε} {key : SigningKey}
    {namespace_ : Text} {payload : Bytes} {time : ℕ} {s t u : LocalChainStore}
    {x : Except ε (TxId × ℕ)} (hothers : R s u)
    (h : (appendTransaction faults key namespace_ payload time).run u = (x, t)) :
    Program.RunsAmong R (appendTransaction faults key namespace_ payload time) s x t :=
  .access hothers (.of_run hrefl h)

end Unchanged

omit [Platform] in
/-- A transaction that stands alone in a block has its place there. -/
theorem mem_placed_of_alone {s : LocalChainStore} {b : Block} {t : Transaction} (hb : b ∈ s.blocks)
    (ht : b.transactions = [t]) : ⟨b.header.height, 0, t⟩ ∈ placed s.blocks := by
  refine List.mem_flatMap.mpr ⟨b, hb, ?_⟩
  rw [ht]
  exact List.mem_singleton_self _

/-- A publication that succeeds leaves its amendment on the chain, whatever others did. -/
theorem publish_among [WritingScanner] {key : SigningKey} {kind : RecordKindV1} {bodyXml : Text}
    {supersedes : Option TxId} {n : NotarisationV1} {time : ℕ} {s t : LocalChainStore}
    {found : RecordRefV1}
    (h : Program.RunsAmong Grows (publish key kind bodyXml supersedes n time) s (.ok found) t) :
    kind ≠ .companyGenesis ∧ ∃ l record, l ∈ placed t.blocks ∧ recordIn l = some record ∧
      record.record.kind = kind ∧ record.record.supersedes = supersedes := by
  obtain ⟨_, _, hkind, h⟩ := h.bind_ok
  obtain ⟨state, _, -, h⟩ := h.bind_ok
  obtain ⟨payload, _, hpayload, h⟩ := h.bind_ok
  obtain ⟨⟨txId, height⟩, u, happend, h⟩ := h.bind_ok
  obtain ⟨body, -, hbody, hread, -⟩ := composeAmendment_eq_ok hpayload.lift.1.symm
  obtain ⟨v, _, outcome, -, -, -, happend⟩ := appendTransaction_among (fun _ _ h => h) happend
  have hb := List.mem_of_getElem? (getBlock_of_appendBlock happend)
  have hgrows : Grows u t := by
    refine h.moves Grows.refl Grows.trans (.bind (moves_read _) fun committed => ?_)
    exact .bind (.lift _) fun _ => .bind (.lift _) fun _ => trivial
  exact ⟨ensure_eq_ok.mp hkind.lift.1.symm, _, _,
    mem_placed_of_alone (hgrows.extends_.2.subset hb) rfl, recordIn_next hread hbody, hbody, rfl⟩

end Irena.Ledger
