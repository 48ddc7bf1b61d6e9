import Irena.Resolution.Replaced
import Irena.Sample.Ready

/-! # One base, one execution

Executions are called one after another on a chain that others publish to at any time, between the
calls and in the midst of them. Of the calls that were approved to replace one record of a part, one
succeeds at most, for the amendment it leaves has replaced the record for good. -/

namespace Irena.Resolution

open Irena.Library Irena.Library.Outcome Irena.Library.Strings Irena.Library.Utf8
open Irena.Library.Markup Irena.Core Irena.Prunella Irena.Prunella.LocalChainStore Irena.Ledger

section Rules

variable [Platform]

/-- A call of execute, the chain it was made on and left, and what it returned. -/
structure Call where
  resolution : ResolutionV1
  key : SigningKey
  notarisation : NotarisationV1
  timestampMillis : ℕ
  before : LocalChainStore
  after : LocalChainStore
  result : Except ResolutionError (ResolutionV1 × ExecutedV1)

/-- The call ran so, others appending before each of its accesses. -/
def Call.Ran (c : Call) : Prop :=
  Program.RunsAmong Grows (c.resolution.execute c.key c.notarisation c.timestampMillis) c.before
    c.result c.after

def Call.Succeeded (c : Call) : Prop := ∃ done executed, c.result = .ok (done, executed)

/-- The approval of the call's resolution was frozen when a record provided the part. -/
def Call.FrozenAgainst (s : LocalChainStore) (c : Call) (target : AmendmentTargetV1) (base : TxId) :
    Prop :=
  ∃ body approval frozen, c.resolution.kind = .amendment target body ∧
    approvalOf s c.resolution.authority = .ok approval ∧
    reconstruct s approval.height = .ok frozen ∧ frozen.providerOf target.recordKind = base

/-- Calls made one after another until the chain was as it is, others appending in between. -/
inductive History : LocalChainStore → List Call → Prop
  | starts {s : LocalChainStore} (hs : s.WellFormed) : History s []
  | grows {s t : LocalChainStore} {calls : List Call} (h : History s calls) (hgrows : Grows s t) :
    History t calls
  | called {calls : List Call} {c : Call} (h : History c.before calls) (hran : c.Ran) :
    History c.after (calls ++ [c])

theorem Call.Ran.grows {c : Call} (h : c.Ran) : Grows c.before c.after :=
  Program.RunsAmong.moves Grows.refl Grows.trans (moves_execute _ _ _ _) h

namespace History

variable {s : LocalChainStore} {calls : List Call}

theorem wellFormed (h : History s calls) : s.WellFormed := by
  induction h with
  | starts hs => exact hs
  | grows _ hgrows ih => exact hgrows.wellFormed ih
  | called _ hran ih => exact hran.grows.wellFormed ih

theorem ran (h : History s calls) :
    ∀ c ∈ calls, c.Ran ∧ c.before.WellFormed ∧ Grows c.after s := by
  induction h with
  | starts hs => simp
  | grows _ hgrows ih =>
    intro c hc
    obtain ⟨hran, hbefore, hafter⟩ := ih c hc
    exact ⟨hran, hbefore, hafter.trans _ _ _ hgrows⟩
  | @called calls c h hran ih =>
    intro d hd
    rcases List.mem_append.mp hd with hd | hd
    · obtain ⟨hdran, hbefore, hafter⟩ := ih d hd
      exact ⟨hdran, hbefore, hafter.trans _ _ _ hran.grows⟩
    · obtain rfl := List.mem_singleton.mp hd
      exact ⟨hran, h.wellFormed, .refl _⟩

theorem ordered (h : History s calls) : calls.Pairwise fun c d => Grows c.after d.before := by
  induction h with
  | starts hs => exact .nil
  | grows _ _ ih => exact ih
  | @called calls c h hran ih =>
    refine List.pairwise_append.mpr ⟨ih, List.pairwise_singleton _ _, fun d hd e he => ?_⟩
    obtain rfl := List.mem_singleton.mp he
    exact (h.ran d hd).2.2

end History

/-- A call that succeeded found the record it was approved to replace in force, and has left an
amendment on the chain that supersedes it. -/
theorem Call.Ran.replaced [WritingScanner] {s : LocalChainStore} {c : Call} (hran : c.Ran)
    (hs : Grows c.after s) (hsucceeded : c.Succeeded) {target : AmendmentTargetV1} {base : TxId}
    (hfrozen : c.FrozenAgainst s target base) :
    (∃ v state, Grows c.before v ∧ companyNow v = .ok state ∧
      state.providerOf target.recordKind = base) ∧
    ∃ l record, l ∈ placed c.after.blocks ∧ recordIn l = some record ∧
      record.record.kind = target.recordKind ∧ record.record.supersedes = some base := by
  obtain ⟨done, executed, hresult⟩ := hsucceeded
  unfold Call.Ran at hran
  rw [hresult] at hran
  obtain ⟨v, m, approval, state, l, record, hbefore, hafter, hmandated, hl, hrecord, hkind,
    hsupersedes⟩ := execute_among hran
  obtain ⟨body, found, frozen, hbody, hfound, hreconstructs, hprovider⟩ := hfrozen
  obtain ⟨rfl, -⟩ := ResolutionKindV1.amendment.inj (hmandated.kind.symm.trans hbody)
  obtain ⟨height, happroved⟩ := approvalOf_eq_ok.mp hfound
  obtain ⟨⟨height', happroved'⟩, -, -⟩ := checkAuthority_eq_ok.mp hmandated.authority
  -- The approval that was found when the call was made is the one found now.
  have hextends : v.Extends s := hafter.extends_.trans hs.extends_
  obtain ⟨rfl, -⟩ := happroved.unique (happroved'.extends hextends)
  obtain ⟨frozen', hreconstructs', hbase⟩ := happroved.base
  obtain rfl := Except.ok.inj (hreconstructs.symm.trans hreconstructs')
  have happrovedBase : m.approved = base := by
    rw [hmandated.approved, hbase, hprovider]
  refine ⟨⟨v, state, hbefore, hmandated.now, hmandated.current.trans happrovedBase⟩,
    l, record, hl, hrecord, hkind, ?_⟩
  rw [hsupersedes, happrovedBase]

/-- One approved base is replaced at most once. In every history of executions and whatever else is
appended, one call at most succeeds among those whose approvals were frozen against one provider of
one part; once it has, that record never provides the part again, nor does any record whose place
another has taken. -/
theorem replaced_at_most_once [WritingScanner] {s : LocalChainStore} {calls : List Call}
    (h : History s calls) :
    (calls.Pairwise fun c d => ∀ target base, c.FrozenAgainst s target base →
      d.FrozenAgainst s target base → c.Succeeded → ¬ d.Succeeded) ∧
    (∀ c ∈ calls, c.Succeeded → ∀ target base, c.FrozenAgainst s target base →
      ∀ state, companyNow s = .ok state → state.providerOf target.recordKind ≠ base) ∧
    ∀ (t u : LocalChainStore) a b state kind, t.Extends u → u.Extends s → companyNow t = .ok a →
      companyNow u = .ok b → companyNow s = .ok state → b.providerOf kind ≠ a.providerOf kind →
        state.providerOf kind ≠ a.providerOf kind := by
  have hnever : ∀ (u : LocalChainStore), u.WellFormed → ∀ (c : Call) target base l record,
      Grows c.after u → l ∈ placed c.after.blocks → recordIn l = some record →
      record.record.kind = AmendmentTargetV1.recordKind target →
      record.record.supersedes = some base → ∀ state, companyNow u = .ok state →
        state.providerOf target.recordKind ≠ base := by
    intro u hu c target base l record hgrows hl hrecord hkind hsupersedes state hstate
    obtain ⟨more, hmore⟩ := hgrows.extends_.2
    have hl' : l ∈ placed u.blocks := by
      rw [← hmore, placed_append]
      exact List.mem_append_left _ hl
    rw [← hkind]
    refine superseded_never_provides hu hstate hl' hrecord ?_ hsupersedes
    rw [hkind]
    exact target.recordKind_ne
  refine ⟨h.ordered.imp_of_mem fun {c d} hc hd hgrows => ?_, fun c hc hsucceeded => ?_, ?_⟩
  · intro target base hfrozen hfrozen' hsucceeded hsucceeded'
    obtain ⟨hran, -, hafter⟩ := h.ran c hc
    obtain ⟨hran', hbefore', hafter'⟩ := h.ran d hd
    obtain ⟨-, l, record, hl, hrecord, hkind, hsupersedes⟩ :=
      hran.replaced hafter hsucceeded hfrozen
    obtain ⟨⟨v, state, hv, hstate, hprovider⟩, -⟩ := hran'.replaced hafter' hsucceeded' hfrozen'
    exact hnever v (hv.wellFormed hbefore') c target base l record (hgrows.trans _ _ _ hv) hl
      hrecord hkind hsupersedes state hstate hprovider
  · intro target base hfrozen
    obtain ⟨hran, -, hafter⟩ := h.ran c hc
    obtain ⟨-, l, record, hl, hrecord, hkind, hsupersedes⟩ :=
      hran.replaced hafter hsucceeded hfrozen
    exact hnever s h.wellFormed c target base l record hafter hl hrecord hkind hsupersedes
  · intro t u a b state kind htu hus ha hb hstate hne
    exact provider_never_recurs h.wellFormed htu hus ha hb hstate hne

end Rules

section Samples

open Irena.Sample

attribute [local instance] platform signaturesVerify writingScanner

/-- A resolution carried out and called for again: of the two calls, approved to replace one register,
the first succeeds and the second cannot. -/
theorem replaced_at_most_once_ready : ∃ c d, c.before = ready .shareStructure widenedXml ∧
    d.before = c.after ∧ History d.after [c, d] ∧
    c.FrozenAgainst d.after .shareStructure genesisTransaction.id ∧
    d.FrozenAgainst d.after .shareStructure genesisTransaction.id ∧ c.Succeeded ∧ ¬ d.Succeeded := by
  have hs := carries_widened.wellFormed
  obtain ⟨outcome, t, hrun⟩ : ∃ outcome t,
      ((finalised .shareStructure widenedXml).execute ann notarisation 0).run
        (ready .shareStructure widenedXml) = (.ok outcome, t) :=
    ⟨_, carries_widened.executes demotes_widened⟩
  rcases hagain : ((finalised .shareStructure widenedXml).execute ann notarisation 0).run t with
    ⟨result, u⟩
  let c : Call := ⟨finalised .shareStructure widenedXml, ann, notarisation, 0,
    ready .shareStructure widenedXml, t, .ok outcome⟩
  let d : Call := ⟨finalised .shareStructure widenedXml, ann, notarisation, 0, t, u, result⟩
  have hran : c.Ran := Program.RunsAmong.of_run Grows.refl hrun
  have hran' : d.Ran := Program.RunsAmong.of_run Grows.refl hagain
  have hhistory : History u [c, d] := .called (c := d) (.called (c := c) (.starts hs) hran) hran'
  have hgrows := hran.grows.trans _ _ _ hran'.grows
  have hfrozen : c.FrozenAgainst u .shareStructure genesisTransaction.id := by
    have happroved := (approved hs).extends hgrows.extends_
    have hfounding : reconstruct (ready .shareStructure widenedXml) 0 = .ok acme :=
      reconstruct_grown [] _ (by simp)
    refine ⟨widenedXml, _, acme, rfl, approvalOf_eq_ok.mpr ⟨_, happroved⟩, ?_, rfl⟩
    exact (Ledger.Extends.reconstruct hgrows.extends_ (Nat.zero_le _)).trans hfounding
  have hsucceeded : c.Succeeded := ⟨_, _, rfl⟩
  have honce := List.rel_of_pairwise_cons (replaced_at_most_once hhistory).1 List.mem_cons_self
  exact ⟨c, d, rfl, rfl, hhistory, hfrozen, hfrozen, hsucceeded,
    honce _ _ hfrozen hfrozen hsucceeded⟩

end Samples

end Irena.Resolution
