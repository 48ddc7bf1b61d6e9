import Irena.Ledger.Among
import Irena.Resolution.Execution
import Irena.Resolution.Soundness

/-! # Executing a resolution

What an execution carries out is settled by one look at the chain. It then publishes the amendment
and records the execution, each in a block of its own. -/

namespace Irena.Resolution

open Irena.Library Irena.Library.Outcome Irena.Library.Strings Irena.Library.Utf8
open Irena.Library.Markup Irena.Core Irena.Prunella Irena.Prunella.LocalChainStore Irena.Ledger

variable [Platform]

/-- A mandate stands on a chain: the resolution is finalised and not executed, its approval is of
the record in force, the key governs, and the demotion rule holds. -/
structure Mandated (r : ResolutionV1) (s : LocalChainStore) (key : SigningKey) (m : ResolutionV1.Mandate)
    (approval : ApprovalV1) (state : CompanyStateV1) : Prop where
  finalized : r.status = .finalized
  kind : r.kind = .amendment m.target m.body
  id : r.id = some m.resolutionId
  fresh : findExecution s m.resolutionId.txId = none
  authority : r.checkAuthority s = .ok approval
  approved : m.approved = approval.baseOf m.target
  now : companyNow s = .ok state
  governs : ∃ person, authorisedSigner state .governance (Platform.publicKey key) = .ok person
  current : state.providerOf m.target.recordKind = m.approved
  demotes : checkDemotion approval state m.target m.body = .ok ()

theorem Mandated.eq {r : ResolutionV1} {s : LocalChainStore} {key : SigningKey}
    {m m' : ResolutionV1.Mandate} {approval : ApprovalV1} {state : CompanyStateV1}
    (h : Mandated r s key m approval state) (hkind : r.kind = .amendment m'.target m'.body)
    (hid : r.id = some m'.resolutionId) (happroved : m'.approved = approval.baseOf m'.target) :
    m = m' := by
  obtain ⟨resolutionId, target, body, approved⟩ := m
  obtain ⟨resolutionId', target', body', approved'⟩ := m'
  obtain ⟨rfl, rfl⟩ := ResolutionKindV1.amendment.inj (h.kind.symm.trans hkind)
  obtain rfl := Option.some.inj (h.id.symm.trans hid)
  obtain rfl := h.approved.trans happroved.symm
  rfl

theorem mandate_eq_ok {r : ResolutionV1} {s : LocalChainStore} {key : SigningKey} {m : ResolutionV1.Mandate} :
    r.mandate s key = .ok m ↔ ∃ approval state, Mandated r s key m approval state := by
  simp only [ResolutionV1.mandate, ResolutionV1.expectStatus, bind_eq_ok, ensure_eq_ok]
  cases hkind : r.kind with
  | declarative body =>
    constructor
    · rintro ⟨-, -, h⟩
      cases h
    · rintro ⟨approval, state, h⟩
      have := h.kind
      rw [hkind] at this
      cases this
  | amendment target body =>
    simp only [bind_eq_ok, orError_eq_ok]
    constructor
    · rintro ⟨-, hstatus, resolutionId, hid, h⟩
      cases hfind : findExecution s resolutionId.txId with
      | some found =>
        rw [hfind] at h
        cases h
      | none =>
        simp only [hfind, bind_eq_ok, mapErr_eq_ok, ensure_eq_ok, pure_eq_ok, Except.ok.injEq] at h
        obtain ⟨approval, happroval, state, hstate, person, hperson, -, hcurrent, done, hdemotes,
          rfl⟩ := h
        exact ⟨approval, state, hstatus, hkind, hid, hfind, happroval, rfl, hstate, ⟨person, hperson⟩,
          hcurrent, hdemotes⟩
    · rintro ⟨approval, state, h⟩
      obtain ⟨rfl, rfl⟩ := ResolutionKindV1.amendment.inj (hkind.symm.trans h.kind)
      obtain ⟨person, hperson⟩ := h.governs
      refine ⟨(), h.finalized, m.resolutionId, h.id, ?_⟩
      simp only [h.fresh, h.authority, ok_bind, h.now, mapErr_ok, hperson, ← h.approved,
        ensure_of h.current, h.demotes, pure_eq_ok]

theorem moves_execute (r : ResolutionV1) (key : SigningKey) (n : NotarisationV1) (time : ℕ) :
    (r.execute key n time).Moves Grows := by
  refine .bind (moves_read _) fun m => ?_
  refine .bind (.mapError (moves_publish _ _ _ _ _ _)) fun amendment => ?_
  refine .bind (.lift _) fun payload => ?_
  exact .bind (moves_appendTransaction _ _ _ _ _) fun _ => trivial

/-- An execution that succeeds had a mandate on the chain as it once was, and has left an amendment
there that supersedes the approved record, whatever others did meanwhile. -/
theorem execute_among [WritingScanner] {r done : ResolutionV1} {key : SigningKey}
    {n : NotarisationV1} {time : ℕ} {s t : LocalChainStore} {executed : ExecutedV1}
    (h : Program.RunsAmong Grows (r.execute key n time) s (.ok (done, executed)) t) :
    ∃ v m approval state l record, Grows s v ∧ Grows v t ∧ Mandated r v key m approval state ∧
      l ∈ placed t.blocks ∧ recordIn l = some record ∧ record.record.kind = m.target.recordKind ∧
      record.record.supersedes = some m.approved := by
  obtain ⟨m, v, hread, h⟩ := h.bind_ok
  obtain ⟨hgrows, hmandate⟩ := hread.read
  obtain ⟨approval, state, hmandated⟩ := mandate_eq_ok.mp hmandate.symm
  have hafter : Grows v t := by
    refine h.moves Grows.refl Grows.trans (.bind (.mapError (moves_publish _ _ _ _ _ _)) fun _ => ?_)
    exact .bind (.lift _) fun _ => .bind (moves_appendTransaction _ _ _ _ _) fun _ => trivial
  obtain ⟨amendment, u, hpublish, h⟩ := h.bind_ok
  obtain ⟨-, l, record, hl, hrecord, hkind, hsupersedes⟩ := publish_among hpublish.mapError_ok
  have hrest : Grows u t := by
    refine h.moves Grows.refl Grows.trans (.bind (.lift _) fun _ => ?_)
    exact .bind (moves_appendTransaction _ _ _ _ _) fun _ => trivial
  obtain ⟨more, hmore⟩ := hrest.extends_.2
  refine ⟨v, m, approval, state, l, record, hgrows, hafter, hmandated, ?_, hrecord, hkind,
    hsupersedes⟩
  rw [← hmore, placed_append]
  exact List.mem_append_left _ hl

end Irena.Resolution
