import Irena.Ledger.State

/-! # What is reconstructed never changes

Reconstruction is a fold, so what it says of a height depends on the blocks up to that height only,
and the first transaction that stops it stops it at every greater height. -/

namespace Irena.Ledger

open Irena.Library Irena.Library.Outcome Irena.Prunella Irena.Prunella.LocalChainStore

variable [Platform]

/-- The company after the blocks of a chain up to a height, if it is founded by then. -/
def companyUpTo (s : LocalChainStore) (last : ℕ) : Except LedgerError (Option CompanyStateV1) :=
  (s.iterBlocks last).foldlM applyBlock none

theorem reconstruct_eq (s : LocalChainStore) (at_ : ℕ) :
    reconstruct s at_ = (companyUpTo s (min at_ s.head.height) >>= fun state =>
      orError state (.noCompany (min at_ s.head.height)) >>= fun state =>
        pure { state with at_ := at_ }) := rfl

/-- The transaction at which a fold over blocks stops, with everything before it. -/
structure Stops (s : LocalChainStore) (height index : ℕ) (e : LedgerError) : Prop where
  before : ∃ state, (s.blocks.take height).foldlM applyBlock none = .ok state ∧
    ∃ b pre t post current, s.getBlock height = some b ∧
      b.transactions.zipIdx = pre ++ (t, index) :: post ∧
      pre.foldlM (step b.header.height) state = .ok current ∧
      step b.header.height current (t, index) = .error e

theorem companyUpTo_error {s : LocalChainStore} {last : ℕ} {e : LedgerError}
    (h : companyUpTo s last = .error e) :
    ∃ height index, height ≤ last ∧ Stops s height index e := by
  obtain ⟨pre, b, post, state, hblocks, hpre, hb⟩ := exists_of_foldlM_error h
  obtain ⟨first, ⟨t, index⟩, rest, current, hzip, hfirst, hstep⟩ := exists_of_foldlM_error hb
  have hlen := congrArg List.length hblocks
  rw [iterBlocks, List.length_take, List.length_append, List.length_cons] at hlen
  have hprefix : pre ++ b :: post <+: s.blocks := hblocks ▸ List.take_prefix _ _
  obtain ⟨more, hmore⟩ := hprefix
  have htake : s.blocks.take pre.length = pre := by
    rw [← hmore, List.append_assoc, List.take_left]
  have hget : s.getBlock pre.length = some b := by
    rw [getBlock, ← hmore]
    simp
  refine ⟨pre.length, index, by omega, ⟨state, ?_, b, first, t, rest, current, hget, hzip, hfirst,
    hstep⟩⟩
  rw [htake]
  exact hpre

theorem Stops.height_le {s : LocalChainStore} {height index : ℕ} {e : LedgerError}
    (h : Stops s height index e) : height ≤ s.head.height := by
  obtain ⟨_, -, _, _, _, _, _, hb, -⟩ := h.before
  exact height_le_of_getBlock hb

/-- From the transaction that stops it on, the fold stops with the same error. -/
theorem Stops.companyUpTo {s : LocalChainStore} {height index last : ℕ} {e : LedgerError}
    (h : Stops s height index e) (hlast : height ≤ last) : companyUpTo s last = .error e := by
  obtain ⟨state, hbefore, b, pre, t, post, current, hb, hzip, hpre, hstep⟩ := h.before
  obtain ⟨hlt, rfl⟩ := List.getElem?_eq_some_iff.mp hb
  have hblock : applyBlock state s.blocks[height] = .error e := by
    rw [applyBlock, hzip, foldlM_append_ok hpre, List.foldlM_cons, hstep]
    rfl
  have hsplit : s.iterBlocks last =
      s.blocks.take height ++ s.blocks[height] :: (s.blocks.drop (height + 1)).take (last - height) := by
    have hlen : (s.blocks.take height).length = height := by
      rw [List.length_take]
      omega
    calc s.iterBlocks last
        = (s.blocks.take height ++ s.blocks[height] :: s.blocks.drop (height + 1)).take
            (last + 1) := by
          rw [List.getElem_cons_drop, List.take_append_drop]
          rfl
      _ = _ := by
          have hsub : last + 1 - height = last - height + 1 := by omega
          rw [List.take_append, hlen, hsub, List.take_succ_cons, List.take_of_length_le]
          omega
  rw [Ledger.companyUpTo, hsplit, foldlM_append_ok hbefore, List.foldlM_cons, hblock]
  rfl

/-- Below the transaction that stops it, the fold goes through. -/
theorem Stops.companyUpTo_below {s : LocalChainStore} {height index last : ℕ} {e : LedgerError}
    (h : Stops s height index e) (hlast : last < height) :
    ∃ state, Ledger.companyUpTo s last = .ok state := by
  obtain ⟨state, hbefore, -⟩ := h.before
  have hsplit : s.blocks.take height = s.iterBlocks last ++ (s.blocks.take height).drop (last + 1) := by
    have htake : s.iterBlocks last = (s.blocks.take height).take (last + 1) := by
      rw [iterBlocks, List.take_take]
      congr 1
      omega
    rw [htake, List.take_append_drop]
  rw [hsplit] at hbefore
  cases hfold : Ledger.companyUpTo s last with
  | ok current => exact ⟨current, rfl⟩
  | error e' =>
    rw [foldlM_append_error hfold] at hbefore
    cases hbefore

theorem Extends.reconstruct {s t : LocalChainStore} (h : s.Extends t) {at_ : ℕ}
    (hat : at_ ≤ s.head.height) : Ledger.reconstruct t at_ = Ledger.reconstruct s at_ := by
  have hs : min at_ s.head.height = at_ := by omega
  have ht : min at_ t.head.height = at_ := by
    have := h.height_le
    omega
  simp only [Ledger.reconstruct, hs, ht, h.iterBlocks hat]

/-- A reconstruction fails for want of a company, or at one transaction. -/
theorem reconstruct_error {s : LocalChainStore} {at_ : ℕ} {e : LedgerError}
    (h : reconstruct s at_ = .error e) :
    e = .noCompany (min at_ s.head.height) ∨
      ∃ height index, height ≤ at_ ∧ Stops s height index e := by
  rw [reconstruct_eq, bind_eq_error] at h
  rcases h with h | ⟨state, -, h⟩
  · obtain ⟨height, index, hle, hstops⟩ := companyUpTo_error h
    exact .inr ⟨height, index, by omega, hstops⟩
  · cases state with
    | none => exact .inl (Except.error.inj h).symm
    | some state => cases h

theorem Stops.reconstruct {s : LocalChainStore} {height index at_ : ℕ} {e : LedgerError}
    (h : Stops s height index e) (hat : height ≤ at_) : Ledger.reconstruct s at_ = .error e := by
  have hle := h.height_le
  rw [reconstruct_eq, h.companyUpTo (by omega)]
  rfl

theorem Stops.reconstruct_below {s : LocalChainStore} {height index at_ : ℕ} {e : LedgerError}
    (h : Stops s height index e) (hat : at_ < height) :
    (∃ state, Ledger.reconstruct s at_ = .ok state) ∨
      Ledger.reconstruct s at_ = .error (.noCompany at_) := by
  have hle := h.height_le
  have hmin : min at_ s.head.height = at_ := by omega
  obtain ⟨state, hstate⟩ := h.companyUpTo_below hat
  rw [reconstruct_eq, hmin, hstate, ok_bind]
  cases state with
  | none => exact .inr rfl
  | some state => exact .inl ⟨_, rfl⟩

/-- History is immutable: an extension changes nothing at the heights of the shorter chain; and a
transaction that stops the reconstruction stops it alike at every height from its block on, and
at no height below. -/
theorem reconstruct_immutable :
    (∀ (s t : LocalChainStore) (at_ : ℕ), s.Extends t → at_ ≤ s.head.height →
      reconstruct t at_ = reconstruct s at_) ∧
    ∀ (s : LocalChainStore) (at_ : ℕ) (e : LedgerError), reconstruct s at_ = .error e →
      (∀ last, e ≠ .noCompany last) →
      (∀ later, at_ ≤ later → reconstruct s later = .error e) ∧
      ∃ height index, height ≤ at_ ∧ Stops s height index e ∧
        (∀ later, height ≤ later → reconstruct s later = .error e) ∧
        ∀ earlier, earlier < height → (∃ state, reconstruct s earlier = .ok state) ∨
          reconstruct s earlier = .error (.noCompany earlier) := by
  refine ⟨fun s t at_ h hat => Extends.reconstruct h hat, fun s at_ e h hne => ?_⟩
  rcases reconstruct_error h with rfl | ⟨height, index, hle, hstops⟩
  · exact absurd rfl (hne _)
  · exact ⟨fun later hlater => hstops.reconstruct (by omega), height, index, hle, hstops,
      fun later => hstops.reconstruct, fun earlier => hstops.reconstruct_below⟩

end Irena.Ledger
