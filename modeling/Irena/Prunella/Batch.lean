import Irena.Prunella.Tables

/-! # Appending a run of blocks

One write for a whole run accepts what appending its blocks one at a time accepts and leaves the same
tables. A failed append leaves them as they were, and offering committed blocks again is harmless. -/

namespace Irena.Prunella

open Irena.Library Irena.Library.Outcome Irena.Library.Strings
open LocalChainStore (BatchOutcome AppendStatus AppendOutcome)

variable [Platform]

namespace Tables

/-- The tables after one append that the database takes. -/
def appendOne (t : Tables) (b : Block) : Except StoreError Tables :=
  match t.appendBlock b none with
  | (.ok _, t') => .ok t'
  | (.error e, _) => .error e

/-- Appends blocks in order, each in a write of its own, until one is refused. -/
def appendEach (bs : List Block) (t : Tables) : Except StoreError Tables := bs.foldlM appendOne t

omit [Platform] in
/-- A block that stands committed at its height. -/
def Holds (t : Tables) (b : Block) : Prop :=
  b.header.height ≤ t.head.height ∧ t.requireBlock b.header.height = .ok b

theorem appendOne_eq (t : Tables) (b : Block) :
    t.appendOne b = ((Batch.begin t).stage localDeterministicPolicy b).map Batch.write := by
  unfold appendOne appendBlock appendBlocks appendBlocksWith
  rw [if_neg (List.cons_ne_nil _ _), List.foldlM_cons]
  cases (Batch.begin t).stage localDeterministicPolicy b with
  | error e => rfl
  | ok w => rfl

/-- A whole write leaves what the blocks leave one by one. -/
theorem foldlM_stage {w : Batch} (hw : w.Coherent) (bs : List Block) :
    (bs.foldlM (Batch.stage localDeterministicPolicy) w).map Batch.write =
      w.write.appendEach bs := by
  induction bs generalizing w with
  | nil => rfl
  | cons b bs ih =>
    have hone : w.write.appendOne b = (w.stage localDeterministicPolicy b).map Batch.write := by
      rw [appendOne_eq, Batch.stage_begin hw]
    rw [appendEach, List.foldlM_cons, List.foldlM_cons, hone]
    cases hstage : w.stage localDeterministicPolicy b with
    | error e => rfl
    | ok w' => exact ih (hw.stage hstage)

theorem appendBlocks_eq_ok {bs : List Block} {t t' : Tables} {outcome : BatchOutcome}
    (h : t.appendBlocks bs none = (.ok outcome, t')) : t.appendEach bs = .ok t' := by
  have hfold := foldlM_stage (Batch.coherent_begin t) bs
  have hbegin : (Batch.begin t).write = t := rfl
  rw [hbegin] at hfold
  unfold appendBlocks appendBlocksWith at h
  split at h
  · rename_i hnil
    obtain ⟨-, rfl⟩ := Prod.mk.inj h
    rw [hnil]
    rfl
  · split at h
    · cases h
    · rename_i w hw
      rw [hw] at hfold
      obtain ⟨-, rfl⟩ := Prod.mk.inj h
      exact hfold.symm

theorem appendBlocks_of_each {bs : List Block} {t t' : Tables} (h : t.appendEach bs = .ok t') :
    ∃ outcome, t.appendBlocks bs none = (.ok outcome, t') := by
  have hfold := foldlM_stage (Batch.coherent_begin t) bs
  have hbegin : (Batch.begin t).write = t := rfl
  rw [hbegin, h] at hfold
  unfold appendBlocks appendBlocksWith
  split
  · rename_i hnil
    rw [hnil] at h
    obtain rfl := Except.ok.inj h
    exact ⟨_, rfl⟩
  · cases hw : bs.foldlM (Batch.stage localDeterministicPolicy) (Batch.begin t) with
    | error e =>
      rw [hw] at hfold
      cases hfold
    | ok w =>
      rw [hw] at hfold
      obtain rfl := Except.ok.inj hfold
      exact ⟨_, rfl⟩

/-- An append that fails leaves the tables as they were. -/
theorem appendBlocks_eq_error {bs : List Block} {refusal : Option Text} {t t' : Tables}
    {e : StoreError} (h : t.appendBlocks bs refusal = (.error e, t')) : t' = t := by
  unfold appendBlocks appendBlocksWith at h
  split at h
  · cases h
  · split at h
    · exact (Prod.mk.inj h).2.symm
    · cases refusal with
      | some detail => exact (Prod.mk.inj h).2.symm
      | none => cases h

/-- Offering committed blocks again only counts them. -/
theorem foldlM_stage_holds {w : Batch} {bs : List Block}
    (h : ∀ b ∈ bs, b.header.height ≤ w.head.height ∧
      w.tables.requireBlock b.header.height = .ok b) :
    bs.foldlM (Batch.stage localDeterministicPolicy) w =
      .ok { w with alreadyPresent := w.alreadyPresent + bs.length } := by
  induction bs generalizing w with
  | nil => rfl
  | cons b bs ih =>
    obtain ⟨hle, hstored⟩ := h b List.mem_cons_self
    have hstage : w.stage localDeterministicPolicy b =
        .ok { w with alreadyPresent := w.alreadyPresent + 1 } := by
      unfold Batch.stage
      dsimp only
      rw [if_pos hle, hstored, ok_bind, if_pos rfl]
      rfl
    have hrest := @ih { w with alreadyPresent := w.alreadyPresent + 1 } fun c hc =>
      h c (List.mem_cons_of_mem _ hc)
    rw [List.foldlM_cons, hstage, ok_bind, hrest, List.length_cons, Nat.add_right_comm,
      Nat.add_assoc]

theorem appendBlocks_holds {t : Tables} {bs : List Block} (h : ∀ b ∈ bs, t.Holds b) :
    t.appendBlocks bs none = (.ok ⟨0, bs.length, t.head⟩, t) := by
  unfold appendBlocks appendBlocksWith
  split
  · rename_i hnil
    rw [hnil]
    rfl
  · rw [foldlM_stage_holds (w := Batch.begin t) h]
    simp only [Batch.begin, Batch.write, Nat.zero_add]

/-- A run is taken in one write exactly when its blocks are taken one at a time, and leaves the same
tables; what fails changes nothing, and committed blocks are taken again without a change. -/
theorem append_run_one_by_one (t : Tables) (bs : List Block) :
    ((∃ outcome t', t.appendBlocks bs none = (.ok outcome, t')) ↔
      ∃ t', t.appendEach bs = .ok t') ∧
    (∀ outcome t', t.appendBlocks bs none = (.ok outcome, t') → t.appendEach bs = .ok t') ∧
    (∀ refusal e t', t.appendBlocks bs refusal = (.error e, t') → t' = t) ∧
    ((∀ b ∈ bs, t.Holds b) → t.appendBlocks bs none = (.ok ⟨0, bs.length, t.head⟩, t)) := by
  refine ⟨⟨?_, ?_⟩, ?_, ?_, appendBlocks_holds⟩
  · rintro ⟨outcome, t', h⟩
    exact ⟨t', appendBlocks_eq_ok h⟩
  · rintro ⟨t', h⟩
    obtain ⟨outcome, ho⟩ := appendBlocks_of_each h
    exact ⟨outcome, t', ho⟩
  · exact fun outcome t' => appendBlocks_eq_ok
  · exact fun refusal e t' => appendBlocks_eq_error

end Tables

end Irena.Prunella
