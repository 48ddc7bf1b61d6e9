import Irena.Ledger.Append

/-! # When the database refuses

A commit that the database refuses leaves the chain as it was, and the operation that ends with it
fails. -/

namespace Irena.Ledger

open Irena.Library Irena.Library.Outcome Irena.Library.Strings
open Irena.Prunella Irena.Prunella.LocalChainStore

variable [Platform] {s : LocalChainStore} {detail : Text} {rest : List (Option Text)}

theorem appendBlock_of_refused {b : Block} (hheight : b.header.height = s.head.height + 1)
    (hroom : s.head.height < u64Max)
    (hb : ChildOf s.networkId s.headBlock.header s.containsTransaction b)
    (hfaults : s.faults = some detail :: rest) :
    s.appendBlock b = (.error (.database detail), { s with faults := rest }) := by
  have hoffer : offer localDeterministicPolicy (s, 0, 0) b = .ok (s.push b, 1, 0) :=
    (offer_of_lt (by omega)).mpr ⟨hroom, hheight, localDeterministicPolicy_ok.mpr hb, rfl⟩
  unfold appendBlock appendBlocks appendBlocksWith
  rw [if_neg (List.cons_ne_nil _ _)]
  simp only [List.foldlM_cons, List.foldlM_nil, hoffer, ok_bind, pure_eq_ok, commit, hfaults]

/-- An acceptable block that the database refuses. -/
theorem appendTransaction_of_refused {ε : Type} {faults : ChainFaults ε} {key : SigningKey}
    {namespace_ : Text} {payload : Bytes} {time : ℕ} (hs : s.WellFormed)
    (hname : Namespace.new namespace_ = .ok ⟨namespace_⟩)
    (hchild : ChildOf s.networkId s.headBlock.header s.containsTransaction
      (nextBlock s (nextTransaction s key namespace_ payload) time))
    (hfaults : s.faults = some detail :: rest) :
    (appendTransaction faults key namespace_ payload time).run s =
      (.error (faults.store (.database detail)), { s with faults := rest }) := by
  have hhead := hs.head_height
  have hroom : s.head.height < u64Max := hhead ▸ hchild.room
  have hheight : nextHeight s.head.height = .ok (s.head.height + 1) :=
    nextHeight_eq_ok.mpr ⟨rfl, hroom⟩
  have htx : transactionFor key namespace_ payload (s.head.height + 1) =
      .ok (nextTransaction s key namespace_ payload) := by
    rw [transactionFor, hname]
    rfl
  have hblock : blockAfter s.headBlock (nextTransaction s key namespace_ payload) time =
      .ok (nextBlock s (nextTransaction s key namespace_ payload) time) :=
    blockAfter_eq_ok.mpr ⟨hchild.room, rfl⟩
  have happend := appendBlock_of_refused (by rw [hchild.height, hhead]) hroom hchild hfaults
  simp only [appendTransaction, Program.run_bind, run_readHead, run_readParent, Program.run_lift,
    hheight, htx, hblock, run_append, happend, mapErr]

omit [Platform] in
theorem sameChain_withFaults (s : LocalChainStore) (faults : List (Option Text)) :
    SameChain s { s with faults := faults } := ⟨rfl, rfl, rfl⟩

/-- What a chain accepts next does not depend on what the database will answer. -/
theorem childOf_of_sameChain {t : LocalChainStore} {transaction : Transaction} {time : ℕ}
    (h : SameChain s t)
    (hchild : ChildOf s.networkId s.headBlock.header s.containsTransaction
      (nextBlock s transaction time)) :
    ChildOf t.networkId t.headBlock.header t.containsTransaction (nextBlock t transaction time) := by
  obtain ⟨network, genesis, later, faults⟩ := t
  obtain ⟨rfl, rfl, rfl⟩ := h
  exact hchild

theorem push_of_sameChain {t : LocalChainStore} (h : SameChain s t) (transaction : Transaction)
    (time : ℕ) :
    SameChain (s.push (nextBlock s transaction time)) (t.push (nextBlock t transaction time)) := by
  obtain ⟨network, genesis, later, faults⟩ := t
  obtain ⟨rfl, rfl, rfl⟩ := h
  exact ⟨rfl, rfl, rfl⟩

theorem nextTransaction_of_sameChain {t : LocalChainStore} (h : SameChain s t) (key : SigningKey)
    (namespace_ : Text) (payload : Bytes) :
    nextTransaction t key namespace_ payload = nextTransaction s key namespace_ payload := by
  obtain ⟨network, genesis, later, faults⟩ := t
  obtain ⟨rfl, rfl, rfl⟩ := h
  rfl

end Irena.Ledger
