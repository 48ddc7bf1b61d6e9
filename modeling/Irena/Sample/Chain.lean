import Irena.Ledger.Growth
import Irena.Ledger.Position

/-! # The company on a longer chain

On every chain that goes on from the one that founds it the company is as founded until an amendment
is reached, and the director may sign for it. -/

namespace Irena.Sample

open Irena.Library Irena.Library.Outcome Irena.Library.Strings Irena.Library.Utf8
open Irena.Core Irena.Bornite Irena.Prunella Irena.Prunella.LocalChainStore Irena.Ledger

attribute [local instance] platform signaturesVerify

theorem sound_signed (key : SigningKey) (namespace_ : Text) (payload : Bytes) (nonce : ℕ) :
    (signed key namespace_ payload nonce).Sound :=
  sound_signTransaction key _

/-- Blocks outside the company namespaces leave the company. -/
theorem companyNow_grown {s : LocalChainStore} {state : CompanyStateV1}
    {b : List (List Transaction)} (hstate : companyNow s = .ok state)
    (hforeign : ∀ transactions ∈ b, ∀ t ∈ transactions,
      kindOfNamespace t.namespace_.value = none) :
    companyNow (grown s b) = .ok { state with at_ := s.head.height + b.length } := by
  induction b generalizing s state with
  | nil =>
    obtain ⟨company, -, rfl⟩ := companyNow_eq_ok.mp hstate
    exact hstate
  | cons transactions blocks ih =>
    have hpush := companyNow_push_foreign hstate (b := blockOf s transactions)
      (hforeign transactions List.mem_cons_self)
    rw [grown, List.foldl_cons, ← grown, ih hpush fun u hu => hforeign u (List.mem_cons_of_mem _ hu),
      head_push, List.length_cons]
    have hsum : s.head.height + 1 + blocks.length = s.head.height + (blocks.length + 1) := by omega
    rw [hsum]

/-- The company is as founded until an amendment. -/
theorem reconstruct_grown (blocks more : List (List Transaction))
    (hforeign : ∀ transactions ∈ blocks, ∀ t ∈ transactions,
      kindOfNamespace t.namespace_.value = none) :
    reconstruct (grown founded (blocks ++ more)) blocks.length =
      .ok { acme with at_ := blocks.length } := by
  have hnow := companyNow_grown companyNow_founded hforeign
  have hhead : (grown founded blocks).head.height = blocks.length := by
    rw [head_grown]
    exact Nat.zero_add _
  rw [companyNow, hhead] at hnow
  rw [grown_append, Ledger.Extends.reconstruct (extends_grown _ _) hhead.ge, hnow]
  rw [show founded.head.height + blocks.length = blocks.length from Nat.zero_add _]

/-- The earlier transactions of a block are the ones listed before. -/
theorem earlierInBlock_grown (blocks more : List (List Transaction)) (t u : Transaction)
    (rest : List Transaction) :
    earlierInBlock (grown founded (blocks ++ (t :: rest) :: more)) ⟨blocks.length + 1, 0, t⟩ = [] ∧
    earlierInBlock (grown founded (blocks ++ (t :: u :: rest) :: more)) ⟨blocks.length + 1, 1, u⟩ =
      [⟨blocks.length + 1, 0, t⟩] := by
  have hhead : (grown founded blocks).head.height = blocks.length := by
    rw [head_grown]
    exact Nat.zero_add _
  have hlen : (grown founded blocks).blocks.length = blocks.length + 1 := by
    rw [blocks_length, hhead]
  have hdrop : ∀ transactions, ∃ tail, (grown founded (blocks ++ transactions :: more)).blocks.drop
      (blocks.length + 1) = blockOf (grown founded blocks) transactions :: tail := by
    intro transactions
    obtain ⟨-, tail, htail⟩ := extends_grown
      ((grown founded blocks).push (blockOf (grown founded blocks) transactions)) more
    refine ⟨tail, ?_⟩
    rw [grown_append, grown, List.foldl_cons, ← grown, ← htail, blocks_push, ← hlen,
      List.append_assoc, List.drop_left]
    rfl
  constructor
  · obtain ⟨tail, htail⟩ := hdrop (t :: rest)
    rw [earlierInBlock, htail]
    simp [placed, blockOf, hhead]
  · obtain ⟨tail, htail⟩ := hdrop (t :: u :: rest)
    rw [earlierInBlock, htail]
    simp [placed, blockOf, hhead]

/-- The company before a block is as founded, and remembers some height. -/
theorem companyUpTo_grown (blocks more : List (List Transaction))
    (hforeign : ∀ transactions ∈ blocks, ∀ t ∈ transactions,
      kindOfNamespace t.namespace_.value = none) :
    ∃ height, companyUpTo (grown founded (blocks ++ more)) blocks.length =
      .ok (some { acme with at_ := height }) := by
  have h := reconstruct_grown blocks more hforeign
  have hle : blocks.length ≤ (grown founded (blocks ++ more)).head.height := by
    rw [head_grown, List.length_append]
    omega
  simp only [reconstruct_eq, Nat.min_eq_left hle, bind_eq_ok, orError_eq_ok, pure_eq_ok,
    Except.ok.injEq] at h
  obtain ⟨_, hupto, company, rfl, hcompany⟩ := h
  refine ⟨company.at_, hupto.trans ?_⟩
  obtain ⟨company, at_, genesisTxId, genesisHeight, identity, shares, channels, identities,
    authorisation, applied⟩ := company
  simp only [CompanyStateV1.mk.injEq] at hcompany
  obtain ⟨rfl, -, rfl, rfl, rfl, rfl, rfl, rfl, rfl, rfl⟩ := hcompany
  rfl

/-- The first transaction of the next block finds the company as founded. -/
theorem companyBefore_grown (blocks : List (List Transaction)) {more : List (List Transaction)}
    {t : Transaction} {rest : List Transaction}
    (hs : (grown founded (blocks ++ (t :: rest) :: more)).WellFormed)
    (hforeign : ∀ transactions ∈ blocks, ∀ t ∈ transactions,
      kindOfNamespace t.namespace_.value = none) :
    ∃ height, companyBefore (grown founded (blocks ++ (t :: rest) :: more))
      ⟨blocks.length + 1, 0, t⟩ = .ok (some { acme with at_ := height }) := by
  obtain ⟨height, hupto⟩ := companyUpTo_grown blocks ((t :: rest) :: more) hforeign
  refine ⟨height, ?_⟩
  rw [companyBefore_eq hs rfl, hupto, ok_bind, (earlierInBlock_grown blocks more t t rest).1]
  rfl

/-- The company after a block is what its transactions make of the company as founded. -/
theorem companyNow_steps (blocks : List (List Transaction)) {as : List Transaction}
    {next : ℕ → CompanyStateV1}
    (hforeign : ∀ transactions ∈ blocks, ∀ t ∈ transactions,
      kindOfNamespace t.namespace_.value = none)
    (hsteps : ∀ height, (as.zipIdx.map fun p =>
      LocatedTransaction.mk (blocks.length + 1) p.2 p.1).foldlM stepAt
        (some { acme with at_ := height }) = .ok (some (next height))) :
    ∃ height, companyNow (grown founded (blocks ++ [as])) =
      .ok { next height with at_ := blocks.length + 1 } := by
  have hhead : (grown founded blocks).head.height = blocks.length := by
    rw [head_grown]
    exact Nat.zero_add _
  obtain ⟨height, hupto⟩ := companyUpTo_grown blocks [] hforeign
  rw [List.append_nil, companyUpTo_eq, ← hhead, iterBlocks_head] at hupto
  have hplaced : placed [blockOf (grown founded blocks) as] =
      as.zipIdx.map fun p => ⟨blocks.length + 1, p.2, p.1⟩ := by
    rw [← hhead]
    exact List.append_nil _
  refine ⟨height, companyNow_eq_ok.mpr ⟨next height, ?_, ?_⟩⟩
  · rw [grown_append, grown, List.foldl_cons, List.foldl_nil, blocks_push, placed_append,
      companyAfter_append, hupto, ok_bind, hplaced]
    exact hsteps height
  · rw [head_grown, List.length_append]
    exact congrArg (fun n => ({ next height with at_ := n } : CompanyStateV1)) (Nat.zero_add _).symm

/-- The director signs for the governance of the company as founded, from whatever height. -/
theorem authorisedSigner_acme (height : ℕ) :
    authorisedSigner { acme with at_ := height } .governance (publicKeyOf ann) =
      .ok (person annId ann) := by
  have hat : authorisedSigner { acme with at_ := height } .governance (publicKeyOf ann) =
      authorisedSigner acme .governance (publicKeyOf ann) := rfl
  rw [hat]
  decide +kernel

theorem companySigner_acme :
    authorisedSigner acme .company (publicKeyOf ann) = .ok (person annId ann) := by
  decide +kernel

end Irena.Sample
