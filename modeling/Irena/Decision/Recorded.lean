import Irena.Decision.Soundness
import Irena.Ledger.Among

/-! # Governance records on the chain

Votes, decisions, meetings and resolutions are recorded alike: somebody who signs for the governance
of the company now appends a transaction that the company does not read. The company stays as it
was, and the record stands in a block of its own whose signer is authorised there. -/

namespace Irena.Decision

open Irena.Library Irena.Library.Outcome Irena.Library.Strings
open Irena.Core Irena.Bornite Irena.Prunella Irena.Prunella.LocalChainStore Irena.Ledger

variable [Platform]

/-- The key signs for the governance of the company now. -/
def Governs (s : LocalChainStore) (key : SigningKey) : Prop :=
  ∃ state person, companyNow s = .ok state ∧
    authorisedSigner state .governance (Platform.publicKey key) = .ok person

/-- A governance signer of the company now has recorded a payload in the next block. -/
structure Recorded (s t : LocalChainStore) (key : SigningKey) (namespace_ : Text) (payload : Bytes)
    (time : ℕ) : Prop where
  wellFormed : s.WellFormed
  foreign : kindOfNamespace namespace_ = none
  authorised : Governs s key
  chain : SameChain (s.push (nextBlock s (nextTransaction s key namespace_ payload) time)) t
  child : ChildOf s.networkId s.headBlock.header s.containsTransaction
    (nextBlock s (nextTransaction s key namespace_ payload) time)

namespace Recorded

variable {s t : LocalChainStore} {key : SigningKey} {namespace_ : Text} {payload : Bytes} {time : ℕ}

theorem extends_ (h : Recorded s t key namespace_ payload time) : s.Extends t :=
  (extends_push s _).trans (extends_of_sameChain h.chain)

theorem wellFormed_after (h : Recorded s t key namespace_ payload time) : t.WellFormed :=
  .push h.wellFormed h.child h.chain

theorem height (h : Recorded s t key namespace_ payload time) :
    t.head.height = s.head.height + 1 := by
  rw [head, h.chain.2.2]
  exact congrArg ChainHead.height (head_push _ _)

theorem found (h : Recorded s t key namespace_ payload time) :
    t.getTransaction (nextTransaction s key namespace_ payload).id =
      some ⟨s.head.height + 1, 0, nextTransaction s key namespace_ payload⟩ :=
  getTransaction_next h.wellFormed h.child h.chain

theorem now (h : Recorded s t key namespace_ payload time) {state : CompanyStateV1}
    (hnow : companyNow s = .ok state) :
    companyNow t = .ok { state with at_ := s.head.height + 1 } := by
  rw [companyNow_of_sameChain h.chain]
  refine companyNow_push_foreign hnow fun u hu => ?_
  rw [List.mem_singleton.mp hu]
  exact h.foreign

theorem signer (h : Recorded s t key namespace_ payload time) :
    signerAuthorisedAt t (s.head.height + 1) (Platform.publicKey key) = true := by
  obtain ⟨state, person, hnow, hperson⟩ := h.authorised
  have hafter := h.now hnow
  rw [companyNow, h.height] at hafter
  exact signerAuthorisedAt_iff.mpr ⟨_, person, hafter, hperson⟩

end Recorded

/-- Appending for a governance signer of the company now either leaves the chain or records. -/
theorem recorded_of_append {ε : Type} {faults : ChainFaults ε} {key : SigningKey}
    {namespace_ : Text} {payload : Bytes} {time : ℕ} {s t : LocalChainStore}
    {r : Except ε (TxId × ℕ)} {state : CompanyStateV1} {person : PersonV1} (hs : s.WellFormed)
    (hforeign : kindOfNamespace namespace_ = none) (hnow : companyNow s = .ok state)
    (hperson : authorisedSigner state .governance (Platform.publicKey key) = .ok person)
    (h : (appendTransaction faults key namespace_ payload time).run s = (r, t)) :
    (∃ e, r = .error e ∧ SameChain s t) ∨
      (r = .ok ((nextTransaction s key namespace_ payload).id, s.head.height + 1) ∧
        Recorded s t key namespace_ payload time) := by
  rcases appendTransaction_cases hs h with herror | ⟨hr, hchain, hchild⟩
  · exact .inl herror
  · exact .inr ⟨hr, hs, hforeign, ⟨state, person, hnow, hperson⟩, hchain, hchild⟩

/-- What others append leaves a key a governance signer, if it was one. -/
structure Leaves (key : SigningKey) (s t : LocalChainStore) : Prop where
  grows : Grows s t
  governs : Governs s key → Governs t key

namespace Leaves

variable {key : SigningKey}

theorem refl (s : LocalChainStore) : Leaves key s s := ⟨.refl s, id⟩

theorem trans (s t u : LocalChainStore) (h : Leaves key s t) (k : Leaves key t u) : Leaves key s u :=
  ⟨h.grows.trans _ _ _ k.grows, fun hs => k.governs (h.governs hs)⟩

/-- A block that the company does not read leaves every key. -/
theorem appendBlock (s : LocalChainStore) {b : Block}
    (hforeign : ∀ t ∈ b.transactions, kindOfNamespace t.namespace_.value = none) :
    Leaves key s (s.appendBlock b).2 := by
  refine ⟨.appendBlock s b, fun ⟨state, person, hnow, hperson⟩ => ?_⟩
  rcases appendBlock_cases (rfl : s.appendBlock b = (_, (s.appendBlock b).2)) with
    ⟨e, -, hsame⟩ | ⟨-, hsame, -⟩ | ⟨-, hsame, -⟩
  · exact ⟨state, person, (companyNow_of_sameChain hsame).trans hnow, hperson⟩
  · exact ⟨state, person, (companyNow_of_sameChain hsame).trans hnow, hperson⟩
  · exact ⟨_, person, (companyNow_of_sameChain hsame).trans (companyNow_push_foreign hnow hforeign),
      hperson⟩

/-- An operation that appends what the company does not read leaves every key. -/
theorem appendTransaction {ε : Type} {faults : ChainFaults ε} {signing : SigningKey}
    {namespace_ : Text} {payload : Bytes} {time : ℕ}
    (hforeign : kindOfNamespace namespace_ = none) :
    (Ledger.appendTransaction faults signing namespace_ payload time).Moves (Leaves key) := by
  refine .bind (.read refl _) fun head => ?_
  refine .bind (.read refl _) fun parent => ?_
  refine .bind (.lift _) fun height => ?_
  refine .bind_lift fun transaction htransaction => ?_
  refine .bind_lift fun block hblock => ?_
  obtain rfl := transactionFor_eq_ok (mapErr_eq_ok.mp htransaction)
  obtain ⟨-, rfl⟩ := blockAfter_eq_ok.mp (mapErr_eq_ok.mp hblock)
  refine .bind (.modify fun s => appendBlock s fun t ht => ?_) fun _ => trivial
  obtain rfl := List.mem_singleton.mp ht
  exact hforeign

theorem readCompanyNow : Ledger.readCompanyNow.Moves (Leaves key) :=
  .bind (.read refl _) fun _ => .bind (.read refl _) fun _ => .bind (.read refl _) fun _ => .lift _

end Leaves

/-- Appending for a governance signer among others who leave the key its office records the payload
after some chain on the way, from which the chain has grown since. -/
theorem recorded_among {ε : Type} {faults : ChainFaults ε} {key : SigningKey} {namespace_ : Text}
    {payload : Bytes} {time : ℕ} {s t : LocalChainStore} {r : TxId × ℕ} (hs : s.WellFormed)
    (hforeign : kindOfNamespace namespace_ = none) (hgoverns : Governs s key)
    (h : Program.RunsAmong (Leaves key) (appendTransaction faults key namespace_ payload time) s
      (.ok r) t) :
    ∃ u v, s.Extends u ∧ r = ((nextTransaction u key namespace_ payload).id, u.head.height + 1) ∧
      Recorded u v key namespace_ payload time ∧ v.Extends t ∧ t.WellFormed := by
  obtain ⟨u, hsu, hu, hr, hchild, hext, ht⟩ := appended_among (fun _ _ h => h.grows) hs h
  exact ⟨u, _, hsu.grows.extends_, hr,
    ⟨hu, hforeign, hsu.governs hgoverns, ⟨rfl, rfl, rfl⟩, hchild⟩, hext, ht⟩

end Irena.Decision
