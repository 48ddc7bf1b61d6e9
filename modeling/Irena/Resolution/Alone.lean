import Irena.Ledger.Faults
import Irena.Resolution.Mandate

/-! # Executing alone

An execution makes two commits, the amendment and the record that links it to its resolution, and
may stop before either. What the first commit takes with it is the base: no later execution of the
resolution finds it in force. -/

namespace Irena.Resolution

open Irena.Library Irena.Library.Outcome Irena.Library.Strings Irena.Library.Utf8
open Irena.Library.Markup Irena.Core Irena.Prunella Irena.Prunella.LocalChainStore Irena.Ledger

theorem executionNamespace_foreign : kindOfNamespace executionNamespace = none := by
  decide +kernel

/-- The record that links a mandate's resolution to an amendment. -/
def ResolutionV1.Mandate.execution (m : ResolutionV1.Mandate) (amendmentTx : TxId) (digest : Hash) :
    ResolutionExecutionV1 :=
  ⟨m.resolutionId, amendmentTx, m.target, m.approved, digest⟩

variable [Platform]

/-- The amendment that a mandate is carried out with. -/
def ResolutionV1.Mandate.amendment (m : ResolutionV1.Mandate) (s : LocalChainStore)
    (key : SigningKey) (payload : Text) : Transaction :=
  nextTransaction s key m.target.recordKind.namespaceOf (utf8 payload)

/-- A mandate stands and its amendment composes. -/
structure Composes (r : ResolutionV1) (s : LocalChainStore) (key : SigningKey) (n : NotarisationV1)
    (m : ResolutionV1.Mandate) (approval : ApprovalV1) (state : CompanyStateV1) (payload : Text) :
    Prop where
  mandated : Mandated r s key m approval state
  amends : composeAmendment state key m.target.recordKind m.body (some m.approved) n = .ok payload

/-- The amendment that composes goes into the next block. -/
structure Publishable (r : ResolutionV1) (s : LocalChainStore) (key : SigningKey)
    (n : NotarisationV1) (time : ℕ) (m : ResolutionV1.Mandate) (approval : ApprovalV1)
    (state : CompanyStateV1) (payload : Text) : Prop where
  composes : Composes r s key n m approval state payload
  child : ChildOf s.networkId s.headBlock.header s.containsTransaction
    (nextBlock s (m.amendment s key payload) time)

/-- The execution record composes, and goes into the block after. -/
structure Recordable (r : ResolutionV1) (u : LocalChainStore) (key : SigningKey)
    (n : NotarisationV1) (time : ℕ) (execution : ResolutionExecutionV1) (text : Text) : Prop where
  composes : r.executionPayload n execution = .ok text
  child : ChildOf u.networkId u.headBlock.header u.containsTransaction
    (nextBlock u (nextTransaction u key executionNamespace (utf8 text)) time)

section Cases

variable {r : ResolutionV1} {s t u : LocalChainStore} {key : SigningKey} {n : NotarisationV1}
  {time : ℕ} {m : ResolutionV1.Mandate} {approval : ApprovalV1} {state : CompanyStateV1}
  {payload text : Text}

theorem Mandated.of_sameChain (h : Mandated r s key m approval state) (hsame : SameChain s t) :
    Mandated r t key m approval state where
  finalized := h.finalized
  kind := h.kind
  id := h.id
  fresh := by
    have hfresh := findExecution_eq_none.mp h.fresh
    rw [findExecution_eq_none, transactions, blocks_of_sameChain hsame]
    exact hfresh
  authority := checkAuthority_extends h.authority (extends_of_sameChain hsame)
  approved := h.approved
  now := by
    rw [companyNow_of_sameChain hsame]
    exact h.now
  governs := h.governs
  current := h.current
  demotes := h.demotes

theorem Publishable.of_sameChain (h : Publishable r s key n time m approval state payload)
    (hsame : SameChain s t) : Publishable r t key n time m approval state payload := by
  refine ⟨⟨h.composes.mandated.of_sameChain hsame, h.composes.amends⟩, ?_⟩
  have hchild := childOf_of_sameChain hsame h.child
  rw [ResolutionV1.Mandate.amendment, nextTransaction_of_sameChain hsame]
  exact hchild

theorem Recordable.of_sameChain {execution : ResolutionExecutionV1}
    (h : Recordable r s key n time execution text) (hsame : SameChain s t) :
    Recordable r t key n time execution text := by
  refine ⟨h.composes, ?_⟩
  rw [nextTransaction_of_sameChain hsame]
  exact childOf_of_sameChain hsame h.child

/-- What an execution that recorded an amendment and itself returns. -/
def executedAs (r : ResolutionV1) (s u : LocalChainStore) (key : SigningKey)
    (m : ResolutionV1.Mandate) (payload text : Text) : ResolutionV1 × ExecutedV1 :=
  let executed : ExecutedV1 := {
    amendmentTx := (m.amendment s key payload).id
    amendmentHeight := s.head.height + 1
    executionTx := (nextTransaction u key executionNamespace (utf8 text)).id
    executionHeight := u.head.height + 1
    replacedTx := m.approved }
  ({ r with status := .executed, executed := some executed }, executed)

/-- An execution alone leaves the chain, or stops with its amendment published, or records both. -/
theorem execute_cases [WritingScanner] {result : Except ResolutionError (ResolutionV1 × ExecutedV1)}
    (hs : s.WellFormed) (h : (r.execute key n time).run s = (result, t)) :
    (∃ e, result = .error e ∧ SameChain s t) ∨
    ∃ m approval state payload u, Publishable r s key n time m approval state payload ∧
      SameChain (s.push (nextBlock s (m.amendment s key payload) time)) u ∧
      ((∃ e, result = .error e ∧ SameChain u t) ∨
        ∃ text, Recordable r u key n time
            (m.execution (m.amendment s key payload).id r.kind.approvedDigest) text ∧
          SameChain (u.push (nextBlock u (nextTransaction u key executionNamespace (utf8 text)) time))
            t ∧
          result = .ok (executedAs r s u key m payload text)) := by
  have hsame (v : LocalChainStore) : SameChain v v := ⟨rfl, rfl, rfl⟩
  simp only [ResolutionV1.execute, Program.run_bind, Program.run_read, Program.run_lift,
    Program.run_mapError] at h
  cases hmandate : r.mandate s key with
  | error e =>
    simp only [hmandate] at h
    obtain ⟨rfl, rfl⟩ := Prod.mk.inj h
    exact .inl ⟨e, rfl, hsame s⟩
  | ok m =>
    obtain ⟨approval, state, hmandated⟩ := mandate_eq_ok.mp hmandate
    simp only [hmandate] at h
    rcases hpublish : (publish key m.target.recordKind m.body (some m.approved) n time).run s
      with ⟨a, u⟩
    rw [hpublish] at h
    rcases publish_cases hs hpublish with ⟨e, rfl, hchain⟩ |
      ⟨state', payload, record, -, hstate, hpayload, -, rfl, hchain, hchild⟩
    · obtain ⟨rfl, rfl⟩ := Prod.mk.inj h
      exact .inl ⟨_, rfl, hchain⟩
    obtain rfl := Except.ok.inj (hmandated.now.symm.trans hstate)
    refine .inr ⟨m, approval, state, payload, u, ⟨⟨hmandated, hpayload⟩, hchild⟩, hchain, ?_⟩
    simp only [mapErr_ok] at h
    cases htext : r.executionPayload n ⟨m.resolutionId, (publishedRecord s key m.target.recordKind
        payload record).txId, m.target, m.approved, r.kind.approvedDigest⟩ with
    | error e =>
      simp only [htext] at h
      obtain ⟨rfl, rfl⟩ := Prod.mk.inj h
      exact .inl ⟨e, rfl, hsame u⟩
    | ok text =>
      simp only [htext] at h
      have hu : u.WellFormed := .push hs hchild hchain
      rcases happend : (appendTransaction resolutionFaults key executionNamespace (utf8 text)
        time).run u with ⟨b, v⟩
      rw [happend] at h
      rcases appendTransaction_cases hu happend with ⟨e, rfl, hchain'⟩ | ⟨rfl, hchain', hchild'⟩
      · obtain ⟨rfl, rfl⟩ := Prod.mk.inj h
        exact .inl ⟨e, rfl, hchain'⟩
      · obtain ⟨rfl, rfl⟩ := Prod.mk.inj h
        exact .inr ⟨text, ⟨htext, hchild'⟩, hchain', rfl⟩

/-- The chain an amendment was committed to. -/
def amendedOn (s : LocalChainStore) (key : SigningKey) (time : ℕ) (m : ResolutionV1.Mandate)
    (payload : Text) : LocalChainStore :=
  { s.push (nextBlock s (m.amendment s key payload) time) with faults := s.faults.tail }

theorem sameChain_amendedOn :
    SameChain (s.push (nextBlock s (m.amendment s key payload) time)) (amendedOn s key time m payload) :=
  ⟨rfl, rfl, rfl⟩

theorem faults_amendedOn : (amendedOn s key time m payload).faults = s.faults.tail := rfl

theorem height_amendedOn : (amendedOn s key time m payload).head.height = s.head.height + 1 :=
  congrArg ChainHead.height (head_push s _)

theorem time_amendedOn :
    (amendedOn s key time m payload).headBlock.header.timestampMillis = time := by
  rw [amendedOn, headBlock]
  exact congrArg (fun b : Block => b.header.timestampMillis) (headBlock_push s _)

theorem amendedOn_of_sameChain (hsame : SameChain s t) :
    SameChain (amendedOn s key time m payload) (amendedOn t key time m payload) := by
  obtain ⟨network, genesis, later, faults⟩ := t
  obtain ⟨rfl, rfl, rfl⟩ := hsame
  exact ⟨rfl, rfl, rfl⟩

/-- Up to its first commit an execution alone does what publishing does. -/
theorem execute_published [WritingScanner] (hs : s.WellFormed)
    (h : Publishable r s key n time m approval state payload) (hcommits : s.Commits) :
    (r.execute key n time).run s =
      (do
        let text ← Program.lift (r.executionPayload n
          (m.execution (m.amendment s key payload).id r.kind.approvedDigest))
        let (executionTx, executionHeight) ←
          appendTransaction resolutionFaults key executionNamespace (utf8 text) time
        let executed : ExecutedV1 := ⟨(m.amendment s key payload).id, s.head.height + 1, executionTx,
          executionHeight, m.approved⟩
        return ({ r with status := .executed, executed := some executed }, executed) :
          ChainProgram ResolutionError (ResolutionV1 × ExecutedV1)).run
        (amendedOn s key time m payload) := by
  have hmandate := mandate_eq_ok.mpr ⟨approval, state, h.composes.mandated⟩
  obtain ⟨record, -, hpublish⟩ := publish_of_child hs m.target.recordKind_ne
    h.composes.mandated.now h.composes.amends h.child hcommits
  have hread : (Program.read fun s => r.mandate s key : ChainProgram ResolutionError _).run s =
      (.ok m, s) := by
    rw [Program.run_read, hmandate]
  have hamend : ((publish key m.target.recordKind m.body (some m.approved) n time).mapError
      ResolutionError.ledger).run s = (.ok (publishedRecord s key m.target.recordKind payload record),
        amendedOn s key time m payload) := by
    rw [Program.run_mapError, hpublish]
    rfl
  rw [ResolutionV1.execute, Program.run_bind_of_ok hread, Program.run_bind_of_ok hamend]
  rfl

theorem execute_of_recordable [WritingScanner] (hs : s.WellFormed)
    (h : Publishable r s key n time m approval state payload) (hcommits : s.Commits)
    (hrecord : Recordable r (amendedOn s key time m payload) key n time
      (m.execution (m.amendment s key payload).id r.kind.approvedDigest) text)
    (hcommits' : (amendedOn s key time m payload).Commits) :
    ∃ t, (r.execute key n time).run s =
      (.ok (executedAs r s (amendedOn s key time m payload) key m payload text), t) := by
  have hu : (amendedOn s key time m payload).WellFormed := .push hs h.child sameChain_amendedOn
  have hname : Namespace.new executionNamespace = .ok ⟨executionNamespace⟩ := by decide +kernel
  have happend := @appendTransaction_of_child _ _ resolutionFaults _ _ _ _ _ hu hname hrecord.child
    hcommits'
  have hlift : (Program.lift (r.executionPayload n (m.execution (m.amendment s key payload).id
      r.kind.approvedDigest)) : ChainProgram ResolutionError _).run (amendedOn s key time m payload) =
        (.ok text, amendedOn s key time m payload) := by
    rw [Program.run_lift, hrecord.composes]
  rw [execute_published hs h hcommits, Program.run_bind_of_ok hlift, Program.run_bind_of_ok happend]
  exact ⟨_, rfl⟩

theorem execute_of_interrupted [WritingScanner] {detail : Text} {rest : List (Option Text)}
    (hs : s.WellFormed) (h : Publishable r s key n time m approval state payload)
    (hcommits : s.Commits)
    (hrecord : Recordable r (amendedOn s key time m payload) key n time
      (m.execution (m.amendment s key payload).id r.kind.approvedDigest) text)
    (hfaults : (amendedOn s key time m payload).faults = some detail :: rest) :
    (r.execute key n time).run s =
      (.error (.store (.database detail)), { amendedOn s key time m payload with faults := rest }) := by
  have hu : (amendedOn s key time m payload).WellFormed := .push hs h.child sameChain_amendedOn
  have hname : Namespace.new executionNamespace = .ok ⟨executionNamespace⟩ := by decide +kernel
  have happend := @appendTransaction_of_refused _ _ _ _ _ resolutionFaults _ _ _ _ hu hname
    hrecord.child hfaults
  have hlift : (Program.lift (r.executionPayload n (m.execution (m.amendment s key payload).id
      r.kind.approvedDigest)) : ChainProgram ResolutionError _).run (amendedOn s key time m payload) =
        (.ok text, amendedOn s key time m payload) := by
    rw [Program.run_lift, hrecord.composes]
  rw [execute_published hs h hcommits, Program.run_bind_of_ok hlift,
    Program.run_bind_of_error happend]
  rfl

end Cases

end Irena.Resolution
