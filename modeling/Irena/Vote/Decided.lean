import Irena.Sample.Resolved
import Irena.Sample.Voted
import Irena.Vote.Frozen

/-! # Which votes can be decided

A channel's rules are read without an electorate, and the electorate comes from a register or a
roster amended apart from them. Bornite refuses to count under rules that contradict the electorate,
and nothing before the count asks. -/

namespace Irena.Vote

open Irena.Library Irena.Library.Outcome Irena.Library.Strings
open Irena.Core Irena.Bornite Irena.Prunella Irena.Prunella.LocalChainStore Irena.Ledger
open Irena.Decision

section Rules

variable [Platform]

/-- The rules of the channel are valid for the electorate that the company of a height has in it. -/
def Valid (s : LocalChainStore) (at_ : ℕ) (channel : ChannelIdV1) : Prop :=
  ∃ state resolved rules, reconstruct s at_ = .ok state ∧
    resolveChannel state channel = .ok resolved ∧ resolved.rules = some rules ∧
    validate rules resolved.actors.electorate = .ok ()

theorem FrozenAt.valid_iff {s : LocalChainStore} {snapshot : VoteSnapshotV1}
    {state : CompanyStateV1} {channel : ChannelIdV1} {resolved : ResolvedChannelV1}
    {rules : VotingRulesV1} (h : FrozenAt s snapshot state channel resolved rules) :
    Valid s snapshot.height channel ↔ validate rules resolved.actors.electorate = .ok () := by
  constructor
  · rintro ⟨_, _, _, hstate, hresolved, hrules, hvalid⟩
    obtain rfl := Except.ok.inj (h.reconstructs.symm.trans hstate)
    obtain rfl := Except.ok.inj (h.resolves.symm.trans hresolved)
    obtain rfl := Option.some.inj (h.collective.symm.trans hrules)
    exact hvalid
  · intro hvalid
    exact ⟨state, resolved, rules, h.reconstructs, h.resolves, h.collective, hvalid⟩

/-- A closed vote is evaluated exactly when its ballots can be counted now. -/
theorem evaluates_isOk_iff {v : VoteV1} {s : LocalChainStore} (hstatus : v.status = .closed) :
    (∃ r, v.evaluates s = .ok r) ↔ ∃ evaluation, v.evaluateNow s = .ok evaluation := by
  constructor
  · rintro ⟨⟨w, evaluation⟩, h⟩
    exact ⟨evaluation, (evaluates_eq_ok.mp h).2.1⟩
  · rintro ⟨evaluation, h⟩
    exact ⟨_, evaluates_eq_ok.mpr ⟨hstatus, h, rfl⟩⟩

theorem conducted_isOk_iff {s t : LocalChainStore} {at_ : ℕ} {channel : ChannelIdV1}
    {subject : Text} {proposalDigest : Hash} {ballots : List SignedBallotV1} {closed : VoteV1}
    (hle : at_ ≤ s.head.height)
    (h : conduct s at_ channel subject proposalDigest ballots = .ok closed) (hext : s.Extends t) :
    (∃ r, closed.evaluates t = .ok r) ↔ Valid s at_ channel := by
  obtain ⟨snapshot, state, resolved, rules, hfrozen, rfl, hholds, hstatus⟩ := conduct_eq_ok h
  rw [evaluates_isOk_iff hstatus, hfrozen.valid_iff]
  exact (hfrozen.extends_ hext hle).evaluateNow_isOk_iff hholds

/-- On every extension a closed vote can be decided exactly when the rules of its channel are valid
for the electorate it froze; neither the ballots nor later records decide. -/
theorem decided_iff {s : LocalChainStore} {at_ : ℕ} {channel : ChannelIdV1} {subject : Text}
    {proposalDigest : Hash} {ballots : List SignedBallotV1} {closed : VoteV1}
    (hle : at_ ≤ s.head.height)
    (h : conduct s at_ channel subject proposalDigest ballots = .ok closed) :
    (∀ t, s.Extends t → ∃ r, closed.evaluates t = .ok r) ↔ Valid s at_ channel :=
  ⟨fun hall => (conducted_isOk_iff hle h (.refl s)).mp (hall s (.refl s)),
    fun hvalid _ hext => (conducted_isOk_iff hle h hext).mpr hvalid⟩

end Rules

section Samples

open Irena.Sample

attribute [local instance] platform signaturesVerify

theorem freeze_founded (subject : Text) (digest : Hash) (n : ℕ) : ∃ frozen,
    (VoteV1.draft subject digest).freeze founded n shareholders.id = .ok frozen ∧
      frozen.snapshot = some (voteSnapshot subject digest n) ∧ frozen.box = .empty := by
  have hrules : ({ shareholdersResolved with height := n } : ResolvedChannelV1).rules ≠ none := by
    rw [show ({ shareholdersResolved with height := n } : ResolvedChannelV1).rules =
      shareholdersResolved.rules from rfl, rules_shareholdersResolved]
    exact Option.some_ne_none _
  refine ⟨_, freeze_eq_ok.mpr ⟨rfl, { acme with at_ := n }, _,
    reconstruct_above companyNow_founded (Nat.zero_le n),
    resolveChannel_at resolveChannel_shareholders n, hrules, rfl⟩, ?_, rfl⟩
  rw [VoteV1.snapshotOf, electorate_shareholdersResolved]
  rfl

/-- The shareholder votes on the chain that founds the company, at a height of its own choice. -/
theorem conduct_founded (n : ℕ) : ∃ closed, conduct founded n shareholders.id (lit "Budget") ⟨7⟩
    [yes (voteSnapshot (lit "Budget") ⟨7⟩ n)] = .ok closed ∧ closed.status = .closed ∧
      closed.snapshot = some (voteSnapshot (lit "Budget") ⟨7⟩ n) ∧
      closed.box.ballots = [yes (voteSnapshot (lit "Budget") ⟨7⟩ n)] := by
  obtain ⟨frozen, hfreeze, hsnapshot, hbox⟩ := freeze_founded (lit "Budget") ⟨7⟩ n
  have hempty : frozen.box.get bobId.value = none := by
    rw [hbox]
    rfl
  have hcast : ({ frozen with status := .open_ } : VoteV1).cast
      (yes (voteSnapshot (lit "Budget") ⟨7⟩ n)) = .ok _ :=
    cast_eq_ok.mpr ⟨rfl, _, bobId, hsnapshot, check_yes _ _ n, hempty, rfl⟩
  have hcasts : [yes (voteSnapshot (lit "Budget") ⟨7⟩ n)].foldlM VoteV1.cast
      { frozen with status := .open_ } = .ok { frozen with
        status := .open_
        box := frozen.box.insert (bobId.value, yes (voteSnapshot (lit "Budget") ⟨7⟩ n)) } := by
    rw [List.foldlM_cons, hcast, ok_bind, List.foldlM_nil, pure_eq_ok]
  refine ⟨_, conduct_of_casts hfreeze hcasts, rfl, hsnapshot, ?_⟩
  rw [hbox]
  rfl

theorem valid_founded : Valid founded 0 shareholders.id :=
  ⟨acme, shareholdersResolved, majority, companyNow_founded, resolveChannel_shareholders,
    rules_shareholdersResolved, by decide +kernel⟩

/-- The shareholder's vote can be decided. -/
theorem decided_founded : ∃ closed,
    conduct founded 0 shareholders.id (lit "Budget") ⟨7⟩ [yes budget] = .ok closed ∧
      ∀ t, founded.Extends t → ∃ r, closed.evaluates t = .ok r := by
  obtain ⟨closed, h, -⟩ := conduct_founded 0
  exact ⟨closed, h, (decided_iff le_rfl h).mpr valid_founded⟩

/-- The register in which the shareholder has two shares. -/
theorem two_le_u64Max : 2 ≤ u64Max := by
  decide

def doubled : ShareStructureV1 :=
  (ShareStructureV1.new [⟨bobId, none, ⟨2, two_le_u64Max⟩⟩]).toOption.get (by decide +kernel)

def doubledXml : Text :=
  lit "<share-structure><holder id=\"bob\" shares=\"2\"/></share-structure>"

/-- The chain on which the register is amended so. -/
def doubling : LocalChainStore :=
  grown founded [[amendmentTransaction .shareStructure doubledXml]]

theorem doubling_wellFormed : doubling.WellFormed := by
  refine wellFormed_grown founded_wellFormed (by decide) rfl (by decide) ?_ (by decide +kernel)
  simp only [List.mem_cons, List.not_mem_nil, or_false, forall_eq]
  exact sound_signed ..

theorem doubling_reads : readRecord (amendmentXml .shareStructure doubledXml) =
    .ok (amendmentRecord (.shareStructure doubled)) := by
  decide +kernel

/-- The company once the register is amended. -/
theorem companyNow_doubling : ∃ state, companyNow doubling = .ok state ∧
    state.shares.value = doubled ∧ state.channels.value = channels ∧
      state.identities.value = identities := by
  have hsteps : ∀ height, ([amendmentTransaction .shareStructure doubledXml].zipIdx.map
      fun p => LocatedTransaction.mk 1 p.2 p.1).foldlM stepAt (some { acme with at_ := height }) =
        .ok (some (amendedBy { acme with at_ := height }
          (amendmentRef .shareStructure doubledXml (.shareStructure doubled) 1 0))) := by
    intro height
    have hstep : stepAt (some { acme with at_ := height })
        ⟨1, 0, amendmentTransaction .shareStructure doubledXml⟩ = .ok (some (amendedBy
          { acme with at_ := height }
          (amendmentRef .shareStructure doubledXml (.shareStructure doubled) 1 0))) :=
      stepAt_amendment doubling_reads rfl (by decide) rfl companySigner_acme rfl
        (open_of_companyNow companyNow_founded :)
    simp only [List.zipIdx_cons, List.zipIdx_nil, List.map_cons, List.map_nil]
    rw [List.foldlM_cons, hstep, ok_bind, List.foldlM_nil, pure_eq_ok]
  obtain ⟨height, hnow⟩ := companyNow_steps [] (by simp) hsteps
  exact ⟨_, hnow, rfl, rfl, rfl⟩

/-- Who votes with the register amended. -/
def doubledActors : ActorSetV1 :=
  (actorsOf .shareRegister doubled identities).toOption.get (by decide +kernel)

theorem head_doubling : doubling.head.height = 1 := head_grown ..

theorem resolveChannel_doubling : ∃ state resolved, reconstruct doubling 1 = .ok state ∧
    resolveChannel state shareholders.id = .ok resolved ∧ resolved.channel = shareholders ∧
      resolved.actors = doubledActors := by
  obtain ⟨state, hnow, hshares, hchannels, hidentities⟩ := companyNow_doubling
  have hstate : reconstruct doubling 1 = .ok state := by
    rw [← head_doubling]
    exact hnow
  have hget : state.channels.value.get shareholders.id = some shareholders := by
    rw [hchannels]
    decide +kernel
  have hactors : actorsOf shareholders.actors state.shares.value state.identities.value =
      .ok doubledActors := by
    rw [hshares, hidentities]
    exact eq_ok_of_toOption _
  have hcollective : shareholders.mode.isIndividual ≠ true := Bool.false_ne_true
  exact ⟨state, _, hstate, resolveChannel_eq_ok.mpr
    ⟨shareholders, doubledActors, hget, hactors, fun h => absurd h hcollective, rfl⟩, rfl, rfl⟩

theorem freeze_doubling (subject : Text) (digest : Hash) : ∃ frozen,
    (VoteV1.draft subject digest).freeze doubling 1 shareholders.id = .ok frozen := by
  obtain ⟨state, resolved, hstate, hresolved, hchannel, -⟩ := resolveChannel_doubling
  refine ⟨_, freeze_eq_ok.mpr ⟨rfl, state, resolved, hstate, hresolved, ?_, rfl⟩⟩
  rw [ResolvedChannelV1.rules, hchannel]
  exact Option.some_ne_none majority

theorem not_valid_doubling : ¬ Valid doubling 1 shareholders.id := by
  rintro ⟨_, _, rules, hstate, hresolved, hrules, hvalid⟩
  obtain ⟨state, resolved, hstate', hresolved', hchannel, hactors⟩ := resolveChannel_doubling
  obtain rfl := Except.ok.inj (hstate.symm.trans hstate')
  obtain rfl := Except.ok.inj (hresolved.symm.trans hresolved')
  rw [ResolvedChannelV1.rules, hchannel] at hrules
  obtain rfl : majority = rules := Option.some.inj hrules
  have hinvalid : validate majority doubledActors.electorate ≠ .ok () := by decide +kernel
  exact hinvalid (hactors ▸ hvalid)

/-- A vote frozen at the head that can never be counted: its channel counts its shareholders equally,
and the one there is has two shares. -/
theorem undecided_doubling : ∃ closed, doubling.WellFormed ∧ doubling.head.height = 1 ∧
    conduct doubling 1 shareholders.id (lit "Budget") ⟨7⟩ [] = .ok closed ∧
      ∀ t, doubling.Extends t → ∀ r, closed.evaluates t ≠ .ok r := by
  obtain ⟨frozen, hfreeze⟩ := freeze_doubling (lit "Budget") ⟨7⟩
  obtain ⟨closed, hconduct⟩ := conduct_nil hfreeze
  exact ⟨closed, doubling_wellFormed, head_doubling, hconduct, fun t hext r hr =>
    not_valid_doubling ((conducted_isOk_iff head_doubling.ge hconduct hext).mp ⟨r, hr⟩)⟩

end Samples

end Irena.Vote
