import Irena.Ledger.Publish
import Irena.Bornite.Evaluate

/-! # Resolving a decision channel

The actors of a channel are the holders of the share register or the members of its own roster,
each with the key the identities in force give it. -/

namespace Irena.Decision

open Irena.Library Irena.Library.Outcome Irena.Library.Strings
open Irena.Core Irena.Bornite Irena.Prunella Irena.Ledger

inductive DecisionStatusV1 where
  | draft
  | frozen
  | signed
  | finalized
deriving DecidableEq

inductive DecisionError where
  | noSuchChannel (channel : ChannelIdV1) (height : ℕ)
  | notSingleActor (channel : ChannelIdV1) (found : ℕ)
  | notIndividual (channel : ChannelIdV1)
  | noKey (channel : ChannelIdV1) (actor : Text)
  | wrongKey (actor : Text)
  | badSignature (error : CryptoError)
  | invalidTransition (source : DecisionStatusV1) (target : Text)
  | ledger (error : LedgerError)
  | derivation (error : Bornite.CoreError)
  | store (error : StoreError)
  | core (error : Prunella.CoreError)
  | missingHead (height : ℕ)
  | noSuchTransaction (txId : TxId)
  | channelsMoved (height : ℕ) (expected found : TxId)
  | label (error : IrenaError)
  | panicked
deriving DecidableEq

structure ActorV1 where
  id : VoterIdV1
  weight : WeightV1
  key : Option PublicKey
  canSign : Bool
deriving DecidableEq

structure ActorSetV1 where
  electorate : ElectorateV1
  actors : List ActorV1
  totalWeight : WeightTotalV1
  signingActors : ℕ
deriving DecidableEq

def ActorSetV1.build (actors : List ActorV1) : Except DecisionError ActorSetV1 := do
  let voters := actors.map fun a => VoterV1.mk a.id a.weight false
  let totalWeight ← mapErr .derivation (WeightTotalV1.sum (actors.map ActorV1.weight))
  let electorate ← mapErr .derivation (ElectorateV1.new voters)
  return ⟨electorate, actors, totalWeight, (actors.filter ActorV1.canSign).length⟩

def ActorSetV1.get (s : ActorSetV1) (id : VoterIdV1) : Option ActorV1 :=
  SortedTable.binarySearch ActorV1.id id s.actors

def actor (id : VoterIdV1) (weight : U64) (identities : IdentitiesV1) :
    Except DecisionError ActorV1 := do
  let key := identities.keyOf id
  let weight ← mapErr .derivation (WeightV1.new weight)
  return ⟨id, weight, key, key.isSome⟩

def actorsOfRegister (register : ShareStructureV1) (identities : IdentitiesV1) :
    Except DecisionError ActorSetV1 := do
  let actors ← register.holders.mapM fun holder => actor holder.id holder.shares identities
  ActorSetV1.build actors

def actorsOfRoster (roster : RosterV1) (identities : IdentitiesV1) :
    Except DecisionError ActorSetV1 := do
  let actors ← roster.members.mapM fun member => actor member.id member.weight identities
  ActorSetV1.build actors

def actorsOf (source : ActorSourceV1) (register : ShareStructureV1) (identities : IdentitiesV1) :
    Except DecisionError ActorSetV1 :=
  match source with
  | .shareRegister => actorsOfRegister register identities
  | .roster roster => actorsOfRoster roster identities

structure ResolvedChannelV1 where
  channel : DecisionChannelV1
  channelsTxId : TxId
  sharesTxId : TxId
  identitiesTxId : TxId
  height : ℕ
  actors : ActorSetV1
deriving DecidableEq

namespace ResolvedChannelV1

def soleActor (r : ResolvedChannelV1) : Option ActorV1 :=
  match r.channel.mode with
  | .individual => r.actors.actors.head?
  | .collective _ => none

def rules (r : ResolvedChannelV1) : Option VotingRulesV1 := r.channel.mode.rules

end ResolvedChannelV1

/-- Resolves a channel of the company against the parts in force. -/
def resolveChannel (state : CompanyStateV1) (id : ChannelIdV1) :
    Except DecisionError ResolvedChannelV1 := do
  let channel ← orError (state.channels.value.get id) (.noSuchChannel id state.at_)
  let actors ← actorsOf channel.actors state.shares.value state.identities.value
  ensure (channel.mode.isIndividual → actors.actors.length = 1)
    (.notSingleActor id actors.actors.length)
  return ⟨channel, state.channels.txId, state.shares.txId, state.identities.txId, state.at_, actors⟩

theorem actor_eq_ok {id : VoterIdV1} {weight : U64} {identities : IdentitiesV1} {a : ActorV1} :
    actor id weight identities = .ok a ↔ ∃ w, WeightV1.new weight = .ok w ∧
      a = ⟨id, w, identities.keyOf id, (identities.keyOf id).isSome⟩ := by
  simp only [actor, bind_eq_ok, mapErr_eq_ok, pure_eq_ok, Except.ok.injEq, @eq_comm _ a]

theorem mapM_keys {α : Type} {xs : List α} {id : α → VoterIdV1} {weight : α → U64}
    {identities : IdentitiesV1} {actors : List ActorV1}
    (h : xs.mapM (fun x => actor (id x) (weight x) identities) = .ok actors) :
    ∀ a ∈ actors, a.key = identities.keyOf a.id := by
  have hkeys : actors.map (fun a => (a.id, a.key)) =
      xs.map fun x => (id x, identities.keyOf (id x)) := by
    refine map_eq_of_mapM (fun x _ a ha => ?_) h
    obtain ⟨w, -, rfl⟩ := actor_eq_ok.mp ha
    rfl
  intro a ha
  have hmem := List.mem_map_of_mem (f := fun a => (a.id, a.key)) ha
  rw [hkeys] at hmem
  obtain ⟨x, -, hx⟩ := List.mem_map.mp hmem
  obtain ⟨hid, hkey⟩ := Prod.mk.inj hx
  rw [← hkey, ← hid]

theorem mapM_ids {α : Type} {xs : List α} {id : α → VoterIdV1} {weight : α → U64}
    {identities : IdentitiesV1} {actors : List ActorV1}
    (h : xs.mapM (fun x => actor (id x) (weight x) identities) = .ok actors) :
    actors.map ActorV1.id = xs.map id := by
  refine map_eq_of_mapM (fun x _ a ha => ?_) h
  obtain ⟨w, -, rfl⟩ := actor_eq_ok.mp ha
  rfl

theorem build_actors {actors : List ActorV1} {s : ActorSetV1} (h : ActorSetV1.build actors = .ok s) :
    s.actors = actors := by
  simp only [ActorSetV1.build, bind_eq_ok, pure_eq_ok, Except.ok.injEq] at h
  obtain ⟨_, -, _, -, rfl⟩ := h
  rfl

theorem build_electorate {actors : List ActorV1} {s : ActorSetV1}
    (h : ActorSetV1.build actors = .ok s) :
    ElectorateV1.new (s.actors.map fun a => ⟨a.id, a.weight, false⟩) = .ok s.electorate := by
  rw [build_actors h]
  simp only [ActorSetV1.build, bind_eq_ok, mapErr_eq_ok, pure_eq_ok, Except.ok.injEq] at h
  obtain ⟨_, -, electorate, helectorate, rfl⟩ := h
  exact helectorate

theorem build_of_actorsOf {source : ActorSourceV1} {register : ShareStructureV1}
    {identities : IdentitiesV1} {s : ActorSetV1} (h : actorsOf source register identities = .ok s) :
    ActorSetV1.build s.actors = .ok s := by
  cases source with
  | shareRegister =>
    simp only [actorsOf, actorsOfRegister, bind_eq_ok] at h
    obtain ⟨actors, -, hbuild⟩ := h
    rw [build_actors hbuild, hbuild]
  | roster roster =>
    simp only [actorsOf, actorsOfRoster, bind_eq_ok] at h
    obtain ⟨actors, -, hbuild⟩ := h
    rw [build_actors hbuild, hbuild]

theorem actorsOf_sorted {source : ActorSourceV1} {register : ShareStructureV1}
    {identities : IdentitiesV1} {s : ActorSetV1} (h : actorsOf source register identities = .ok s) :
    (s.actors.map ActorV1.id).Pairwise (· < ·) := by
  cases source with
  | shareRegister =>
    simp only [actorsOf, actorsOfRegister, bind_eq_ok] at h
    obtain ⟨actors, hactors, hbuild⟩ := h
    rw [build_actors hbuild, mapM_ids hactors, List.pairwise_map]
    exact register.table.sorted
  | roster roster =>
    simp only [actorsOf, actorsOfRoster, bind_eq_ok] at h
    obtain ⟨actors, hactors, hbuild⟩ := h
    rw [build_actors hbuild, mapM_ids hactors, List.pairwise_map]
    exact roster.table.sorted

theorem key_of_actorsOf {source : ActorSourceV1} {register : ShareStructureV1}
    {identities : IdentitiesV1} {s : ActorSetV1} (h : actorsOf source register identities = .ok s) :
    ∀ a ∈ s.actors, a.key = identities.keyOf a.id := by
  cases source with
  | shareRegister =>
    simp only [actorsOf, actorsOfRegister, bind_eq_ok] at h
    obtain ⟨actors, hactors, hbuild⟩ := h
    rw [build_actors hbuild]
    exact mapM_keys hactors
  | roster roster =>
    simp only [actorsOf, actorsOfRoster, bind_eq_ok] at h
    obtain ⟨actors, hactors, hbuild⟩ := h
    rw [build_actors hbuild]
    exact mapM_keys hactors

/-- The persons a source names. -/
def actorIds (source : ActorSourceV1) (register : ShareStructureV1) : List VoterIdV1 :=
  match source with
  | .shareRegister => register.holders.map HolderV1.id
  | .roster roster => roster.members.map MemberV1.id

/-- Listed ids of positive weight with a total that fits are actors, whatever their keys. -/
theorem build_of_listed {α : Type} {xs : List α} {id : α → VoterIdV1} {weight : α → U64}
    (hsorted : xs.Pairwise fun x y => id x < id y) (hpositive : ∀ x ∈ xs, (weight x).val ≠ 0)
    (htotal : (xs.map fun x => (weight x).val).sum ≤ u64Max) (identities : IdentitiesV1) :
    ∃ s, (do
        let actors ← xs.mapM fun x => actor (id x) (weight x) identities
        ActorSetV1.build actors) = .ok s ∧ s.actors.map ActorV1.id = xs.map id := by
  have hweight : ∀ x ∈ xs, ∃ a, actor (id x) (weight x) identities = .ok a ∧ a.id = id x ∧
      a.weight.value = (weight x).val := by
    intro x hx
    have hpos := Nat.pos_of_ne_zero (hpositive x hx)
    have hnew : WeightV1.new (weight x) = .ok ⟨(weight x).val, hpos, (weight x).2⟩ := dif_pos hpos
    exact ⟨_, actor_eq_ok.mpr ⟨_, hnew, rfl⟩, rfl, rfl⟩
  obtain ⟨actors, hactors⟩ := mapM_isOk fun x hx => (hweight x hx).imp fun _ h => h.1
  have hids := mapM_ids hactors
  have hvalues : actors.map (fun a => a.weight.value) = xs.map fun x => (weight x).val := by
    refine map_eq_of_mapM (fun x hx a ha => ?_) hactors
    obtain ⟨a', ha', -, hvalue⟩ := hweight x hx
    obtain rfl := Except.ok.inj (ha.symm.trans ha')
    exact hvalue
  have hsum : WeightTotalV1.sum (actors.map ActorV1.weight) =
      .ok ⟨(xs.map fun x => (weight x).val).sum, htotal⟩ := by
    rw [WeightTotalV1.sum_eq_ok, List.map_map]
    exact congrArg List.sum hvalues.symm
  have hnodup : ((actors.map fun a => VoterV1.mk a.id a.weight false).map VoterV1.id).Nodup := by
    rw [List.map_map]
    change (actors.map ActorV1.id).Nodup
    rw [hids]
    exact (List.pairwise_map.mpr (hsorted.imp fun h => ne_of_lt h))
  obtain ⟨electorate, helectorate⟩ := SortedTable.ofList_isOk.mpr hnodup
  refine ⟨⟨electorate, actors, ⟨_, htotal⟩, (actors.filter ActorV1.canSign).length⟩, ?_, hids⟩
  rw [hactors, ok_bind]
  simp only [ActorSetV1.build, hsum, mapErr_ok, ok_bind, ElectorateV1.new, helectorate, pure_eq_ok]

/-- Resolving a source never fails, and its actors are the persons it names. -/
theorem actorsOf_total (source : ActorSourceV1) (register : ShareStructureV1)
    (identities : IdentitiesV1) : ∃ s, actorsOf source register identities = .ok s ∧
      s.actors.map ActorV1.id = actorIds source register := by
  cases source with
  | shareRegister =>
    exact build_of_listed register.table.sorted register.positive register.total identities
  | roster roster =>
    exact build_of_listed roster.table.sorted roster.positive roster.total identities

theorem resolveChannel_eq_ok {state : CompanyStateV1} {id : ChannelIdV1} {r : ResolvedChannelV1} :
    resolveChannel state id = .ok r ↔
      ∃ channel actors, state.channels.value.get id = some channel ∧
        actorsOf channel.actors state.shares.value state.identities.value = .ok actors ∧
        (channel.mode.isIndividual → actors.actors.length = 1) ∧
        r = ⟨channel, state.channels.txId, state.shares.txId, state.identities.txId, state.at_,
          actors⟩ := by
  simp only [resolveChannel, bind_eq_ok, orError_eq_ok, ensure_eq_ok, pure_eq_ok, Except.ok.injEq]
  constructor
  · rintro ⟨channel, hget, actors, hactors, -, hsole, rfl⟩
    exact ⟨channel, actors, hget, hactors, hsole, rfl⟩
  · rintro ⟨channel, actors, hget, hactors, hsole, rfl⟩
    exact ⟨channel, hget, actors, hactors, (), hsole, rfl⟩

/-- Resolution depends on the parts in force alone; the height is only passed on. -/
theorem resolveChannel_congr {s t : CompanyStateV1} {id : ChannelIdV1}
    (hchannels : s.channels = t.channels) (hshares : s.shares = t.shares)
    (hidentities : s.identities = t.identities) (hat : s.at_ = t.at_) :
    resolveChannel s id = resolveChannel t id := by
  simp only [resolveChannel, hchannels, hshares, hidentities, hat]

theorem resolveChannel_at {state : CompanyStateV1} {channel : ChannelIdV1}
    {resolved : ResolvedChannelV1} (h : resolveChannel state channel = .ok resolved) (height : ℕ) :
    resolveChannel { state with at_ := height } channel = .ok { resolved with height } := by
  obtain ⟨found, actors, hfound, hactors, hsole, rfl⟩ := resolveChannel_eq_ok.mp h
  exact resolveChannel_eq_ok.mpr ⟨found, actors, hfound, hactors, hsole, rfl⟩

end Irena.Decision
