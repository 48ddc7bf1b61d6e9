import Irena.Decision.Recorded
import Irena.Ledger.Position

/-! # Parts pinned at a height

Freezing pins the parts of the company at a height by the transactions that provide them. A chain
that has reached the height and has the same transactions there has the same parts, and resolves
every channel as it was resolved. A height above the head is reached only later. -/

namespace Irena.Decision

open Irena.Library Irena.Library.Outcome
open Irena.Core Irena.Bornite Irena.Prunella Irena.Prunella.LocalChainStore Irena.Ledger

/-- The parts that a snapshot pins. -/
def pinnedKinds : List RecordKindV1 :=
  [.companyGenesis, .shareStructure, .decisionChannels, .identities]

variable [Platform]

/-- A chain has reached the height at which another was read, and the parts pinned there are
provided by the same transactions. -/
structure Settled (s t : LocalChainStore) (at_ : ℕ) : Prop where
  reached : at_ ≤ t.head.height
  pinned : ∃ frozen later, reconstruct s at_ = .ok frozen ∧ reconstruct t at_ = .ok later ∧
    ∀ kind ∈ pinnedKinds, later.providerOf kind = frozen.providerOf kind

variable {s t : LocalChainStore} {at_ : ℕ}

/-- What was read up to the head is settled on every longer chain. -/
theorem settled_of_le (hext : s.Extends t) {frozen : CompanyStateV1}
    (hfrozen : reconstruct s at_ = .ok frozen) (h : at_ ≤ s.head.height) : Settled s t at_ :=
  ⟨h.trans hext.height_le, frozen, frozen, hfrozen,
    (Ledger.Extends.reconstruct hext h).trans hfrozen, fun _ _ => rfl⟩

theorem Settled.providers (h : Settled s t at_) {frozen later : CompanyStateV1}
    (hfrozen : reconstruct s at_ = .ok frozen) (hlater : reconstruct t at_ = .ok later) :
    ∀ kind ∈ pinnedKinds, later.providerOf kind = frozen.providerOf kind := by
  obtain ⟨_, _, hfrozen', hlater', hpinned⟩ := h.pinned
  obtain rfl := Except.ok.inj (hfrozen.symm.trans hfrozen')
  obtain rfl := Except.ok.inj (hlater.symm.trans hlater')
  exact hpinned

theorem Settled.extends {u : LocalChainStore} (h : Settled s t at_) (hext : t.Extends u) :
    Settled s u at_ := by
  obtain ⟨frozen, later, hfrozen, hlater, hpinned⟩ := h.pinned
  exact ⟨h.reached.trans hext.height_le, frozen, later, hfrozen,
    (Ledger.Extends.reconstruct hext h.reached).trans hlater, hpinned⟩

theorem samePart_of_extends (ht : t.WellFormed) (hext : s.Extends t) {frozen later : CompanyStateV1}
    (hfrozen : reconstruct s at_ = .ok frozen) (hlater : reconstruct t at_ = .ok later)
    {kind : RecordKindV1} (h : later.providerOf kind = frozen.providerOf kind) :
    SamePart kind frozen later := by
  obtain ⟨earlier, hearlier, rfl⟩ := reconstruct_min hext hfrozen
  have hprovider : later.providerOf kind = earlier.providerOf kind := by
    cases kind <;> exact h
  have hsame := samePart_of_reconstruct ht (Nat.min_le_left _ _) hearlier hlater hprovider
  cases kind <;> exact hsame

theorem company_of_extends (hext : s.Extends t) {frozen later : CompanyStateV1}
    (hfrozen : reconstruct s at_ = .ok frozen) (hlater : reconstruct t at_ = .ok later) :
    later.company = frozen.company := by
  obtain ⟨earlier, hearlier, rfl⟩ := reconstruct_min hext hfrozen
  have hname : later.company = earlier.company :=
    company_of_reconstruct (Nat.min_le_left _ _) hearlier hlater
  exact hname

theorem Settled.resolveChannel (h : Settled s t at_) (ht : t.WellFormed) (hext : s.Extends t)
    {frozen later : CompanyStateV1} (hfrozen : reconstruct s at_ = .ok frozen)
    (hlater : reconstruct t at_ = .ok later) (channel : ChannelIdV1) :
    Decision.resolveChannel later channel = Decision.resolveChannel frozen channel := by
  have hsame (kind : RecordKindV1) (hkind : kind ∈ pinnedKinds) : SamePart kind frozen later :=
    samePart_of_extends ht hext hfrozen hlater (h.providers hfrozen hlater kind hkind)
  have hat : later.at_ = frozen.at_ := (at_of_reconstruct hlater).trans (at_of_reconstruct hfrozen).symm
  have hshares : frozen.shares = later.shares := hsame .shareStructure (by decide)
  have hchannels : frozen.channels = later.channels := hsame .decisionChannels (by decide)
  have hidentities : frozen.identities = later.identities := hsame .identities (by decide)
  exact resolveChannel_congr hchannels.symm hshares.symm hidentities.symm hat

end Irena.Decision
