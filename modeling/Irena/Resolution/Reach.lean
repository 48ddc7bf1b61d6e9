import Irena.Ledger.Position
import Irena.Resolution.Execution
import Irena.Sample.Company

/-! # How far one person reaches

A person sits on a channel when its actors, resolved against the register, include them. The
demotion rules compare the seats, the entries and the rows that one person has before an amendment
with those they have after it. -/

namespace Irena.Resolution

open Irena.Library Irena.Library.Outcome Irena.Library.Strings
open Irena.Core Irena.Bornite Irena.Prunella Irena.Prunella.LocalChainStore Irena.Ledger
open Irena.Decision (actorsOf actorIds actorsOf_total actorsOf_sorted ActorSetV1 ActorV1)

/-- A channel's actors include a person. -/
def Sits (signer : VoterIdV1) (register : ShareStructureV1) (channel : DecisionChannelV1) : Prop :=
  signer ∈ actorIds channel.actors register

instance (signer : VoterIdV1) (register : ShareStructureV1) (channel : DecisionChannelV1) :
    Decidable (Sits signer register channel) :=
  inferInstanceAs (Decidable (signer ∈ actorIds channel.actors register))

/-- The seats a person has in a channel set. -/
def seatIds (set : DecisionChannelsV1) (signer : VoterIdV1) (register : ShareStructureV1) :
    List ChannelIdV1 :=
  (set.channels.filter fun channel => Sits signer register channel).map DecisionChannelV1.id

theorem sits_eq (signer : VoterIdV1) (register : ShareStructureV1) (identities : IdentitiesV1)
    (channel : DecisionChannelV1) :
    sits signer register identities channel = .ok (decide (Sits signer register channel)) := by
  obtain ⟨s, hs, hids⟩ := actorsOf_total channel.actors register identities
  have hsorted := actorsOf_sorted hs
  have hget : (s.get signer).isSome = decide (Sits signer register channel) := by
    rw [Bool.eq_iff_iff, decide_eq_true_iff, Sits, ← hids, List.mem_map, Option.isSome_iff_exists]
    exact exists_congr fun a => SortedTable.binarySearch_iff (List.pairwise_map.mp hsorted)
  rw [sits, hs, mapErr_ok, ok_bind, hget, pure_eq_ok]

theorem seats_eq (set : DecisionChannelsV1) (signer : VoterIdV1) (register : ShareStructureV1)
    (identities : IdentitiesV1) :
    seats set signer register identities = .ok (seatIds set signer register) := by
  have hamong : ∀ channels : List DecisionChannelV1,
      seatsAmong signer register identities channels =
        .ok ((channels.filter fun c => Sits signer register c).map DecisionChannelV1.id) := by
    intro channels
    induction channels with
    | nil => rfl
    | cons channel rest ih =>
      rw [seatsAmong, sits_eq, ok_bind, ih, ok_bind, pure_eq_ok, List.filter_cons]
      by_cases hsits : Sits signer register channel <;> simp [hsits]
  exact hamong set.channels

theorem mem_seatIds {set : DecisionChannelsV1} {signer : VoterIdV1} {register : ShareStructureV1}
    {id : ChannelIdV1} : id ∈ seatIds set signer register ↔
      ∃ channel ∈ set.channels, channel.id = id ∧ Sits signer register channel := by
  simp only [seatIds, List.mem_map, List.mem_filter, decide_eq_true_eq]
  exact exists_congr fun channel =>
    ⟨fun ⟨⟨hmem, hsits⟩, hid⟩ => ⟨hmem, hid, hsits⟩, fun ⟨hmem, hid, hsits⟩ => ⟨⟨hmem, hsits⟩, hid⟩⟩

/-- The rule for the channel set holds when every channel of the new set that its signer sits on
stood in the old set as it is. -/
theorem selfDemotion_holds (signer : VoterIdV1) (old new : DecisionChannelsV1)
    (register : ShareStructureV1) (identities : IdentitiesV1) :
    ∃ verdict, selfDemotion signer old new register identities = .ok verdict ∧
      (verdict.holds = true ↔
        ∀ channel ∈ new.channels, Sits signer register channel → channel ∈ old.channels) := by
  refine ⟨_, by rw [selfDemotion, seats_eq, ok_bind, seats_eq, ok_bind, pure_eq_ok], ?_⟩
  have hkept : (∀ id ∈ seatIds new signer register, id ∈ seatIds old signer register ∧
      old.get id = new.get id) ↔
        ∀ channel ∈ new.channels, Sits signer register channel → channel ∈ old.channels := by
    constructor
    · intro h channel hmem hsits
      obtain ⟨-, hsame⟩ := h channel.id (mem_seatIds.mpr ⟨channel, hmem, rfl, hsits⟩)
      have hnew : new.get channel.id = some channel := SortedTable.get_eq_some.mpr ⟨hmem, rfl⟩
      exact (SortedTable.get_eq_some.mp (hsame.trans hnew)).1
    · intro h id hid
      obtain ⟨channel, hmem, rfl, hsits⟩ := mem_seatIds.mp hid
      have hold := h channel hmem hsits
      have hnew : new.get channel.id = some channel := SortedTable.get_eq_some.mpr ⟨hmem, rfl⟩
      have hget : old.get channel.id = some channel := SortedTable.get_eq_some.mpr ⟨hold, rfl⟩
      exact ⟨mem_seatIds.mpr ⟨channel, hold, rfl, hsits⟩, hget.trans hnew.symm⟩
  rw [← hkept]
  simp only [Bool.and_eq_true, List.isEmpty_iff, List.filter_eq_nil_iff, decide_eq_true_eq, not_not,
    not_and]
  exact ⟨fun ⟨hgained, hchanged⟩ id hid => ⟨hgained id hid, hchanged id hid (hgained id hid)⟩,
    fun h => ⟨fun id hid => (h id hid).1, fun id hid _ => (h id hid).2⟩⟩

theorem seatIds_subset {signer : VoterIdV1} {old new : DecisionChannelsV1}
    {register : ShareStructureV1}
    (h : ∀ channel ∈ new.channels, Sits signer register channel → channel ∈ old.channels) :
    seatIds new signer register ⊆ seatIds old signer register := by
  intro id hid
  obtain ⟨channel, hmem, rfl, hsits⟩ := mem_seatIds.mp hid
  exact mem_seatIds.mpr ⟨channel, h channel hmem hsits, rfl, hsits⟩

section Run

variable (signer : VoterIdV1) (register : ShareStructureV1) (identities : IdentitiesV1)

/-- One channel set may follow another on the decision of one person. -/
def Demotes (old new : DecisionChannelsV1) : Prop :=
  ∃ verdict, selfDemotion signer old new register identities = .ok verdict ∧ verdict.holds = true

theorem demotes_iff {old new : DecisionChannelsV1} :
    Demotes signer register identities old new ↔
      ∀ channel ∈ new.channels, Sits signer register channel → channel ∈ old.channels := by
  obtain ⟨verdict, hverdict, hiff⟩ := selfDemotion_holds signer old new register identities
  rw [← hiff]
  constructor
  · rintro ⟨found, hfound, hholds⟩
    obtain rfl := Except.ok.inj (hverdict.symm.trans hfound)
    exact hholds
  · exact fun hholds => ⟨verdict, hverdict, hholds⟩

theorem Demotes.refl (set : DecisionChannelsV1) : Demotes signer register identities set set :=
  (demotes_iff signer register identities).mpr fun _ hmem _ => hmem

variable {signer register identities}

theorem Demotes.trans {old new newer : DecisionChannelsV1}
    (h : Demotes signer register identities old new)
    (k : Demotes signer register identities new newer) :
    Demotes signer register identities old newer := by
  rw [demotes_iff] at h k ⊢
  intro channel hmem hsits
  exact h channel (k channel hmem hsits) hsits

theorem Demotes.seats {old new : DecisionChannelsV1}
    (h : Demotes signer register identities old new) :
    ∃ before after, seats old signer register identities = .ok before ∧
      seats new signer register identities = .ok after ∧ after ⊆ before ∧
      ∀ id ∈ after, ∃ channel, old.get id = some channel ∧ new.get id = some channel := by
  rw [demotes_iff] at h
  refine ⟨_, _, seats_eq .., seats_eq .., seatIds_subset h, fun id hid => ?_⟩
  obtain ⟨channel, hmem, rfl, hsits⟩ := mem_seatIds.mp hid
  exact ⟨channel, SortedTable.get_eq_some.mpr ⟨h channel hmem hsits, rfl⟩,
    SortedTable.get_eq_some.mpr ⟨hmem, rfl⟩⟩

/-- Whatever a sequence of amendments did in between, its last channel set demotes its first: the
seats left were held at the start, on channels that are as they were. -/
theorem selfDemotion_run {first : DecisionChannelsV1} {later : List DecisionChannelsV1}
    (h : (first :: later).IsChain (Demotes signer register identities)) :
    ∃ last, (first :: later).getLast? = some last ∧
      Demotes signer register identities first last ∧
      ∃ before after, Resolution.seats first signer register identities = .ok before ∧
        Resolution.seats last signer register identities = .ok after ∧ after ⊆ before ∧
        ∀ id ∈ after, ∃ channel, first.get id = some channel ∧ last.get id = some channel := by
  have hrun : ∃ last, (first :: later).getLast? = some last ∧
      Demotes signer register identities first last := by
    induction later generalizing first with
    | nil => exact ⟨first, rfl, .refl ..⟩
    | cons next later ih =>
      obtain ⟨hstep, hrest⟩ := List.isChain_cons_cons.mp h
      obtain ⟨last, hlast, hdemotes⟩ := ih hrest
      exact ⟨last, by rw [List.getLast?_cons_cons, hlast], hstep.trans hdemotes⟩
  obtain ⟨last, hlast, hdemotes⟩ := hrun
  exact ⟨last, hlast, hdemotes, hdemotes.seats⟩

end Run

section Samples

open Irena.Sample (annId bobId register identities directorId director shareholders channels)

/-- The channel set once the director's channel is gone. -/
def unseated : DecisionChannelsV1 :=
  (DecisionChannelsV1.new [shareholders]).toOption.get (by decide +kernel)

def bobAlone : RosterV1 :=
  (RosterV1.new directorId [⟨bobId, none, ⟨1, u64Max_pos⟩⟩]).toOption.get (by decide +kernel)

/-- The channel set once the shareholder has a channel under the director's id. -/
def reseated : DecisionChannelsV1 :=
  (DecisionChannelsV1.new [shareholders, { director with actors := .roster bobAlone }]).toOption.get
    (by decide +kernel)

/-- The director gives up the channel, and another is created under its id. -/
theorem selfDemotion_run_reseated : ∃ last, [channels, unseated, reseated].getLast? = some last ∧
    Demotes annId register identities channels last := by
  have hchain : [channels, unseated, reseated].IsChain (Demotes annId register identities) := by
    simp only [List.isChain_cons_cons, List.isChain_singleton, demotes_iff]
    decide +kernel
  obtain ⟨last, hlast, hdemotes, -⟩ := selfDemotion_run hchain
  exact ⟨last, hlast, hdemotes⟩

end Samples

/-- A person holds shares. -/
def Holds (signer : VoterIdV1) (register : ShareStructureV1) : Prop :=
  signer ∈ register.holders.map HolderV1.id

theorem sits_iff {signer : VoterIdV1} {register : ShareStructureV1} {channel : DecisionChannelV1} :
    Sits signer register channel ↔
      (channel.actors = .shareRegister ∧ Holds signer register) ∨
        ∃ roster, channel.actors = .roster roster ∧ signer ∈ roster.members.map MemberV1.id := by
  unfold Sits actorIds Holds
  cases channel.actors <;> simp

/-- Going over to another register, the rule for the channel set goes on holding unless the signer
becomes a holder there and a channel of the shareholders is new. -/
theorem demoted_iff_of_register {signer : VoterIdV1} {old new : DecisionChannelsV1}
    {register register' : ShareStructureV1}
    (h : ∀ channel ∈ new.channels, Sits signer register channel → channel ∈ old.channels) :
    (∀ channel ∈ new.channels, Sits signer register' channel → channel ∈ old.channels) ↔
      Holds signer register ∨ ¬ Holds signer register' ∨
        ∀ channel ∈ new.channels, channel.actors = .shareRegister → channel ∈ old.channels := by
  constructor
  · intro h'
    by_cases hholds : Holds signer register'
    · exact .inr (.inr fun channel hmem hsource =>
        h' channel hmem (sits_iff.mpr (.inl ⟨hsource, hholds⟩)))
    · exact .inr (.inl hholds)
  · intro hcase channel hmem hsits
    rcases sits_iff.mp hsits with ⟨hsource, hholds'⟩ | hroster
    · rcases hcase with hholds | hholds | hshared
      · exact h channel hmem (sits_iff.mpr (.inl ⟨hsource, hholds⟩))
      · exact absurd hholds' hholds
      · exact hshared channel hmem hsource
    · exact h channel hmem (sits_iff.mpr (.inr hroster))

/-- The rule for the identities holds when everybody else's entry is as it was. -/
theorem identityDemotion_holds {signer : VoterIdV1} {old new : IdentitiesV1} :
    (identityDemotion signer old new).holds = true ↔
      ∀ person ∈ old.persons, person.id ≠ signer → new.get person.id = some person := by
  simp only [identityDemotion, Bool.and_eq_true, List.isEmpty_iff, List.filter_eq_nil_iff,
    List.mem_filter, decide_eq_true_eq, and_imp]
  constructor
  · rintro ⟨hchanged, hremoved⟩ person hmem hother
    have hsame := hchanged person hmem hother
    have hkept := hremoved person hmem hother
    cases hget : new.get person.id with
    | none => simp [hget] at hkept
    | some found => simpa [hget] using hsame
  · intro h
    exact ⟨fun person hmem hother => by simp [h person hmem hother],
      fun person hmem hother => by simp [h person hmem hother]⟩

/-- The company already counts on a person: as a shareholder, a member of a roster or a signer. -/
def Named (state : CompanyStateV1) (id : VoterIdV1) : Prop :=
  id ∈ state.shares.value.holders.map HolderV1.id ∨
    (∃ channel ∈ state.channels.value.channels, ∃ roster, channel.actors = .roster roster ∧
      id ∈ roster.members.map MemberV1.id) ∨
    id ∈ state.authorisation.value.signers.map SignerV1.person

/-- Under the rule for the identities everybody else who has an entry keeps their key, or goes on
having none; a key can only be new to somebody whose entry is added. -/
theorem identityDemotion_keys {state : CompanyStateV1} {signer id : VoterIdV1} {new : IdentitiesV1}
    (h : (identityDemotion signer state.identities.value new).holds = true) (hother : id ≠ signer) :
    ((state.identities.value.get id).isSome →
      new.keyOf id = state.identities.value.keyOf id) ∧
    (state.identities.value.get id = none → state.identities.value.keyOf id = none ∧
      ∀ key, new.keyOf id = some key → ∃ person ∈ new.persons, person.id = id ∧
        person ∉ state.identities.value.persons ∧ person.key = some key) := by
  constructor
  · intro hentry
    obtain ⟨person, hperson⟩ := Option.isSome_iff_exists.mp hentry
    obtain ⟨hmem, rfl⟩ := SortedTable.get_eq_some.mp hperson
    have hkept := identityDemotion_holds.mp h person hmem hother
    rw [IdentitiesV1.keyOf, IdentitiesV1.keyOf, hkept, hperson]
  · intro hnone
    refine ⟨by rw [IdentitiesV1.keyOf, hnone]; rfl, fun key hkey => ?_⟩
    obtain ⟨person, hmem, rfl, hperson⟩ := IdentitiesV1.keyOf_eq_some.mp hkey
    refine ⟨person, hmem, rfl, fun hold => ?_, hperson⟩
    have hget : state.identities.value.get person.id = some person :=
      SortedTable.get_eq_some.mpr ⟨hold, rfl⟩
    rw [hnone] at hget
    cases hget

section Samples

open Irena.Sample (annId bobId ann bob person identities rotated foundingRecord publicKeyOf acme)

/-- The rotation of the director's own key keeps the shareholder's. -/
theorem identityDemotion_keys_acme :
    (identityDemotion annId acme.identities.value rotated).holds = true ∧ bobId ≠ annId ∧
      ((acme.identities.value.get bobId).isSome →
        rotated.keyOf bobId = acme.identities.value.keyOf bobId) := by
  have hholds : (identityDemotion annId acme.identities.value rotated).holds = true := by
    decide +kernel
  have hother : bobId ≠ annId := by decide
  exact ⟨hholds, hother, (identityDemotion_keys hholds hother).1⟩

/-- The identities before the shareholder is registered. -/
def unregistered : IdentitiesV1 :=
  (IdentitiesV1.new [person annId ann]).toOption.get (by decide +kernel)

/-- A company founded with a shareholder who has no entry. -/
def unregisteredFounding : RecordRefV1 :=
  { foundingRecord with record := { foundingRecord.record with
    body := .companyGenesis { Sample.genesis with identities := unregistered } } }

/-- An accepted amendment gives a shareholder without an entry a key, and with it a voice. -/
theorem identityDemotion_voice : ∃ state, foundCompany unregisteredFounding = .ok state ∧
    (identityDemotion annId state.identities.value identities).holds = true ∧ bobId ≠ annId ∧
      Named state bobId ∧ state.identities.value.keyOf bobId = none ∧
        identities.keyOf bobId = some (publicKeyOf bob) := by
  refine ⟨{ acme with
    identities := .fromRecord unregisteredFounding unregistered
    applied := [unregisteredFounding] }, by decide +kernel, by decide +kernel, by decide,
    .inl (by decide +kernel), by decide +kernel, by decide +kernel⟩

end Samples

end Irena.Resolution
