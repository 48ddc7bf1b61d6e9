import Irena.Resolution.Record

/-! # The self-demotion rules

An amendment on an individual decision may not let its signer's own reach grow: not in the channel
set, not in the identities, not in the authorisation. -/

namespace Irena.Resolution

open Irena.Library Irena.Library.Outcome
open Irena.Core Irena.Bornite Irena.Prunella Irena.Decision

/-- How an amendment fared under its rule. -/
structure SelfDemotionV1 where
  holds : Bool
  detail : DemotionDetail
deriving DecidableEq

/-- Whether a person is an actor of a channel. -/
def sits (signer : VoterIdV1) (register : ShareStructureV1) (identities : IdentitiesV1)
    (channel : DecisionChannelV1) : Except ResolutionError Bool := do
  let actors ← mapErr .decision (actorsOf channel.actors register identities)
  return (actors.get signer).isSome

/-- The channels a person is an actor of, in id order. -/
def seatsAmong (signer : VoterIdV1) (register : ShareStructureV1) (identities : IdentitiesV1) :
    List DecisionChannelV1 → Except ResolutionError (List ChannelIdV1)
  | [] => .ok []
  | channel :: rest => do
    let here ← sits signer register identities channel
    let seats ← seatsAmong signer register identities rest
    return if here then channel.id :: seats else seats

def seats (set : DecisionChannelsV1) (signer : VoterIdV1) (register : ShareStructureV1)
    (identities : IdentitiesV1) : Except ResolutionError (List ChannelIdV1) :=
  seatsAmong signer register identities set.channels

/-- The rule for the channel set: no seat is gained, and no channel kept a seat on changes. -/
def selfDemotion (signer : VoterIdV1) (old new : DecisionChannelsV1) (register : ShareStructureV1)
    (identities : IdentitiesV1) : Except ResolutionError SelfDemotionV1 := do
  let before ← seats old signer register identities
  let after ← seats new signer register identities
  let gained := after.filter fun id => id ∉ before
  let changed := after.filter fun id => id ∈ before ∧ old.get id ≠ new.get id
  let givenUp := before.filter fun id => id ∉ after
  return ⟨gained.isEmpty && changed.isEmpty, .seats gained changed after givenUp⟩

/-- The rule for the identities: only the signer's own entry may change or go. -/
def identityDemotion (signer : VoterIdV1) (old new : IdentitiesV1) : SelfDemotionV1 :=
  let others := old.persons.filter fun person => person.id ≠ signer
  let changed := others.filter fun person =>
    (new.get person.id).any fun found => found ≠ person
  let removed := others.filter fun person => (new.get person.id).isNone
  let added := new.persons.filter fun person => (old.get person.id).isNone
  ⟨changed.isEmpty && removed.isEmpty,
    .identities (changed.map PersonV1.id) (removed.map PersonV1.id) (added.map PersonV1.id)⟩

/-- The rule for the authorisation: the signer's own rows may only shrink. -/
def authorisationDemotion (signer : VoterIdV1) (old new : AuthorisationV1) : SelfDemotionV1 :=
  let before := old.familiesOf signer
  let after := new.familiesOf signer
  let gained := after.filter fun family => family ∉ before
  let givenUp := before.filter fun family => family ∉ after
  ⟨gained.isEmpty, .families gained after givenUp⟩

end Irena.Resolution
