import Irena.Bornite.Xml
import Irena.Prunella.Primitives
import Mathlib.Data.Prod.Lex

/-! # Identifiers, kinds and refusals of company records -/

namespace Irena.Core

open Irena.Library Irena.Library.Strings Irena.Library.Utf8 Irena.Library.Markup
open Irena.Bornite Irena.Prunella

inductive RecordKindV1 where
  | companyGenesis
  | identity
  | shareStructure
  | decisionChannels
  | identities
  | authorisation
deriving DecidableEq, Inhabited

namespace RecordKindV1

def all : List RecordKindV1 :=
  [companyGenesis, identity, shareStructure, decisionChannels, identities, authorisation]

def amendments : List RecordKindV1 :=
  [identity, shareStructure, decisionChannels, identities, authorisation]

def asStr : RecordKindV1 → Text
  | companyGenesis => lit "company-genesis"
  | identity => lit "identity"
  | shareStructure => lit "share-structure"
  | decisionChannels => lit "decision-channels"
  | identities => lit "identities"
  | authorisation => lit "authorisation"

def element (kind : RecordKindV1) : Text := kind.asStr

/-- The namespace a record of a kind is published in. -/
def namespaceOf : RecordKindV1 → Text
  | companyGenesis => lit "irena.company.v1"
  | identity => lit "irena.company.v1"
  | shareStructure => lit "irena.shares.v1"
  | decisionChannels => lit "irena.channels.v1"
  | identities => lit "irena.identities.v1"
  | authorisation => lit "irena.authorisation.v1"

def parse (text : Text) : Option RecordKindV1 := all.find? fun kind => kind.asStr == text

/-- The place of a kind in declaration order, by which kinds are sorted. -/
def rank : RecordKindV1 → ℕ
  | companyGenesis => 0
  | identity => 1
  | shareStructure => 2
  | decisionChannels => 3
  | identities => 4
  | authorisation => 5

theorem mem_amendments {kind : RecordKindV1} : kind ∈ amendments ↔ kind ≠ companyGenesis := by
  cases kind <;> decide

theorem rank_injective : Function.Injective rank := by
  intro a b
  cases a <;> cases b <;> decide

@[simp] theorem parse_asStr (kind : RecordKindV1) : parse kind.asStr = some kind := by
  cases kind <;> decide

end RecordKindV1

inductive RecordFamilyV1 where
  | company
  | governance
deriving DecidableEq

namespace RecordFamilyV1

def all : List RecordFamilyV1 := [company, governance]

def asStr : RecordFamilyV1 → Text
  | company => lit "company"
  | governance => lit "governance"

def parse (text : Text) : Option RecordFamilyV1 := all.find? fun family => family.asStr == text

def rank : RecordFamilyV1 → ℕ
  | company => 0
  | governance => 1

theorem rank_injective : Function.Injective rank := by
  intro a b
  cases a <;> cases b <;> decide

end RecordFamilyV1

/-- Why a text is no lower-case identifier of at most 64 bytes, if it is none. -/
def labelReason : Text → Option Text
  | [] => some (lit "must not be empty")
  | first :: rest =>
    if 64 < byteLength (first :: rest) then some (lit "must be at most 64 bytes")
    else if !isAsciiLowercase first && !isAsciiDigit first then
      some (lit "must start with a lowercase letter or digit")
    else if rest.all labelCharacter then none
    else some (lit "may only contain lowercase letters, digits, '.', '_' and '-'")

structure CompanyIdV1 where
  value : Text
  valid : labelReason value = none
deriving DecidableEq

structure ChannelIdV1 where
  value : Text
  valid : labelReason value = none
deriving DecidableEq

theorem ChannelIdV1.value_injective : Function.Injective ChannelIdV1.value := by
  intro a b h
  cases a
  cases b
  congr

theorem CompanyIdV1.value_injective : Function.Injective CompanyIdV1.value := by
  intro a b h
  cases a
  cases b
  congr

instance : LinearOrder ChannelIdV1 := LinearOrder.lift' ChannelIdV1.value ChannelIdV1.value_injective

inductive IssueV1 where
  | xml (issue : XmlIssueV1)
  | invalidValue (element key value reason : Text)
  | missingAttribute (element key : Text)
  | missingElement (parent element : Text)
  | repeatedElement (parent element : Text)
  | duplicateHolder (id : VoterIdV1)
  | duplicateKey (first second : VoterIdV1)
  | duplicatePerson (id : VoterIdV1)
  | tooManyPersons (limit : ℕ)
  | duplicateSigner (person : VoterIdV1) (family : RecordFamilyV1)
  | noCompanySigner
  | zeroShares (id : VoterIdV1)
  | totalSharesOverflow (max : ℕ)
  | tooManyHolders (limit : ℕ)
  | noChannels
  | duplicateChannel (id : ChannelIdV1)
  | tooManyChannels (limit : ℕ)
  | emptyRoster (channel : ChannelIdV1)
  | duplicateMember (channel : ChannelIdV1) (id : VoterIdV1)
  | zeroWeight (channel : ChannelIdV1) (id : VoterIdV1)
  | totalWeightOverflow (channel : ChannelIdV1) (max : ℕ)
  | tooManyMembers (channel : ChannelIdV1) (limit : ℕ)
  | emptyScope (channel : ChannelIdV1)
  | duplicateScopePart (channel : ChannelIdV1) (part : RecordKindV1)
  | scopeNotAnAmendment (channel : ChannelIdV1) (part : RecordKindV1)
  | unexpectedElement (channel : ChannelIdV1) (mode element : Text)
deriving DecidableEq

/-- A refusal that ends the reading of a record. -/
inductive IrenaFault where
  | malformed (detail : Detail)
  | unsupportedVersion (found : Text)
  | kindMismatch (declared carried : RecordKindV1)
  | tooLarge (found limit : ℕ)
  | panicked
deriving DecidableEq

instance : DocumentFault IrenaFault := ⟨.malformed, .tooLarge, .panicked⟩

def IrenaFault.ofXml : XmlFault → IrenaFault
  | .malformed detail => .malformed detail
  | .unsupportedVersion found => .unsupportedVersion found
  | .tooLarge found limit => .tooLarge found limit
  | .panicked => .panicked

abbrev IrenaError := Refusal IrenaFault (Finset IssueV1)

/-- A refusal of the collected issues. -/
def invalidIssues (issues : List IssueV1) : IrenaError := .invalid issues.toFinset

/-- One value refused at an attribute. -/
def rejectValue {α : Type} (element key value reason : Text) : Except IrenaError α :=
  .error (invalidIssues [.invalidValue element key value reason])

def CompanyIdV1.new (value : Text) : Except IrenaError CompanyIdV1 :=
  match h : labelReason value with
  | some reason => rejectValue (lit "irena-record") (lit "company") value reason
  | none => .ok ⟨value, h⟩

def ChannelIdV1.new (value : Text) : Except IrenaError ChannelIdV1 :=
  match h : labelReason value with
  | some reason => rejectValue (lit "channel") (lit "id") value reason
  | none => .ok ⟨value, h⟩

@[simp] theorem CompanyIdV1.new_eq_ok {value : Text} {id : CompanyIdV1} :
    CompanyIdV1.new value = .ok id ↔ id.value = value := by
  unfold CompanyIdV1.new
  split
  · rename_i reason h
    simp only [rejectValue, reduceCtorEq, false_iff]
    rintro rfl
    rw [id.valid] at h
    cases h
  · rw [Except.ok.injEq]
    exact ⟨fun h => h ▸ rfl, fun h => value_injective h.symm⟩

@[simp] theorem ChannelIdV1.new_eq_ok {value : Text} {id : ChannelIdV1} :
    ChannelIdV1.new value = .ok id ↔ id.value = value := by
  unfold ChannelIdV1.new
  split
  · rename_i reason h
    simp only [rejectValue, reduceCtorEq, false_iff]
    rintro rfl
    rw [id.valid] at h
    cases h
  · rw [Except.ok.injEq]
    exact ⟨fun h => h ▸ rfl, fun h => value_injective h.symm⟩

end Irena.Core
