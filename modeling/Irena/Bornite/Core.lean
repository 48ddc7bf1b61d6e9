import Irena.Library.Outcome
import Irena.Library.SortedTable
import Irena.Library.Numeral
import Irena.Library.Utf8

/-! # Voters, weights, ballots and fractions

The values a vote is made of. Each carries what its constructor checked. -/

namespace Irena.Bornite

open Irena.Library Irena.Library.Outcome Irena.Library.Strings Irena.Library.Utf8

inductive VoterIdRejection where
  | empty
  | tooLong
  | badCharacter
deriving DecidableEq

def maxVoterIdLen : ℕ := 128

def isAsciiAlphanumeric (c : Char) : Bool :=
  isAsciiDigit c || isAsciiLowercase c || (65 ≤ c.toNat && c.toNat ≤ 90)

def voterIdCharacter (c : Char) : Bool :=
  isAsciiAlphanumeric c || c == '.' || c == '_' || c == ':' || c == '+' || c == '@' || c == '-'

def validateVoterId (value : Text) : Option VoterIdRejection :=
  if value = [] then some .empty
  else if maxVoterIdLen < byteLength value then some .tooLong
  else if value.all voterIdCharacter then none else some .badCharacter

/-- A voter's identifier, compared byte for byte. -/
structure VoterIdV1 where
  value : Text
  valid : validateVoterId value = none
deriving DecidableEq

theorem VoterIdV1.value_injective : Function.Injective VoterIdV1.value := by
  intro a b h
  cases a
  cases b
  congr

instance : LinearOrder VoterIdV1 := LinearOrder.lift' VoterIdV1.value VoterIdV1.value_injective

/-- A voting weight: at least one, in 64 bits. -/
structure WeightV1 where
  value : ℕ
  pos : 0 < value
  le : value ≤ u64Max
deriving DecidableEq

/-- A sum of weights, in 64 bits. -/
structure WeightTotalV1 where
  value : ℕ
  le : value ≤ u64Max
deriving DecidableEq

/-- An exact fraction, compared by cross-multiplication and never reduced. -/
structure FractionV1 where
  numerator : ℕ
  denominator : ℕ
  pos : 0 < denominator
  numerator_le : numerator ≤ u64Max
  denominator_le : denominator ≤ u64Max
deriving DecidableEq

inductive CoreError where
  | invalidVoterId (value : Text) (reason : VoterIdRejection)
  | zeroWeight
  | zeroDenominator
  | improperFraction (numerator denominator : ℕ)
  | weightOverflow
  | duplicateVoter (id : VoterIdV1)
  | duplicateBallot (voter : VoterIdV1)
deriving DecidableEq

def VoterIdV1.new (value : Text) : Except CoreError VoterIdV1 :=
  match h : validateVoterId value with
  | some reason => .error (.invalidVoterId value reason)
  | none => .ok ⟨value, h⟩

@[simp] theorem VoterIdV1.new_eq_ok {value : Text} {id : VoterIdV1} :
    VoterIdV1.new value = .ok id ↔ id.value = value := by
  unfold VoterIdV1.new
  split
  · rename_i reason h
    simp only [reduceCtorEq, false_iff]
    rintro rfl
    rw [id.valid] at h
    cases h
  · rw [Except.ok.injEq]
    exact ⟨fun h => h ▸ rfl, fun h => value_injective h.symm⟩

theorem u64Max_pos : 0 < u64Max := by decide

def WeightV1.one : WeightV1 := ⟨1, Nat.one_pos, u64Max_pos⟩

def WeightV1.new (value : U64) : Except CoreError WeightV1 :=
  if h : 0 < value.val then .ok ⟨value, h, value.2⟩ else .error .zeroWeight

def WeightTotalV1.zero : WeightTotalV1 := ⟨0, Nat.zero_le _⟩

/-- A total, unless it passes 64 bits. -/
def WeightTotalV1.checked (value : ℕ) : Except CoreError WeightTotalV1 :=
  if h : value ≤ u64Max then .ok ⟨value, h⟩ else .error .weightOverflow

@[simp] theorem WeightTotalV1.checked_eq_ok {value : ℕ} {total : WeightTotalV1} :
    checked value = .ok total ↔ total.value = value := by
  obtain ⟨v, hv⟩ := total
  unfold checked
  split
  · simp [eq_comm]
  · rename_i h
    simp only [reduceCtorEq, false_iff]
    rintro rfl
    exact h hv

def WeightTotalV1.checkedAdd (total : WeightTotalV1) (weight : WeightV1) :
    Except CoreError WeightTotalV1 :=
  checked (total.value + weight.value)

def WeightTotalV1.checkedAddTotal (total other : WeightTotalV1) : Except CoreError WeightTotalV1 :=
  checked (total.value + other.value)

def WeightTotalV1.checkedSubTotal (total other : WeightTotalV1) : Option WeightTotalV1 :=
  if other.value ≤ total.value then
    some ⟨total.value - other.value, (Nat.sub_le _ _).trans total.le⟩
  else none

def WeightTotalV1.sum (weights : List WeightV1) : Except CoreError WeightTotalV1 :=
  weights.foldlM checkedAdd zero

def WeightTotalV1.isZero (total : WeightTotalV1) : Bool := total.value == 0

/-- The checked sum is the sum, where it fits. -/
theorem WeightTotalV1.sum_eq_ok {weights : List WeightV1} {total : WeightTotalV1} :
    sum weights = .ok total ↔ total.value = (weights.map WeightV1.value).sum := by
  have hfold : ∀ (weights : List WeightV1) (start : WeightTotalV1),
      weights.foldlM checkedAdd start = .ok total ↔
        total.value = start.value + (weights.map WeightV1.value).sum := by
    intro weights
    induction weights with
    | nil =>
      intro start
      simp only [List.foldlM_nil, pure_eq_ok, Except.ok.injEq, List.map_nil, List.sum_nil]
      constructor
      · rintro rfl
        rfl
      · intro h
        cases total
        cases start
        simp_all
    | cons weight weights ih =>
      intro start
      simp only [List.foldlM_cons, bind_eq_ok, checkedAdd, checked_eq_ok, ih, List.map_cons,
        List.sum_cons, ← Nat.add_assoc]
      constructor
      · rintro ⟨next, hnext, htotal⟩
        rw [htotal, hnext]
      · intro h
        exact ⟨⟨start.value + weight.value, by have := total.le; omega⟩, rfl, h⟩
  rw [sum, hfold]
  simp [zero]

def FractionV1.half : FractionV1 := ⟨1, 2, by decide, by decide, by decide⟩

def FractionV1.proportion (numerator denominator : U64) : Except CoreError FractionV1 :=
  if h : denominator.val = 0 then .error .zeroDenominator
  else if denominator.val < numerator.val then .error (.improperFraction numerator denominator)
  else .ok ⟨numerator, denominator, Nat.pos_of_ne_zero h, numerator.2, denominator.2⟩

/-- How `value / basis` stands to the fraction. -/
def FractionV1.compareShare (f : FractionV1) (value basis : ℕ) : Ordering :=
  compare (value * f.denominator) (f.numerator * basis)

def FractionV1.isProportion (f : FractionV1) : Bool := f.numerator ≤ f.denominator

structure VoterV1 where
  id : VoterIdV1
  weight : WeightV1
  excluded : Bool
deriving DecidableEq

/-- A frozen electorate, sorted by voter id and free of duplicates. -/
abbrev ElectorateV1 := SortedTable VoterV1.id

def ElectorateV1.new (voters : List VoterV1) : Except CoreError ElectorateV1 :=
  mapErr .duplicateVoter (SortedTable.ofList VoterV1.id voters)

def ElectorateV1.voters (e : ElectorateV1) : List VoterV1 := e.entries

inductive ChoiceV1 where
  | yes
  | no
  | abstain
deriving DecidableEq

def ChoiceV1.asStr : ChoiceV1 → Text
  | .yes => lit "yes"
  | .no => lit "no"
  | .abstain => lit "abstain"

def ChoiceV1.parse (text : Text) : Option ChoiceV1 :=
  if text = lit "yes" then some .yes
  else if text = lit "no" then some .no
  else if text = lit "abstain" then some .abstain
  else none

structure BallotV1 where
  voter : VoterIdV1
  choice : ChoiceV1
deriving DecidableEq

/-- Every ballot cast in one vote: one per voter, sorted by voter. -/
abbrev BallotSetV1 := SortedTable BallotV1.voter

def BallotSetV1.new (ballots : List BallotV1) : Except CoreError BallotSetV1 :=
  mapErr .duplicateBallot (SortedTable.ofList BallotV1.voter ballots)

def BallotSetV1.ballots (b : BallotSetV1) : List BallotV1 := b.entries

end Irena.Bornite
