import Mathlib.Data.List.Basic

/-! # Reports

A report lists checks by name. It is valid when it lists a check and every check it lists passed. -/

namespace Irena.Library

variable {ν : Type}

/-- One check of a report and how it came out. -/
structure Check (ν : Type) where
  name : ν
  passed : Bool
deriving DecidableEq

/-- Whether there is a check and every check passed. -/
def allPassed (checks : List (Check ν)) : Bool := !checks.isEmpty && checks.all Check.passed

/-- Whether no check failed. -/
def NoneFailed (checks : List (Check ν)) : Prop := ∀ c ∈ checks, c.passed = true

instance (checks : List (Check ν)) : Decidable (NoneFailed checks) :=
  inferInstanceAs (Decidable (∀ c ∈ checks, c.passed = true))

theorem allPassed_iff {checks : List (Check ν)} :
    allPassed checks = true ↔ checks ≠ [] ∧ NoneFailed checks := by
  simp [allPassed, NoneFailed]

@[simp] theorem noneFailed_nil : NoneFailed ([] : List (Check ν)) := by
  simp [NoneFailed]

@[simp] theorem noneFailed_cons {c : Check ν} {checks : List (Check ν)} :
    NoneFailed (c :: checks) ↔ c.passed = true ∧ NoneFailed checks := by
  simp [NoneFailed]

@[simp] theorem noneFailed_append {checks more : List (Check ν)} :
    NoneFailed (checks ++ more) ↔ NoneFailed checks ∧ NoneFailed more := by
  simp only [NoneFailed, List.mem_append, or_imp, forall_and]

end Irena.Library
