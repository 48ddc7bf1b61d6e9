import Mathlib.Data.Nat.Init
import Mathlib.Tactic.Common

/-! # The proleptic Gregorian calendar

Dates follow one another day by day from the first of January of the year zero. The dates reached
are those whose month and day exist, and they are reached in their order. -/

namespace Irena.Library.Calendar

@[ext] structure Date where
  year : ℕ
  month : ℕ
  day : ℕ
deriving DecidableEq

/-- Every fourth year, but of the centuries only every fourth. -/
def IsLeap (year : ℕ) : Prop := year % 4 = 0 ∧ (year % 100 = 0 → year % 400 = 0)

instance (year : ℕ) : Decidable (IsLeap year) :=
  inferInstanceAs (Decidable (year % 4 = 0 ∧ (year % 100 = 0 → year % 400 = 0)))

/-- How many days a month of a year has. -/
def monthLength (year : ℕ) : ℕ → ℕ
  | 2 => if IsLeap year then 29 else 28
  | 4 | 6 | 9 | 11 => 30
  | _ => 31

namespace Date

/-- The day after. -/
def next (d : Date) : Date :=
  if d.day < monthLength d.year d.month then { d with day := d.day + 1 }
  else if d.month < 12 then ⟨d.year, d.month + 1, 1⟩
  else ⟨d.year + 1, 1, 1⟩

/-- A month of the year and a day of that month. -/
structure Exists (d : Date) : Prop where
  month_pos : 0 < d.month
  month_le : d.month ≤ 12
  day_pos : 0 < d.day
  day_le : d.day ≤ monthLength d.year d.month

/-- The order of dates, by year, then by month, then by day. -/
def Before (d e : Date) : Prop :=
  d.year < e.year ∨ d.year = e.year ∧
    (d.month < e.month ∨ d.month = e.month ∧ d.day < e.day)

variable {d e f : Date}

theorem Before.trans (h : d.Before e) (k : e.Before f) : d.Before f := by
  unfold Before at *
  omega

theorem Before.irrefl : ¬ d.Before d := by
  unfold Before
  omega

theorem Before.total : d.Before e ∨ d = e ∨ e.Before d := by
  obtain ⟨y, m, n⟩ := d
  obtain ⟨y', m', n'⟩ := e
  simp only [Before, mk.injEq]
  omega

theorem before_next (d : Date) : d.Before d.next := by
  unfold next
  split
  · exact .inr ⟨rfl, .inr ⟨rfl, Nat.lt_succ_self _⟩⟩
  · split
    · exact .inr ⟨rfl, .inl (Nat.lt_succ_self _)⟩
    · exact .inl (Nat.lt_succ_self _)

end Date

theorem monthLength_pos (year month : ℕ) : 0 < monthLength year month := by
  unfold monthLength
  split
  · split <;> decide
  all_goals decide

/-- The date so many days after the first of January of the year zero. -/
def dateOf : ℕ → Date
  | 0 => ⟨0, 1, 1⟩
  | n + 1 => (dateOf n).next

theorem exists_dateOf (n : ℕ) : (dateOf n).Exists := by
  induction n with
  | zero => exact ⟨by decide, by decide, by decide, monthLength_pos 0 1⟩
  | succ n ih =>
    obtain ⟨hpos, hle, hday, hlast⟩ := ih
    change (dateOf n).next.Exists
    unfold Date.next
    split
    · rename_i hinside
      exact ⟨hpos, hle, Nat.succ_pos _, hinside⟩
    · split
      · rename_i hmonth
        exact ⟨Nat.succ_pos _, hmonth, Nat.one_pos, monthLength_pos _ _⟩
      · have hle : 1 ≤ 12 := by decide
        exact ⟨Nat.one_pos, hle, Nat.one_pos, monthLength_pos _ _⟩

/-- From the first of a month the days of the month follow. -/
theorem dateOf_add {n year month : ℕ} (h : dateOf n = ⟨year, month, 1⟩) {k : ℕ}
    (hk : k < monthLength year month) : dateOf (n + k) = ⟨year, month, k + 1⟩ := by
  induction k with
  | zero => exact h
  | succ k ih =>
    change (dateOf (n + k)).next = _
    rw [ih (by omega), Date.next, if_pos hk]

/-- Behind the last of a month stands the first of the next one. -/
theorem dateOf_month {n year month : ℕ} (h : dateOf n = ⟨year, month, 1⟩) :
    dateOf (n + monthLength year month) =
      if month < 12 then ⟨year, month + 1, 1⟩ else ⟨year + 1, 1, 1⟩ := by
  have hpos := monthLength_pos year month
  obtain ⟨k, hk⟩ : ∃ k, monthLength year month = k + 1 := ⟨monthLength year month - 1, by omega⟩
  rw [hk]
  change (dateOf (n + k)).next = _
  rw [dateOf_add h (by omega), Date.next, if_neg (by simp [hk])]

theorem reaches_month {n year : ℕ} (h : dateOf n = ⟨year, 1, 1⟩) {month : ℕ} (hpos : 0 < month)
    (hle : month ≤ 12) : ∃ n, dateOf n = ⟨year, month, 1⟩ := by
  induction month, hpos using Nat.le_induction with
  | base => exact ⟨n, h⟩
  | succ month hmonth ih =>
    obtain ⟨m, hm⟩ := ih (by omega)
    exact ⟨_, (dateOf_month hm).trans (if_pos (by omega))⟩

theorem reaches_year (year : ℕ) : ∃ n, dateOf n = ⟨year, 1, 1⟩ := by
  induction year with
  | zero => exact ⟨0, rfl⟩
  | succ year ih =>
    obtain ⟨n, hn⟩ := ih
    obtain ⟨m, hm⟩ := reaches_month hn (by decide : 0 < 12) (Nat.le_refl 12)
    exact ⟨_, (dateOf_month hm).trans (if_neg (by decide))⟩

/-- The dates that are reached are those that exist. -/
theorem exists_iff {d : Date} : d.Exists ↔ ∃ n, dateOf n = d := by
  constructor
  · rintro ⟨hpos, hle, hday, hlast⟩
    obtain ⟨year, month, day⟩ := d
    obtain ⟨first, hfirst⟩ := reaches_year year
    obtain ⟨n, hn⟩ := reaches_month hfirst hpos hle
    obtain ⟨k, rfl⟩ : ∃ k, day = k + 1 := ⟨day - 1, by dsimp at hday; omega⟩
    exact ⟨n + k, dateOf_add hn hlast⟩
  · rintro ⟨n, rfl⟩
    exact exists_dateOf n

theorem before_of_lt {m n : ℕ} (h : m < n) : (dateOf m).Before (dateOf n) := by
  induction n, h using Nat.le_induction with
  | base => exact Date.before_next _
  | succ n _ ih => exact ih.trans (Date.before_next _)

theorem before_iff {m n : ℕ} : (dateOf m).Before (dateOf n) ↔ m < n := by
  refine ⟨fun h => ?_, before_of_lt⟩
  rcases Nat.lt_trichotomy m n with hlt | rfl | hgt
  · exact hlt
  · exact absurd h Date.Before.irrefl
  · exact absurd (h.trans (before_of_lt hgt)) Date.Before.irrefl

theorem dateOf_injective : Function.Injective dateOf := by
  intro m n h
  rcases Nat.lt_trichotomy m n with hlt | heq | hgt
  · exact absurd (h ▸ before_of_lt hlt) Date.Before.irrefl
  · exact heq
  · exact absurd (h ▸ before_of_lt hgt) Date.Before.irrefl

end Irena.Library.Calendar
