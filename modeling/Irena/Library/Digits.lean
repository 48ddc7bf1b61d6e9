import Irena.Library.Utf8
import Mathlib.Data.List.Induction
import Mathlib.Data.List.Lex

/-! # Numbers of a fixed width

The decimal digits of a number in a given width. Texts of one width are ordered as bytes the way the
numbers they spell are. -/

namespace Irena.Library.Digits

open Strings Utf8

/-- The last `width` decimal digits of a number. -/
def padded : ℕ → ℕ → Text
  | 0, _ => []
  | width + 1, n => padded width (n / 10) ++ [Nat.digitChar (n % 10)]

/-- The number that bytes spell as ASCII digits. -/
def value (bytes : Bytes) : ℕ := bytes.foldl (fun n byte => 10 * n + (byte - 48)) 0

/-- A byte that is an ASCII digit. -/
def IsDigit (byte : ℕ) : Prop := 48 ≤ byte ∧ byte ≤ 57

theorem utf8_digitChar {d : ℕ} (h : d < 10) : utf8Char (Nat.digitChar d) = [48 + d] := by
  have hall : ∀ d < 10, utf8Char (Nat.digitChar d) = [48 + d] := by decide
  exact hall d h

theorem utf8_padded_succ (width n : ℕ) :
    utf8 (padded (width + 1) n) = utf8 (padded width (n / 10)) ++ [48 + n % 10] := by
  rw [padded, utf8_append, utf8_cons, utf8_nil, List.append_nil,
    utf8_digitChar (Nat.mod_lt n (by decide))]

@[simp] theorem length_utf8_padded (width n : ℕ) : (utf8 (padded width n)).length = width := by
  induction width generalizing n with
  | zero => rfl
  | succ width ih => simp [utf8_padded_succ, ih]

theorem isDigit_of_mem_padded {width n byte : ℕ} (h : byte ∈ utf8 (padded width n)) :
    IsDigit byte := by
  induction width generalizing n with
  | zero => cases h
  | succ width ih =>
    rw [utf8_padded_succ, List.mem_append, List.mem_singleton] at h
    rcases h with h | rfl
    · exact ih h
    · unfold IsDigit
      omega

theorem value_append (bytes : Bytes) (byte : ℕ) :
    value (bytes ++ [byte]) = 10 * value bytes + (byte - 48) := by
  rw [value, List.foldl_append]
  rfl

theorem value_padded {width n : ℕ} (h : n < 10 ^ width) : value (utf8 (padded width n)) = n := by
  induction width generalizing n with
  | zero =>
    have hzero : n = 0 := by simpa using h
    rw [hzero]
    rfl
  | succ width ih =>
    have htail : n / 10 < 10 ^ width := by
      rw [pow_succ] at h
      omega
    rw [utf8_padded_succ, value_append, ih htail]
    omega

theorem value_lt {bytes : Bytes} (h : ∀ byte ∈ bytes, IsDigit byte) :
    value bytes < 10 ^ bytes.length := by
  induction bytes using List.reverseRecOn with
  | nil => decide
  | append_singleton bytes byte ih =>
    rw [List.forall_mem_append, List.forall_mem_singleton] at h
    have hrest := ih h.1
    obtain ⟨hlow, hhigh⟩ := h.2
    rw [value_append, List.length_append, List.length_singleton, pow_succ]
    omega

/-- Digits are the digits of the number they spell. -/
theorem padded_value {bytes : Bytes} (h : ∀ byte ∈ bytes, IsDigit byte) :
    utf8 (padded bytes.length (value bytes)) = bytes := by
  induction bytes using List.reverseRecOn with
  | nil => rfl
  | append_singleton bytes byte ih =>
    rw [List.forall_mem_append, List.forall_mem_singleton] at h
    have hrest := ih h.1
    obtain ⟨hlow, hhigh⟩ := h.2
    have hdiv : (10 * value bytes + (byte - 48)) / 10 = value bytes := by omega
    have hmod : 48 + (10 * value bytes + (byte - 48)) % 10 = byte := by omega
    rw [value_append, List.length_append, List.length_singleton, utf8_padded_succ, hdiv, hmod, hrest]

/-- Lists of one length before others of one length are compared by them first. -/
theorem append_lt_append_iff {a b c d : List ℕ} (h : a.length = c.length) :
    a ++ b < c ++ d ↔ a < c ∨ a = c ∧ b < d := by
  induction a generalizing c with
  | nil =>
    obtain rfl : c = [] := List.eq_nil_of_length_eq_zero h.symm
    simp
  | cons x a ih =>
    cases c with
    | nil => cases h
    | cons y c =>
      have hlength : a.length = c.length := Nat.succ.inj h
      simp only [List.cons_append, List.cons_lt_cons_iff, ih hlength, List.cons.injEq]
      constructor
      · rintro (hlt | ⟨rfl, hlt | ⟨rfl, hlt⟩⟩)
        · exact .inl (.inl hlt)
        · exact .inl (.inr ⟨rfl, hlt⟩)
        · exact .inr ⟨⟨rfl, rfl⟩, hlt⟩
      · rintro ((hlt | ⟨rfl, hlt⟩) | ⟨⟨rfl, rfl⟩, hlt⟩)
        · exact .inl hlt
        · exact .inr ⟨rfl, .inl hlt⟩
        · exact .inr ⟨rfl, .inr ⟨rfl, hlt⟩⟩

theorem utf8_padded_inj {width m n : ℕ} (hm : m < 10 ^ width) (hn : n < 10 ^ width) :
    utf8 (padded width m) = utf8 (padded width n) ↔ m = n := by
  refine ⟨fun h => ?_, fun h => congrArg (fun n => utf8 (padded width n)) h⟩
  rw [← value_padded hm, h, value_padded hn]

/-- Digits of one width are ordered as the numbers are. -/
theorem utf8_padded_lt {width m n : ℕ} (hm : m < 10 ^ width) (hn : n < 10 ^ width) :
    utf8 (padded width m) < utf8 (padded width n) ↔ m < n := by
  induction width generalizing m n with
  | zero =>
    have hzero : m = 0 ∧ n = 0 := by simpa using And.intro hm hn
    simp [hzero.1, hzero.2]
  | succ width ih =>
    rw [pow_succ] at hm hn
    have hm' : m / 10 < 10 ^ width := by omega
    have hn' : n / 10 < 10 ^ width := by omega
    have hlast : [48 + m % 10] < [48 + n % 10] ↔ m % 10 < n % 10 := by
      rw [List.cons_lt_cons_iff, Nat.add_lt_add_iff_left]
      exact or_iff_left fun h => List.not_lt_nil _ h.2
    have hlength : (utf8 (padded width (m / 10))).length = (utf8 (padded width (n / 10))).length := by
      rw [length_utf8_padded, length_utf8_padded]
    rw [utf8_padded_succ, utf8_padded_succ, append_lt_append_iff hlength, ih hm' hn',
      utf8_padded_inj hm' hn', hlast]
    omega

end Irena.Library.Digits
