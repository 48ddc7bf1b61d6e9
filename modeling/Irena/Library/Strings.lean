import Mathlib.Data.List.Infix
import Mathlib.Data.List.Lex
import Mathlib.Data.Char

/-! # Text

Text as lists of characters, and the few string operations that a program on text needs. -/

namespace Irena.Library.Strings

/-- A byte string; a symbol that stands for a byte is below 256. -/
abbrev Bytes := List ℕ

abbrev Text := List Char

/-- The characters of a string, as data: a literal then carries no proof of its own. -/
structure Spells (s : String) (chars : Text) : Type where
  eq : s.toList = chars

def spells (chars : Text) : Spells (String.ofList chars) chars := ⟨String.toList_ofList⟩

/-- A string literal as text. The characters are found once, when the literal is elaborated. -/
def lit (s : String) {chars : Text} (_ : Spells s chars := by exact spells _) : Text :=
  chars

/-- The Unicode property White_Space. -/
def isWhitespace (c : Char) : Bool :=
  let n := c.toNat
  (9 ≤ n && n ≤ 13) || n == 32 || n == 0x85 || n == 0xA0 || n == 0x1680 ||
    (0x2000 ≤ n && n ≤ 0x200A) || n == 0x2028 || n == 0x2029 || n == 0x202F || n == 0x205F ||
    n == 0x3000

def trimStart (t : Text) : Text := t.dropWhile isWhitespace

def trimEnd (t : Text) : Text := (t.reverse.dropWhile isWhitespace).reverse

def trim (t : Text) : Text := trimEnd (trimStart t)

/-- Whether `needle` occurs in `hay`. -/
def contains (hay needle : Text) : Bool := hay.tails.any needle.isPrefixOf

def stripPrefix (t pre : Text) : Option Text :=
  if pre.isPrefixOf t then some (t.drop pre.length) else none

/-- The text after the first occurrence of `needle`. -/
def afterFirst (needle : Text) : Text → Option Text
  | [] => stripPrefix [] needle
  | c :: t =>
    match stripPrefix (c :: t) needle with
    | some rest => some rest
    | none => afterFirst needle t

def isAsciiDigit (c : Char) : Bool := 48 ≤ c.toNat && c.toNat ≤ 57

def isAsciiLowercase (c : Char) : Bool := 97 ≤ c.toNat && c.toNat ≤ 122

/-- The decimal form of a number. -/
def decimal (n : ℕ) : Text := Nat.toDigits 10 n

/-- The number a nonempty run of ASCII digits spells. -/
def ofDecimal (t : Text) : Option ℕ :=
  if t ≠ [] ∧ t.all isAsciiDigit then some (t.foldl (fun n c => 10 * n + (c.toNat - 48)) 0) else none

theorem contains_iff {hay needle : Text} : contains hay needle = true ↔ needle <:+: hay := by
  rw [contains, List.any_eq_true, List.infix_iff_prefix_suffix]
  constructor
  · rintro ⟨t, ht, hpre⟩
    exact ⟨t, List.isPrefixOf_iff_prefix.mp hpre, (List.mem_tails ..).mp ht⟩
  · rintro ⟨t, hpre, ht⟩
    exact ⟨t, (List.mem_tails ..).mpr ht, List.isPrefixOf_iff_prefix.mpr hpre⟩

theorem decimal_injective : Function.Injective decimal := by
  intro m n h
  have hdigits := congrArg (fun t => Nat.ofDigitChars 10 t 0) h
  simpa [decimal, Nat.ofDigitChars_ten_toDigits] using hdigits

theorem not_mem_decimal {c : Char} (h : c.isDigit = false) (n : ℕ) : c ∉ decimal n := by
  intro hc
  have hdigit := Nat.isDigit_of_mem_toDigits (by decide) (by decide) hc
  rw [h] at hdigit
  cases hdigit

@[simp] theorem ofDecimal_decimal (n : ℕ) : ofDecimal (decimal n) = some n := by
  have hne : decimal n ≠ [] := Nat.toDigits_ne_nil
  have hdigits : (decimal n).all isAsciiDigit = true := by
    refine List.all_eq_true.mpr fun c hc => ?_
    have hdigit := Nat.isDigit_of_mem_toDigits (by decide) (by decide) hc
    simpa [Char.isDigit, isAsciiDigit, UInt32.le_iff_toNat_le] using hdigit
  have hvalue : Nat.ofDigitChars 10 (decimal n) 0 = n := Nat.ofDigitChars_ten_toDigits
  rw [ofDecimal, if_pos ⟨hne, hdigits⟩]
  exact congrArg some hvalue

/-- A number is told from what follows it by a character that is no digit. -/
theorem decimal_append_inj {c : Char} (hc : c.isDigit = false) {m n : ℕ} {a b : Text}
    (h : decimal m ++ c :: a = decimal n ++ c :: b) : m = n ∧ a = b := by
  have hprefix (k : ℕ) (t : Text) : (decimal k ++ c :: t).takeWhile (fun d => d ≠ c) = decimal k := by
    rw [List.takeWhile_append_of_pos]
    · simp
    · intro d hd
      simpa using fun heq : d = c => not_mem_decimal hc k (heq ▸ hd)
  have hsame : decimal m = decimal n := by
    rw [← hprefix m a, h, hprefix]
  rw [hsame] at h
  exact ⟨decimal_injective hsame, (List.cons.inj (List.append_cancel_left h)).2⟩

end Irena.Library.Strings
