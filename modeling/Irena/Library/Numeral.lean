import Irena.Library.Strings
import Mathlib.Algebra.Order.Ring.Nat
import Mathlib.Tactic.IntervalCases
import Mathlib.Tactic.NormNum

/-! # Positional numerals

Little-endian bytes and hexadecimal digits of natural numbers. The last digit of a fixed-width
numeral holds whatever the lower ones leave, so that a numeral is injective on all numbers and is
the usual one on those that fit its width. -/

namespace Irena.Library

/-- The largest values of the unsigned machine integers. -/
def u32Max : ℕ := 2 ^ 32 - 1
def u64Max : ℕ := 2 ^ 64 - 1

abbrev U64 := { n : ℕ // n ≤ u64Max }

namespace Numeral

open Strings

/-- `low + 1` little-endian digits of `n`. -/
def littleEndian : ℕ → ℕ → Bytes
  | 0, n => [n]
  | low + 1, n => n % 256 :: littleEndian low (n / 256)

def readLittleEndian : ℕ → Bytes → Option (ℕ × Bytes)
  | _, [] => none
  | 0, b :: rest => some (b, rest)
  | low + 1, b :: rest =>
    if b < 256 then (readLittleEndian low rest).map fun p => (b + 256 * p.1, p.2) else none

@[simp] theorem littleEndian_length (low n : ℕ) : (littleEndian low n).length = low + 1 := by
  induction low generalizing n with
  | zero => rfl
  | succ low ih => simp [littleEndian, ih]

theorem readLittleEndian_append (low n : ℕ) (rest : Bytes) :
    readLittleEndian low (littleEndian low n ++ rest) = some (n, rest) := by
  induction low generalizing n with
  | zero => rfl
  | succ low ih =>
    have hb : n % 256 < 256 := Nat.mod_lt _ (by omega)
    have hn : n % 256 + 256 * (n / 256) = n := by omega
    simp [littleEndian, readLittleEndian, hb, ih, hn]

theorem eq_append_of_readLittleEndian {low n : ℕ} {bytes rest : Bytes}
    (h : readLittleEndian low bytes = some (n, rest)) :
    bytes = littleEndian low n ++ rest := by
  induction low generalizing bytes n with
  | zero =>
    cases bytes with
    | nil => simp [readLittleEndian] at h
    | cons b bytes =>
      simp only [readLittleEndian, Option.some.injEq, Prod.mk.injEq] at h
      obtain ⟨rfl, rfl⟩ := h
      rfl
  | succ low ih =>
    cases bytes with
    | nil => simp [readLittleEndian] at h
    | cons b bytes =>
      simp only [readLittleEndian] at h
      split at h
      · rename_i hb
        obtain ⟨⟨m, r⟩, hread, heq⟩ := Option.map_eq_some_iff.mp h
        simp only [Prod.mk.injEq] at heq
        obtain ⟨rfl, rfl⟩ := heq
        have hmod : (b + 256 * m) % 256 = b := by omega
        have hdiv : (b + 256 * m) / 256 = m := by omega
        simp [littleEndian, hmod, hdiv, ih hread]
      · cases h

/-- The `w` lowest hexadecimal digits of `n`, least significant first. -/
def nibbles : ℕ → ℕ → List ℕ
  | 0, _ => []
  | w + 1, n => n % 16 :: nibbles w (n / 16)

def ofNibbles : List ℕ → ℕ
  | [] => 0
  | d :: ds => d + 16 * ofNibbles ds

@[simp] theorem nibbles_length (w n : ℕ) : (nibbles w n).length = w := by
  induction w generalizing n with
  | zero => rfl
  | succ w ih => simp [nibbles, ih]

theorem ofNibbles_nibbles {w n : ℕ} (h : n < 16 ^ w) : ofNibbles (nibbles w n) = n := by
  induction w generalizing n with
  | zero =>
    have : n = 0 := by simpa using h
    simp [nibbles, ofNibbles, this]
  | succ w ih =>
    have hdiv : n / 16 < 16 ^ w := by
      rw [pow_succ] at h
      omega
    have hn : n % 16 + 16 * (n / 16) = n := by omega
    simp [nibbles, ofNibbles, ih hdiv, hn]

theorem nibbles_lt (w n : ℕ) : ∀ d ∈ nibbles w n, d < 16 := by
  induction w generalizing n with
  | zero => simp [nibbles]
  | succ w ih =>
    intro d hd
    rcases List.mem_cons.mp hd with rfl | hd
    · exact Nat.mod_lt _ (by omega)
    · exact ih _ d hd

/-- The lowercase hexadecimal digit of a number below sixteen. -/
def hexChar (d : ℕ) : Char :=
  if d < 10 then Char.ofNat (48 + d) else Char.ofNat (87 + d)

/-- The value of a lowercase hexadecimal digit; upper case is refused. -/
def hexValue (c : Char) : Option ℕ :=
  if 48 ≤ c.toNat ∧ c.toNat ≤ 57 then some (c.toNat - 48)
  else if 97 ≤ c.toNat ∧ c.toNat ≤ 102 then some (c.toNat - 87)
  else none

theorem hexValue_hexChar {d : ℕ} (h : d < 16) : hexValue (hexChar d) = some d := by
  interval_cases d <;> decide

/-- Hexadecimal digits a number is written with: `w`, or as many as it needs. -/
def hexWidth (w n : ℕ) : ℕ := max w (n.log2 / 4 + 1)

/-- The two digits of each byte the other way round. -/
def swapPairs {α : Type} : List α → List α
  | low :: high :: rest => high :: low :: swapPairs rest
  | rest => rest

/-- Lowercase hexadecimal of the little-endian bytes in order, the high digit of each first. -/
def toHex (w n : ℕ) : Text := swapPairs ((nibbles (hexWidth w n) n).map hexChar)

def fromHex (w : ℕ) (text : Text) : Option ℕ :=
  match (swapPairs text).mapM hexValue with
  | none => none
  | some ds => if text.length = hexWidth w (ofNibbles ds) then some (ofNibbles ds) else none

theorem lt_pow_hexWidth (w n : ℕ) : n < 16 ^ hexWidth w n := by
  have hlog : n < 2 ^ (n.log2 + 1) := Nat.lt_log2_self
  have hle : n.log2 + 1 ≤ 4 * hexWidth w n := by
    unfold hexWidth
    omega
  calc n < 2 ^ (n.log2 + 1) := hlog
    _ ≤ 2 ^ (4 * hexWidth w n) := Nat.pow_le_pow_right (by omega) hle
    _ = 16 ^ hexWidth w n := by rw [pow_mul]; norm_num

@[simp] theorem swapPairs_swapPairs {α : Type} (l : List α) : swapPairs (swapPairs l) = l := by
  induction l using swapPairs.induct with
  | case1 low high rest ih => simp [swapPairs, ih]
  | case2 rest h =>
    rcases rest with _ | ⟨a, _ | ⟨b, rest⟩⟩
    · rfl
    · rfl
    · exact absurd rfl (h a b rest)

theorem swapPairs_perm {α : Type} (l : List α) : (swapPairs l).Perm l := by
  induction l using swapPairs.induct with
  | case1 low high rest ih =>
    rw [swapPairs]
    exact (List.Perm.swap low high _).trans ((ih.cons high).cons low)
  | case2 rest h =>
    rcases rest with _ | ⟨a, _ | ⟨b, rest⟩⟩
    · exact .refl _
    · exact .refl _
    · exact absurd rfl (h a b rest)

@[simp] theorem toHex_length (w n : ℕ) : (toHex w n).length = hexWidth w n := by
  simp [toHex, (swapPairs_perm _).length_eq]

theorem mapM_hexValue_map {ds : List ℕ} (h : ∀ d ∈ ds, d < 16) :
    (ds.map hexChar).mapM hexValue = some ds := by
  induction ds with
  | nil => rfl
  | cons d ds ih =>
    have hd := hexValue_hexChar (h d (List.mem_cons_self ..))
    have hds := ih fun e he => h e (List.mem_cons_of_mem _ he)
    simp [List.mapM_cons, hd, hds]

@[simp] theorem fromHex_toHex (w n : ℕ) : fromHex w (toHex w n) = some n := by
  have hmap := mapM_hexValue_map (nibbles_lt (hexWidth w n) n)
  have hback := ofNibbles_nibbles (lt_pow_hexWidth w n)
  simp [fromHex, toHex, hmap, hback, (swapPairs_perm _).length_eq]

end Numeral

end Irena.Library
