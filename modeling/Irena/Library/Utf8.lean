import Irena.Library.Numeral

/-! # UTF-8

One encoding for each text, and a reader that accepts exactly these encodings. -/

namespace Irena.Library.Utf8

open Strings

def utf8Char (c : Char) : Bytes :=
  let n := c.toNat
  if n < 0x80 then [n]
  else if n < 0x800 then [0xC0 + n / 64, 0x80 + n % 64]
  else if n < 0x10000 then [0xE0 + n / 4096, 0x80 + n / 64 % 64, 0x80 + n % 64]
  else [0xF0 + n / 262144, 0x80 + n / 4096 % 64, 0x80 + n / 64 % 64, 0x80 + n % 64]

def utf8 (text : Text) : Bytes := text.flatMap utf8Char

/-- The length of a text in bytes. -/
def byteLength (t : Text) : ℕ := (utf8 t).length

/-- The length of a character's encoding, by its first byte. -/
def utf8Width (lead : ℕ) : ℕ :=
  if lead < 0x80 then 1 else if lead < 0xE0 then 2 else if lead < 0xF0 then 3 else 4

/-- The scalar value a character's bytes spell. -/
def utf8Scalar : Bytes → ℕ
  | [a] => a
  | [a, b] => (a - 0xC0) * 64 + (b - 0x80)
  | [a, b, c] => (a - 0xE0) * 4096 + (b - 0x80) * 64 + (c - 0x80)
  | [a, b, c, d] => (a - 0xF0) * 262144 + (b - 0x80) * 4096 + (c - 0x80) * 64 + (d - 0x80)
  | _ => 0

/-- Reads one character. Comparing with its encoding refuses overlong forms and surrogates. -/
def readUtf8Char : Bytes → Option (Char × Bytes)
  | [] => none
  | lead :: rest =>
    let bytes := (lead :: rest).take (utf8Width lead)
    let c := Char.ofNat (utf8Scalar bytes)
    if utf8Char c = bytes then some (c, (lead :: rest).drop (utf8Width lead)) else none

/-- Reads characters until the bytes are used up. -/
def readUtf8 : ℕ → Bytes → Option Text
  | _, [] => some []
  | 0, _ :: _ => none
  | fuel + 1, b :: bs =>
    match readUtf8Char (b :: bs) with
    | none => none
    | some (c, rest) => (readUtf8 fuel rest).map (c :: ·)

def fromUtf8 (bytes : Bytes) : Option Text := readUtf8 bytes.length bytes

@[simp] theorem utf8_nil : utf8 [] = [] := rfl

@[simp] theorem utf8_cons (c : Char) (text : Text) : utf8 (c :: text) = utf8Char c ++ utf8 text :=
  rfl

@[simp] theorem utf8_append (s t : Text) : utf8 (s ++ t) = utf8 s ++ utf8 t := by
  simp [utf8]

theorem byteLength_append (s t : Text) :
    byteLength (s ++ t) = byteLength s + byteLength t := by
  simp [byteLength]

theorem byteLength_blanks (n : ℕ) : byteLength (List.replicate n ' ') = n := by
  simp [byteLength, utf8, utf8Char, List.flatMap_replicate]

private theorem scalar_two (n : ℕ) :
    (0xC0 + n / 64 - 0xC0) * 64 + (0x80 + n % 64 - 0x80) = n := by omega

private theorem scalar_three (n : ℕ) :
    (0xE0 + n / 4096 - 0xE0) * 4096 + (0x80 + n / 64 % 64 - 0x80) * 64 +
      (0x80 + n % 64 - 0x80) = n := by omega

private theorem scalar_four (n : ℕ) :
    (0xF0 + n / 262144 - 0xF0) * 262144 + (0x80 + n / 4096 % 64 - 0x80) * 4096 +
      (0x80 + n / 64 % 64 - 0x80) * 64 + (0x80 + n % 64 - 0x80) = n := by omega

theorem utf8Scalar_utf8Char (c : Char) : utf8Scalar (utf8Char c) = c.toNat := by
  unfold utf8Char
  dsimp only
  split_ifs
  · rfl
  · exact scalar_two _
  · exact scalar_three _
  · exact scalar_four _

theorem toNat_lt (c : Char) : c.toNat < 0x110000 := by
  have hvalid := c.valid
  change c.val.toNat < 0x110000
  simp only [UInt32.isValidChar, Nat.isValidChar] at hvalid
  omega

/-- A character's encoding has the width its first byte announces. -/
theorem utf8Char_eq_cons (c : Char) :
    ∃ lead tail, utf8Char c = lead :: tail ∧ utf8Width lead = tail.length + 1 := by
  have hlt := toNat_lt c
  unfold utf8Char
  dsimp only
  split_ifs with h1 h2 h3
  · exact ⟨_, _, rfl, by simp [utf8Width, h1]⟩
  · refine ⟨_, _, rfl, ?_⟩
    have ha : ¬ 0xC0 + c.toNat / 64 < 0x80 := by omega
    have hb : 0xC0 + c.toNat / 64 < 0xE0 := by omega
    simp [utf8Width, ha, hb]
  · refine ⟨_, _, rfl, ?_⟩
    have ha : ¬ 0xE0 + c.toNat / 4096 < 0x80 := by omega
    have hb : ¬ 0xE0 + c.toNat / 4096 < 0xE0 := by omega
    have hc : 0xE0 + c.toNat / 4096 < 0xF0 := by omega
    simp [utf8Width, ha, hc]
  · refine ⟨_, _, rfl, ?_⟩
    have ha : ¬ 0xF0 + c.toNat / 262144 < 0x80 := by omega
    have hb : ¬ 0xF0 + c.toNat / 262144 < 0xE0 := by omega
    have hc : ¬ 0xF0 + c.toNat / 262144 < 0xF0 := by omega
    simp [utf8Width, ha, hb]

theorem readUtf8Char_append (c : Char) (rest : Bytes) :
    readUtf8Char (utf8Char c ++ rest) = some (c, rest) := by
  obtain ⟨lead, tail, heq, hwidth⟩ := utf8Char_eq_cons c
  have hchar : Char.ofNat (utf8Scalar (lead :: tail)) = c := by
    rw [← heq, utf8Scalar_utf8Char, Char.ofNat_toNat]
  rw [heq, List.cons_append, readUtf8Char]
  simp [hwidth, hchar, heq]

theorem eq_append_of_readUtf8Char {bytes rest : Bytes} {c : Char}
    (h : readUtf8Char bytes = some (c, rest)) : bytes = utf8Char c ++ rest := by
  cases bytes with
  | nil => simp [readUtf8Char] at h
  | cons lead tail =>
    simp only [readUtf8Char] at h
    split at h
    · rename_i hc
      simp only [Option.some.injEq, Prod.mk.injEq] at h
      obtain ⟨hchar, rfl⟩ := h
      rw [← hchar, hc, List.take_append_drop]
    · cases h

theorem utf8Char_ne_nil (c : Char) : utf8Char c ≠ [] := by
  obtain ⟨lead, tail, heq, -⟩ := utf8Char_eq_cons c
  simp [heq]

theorem readUtf8_utf8 (fuel : ℕ) (text : Text) (h : text.length ≤ fuel) :
    readUtf8 fuel (utf8 text) = some text := by
  induction text generalizing fuel with
  | nil => cases fuel <;> rfl
  | cons c text ih =>
    cases fuel with
    | zero => simp at h
    | succ fuel =>
      obtain ⟨lead, tail, heq, -⟩ := utf8Char_eq_cons c
      have hread := readUtf8Char_append c (utf8 text)
      rw [heq, List.cons_append] at hread
      have hlen : text.length ≤ fuel := by simpa using h
      rw [utf8_cons, heq, List.cons_append, readUtf8, hread]
      simp [ih fuel hlen]

theorem length_le_length_utf8 (text : Text) : text.length ≤ (utf8 text).length := by
  induction text with
  | nil => simp
  | cons c text ih =>
    have hpos : 0 < (utf8Char c).length := List.length_pos_of_ne_nil (utf8Char_ne_nil c)
    simp only [utf8_cons, List.length_cons, List.length_append]
    omega

@[simp] theorem fromUtf8_utf8 (text : Text) : fromUtf8 (utf8 text) = some text :=
  readUtf8_utf8 _ _ (length_le_length_utf8 text)

theorem eq_utf8_of_readUtf8 {fuel : ℕ} {bytes : Bytes} {text : Text}
    (h : readUtf8 fuel bytes = some text) : bytes = utf8 text := by
  induction fuel generalizing bytes text with
  | zero =>
    cases bytes with
    | nil =>
      obtain rfl := Option.some.inj h
      rfl
    | cons b bs => cases h
  | succ fuel ih =>
    cases bytes with
    | nil =>
      obtain rfl := Option.some.inj h
      rfl
    | cons b bs =>
      rw [readUtf8] at h
      split at h
      · cases h
      · rename_i c rest hread
        obtain ⟨tail, htail, rfl⟩ := Option.map_eq_some_iff.mp h
        rw [eq_append_of_readUtf8Char hread, ih htail, utf8_cons]

/-- UTF-8 has one form for each text. -/
theorem eq_utf8_of_fromUtf8 {bytes : Bytes} {text : Text} (h : fromUtf8 bytes = some text) :
    bytes = utf8 text :=
  eq_utf8_of_readUtf8 h

theorem utf8_injective : Function.Injective utf8 := by
  intro s t h
  have hs := fromUtf8_utf8 s
  rw [h, fromUtf8_utf8] at hs
  exact (Option.some.inj hs).symm

end Irena.Library.Utf8
