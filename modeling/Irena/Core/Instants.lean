import Irena.Core.Written
import Irena.Library.Calendar
import Irena.Library.Digits

/-! # Notary times and the instants they spell

A time is accepted exactly when it is the form of an instant: so many seconds into the years that
four digits write. Its bytes are ordered as the instants are. -/

namespace Irena.Core

open Irena.Library Irena.Library.Outcome Irena.Library.Strings Irena.Library.Utf8
open Irena.Library.Numeral Irena.Library.Calendar Irena.Library.Digits

/-- The six numbers that a time is written with. -/
structure TimeFields where
  year : ℕ
  month : ℕ
  day : ℕ
  hour : ℕ
  minute : ℕ
  second : ℕ

namespace TimeFields

/-- The form of a time. -/
def spelled (f : TimeFields) : Text :=
  padded 4 f.year ++ (lit "-" ++ (padded 2 f.month ++ (lit "-" ++ (padded 2 f.day ++ (lit "T" ++
    (padded 2 f.hour ++ (lit ":" ++ (padded 2 f.minute ++ (lit ":" ++ (padded 2 f.second ++
      lit "Z"))))))))))

/-- Each number fits the digits it is written with. -/
structure Fits (f : TimeFields) : Prop where
  year : f.year < 10 ^ 4
  month : f.month < 10 ^ 2
  day : f.day < 10 ^ 2
  hour : f.hour < 10 ^ 2
  minute : f.minute < 10 ^ 2
  second : f.second < 10 ^ 2

theorem utf8_spelled (f : TimeFields) : utf8 f.spelled =
    utf8 (padded 4 f.year) ++ (45 :: (utf8 (padded 2 f.month) ++ (45 :: (utf8 (padded 2 f.day) ++
      (84 :: (utf8 (padded 2 f.hour) ++ (58 :: (utf8 (padded 2 f.minute) ++
        (58 :: (utf8 (padded 2 f.second) ++ [90])))))))))) := by
  simp only [spelled, utf8_append]
  rfl

end TimeFields

/-- Digits where the form has no symbol. -/
theorem timeFormReason_digits {index : ℕ} {digits rest : Bytes}
    (hsymbol : ∀ i < digits.length, timeSymbol (index + i) = none) :
    timeFormReason index (digits ++ rest) = none ↔
      (∀ byte ∈ digits, IsDigit byte) ∧ timeFormReason (index + digits.length) rest = none := by
  induction digits generalizing index with
  | nil => simp
  | cons byte digits ih =>
    have hrest : ∀ i < digits.length, timeSymbol (index + 1 + i) = none := by
      intro i hi
      rw [Nat.add_assoc, Nat.add_comm 1]
      exact hsymbol (i + 1) (Nat.succ_lt_succ hi)
    have hfirst := hsymbol 0 (Nat.succ_pos _)
    rw [Nat.add_zero] at hfirst
    have hlength : index + (byte :: digits).length = index + 1 + digits.length := by
      rw [List.length_cons]
      omega
    rw [List.cons_append, timeFormReason, hfirst, List.forall_mem_cons, hlength]
    dsimp only
    split
    · rename_i hdigit
      rw [ih hrest]
      exact ⟨fun h => ⟨⟨hdigit, h.1⟩, h.2⟩, fun h => ⟨h.1.2, h.2⟩⟩
    · rename_i hdigit
      exact ⟨nofun, fun h => absurd h.1.1 hdigit⟩

theorem timeFormReason_symbol {index symbol byte : ℕ} {rest : Bytes}
    (hsymbol : timeSymbol index = some symbol) :
    timeFormReason index (byte :: rest) = none ↔
      byte = symbol ∧ timeFormReason (index + 1) rest = none := by
  rw [timeFormReason, hsymbol]
  dsimp only
  split
  · rename_i hbyte
    exact ⟨fun h => ⟨hbyte, h⟩, fun h => h.2⟩
  · rename_i hbyte
    exact ⟨nofun, fun h => absurd h.1 hbyte⟩

/-- The form of a time refuses nothing in a text that is spelled by it. -/
theorem timeFormReason_spelled (f : TimeFields) : timeFormReason 0 (utf8 f.spelled) = none := by
  have hdigits {index width n : ℕ} {rest : Bytes}
      (hsymbol : ∀ i < width, timeSymbol (index + i) = none)
      (h : timeFormReason (index + width) rest = none) :
      timeFormReason index (utf8 (padded width n) ++ rest) = none := by
    rw [timeFormReason_digits (by rwa [length_utf8_padded]), length_utf8_padded]
    exact ⟨fun _ => isDigit_of_mem_padded, h⟩
  have hsymbol {index symbol : ℕ} {rest : Bytes} (hs : timeSymbol index = some symbol)
      (h : timeFormReason (index + 1) rest = none) :
      timeFormReason index (symbol :: rest) = none :=
    (timeFormReason_symbol hs).mpr ⟨rfl, h⟩
  rw [TimeFields.utf8_spelled]
  refine hdigits (by decide) (hsymbol (by decide) ?_)
  refine hdigits (by decide) (hsymbol (by decide) ?_)
  refine hdigits (by decide) (hsymbol (by decide) ?_)
  refine hdigits (by decide) (hsymbol (by decide) ?_)
  refine hdigits (by decide) (hsymbol (by decide) ?_)
  exact hdigits (by decide) (hsymbol (by decide) rfl)

/-- One number and the symbol behind it, cut off the front of a text of the form. -/
theorem cut_field {index width symbol : ℕ} {bytes : Bytes} (hlong : width < bytes.length)
    (hdigits : ∀ i < width, timeSymbol (index + i) = none)
    (hsymbol : timeSymbol (index + width) = some symbol)
    (hform : timeFormReason index bytes = none) :
    ∃ n rest, n < 10 ^ width ∧ bytes = utf8 (padded width n) ++ symbol :: rest ∧
      timeFormReason (index + width + 1) rest = none ∧ rest.length + width + 1 = bytes.length := by
  have hwidth : (bytes.take width).length = width := by
    rw [List.length_take]
    omega
  obtain ⟨byte, rest, hrest⟩ : ∃ byte rest, bytes.drop width = byte :: rest :=
    List.exists_cons_of_length_pos (by rw [List.length_drop]; omega)
  have hbytes : bytes = bytes.take width ++ byte :: rest := by
    rw [← hrest, List.take_append_drop]
  have hlength := congrArg List.length hrest
  rw [List.length_drop, List.length_cons] at hlength
  rw [hbytes, timeFormReason_digits (by rwa [hwidth]), hwidth, timeFormReason_symbol hsymbol] at hform
  obtain ⟨hall, rfl, hform⟩ := hform
  refine ⟨value (bytes.take width), rest, ?_, ?_, hform, by omega⟩
  · have hlt := value_lt hall
    rwa [hwidth] at hlt
  · have hpadded := padded_value hall
    rw [hwidth] at hpadded
    rw [hpadded]
    exact hbytes

/-- A text of the form is spelled by the numbers it is written with. -/
theorem spelled_of_form {text : Text} (hlength : (utf8 text).length = 20)
    (hform : timeFormReason 0 (utf8 text) = none) :
    ∃ f : TimeFields, f.Fits ∧ text = f.spelled := by
  obtain ⟨year, r₁, hyear, htext, h₁, hl₁⟩ := @cut_field 0 4 _ _ (by omega) (by decide) rfl hform
  obtain ⟨month, r₂, hmonth, rfl, h₂, hl₂⟩ := @cut_field _ 2 _ _ (by omega) (by decide) rfl h₁
  obtain ⟨day, r₃, hday, rfl, h₃, hl₃⟩ := @cut_field _ 2 _ _ (by omega) (by decide) rfl h₂
  obtain ⟨hour, r₄, hhour, rfl, h₄, hl₄⟩ := @cut_field _ 2 _ _ (by omega) (by decide) rfl h₃
  obtain ⟨minute, r₅, hminute, rfl, h₅, hl₅⟩ := @cut_field _ 2 _ _ (by omega) (by decide) rfl h₄
  obtain ⟨second, r₆, hsecond, rfl, -, hl₆⟩ := @cut_field _ 2 _ _ (by omega) (by decide) rfl h₅
  obtain rfl : r₆ = [] := List.eq_nil_of_length_eq_zero (by omega)
  refine ⟨⟨year, month, day, hour, minute, second⟩,
    ⟨hyear, hmonth, hday, hhour, hminute, hsecond⟩, utf8_injective ?_⟩
  rw [htext, TimeFields.utf8_spelled]

/-- The bytes of a text between two positions. -/
def between (bytes : Bytes) (first last : ℕ) : Bytes := (bytes.take last).drop first

/-- Where the numbers of a time stand. -/
theorem between_spelled (f : TimeFields) :
    between (utf8 f.spelled) 0 4 = utf8 (padded 4 f.year) ∧
    between (utf8 f.spelled) 5 7 = utf8 (padded 2 f.month) ∧
    between (utf8 f.spelled) 8 10 = utf8 (padded 2 f.day) ∧
    between (utf8 f.spelled) 11 13 = utf8 (padded 2 f.hour) ∧
    between (utf8 f.spelled) 14 16 = utf8 (padded 2 f.minute) ∧
    between (utf8 f.spelled) 17 19 = utf8 (padded 2 f.second) := by
  have hzero (n : ℕ) : utf8 (padded 0 n) = [] := rfl
  rw [TimeFields.utf8_spelled]
  simp only [utf8_padded_succ, hzero, List.nil_append, List.cons_append]
  exact ⟨rfl, rfl, rfl, rfl, rfl, rfl⟩

theorem length_spelled (f : TimeFields) : (utf8 f.spelled).length = 20 := by
  rw [TimeFields.utf8_spelled]
  simp

theorem daysInMonth_eq {year month : ℕ} (hpos : 0 < month) (hle : month ≤ 12) :
    daysInMonth year month = monthLength year month := by
  have hleap : (year % 4 = 0 ∧ (year % 100 ≠ 0 ∨ year % 400 = 0)) ↔ IsLeap year := by
    unfold IsLeap
    omega
  interval_cases month <;> simp [daysInMonth, monthLength, hleap]

namespace TimeFields

/-- The date and the time of day exist. -/
structure Valid (f : TimeFields) : Prop where
  date : Date.Exists ⟨f.year, f.month, f.day⟩
  hour : f.hour < 24
  minute : f.minute < 60
  second : f.second < 60

end TimeFields

/-- The numbers of a time are read where they stand. -/
theorem timeField_spelled {f : TimeFields} (h : f.Fits) :
    timeField (utf8 f.spelled) 0 4 = f.year ∧ timeField (utf8 f.spelled) 5 7 = f.month ∧
    timeField (utf8 f.spelled) 8 10 = f.day ∧ timeField (utf8 f.spelled) 11 13 = f.hour ∧
    timeField (utf8 f.spelled) 14 16 = f.minute ∧ timeField (utf8 f.spelled) 17 19 = f.second := by
  obtain ⟨hyear, hmonth, hday, hhour, hminute, hsecond⟩ := between_spelled f
  have hfield {first last width n : ℕ} (hn : n < 10 ^ width)
      (hb : between (utf8 f.spelled) first last = utf8 (padded width n)) :
      timeField (utf8 f.spelled) first last = n := by
    change value (between (utf8 f.spelled) first last) = n
    rw [hb, value_padded hn]
  exact ⟨hfield h.year hyear, hfield h.month hmonth, hfield h.day hday, hfield h.hour hhour,
    hfield h.minute hminute, hfield h.second hsecond⟩

/-- A time is accepted exactly when its numbers are those of a date and a time of day. -/
theorem timeReason_spelled {f : TimeFields} (h : f.Fits) : timeReason f.spelled = none ↔ f.Valid := by
  have hlength : ¬ (utf8 f.spelled).length ≠ 20 := not_not.mpr (length_spelled f)
  unfold timeReason
  simp only [hlength, if_false, timeFormReason_spelled, timeField_spelled h]
  constructor
  · intro hnone
    split_ifs at hnone with h₁ h₂ h₃ h₄ h₅
    have hmonths : 0 < f.month ∧ f.month ≤ 12 := by omega
    rw [daysInMonth_eq hmonths.1 hmonths.2] at h₂
    exact ⟨⟨hmonths.1, hmonths.2, by dsimp; omega, by dsimp; omega⟩, by omega, by omega, by omega⟩
  · rintro ⟨⟨hpos, hle, hdayPos, hdayLe⟩, hh, hm, hs⟩
    dsimp only at hpos hle hdayPos hdayLe
    rw [daysInMonth_eq hpos hle, if_neg (by omega), if_neg (by omega), if_neg (by omega),
      if_neg (by omega), if_neg (by omega)]

/-- The date and the time of day so many seconds after the year zero began. -/
def fieldsAt (seconds : ℕ) : TimeFields where
  year := (dateOf (seconds / 86400)).year
  month := (dateOf (seconds / 86400)).month
  day := (dateOf (seconds / 86400)).day
  hour := seconds % 86400 / 3600
  minute := seconds % 3600 / 60
  second := seconds % 60

/-- The instant lies in a year that four digits write. -/
def WithinForm (seconds : ℕ) : Prop := (fieldsAt seconds).year ≤ 9999

theorem valid_fieldsAt (seconds : ℕ) : (fieldsAt seconds).Valid where
  date := exists_dateOf (seconds / 86400)
  hour := by
    change seconds % 86400 / 3600 < 24
    omega
  minute := by
    change seconds % 3600 / 60 < 60
    omega
  second := Nat.mod_lt _ (by decide)

/-- Every date and time of day is that of an instant. -/
theorem exists_fieldsAt {f : TimeFields} (h : f.Valid) : ∃ seconds, fieldsAt seconds = f := by
  obtain ⟨hdate, hhour, hminute, hsecond⟩ := h
  obtain ⟨days, hdays⟩ := exists_iff.mp hdate
  obtain ⟨year, month, day, hour, minute, second⟩ := f
  dsimp only at hdays hhour hminute hsecond
  refine ⟨86400 * days + (3600 * hour + (60 * minute + second)), ?_⟩
  have hday : (86400 * days + (3600 * hour + (60 * minute + second))) / 86400 = days := by omega
  have htime : (86400 * days + (3600 * hour + (60 * minute + second))) % 86400 / 3600 = hour ∧
      (86400 * days + (3600 * hour + (60 * minute + second))) % 3600 / 60 = minute ∧
      (86400 * days + (3600 * hour + (60 * minute + second))) % 60 = second := by omega
  simp only [fieldsAt, hday, hdays, htime]

theorem fits_of_valid {f : TimeFields} (h : f.Valid) (hyear : f.year ≤ 9999) : f.Fits := by
  obtain ⟨⟨-, hmonth, -, hday⟩, hhour, hminute, hsecond⟩ := h
  have hlength : monthLength f.year f.month ≤ 31 := by
    unfold monthLength
    split
    · split <;> decide
    all_goals decide
  dsimp only at hmonth hday
  exact ⟨by omega, by omega, by omega, by omega, by omega, by omega⟩

/-- Times are ordered as bytes by year, month, day, hour, minute and second. -/
theorem spelled_lt {f g : TimeFields} (hf : f.Fits) (hg : g.Fits) :
    utf8 f.spelled < utf8 g.spelled ↔ f.year < g.year ∨ f.year = g.year ∧
      (f.month < g.month ∨ f.month = g.month ∧ (f.day < g.day ∨ f.day = g.day ∧
        (f.hour < g.hour ∨ f.hour = g.hour ∧ (f.minute < g.minute ∨ f.minute = g.minute ∧
          f.second < g.second)))) := by
  have hstep {width m n symbol : ℕ} {a b : List ℕ} (hm : m < 10 ^ width) (hn : n < 10 ^ width) :
      utf8 (padded width m) ++ symbol :: a < utf8 (padded width n) ++ symbol :: b ↔
        m < n ∨ m = n ∧ a < b := by
    rw [append_lt_append_iff (by rw [length_utf8_padded, length_utf8_padded]), utf8_padded_lt hm hn,
      utf8_padded_inj hm hn, List.cons_lt_cons_self]
  have hend {m n : ℕ} : (m < n ∨ m = n ∧ ([] : List ℕ) < []) ↔ m < n :=
    or_iff_left fun h => List.not_lt_nil _ h.2
  rw [TimeFields.utf8_spelled, TimeFields.utf8_spelled, hstep hf.year hg.year,
    hstep hf.month hg.month, hstep hf.day hg.day, hstep hf.hour hg.hour,
    hstep hf.minute hg.minute, hstep hf.second hg.second, hend]

/-- Times are ordered as bytes the way the instants are. -/
theorem spelled_fieldsAt_lt {m n : ℕ} (hm : WithinForm m) (hn : WithinForm n) :
    utf8 (fieldsAt m).spelled < utf8 (fieldsAt n).spelled ↔ m < n := by
  have hbefore := @before_iff (m / 86400) (n / 86400)
  have hsame : dateOf (m / 86400) = dateOf (n / 86400) ↔ m / 86400 = n / 86400 :=
    dateOf_injective.eq_iff
  rw [spelled_lt (fits_of_valid (valid_fieldsAt m) hm) (fits_of_valid (valid_fieldsAt n) hn)]
  unfold Date.Before at hbefore
  rw [Date.ext_iff] at hsame
  simp only [fieldsAt]
  omega

/-- The text between two byte positions; a slice that does not lie on characters is none. -/
def slice (text : Text) (first last : ℕ) : Option Text :=
  if first ≤ last ∧ last ≤ (utf8 text).length ∧ (fromUtf8 ((utf8 text).take first)).isSome ∧
      (fromUtf8 ((utf8 text).take last)).isSome then
    fromUtf8 (between (utf8 text) first last)
  else none

/-- The number a slice spells; there must be one. -/
def sliceNumber (text : Text) (first last : ℕ) : Except IrenaError ℕ :=
  orError ((slice text first last).bind fun digits => (ofDecimal digits).filter (· ≤ u32Max))
    (.fatal .panicked)

/-- Accepting a time with its numbers read from slices of the text, which may panic. -/
def acceptTime (text : Text) : Except IrenaError Text := do
  let reject (reason : Text) : Except IrenaError Text :=
    rejectValue (lit "notarisation") (lit "at") text reason
  if (utf8 text).length ≠ 20 then reject (lit "must be exactly YYYY-MM-DDTHH:MM:SSZ")
  else
    match timeFormReason 0 (utf8 text) with
    | some reason => reject reason
    | none =>
      let year ← sliceNumber text 0 4
      let month ← sliceNumber text 5 7
      let day ← sliceNumber text 8 10
      let hour ← sliceNumber text 11 13
      let minute ← sliceNumber text 14 16
      let second ← sliceNumber text 17 19
      if month = 0 ∨ 12 < month then reject (lit "month must be 01 to 12")
      else if day = 0 ∨ daysInMonth year month < day then reject (lit "day is outside the month")
      else if 23 < hour then reject (lit "hour must be 00 to 23")
      else if 59 < minute then reject (lit "minute must be 00 to 59")
      else if 59 < second then
        reject (lit "second must be 00 to 59; leap seconds are not accepted")
      else return text

theorem utf8_ascii {bytes : Bytes} (h : ∀ byte ∈ bytes, byte < 128) :
    utf8 (bytes.map Char.ofNat) = bytes := by
  have hchar : ∀ byte < 128, utf8Char (Char.ofNat byte) = [byte] := by decide
  induction bytes with
  | nil => rfl
  | cons byte bytes ih =>
    rw [List.forall_mem_cons] at h
    rw [List.map_cons, utf8_cons, hchar byte h.1, ih h.2]
    rfl

theorem fromUtf8_ascii {bytes : Bytes} (h : ∀ byte ∈ bytes, byte < 128) :
    fromUtf8 bytes = some (bytes.map Char.ofNat) := by
  have hread := fromUtf8_utf8 (bytes.map Char.ofNat)
  rwa [utf8_ascii h] at hread

theorem ofDecimal_digits {bytes : Bytes} (hne : bytes ≠ []) (h : ∀ byte ∈ bytes, IsDigit byte) :
    ofDecimal (bytes.map Char.ofNat) = some (value bytes) := by
  have htoNat : ∀ byte < 128, (Char.ofNat byte).toNat = byte := by decide
  have hbyte {byte : ℕ} (hb : byte ∈ bytes) : (Char.ofNat byte).toNat = byte :=
    htoNat byte (lt_of_le_of_lt (h byte hb).2 (by decide))
  have hdigits : (bytes.map Char.ofNat).all isAsciiDigit = true := by
    rw [List.all_map, List.all_eq_true]
    intro byte hb
    simpa [isAsciiDigit, hbyte hb, IsDigit] using h byte hb
  have hfold : (bytes.map Char.ofNat).foldl (fun n c => 10 * n + (c.toNat - 48)) 0 = value bytes := by
    rw [List.foldl_map, value]
    exact List.foldl_ext _ _ _ fun n byte hb => by rw [hbyte hb]
  rw [ofDecimal, if_pos ⟨by simpa using hne, hdigits⟩, hfold]

/-- Inside a time every slice at its numbers is one. -/
theorem sliceNumber_spelled {f : TimeFields} {first last width n : ℕ} (hn : n < 10 ^ width)
    (hwidth : 0 < width) (hwide : width ≤ 4) (hfirst : first ≤ last) (hlast : last ≤ 20)
    (hb : between (utf8 f.spelled) first last = utf8 (padded width n)) :
    sliceNumber f.spelled first last = .ok n := by
  have hdigit {byte width n : ℕ} (h : byte ∈ utf8 (padded width n)) : byte < 128 :=
    lt_of_le_of_lt (isDigit_of_mem_padded h).2 (by decide)
  have hascii : ∀ byte ∈ utf8 f.spelled, byte < 128 := by
    intro byte h
    rw [TimeFields.utf8_spelled] at h
    simp only [List.mem_append, List.mem_cons, List.not_mem_nil, or_false] at h
    rcases h with h | rfl | h | rfl | h | rfl | h | rfl | h | rfl | h | rfl
    all_goals first | exact hdigit h | decide
  have htake (k : ℕ) : (fromUtf8 ((utf8 f.spelled).take k)).isSome = true := by
    rw [fromUtf8_ascii fun byte h => hascii byte (List.mem_of_mem_take h)]
    rfl
  have hne : utf8 (padded width n) ≠ [] := by
    rw [← List.length_pos_iff, length_utf8_padded]
    exact hwidth
  have hfits : n ≤ u32Max := by
    have hpow : 10 ^ width ≤ 10 ^ 4 := Nat.pow_le_pow_right (by decide) hwide
    have hmax : 10 ^ 4 ≤ u32Max := by decide
    omega
  have hslice : slice f.spelled first last = some ((utf8 (padded width n)).map Char.ofNat) := by
    rw [slice, if_pos ⟨hfirst, by rwa [length_spelled], htake first, htake last⟩, hb,
      fromUtf8_ascii fun byte h => hdigit h]
  rw [sliceNumber, hslice, Option.bind_some, ofDecimal_digits hne fun _ => isDigit_of_mem_padded,
    value_padded hn, Option.filter_some, decide_eq_true hfits, if_pos rfl]
  rfl

/-- Slicing the text never panics, and accepts what the bytes are accepted for. -/
theorem acceptTime_eq (text : Text) :
    acceptTime text = (NotaryTimeV1.parse text).map NotaryTimeV1.value := by
  have hparse : (NotaryTimeV1.parse text).map NotaryTimeV1.value =
      match timeReason text with
      | some reason => rejectValue (lit "notarisation") (lit "at") text reason
      | none => .ok text := by
    unfold NotaryTimeV1.parse
    split <;> simp_all [rejectValue, Except.map]
  rw [hparse]
  unfold acceptTime timeReason
  by_cases hlength : (utf8 text).length = 20
  · cases hform : timeFormReason 0 (utf8 text) with
    | some reason => simp [hlength, hform]
    | none =>
      obtain ⟨f, hfits, rfl⟩ := spelled_of_form hlength hform
      obtain ⟨hyear, hmonth, hday, hhour, hminute, hsecond⟩ := between_spelled f
      have hyear := sliceNumber_spelled hfits.year (by decide) (by decide) (by decide) (by decide) hyear
      have htwo {first last n : ℕ} (hn : n < 10 ^ 2) (hfirst : first ≤ last) (hlast : last ≤ 20)
          (hb : between (utf8 f.spelled) first last = utf8 (padded 2 n)) :
          sliceNumber f.spelled first last = .ok n :=
        sliceNumber_spelled hn (by decide) (by decide) hfirst hlast hb
      simp only [hlength, ne_eq, not_true_eq_false, if_false, hform, timeField_spelled hfits, hyear,
        htwo hfits.month (by decide) (by decide) hmonth, htwo hfits.day (by decide) (by decide) hday,
        htwo hfits.hour (by decide) (by decide) hhour,
        htwo hfits.minute (by decide) (by decide) hminute,
        htwo hfits.second (by decide) (by decide) hsecond]
      change (if _ then _ else _) = _
      split_ifs <;> rfl
  · simp [hlength]

/-- A text is accepted, without a panic, exactly when it is the form of an instant in a year that four
digits write; times are ordered as bytes as the instants are, and so no two instants share one. -/
theorem times_canonical :
    (∀ text, acceptTime text = (NotaryTimeV1.parse text).map NotaryTimeV1.value ∧
      acceptTime text ≠ .error (.fatal .panicked)) ∧
    (∀ text, (∃ t, NotaryTimeV1.parse text = .ok t) ↔
      ∃ seconds, WithinForm seconds ∧ text = (fieldsAt seconds).spelled) ∧
    (∀ t : NotaryTimeV1, ∃! seconds, WithinForm seconds ∧ t.value = (fieldsAt seconds).spelled) ∧
    ∀ m n, WithinForm m → WithinForm n →
      (utf8 (fieldsAt m).spelled < utf8 (fieldsAt n).spelled ↔ m < n) := by
  have haccepted (text : Text) : timeReason text = none ↔
      ∃ seconds, WithinForm seconds ∧ text = (fieldsAt seconds).spelled := by
    constructor
    · intro hvalid
      have hlength : (utf8 text).length = 20 := by
        by_contra hne
        simp [timeReason, hne] at hvalid
      have hform : timeFormReason 0 (utf8 text) = none := by
        cases hreason : timeFormReason 0 (utf8 text) with
        | none => rfl
        | some reason => simp [timeReason, hlength, hreason] at hvalid
      obtain ⟨f, hfits, rfl⟩ := spelled_of_form hlength hform
      obtain ⟨seconds, rfl⟩ := exists_fieldsAt ((timeReason_spelled hfits).mp hvalid)
      exact ⟨seconds, Nat.le_of_lt_succ hfits.year, rfl⟩
    · rintro ⟨seconds, hwithin, rfl⟩
      have hvalid := valid_fieldsAt seconds
      exact (timeReason_spelled (fits_of_valid hvalid hwithin)).mpr hvalid
  refine ⟨fun text => ⟨acceptTime_eq text, ?_⟩, fun text => ?_, fun t => ?_,
    fun m n => spelled_fieldsAt_lt⟩
  · rw [acceptTime_eq]
    unfold NotaryTimeV1.parse
    split <;> simp [rejectValue, Except.map, invalidIssues]
  · rw [← haccepted]
    constructor
    · rintro ⟨t, ht⟩
      rw [← NotaryTimeV1.parse_eq_ok.mp ht]
      exact t.valid
    · exact fun hvalid => ⟨⟨text, hvalid⟩, NotaryTimeV1.parse_eq_ok.mpr rfl⟩
  · obtain ⟨seconds, hwithin, hvalue⟩ := (haccepted t.value).mp t.valid
    refine ⟨seconds, ⟨hwithin, hvalue⟩, ?_⟩
    rintro other ⟨hother, hsame⟩
    have hlt (a b : ℕ) (ha : WithinForm a) (hb : WithinForm b)
        (h : (fieldsAt a).spelled = (fieldsAt b).spelled) : ¬ a < b := by
      rw [← spelled_fieldsAt_lt ha hb, h]
      exact List.lt_irrefl _
    have hspelled := hsame.symm.trans hvalue
    have hle := hlt other seconds hother hwithin hspelled
    have hge := hlt seconds other hwithin hother hspelled.symm
    omega

end Irena.Core
