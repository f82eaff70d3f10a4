import Mathlib.Data.Int.Order.Basic
import Mathlib.Order.Basic
import Mathlib.Data.List.Basic

/-! Aware timestamps. The evaluation code compares timestamps as instants and
stores them as ISO text, so a value keeps its wall-clock fields and its offset,
and both readings are derived from them. -/
namespace QsAi

def isLeap (year : Nat) : Bool :=
  year % 4 == 0 && (year % 100 != 0 || year % 400 == 0)

def daysInMonth (year month : Nat) : Nat :=
  if month = 2 then (if isLeap year then 29 else 28)
  else if month = 4 ∨ month = 6 ∨ month = 9 ∨ month = 11 then 30 else 31

def daysBeforeMonth (year : Nat) : Nat → Nat
  | 0 => 0
  | 1 => 0
  | month + 1 => daysBeforeMonth year month + daysInMonth year month

/-- Proleptic Gregorian day number, day one being 0001-01-01. -/
def toOrdinal (year month day : Nat) : Nat :=
  let before := year - 1
  before * 365 + before / 4 - before / 100 + before / 400 + daysBeforeMonth year month + day

/-- One UTC offset is strictly less than a day, in microseconds. -/
def dayMicroseconds : Int := 86400000000

/-- An aware `datetime`: wall-clock fields and the offset of its zone. A naive
value has no counterpart here, since every reader refuses it. -/
structure DateTime where
  year : Nat
  month : Nat
  day : Nat
  hour : Nat
  minute : Nat
  second : Nat
  microsecond : Nat
  utcoffset : Int
  date : 1 ≤ year ∧ year ≤ 9999 ∧ 1 ≤ month ∧ month ≤ 12 ∧ 1 ≤ day ∧ day ≤ daysInMonth year month
  clock : hour < 24 ∧ minute < 60 ∧ second < 60 ∧ microsecond < 1000000
  zone : -dayMicroseconds < utcoffset ∧ utcoffset < dayMicroseconds
deriving DecidableEq

/-- Seconds are written as literals. -/
instance minute_neZero : @NeZero Nat Zero.ofOfNat0 60 := ⟨by decide⟩

namespace DateTime

theorem utc_zone : -dayMicroseconds < 0 ∧ 0 < dayMicroseconds := by decide

theorem newYear_date : 1 ≤ 2026 ∧ 2026 ≤ 9999 ∧ 1 ≤ 1 ∧ 1 ≤ 12 ∧ 1 ≤ 1 ∧ 1 ≤ daysInMonth 2026 1 := by decide

/-- Microseconds since the epoch of the ordinal calendar, in UTC. -/
def instant (t : DateTime) : Int :=
  (((toOrdinal t.year t.month t.day * 24 + t.hour) * 60 + t.minute) * 60 + t.second : Nat) * 1000000 +
    t.microsecond - t.utcoffset

instance : Preorder DateTime where
  le a b := a.instant ≤ b.instant
  lt a b := a.instant < b.instant
  le_refl a := Int.le_refl a.instant
  le_trans _ _ _ := Int.le_trans
  lt_iff_le_not_ge a b := by omega

theorem le_def (a b : DateTime) : a ≤ b ↔ a.instant ≤ b.instant := Iff.rfl

theorem lt_def (a b : DateTime) : a < b ↔ a.instant < b.instant := Iff.rfl

instance (a b : DateTime) : Decidable (a ≤ b) :=
  inferInstanceAs (Decidable (a.instant ≤ b.instant))

instance (a b : DateTime) : Decidable (a < b) :=
  decidable_of_iff _ (lt_def a b).symm

/-- Two aware values are equal when they name the same instant. -/
def same (a b : DateTime) : Prop := a.instant = b.instant

instance (a b : DateTime) : Decidable (same a b) :=
  inferInstanceAs (Decidable (a.instant = b.instant))

theorem not_le_iff (a b : DateTime) : ¬ a ≤ b ↔ b < a := by
  rw [le_def, lt_def]
  omega

theorem not_lt_iff (a b : DateTime) : ¬ a < b ↔ b ≤ a := by
  rw [le_def, lt_def]
  omega

def digit (n : Nat) : Char := Char.ofNat (48 + n % 10)

def twoDigits (n : Nat) : List Char := [digit (n / 10), digit n]

def fourDigits (n : Nat) : List Char := twoDigits (n / 100) ++ twoDigits n

def sixDigits (n : Nat) : List Char := twoDigits (n / 10000) ++ fourDigits n

/-- The offset part of the ISO text; seconds and microseconds appear only when
they are not zero. -/
def isoOffset (offset : Int) : List Char :=
  let total := offset.natAbs
  let micros := total % 1000000
  let seconds := total / 1000000
  (if offset < 0 then '-' else '+') :: twoDigits (seconds / 3600) ++ ':' :: twoDigits (seconds / 60 % 60) ++
    (if seconds % 60 = 0 ∧ micros = 0 then [] else ':' :: twoDigits (seconds % 60)) ++
    (if micros = 0 then [] else '.' :: sixDigits micros)

/-- The text under which a timestamp is stored; the fraction appears only when
it is not zero. -/
def isoformat (t : DateTime) : String :=
  String.ofList (fourDigits t.year ++ '-' :: twoDigits t.month ++ '-' :: twoDigits t.day ++
    'T' :: twoDigits t.hour ++ ':' :: twoDigits t.minute ++ ':' :: twoDigits t.second ++
    (if t.microsecond = 0 then [] else '.' :: sixDigits t.microsecond) ++ isoOffset t.utcoffset)

/-- The text with the fraction always written, `timespec="microseconds"`. -/
def isoformatMicroseconds (t : DateTime) : String :=
  String.ofList (fourDigits t.year ++ '-' :: twoDigits t.month ++ '-' :: twoDigits t.day ++
    'T' :: twoDigits t.hour ++ ':' :: twoDigits t.minute ++ ':' :: twoDigits t.second ++
    '.' :: sixDigits t.microsecond ++ isoOffset t.utcoffset)

/-- The characters of a stored time lie between the plus sign and `T`. -/
private def Clocklike (characters : List Char) : Prop := ∀ c ∈ characters, 43 ≤ c.toNat ∧ c.toNat ≤ 84

private theorem digit_clocklike (n : Nat) : 43 ≤ (digit n).toNat ∧ (digit n).toNat ≤ 84 := by
  have hAll : ∀ k < 10, 43 ≤ (Char.ofNat (48 + k)).toNat ∧ (Char.ofNat (48 + k)).toNat ≤ 84 := by decide
  exact hAll (n % 10) (Nat.mod_lt n (by decide))

private theorem Clocklike.append {first rest : List Char} (hFirst : Clocklike first) (hRest : Clocklike rest) :
    Clocklike (first ++ rest) := fun c hc => (List.mem_append.mp hc).elim (hFirst c) (hRest c)

private theorem Clocklike.cons {c : Char} {rest : List Char} (hFirst : 43 ≤ c.toNat ∧ c.toNat ≤ 84) (hRest : Clocklike rest) :
    Clocklike (c :: rest) := by
  intro d hd
  rcases List.mem_cons.mp hd with rfl | hd
  · exact hFirst
  · exact hRest d hd

private theorem twoDigits_clocklike (n : Nat) : Clocklike (twoDigits n) :=
  .cons (digit_clocklike _) (.cons (digit_clocklike _) nofun)

private theorem fourDigits_clocklike (n : Nat) : Clocklike (fourDigits n) :=
  (twoDigits_clocklike _).append (twoDigits_clocklike _)

private theorem sixDigits_clocklike (n : Nat) : Clocklike (sixDigits n) :=
  (twoDigits_clocklike _).append (fourDigits_clocklike _)

private theorem isoOffset_zero : isoOffset 0 = ['+', '0', '0', ':', '0', '0'] := by decide

private theorem utcOffset_clocklike : Clocklike ['+', '0', '0', ':', '0', '0'] :=
  .cons (by decide) (.cons (by decide) (.cons (by decide) (.cons (by decide) (.cons (by decide) (.cons (by decide)
    nofun)))))

/-- The text of a time in UTC has 32 characters, none of which is a quote. -/
theorem isoformatMicroseconds_utc {t : DateTime} (h : t.utcoffset = 0) :
    t.isoformatMicroseconds.toList.length = 32 ∧
      ∀ c ∈ t.isoformatMicroseconds.toList, 43 ≤ c.toNat ∧ c.toNat ≤ 84 := by
  rw [isoformatMicroseconds, String.toList_ofList, h, isoOffset_zero]
  constructor
  · simp [fourDigits, twoDigits, sixDigits]
  · refine Clocklike.append (Clocklike.append (Clocklike.append (Clocklike.append (Clocklike.append (Clocklike.append
      (Clocklike.append (fourDigits_clocklike _) ?_) ?_) ?_) ?_) ?_) ?_) ?_
    all_goals first
      | exact .cons (by decide) (twoDigits_clocklike _)
      | exact .cons (by decide) (sixDigits_clocklike _)
      | exact utcOffset_clocklike

/-- So many decimal digits, after a value that was already read. -/
def readDigits : Nat → Nat → List Char → Option (Nat × List Char)
  | 0, value, rest => some (value, rest)
  | _ + 1, _, [] => none
  | count + 1, value, c :: rest => if c.isDigit then readDigits count (10 * value + (c.toNat - 48)) rest else none

def readCharacter (expected : Char) : List Char → Option (List Char)
  | [] => none
  | c :: rest => if c = expected then some rest else none

/-- Hours and minutes of a zone and the end of the text. -/
def readZone (characters : List Char) : Option Int := do
  let sign ← characters.head?
  let (hours, rest) ← readDigits 2 0 characters.tail
  let rest ← readCharacter ':' rest
  let (minutes, rest) ← readDigits 2 0 rest
  let offset : Int := ((hours * 60 + minutes) * 60000000 : Nat)
  if rest ≠ [] then none else if sign = '+' then some offset else if sign = '-' then some (-offset) else none

def checked (year month day hour minute second microsecond : Nat) (utcoffset : Int) : Option DateTime :=
  if hDate : 1 ≤ year ∧ year ≤ 9999 ∧ 1 ≤ month ∧ month ≤ 12 ∧ 1 ≤ day ∧ day ≤ daysInMonth year month then
    if hClock : hour < 24 ∧ minute < 60 ∧ second < 60 ∧ microsecond < 1000000 then
      if hZone : -dayMicroseconds < utcoffset ∧ utcoffset < dayMicroseconds then
        some ⟨year, month, day, hour, minute, second, microsecond, utcoffset, hDate, hClock, hZone⟩
      else none
    else none
  else none

/-- The texts with microseconds and a zone of whole minutes. -/
def readMicroseconds (characters : List Char) : Option DateTime := do
  let (year, rest) ← readDigits 4 0 characters
  let rest ← readCharacter '-' rest
  let (month, rest) ← readDigits 2 0 rest
  let rest ← readCharacter '-' rest
  let (day, rest) ← readDigits 2 0 rest
  let rest ← readCharacter 'T' rest
  let (hour, rest) ← readDigits 2 0 rest
  let rest ← readCharacter ':' rest
  let (minute, rest) ← readDigits 2 0 rest
  let rest ← readCharacter ':' rest
  let (second, rest) ← readDigits 2 0 rest
  let rest ← readCharacter '.' rest
  let (microsecond, rest) ← readDigits 6 0 rest
  let utcoffset ← readZone rest
  checked year month day hour minute second microsecond utcoffset

private theorem readDigits_twoDigits (count value n : Nat) (rest : List Char) :
    readDigits (count + 2) value (twoDigits n ++ rest) = readDigits count (100 * value + n % 100) rest := by
  have hAll : ∀ k < 10, (Char.ofNat (48 + k)).isDigit = true ∧ (Char.ofNat (48 + k)).toNat - 48 = k := by decide
  have hFirst := hAll (n / 10 % 10) (Nat.mod_lt _ (by decide))
  have hSecond := hAll (n % 10) (Nat.mod_lt _ (by decide))
  have hSame : 10 * (10 * value + n / 10 % 10) + n % 10 = 100 * value + n % 100 := by omega
  simp only [twoDigits, digit, List.cons_append, List.nil_append, readDigits, hFirst, hSecond, if_true, hSame]

private theorem readDigits_two {n : Nat} (h : n < 100) (rest : List Char) :
    readDigits 2 0 (twoDigits n ++ rest) = some (n, rest) := by
  rw [readDigits_twoDigits, readDigits, Nat.mod_eq_of_lt h, Nat.mul_zero, Nat.zero_add]

private theorem readDigits_four {n : Nat} (h : n < 10000) (rest : List Char) :
    readDigits 4 0 (fourDigits n ++ rest) = some (n, rest) := by
  have hSame : 100 * (100 * 0 + n / 100 % 100) + n % 100 = n := by omega
  rw [fourDigits, List.append_assoc, readDigits_twoDigits, readDigits_twoDigits, readDigits, hSame]

private theorem readDigits_six {n : Nat} (h : n < 1000000) (rest : List Char) :
    readDigits 6 0 (sixDigits n ++ rest) = some (n, rest) := by
  have hSame : 100 * (100 * (100 * 0 + n / 10000 % 100) + n / 100 % 100) + n % 100 = n := by omega
  rw [sixDigits, fourDigits, List.append_assoc, List.append_assoc, readDigits_twoDigits, readDigits_twoDigits,
    readDigits_twoDigits, readDigits, hSame]

/-- A time in UTC is read from its text. -/
theorem readMicroseconds_isoformat {t : DateTime} (h : t.utcoffset = 0) :
    readMicroseconds t.isoformatMicroseconds.toList = some t := by
  have hDays : t.day < 100 := by
    have hMonth : daysInMonth t.year t.month ≤ 31 := by
      unfold daysInMonth
      split
      · split <;> decide
      · split <;> decide
    have hDate := t.date
    omega
  have hZone : readZone (isoOffset 0) = some 0 := by decide
  rw [isoformatMicroseconds, String.toList_ofList]
  simp only [List.append_assoc, List.cons_append, readMicroseconds, h]
  have hDate := t.date
  have hClock := t.clock
  simp only [readDigits_four (show t.year < 10000 by omega), readDigits_two (show t.month < 100 by omega),
    readDigits_two hDays, readDigits_two (show t.hour < 100 by omega), readDigits_two (show t.minute < 100 by omega),
    readDigits_two (show t.second < 100 by omega), readDigits_six hClock.2.2.2, hZone, readCharacter, if_true,
    Option.bind_eq_bind, Option.bind_some]
  obtain ⟨year, month, day, hour, minute, second, microsecond, utcoffset, hDate, hClock, hZone⟩ := t
  subst h
  simp only [checked, hDate, hClock, hZone, dif_pos, and_self]

/-- Microseconds since midnight on the wall clock. -/
def timeOfDay (t : DateTime) : Nat := ((t.hour * 60 + t.minute) * 60 + t.second) * 1000000 + t.microsecond

/-- The calendar day before, if there is one. -/
def dayBefore (year month day : Nat) : Option (Nat × Nat × Nat) :=
  if 1 < day then some (year, month, day - 1)
  else if 1 < month then some (year, month - 1, daysInMonth year (month - 1))
  else if 1 < year then some (year - 1, 12, 31)
  else none

/-- The calendar day after, if there is one. -/
def dayAfter (year month day : Nat) : Option (Nat × Nat × Nat) :=
  if day < daysInMonth year month then some (year, month, day + 1)
  else if month < 12 then some (year, month + 1, 1)
  else if year < 9999 then some (year + 1, 1, 1)
  else none

theorem daysInMonth_pos (year month : Nat) : 1 ≤ daysInMonth year month := by
  unfold daysInMonth
  split
  · split <;> decide
  · split <;> decide

theorem dayBefore_valid {year month day : Nat} {y m d : Nat}
    (h : 1 ≤ year ∧ year ≤ 9999 ∧ 1 ≤ month ∧ month ≤ 12 ∧ 1 ≤ day ∧ day ≤ daysInMonth year month)
    (hBefore : dayBefore year month day = some (y, m, d)) :
    1 ≤ y ∧ y ≤ 9999 ∧ 1 ≤ m ∧ m ≤ 12 ∧ 1 ≤ d ∧ d ≤ daysInMonth y m := by
  unfold dayBefore at hBefore
  split at hBefore
  · obtain ⟨rfl, rfl, rfl⟩ : year = y ∧ month = m ∧ day - 1 = d := by simpa using hBefore
    omega
  · split at hBefore
    · obtain ⟨rfl, rfl, rfl⟩ : year = y ∧ month - 1 = m ∧ daysInMonth year (month - 1) = d := by simpa using hBefore
      have hSome := daysInMonth_pos year (month - 1)
      omega
    · split at hBefore
      · obtain ⟨rfl, rfl, rfl⟩ : year - 1 = y ∧ 12 = m ∧ 31 = d := by simpa using hBefore
        have hLong : daysInMonth (year - 1) 12 = 31 := by simp [daysInMonth]
        omega
      · cases hBefore

theorem dayAfter_valid {year month day : Nat} {y m d : Nat}
    (h : 1 ≤ year ∧ year ≤ 9999 ∧ 1 ≤ month ∧ month ≤ 12 ∧ 1 ≤ day ∧ day ≤ daysInMonth year month)
    (hAfter : dayAfter year month day = some (y, m, d)) :
    1 ≤ y ∧ y ≤ 9999 ∧ 1 ≤ m ∧ m ≤ 12 ∧ 1 ≤ d ∧ d ≤ daysInMonth y m := by
  unfold dayAfter at hAfter
  split at hAfter
  · obtain ⟨rfl, rfl, rfl⟩ : year = y ∧ month = m ∧ day + 1 = d := by simpa using hAfter
    omega
  · split at hAfter
    · obtain ⟨rfl, rfl, rfl⟩ : year = y ∧ month + 1 = m ∧ 1 = d := by simpa using hAfter
      have hSome := daysInMonth_pos year (month + 1)
      omega
    · split at hAfter
      · obtain ⟨rfl, rfl, rfl⟩ : year + 1 = y ∧ 1 = m ∧ 1 = d := by simpa using hAfter
        have hSome := daysInMonth_pos (year + 1) 1
        omega
      · cases hAfter

theorem clock_of_micros (micros : Nat) (h : micros < 86400000000) :
    micros / 3600000000 < 24 ∧ micros / 60000000 % 60 < 60 ∧ micros / 1000000 % 60 < 60 ∧ micros % 1000000 < 1000000 := by
  omega

/-- A valid day at so many microseconds since midnight, in UTC. -/
def utc (date : Nat × Nat × Nat) (micros : Nat)
    (hDate : 1 ≤ date.1 ∧ date.1 ≤ 9999 ∧ 1 ≤ date.2.1 ∧ date.2.1 ≤ 12 ∧ 1 ≤ date.2.2 ∧
      date.2.2 ≤ daysInMonth date.1 date.2.1) (hMicros : micros < 86400000000) : DateTime :=
  ⟨date.1, date.2.1, date.2.2, micros / 3600000000, micros / 60000000 % 60, micros / 1000000 % 60, micros % 1000000, 0,
    hDate, clock_of_micros micros hMicros, utc_zone⟩

/-- The same instant in UTC, `astimezone(UTC)`; nothing when that instant is
outside the calendar, where the library overflows. -/
def astimezoneUtc (t : DateTime) : Option DateTime :=
  let shifted : Int := t.timeOfDay - t.utcoffset
  if h : 0 ≤ shifted ∧ shifted < 86400000000 then
    some (utc (t.year, t.month, t.day) shifted.toNat t.date (by omega))
  else if h : shifted < 0 then
    match hDay : dayBefore t.year t.month t.day with
    | none => none
    | some day => some (utc day (shifted + 86400000000).toNat (dayBefore_valid t.date hDay)
        (by have hZone := t.zone; simp only [dayMicroseconds] at hZone; omega))
  else
    match hDay : dayAfter t.year t.month t.day with
    | none => none
    | some day => some (utc day (shifted - 86400000000).toNat (dayAfter_valid t.date hDay) (by
        have hZone := t.zone
        have hClock := t.clock
        simp only [dayMicroseconds] at hZone
        have hDef : shifted = t.timeOfDay - t.utcoffset := rfl
        simp only [timeOfDay] at hDef
        omega))

theorem astimezoneUtc_zone {t u : DateTime} (h : t.astimezoneUtc = some u) : u.utcoffset = 0 := by
  unfold astimezoneUtc at h
  simp only at h
  split at h
  · rw [← Option.some.inj h, utc]
  · split at h
    · split at h
      · cases h
      · rw [← Option.some.inj h, utc]
    · split at h
      · cases h
      · rw [← Option.some.inj h, utc]

/-- The instant lies before the first or after the last day of the calendar. -/
def OutsideCalendar (t : DateTime) : Prop :=
  ((t.year, t.month, t.day) = (1, 1, 1) ∧ (t.timeOfDay : Int) < t.utcoffset) ∨
    ((t.year, t.month, t.day) = (9999, 12, 31) ∧ 86400000000 ≤ (t.timeOfDay : Int) - t.utcoffset)

instance (t : DateTime) : Decidable t.OutsideCalendar := inferInstanceAs (Decidable (_ ∨ _))

theorem dayBefore_none_iff (t : DateTime) : dayBefore t.year t.month t.day = none ↔ (t.year, t.month, t.day) = (1, 1, 1) := by
  have hDate := t.date
  unfold dayBefore
  simp only [Prod.mk.injEq]
  split
  · simp only [reduceCtorEq, false_iff]
    omega
  · split
    · simp only [reduceCtorEq, false_iff]
      omega
    · split
      · simp only [reduceCtorEq, false_iff]
        omega
      · simp only [true_iff]
        omega

theorem dayAfter_none_iff (t : DateTime) : dayAfter t.year t.month t.day = none ↔ (t.year, t.month, t.day) = (9999, 12, 31) := by
  have hDate := t.date
  have hLast : t.month = 12 → daysInMonth t.year t.month = 31 := by
    intro hMonth
    simp [hMonth, daysInMonth]
  unfold dayAfter
  simp only [Prod.mk.injEq]
  split
  · simp only [reduceCtorEq, false_iff]
    omega
  · split
    · simp only [reduceCtorEq, false_iff]
      omega
    · split
      · simp only [reduceCtorEq, false_iff]
        omega
      · simp only [true_iff]
        have hMonth : t.month = 12 := by omega
        have hDays := hLast hMonth
        omega

/-- The conversion fails exactly outside the calendar. -/
theorem astimezoneUtc_none_iff (t : DateTime) : t.astimezoneUtc = none ↔ t.OutsideCalendar := by
  have hClock := t.clock
  have hTime : t.timeOfDay < 86400000000 := by
    simp only [timeOfDay]
    omega
  unfold astimezoneUtc OutsideCalendar
  simp only
  rw [← dayBefore_none_iff, ← dayAfter_none_iff]
  split
  · simp only [reduceCtorEq, false_iff]
    omega
  · split
    · split
      · rename_i hNone
        simp only [hNone, true_and, true_iff]
        omega
      · rename_i hSome
        simp only [hSome, reduceCtorEq, false_and, false_or, false_iff]
        omega
    · split
      · rename_i hNone
        simp only [hNone, true_and, true_iff]
        omega
      · rename_i hSome
        simp only [hSome, reduceCtorEq, false_and, or_false, false_iff]
        omega

theorem utc_timeOfDay {t : DateTime} (h : t.utcoffset = 0) {micros : Nat} (hMicros : micros < 86400000000)
    (hSame : micros = t.timeOfDay) : utc (t.year, t.month, t.day) micros t.date hMicros = t := by
  obtain ⟨year, month, day, hour, minute, second, microsecond, utcoffset, hDate, hClock, hZone⟩ := t
  subst h
  simp only [timeOfDay] at hSame
  simp only [utc, DateTime.mk.injEq, true_and, and_true]
  omega

/-- A time in UTC is what it was. -/
theorem astimezoneUtc_utc {t : DateTime} (h : t.utcoffset = 0) : t.astimezoneUtc = some t := by
  have hClock := t.clock
  have hMicros : (t.timeOfDay : Int) - t.utcoffset = t.timeOfDay := by rw [h, Int.sub_zero]
  have hDay : (0 : Int) ≤ t.timeOfDay - t.utcoffset ∧ (t.timeOfDay : Int) - t.utcoffset < 86400000000 := by
    rw [hMicros]
    simp only [timeOfDay]
    omega
  unfold astimezoneUtc
  simp only
  rw [dif_pos hDay, Option.some.injEq]
  exact utc_timeOfDay h _ (by rw [hMicros, Int.toNat_natCast])

/-- `max` over timestamps: the first of the latest ones. -/
def latest (first : DateTime) : List DateTime → DateTime
  | [] => first
  | next :: rest => latest (if first < next then next else first) rest

theorem le_latest (first : DateTime) (rest : List DateTime) : first ≤ latest first rest := by
  induction rest generalizing first with
  | nil => exact le_refl _
  | cons next rest ih =>
      refine le_trans ?_ (ih _)
      split
      · exact le_of_lt ‹_›
      · exact le_refl _

theorem le_latest_of_mem {first t : DateTime} {rest : List DateTime} (h : t ∈ rest) :
    t ≤ latest first rest := by
  induction rest generalizing first with
  | nil => cases h
  | cons next rest ih =>
      rcases List.mem_cons.mp h with rfl | h
      · refine le_trans ?_ (le_latest _ rest)
        split
        · exact le_refl _
        · exact (not_lt_iff _ _).mp ‹_›
      · exact ih h

theorem latest_eq_first {first : DateTime} {rest : List DateTime} (h : ∀ t ∈ rest, t ≤ first) :
    latest first rest = first := by
  induction rest with
  | nil => rfl
  | cons next rest ih =>
      obtain ⟨hNext, hRest⟩ := List.forall_mem_cons.mp h
      rw [latest, if_neg ((not_lt_iff _ _).mpr hNext)]
      exact ih hRest

theorem latest_mem (first : DateTime) (rest : List DateTime) : latest first rest ∈ first :: rest := by
  induction rest generalizing first with
  | nil => simp [latest]
  | cons next rest ih =>
      have h := ih (if first < next then next else first)
      rw [latest]
      rcases List.mem_cons.mp h with h | h
      · rw [h]
        split <;> simp
      · simp [h]

end DateTime

end QsAi
