import QsAi.Time

/-! The order of stored times. Texts are compared by their characters, so a text
comes first when its local reading is earlier, whatever its offset is. -/
namespace QsAi

namespace DateTime

/-! Calendar order. -/

theorem daysBeforeMonth_succ (year : Nat) {month : Nat} (h : 1 ≤ month) :
    daysBeforeMonth year (month + 1) = daysBeforeMonth year month + daysInMonth year month := by
  obtain ⟨month, rfl⟩ : ∃ less, month = less + 1 := ⟨month - 1, by omega⟩
  rfl

theorem daysBeforeMonth_mono (year : Nat) {first second : Nat} (hFirst : 1 ≤ first) (h : first < second) :
    daysBeforeMonth year first + daysInMonth year first ≤ daysBeforeMonth year second := by
  induction second with
  | zero => omega
  | succ second ih =>
      rcases Nat.lt_succ_iff_lt_or_eq.mp h with hLess | rfl
      · rw [daysBeforeMonth_succ year (by omega)]
        have hBefore := ih hLess
        omega
      · exact Nat.le_of_eq (daysBeforeMonth_succ year hFirst).symm

/-- Days of the years before a year. -/
def daysBeforeYear (year : Nat) : Nat := (year - 1) * 365 + (year - 1) / 4 - (year - 1) / 100 + (year - 1) / 400

theorem toOrdinal_eq (year month day : Nat) :
    toOrdinal year month day = daysBeforeYear year + daysBeforeMonth year month + day := rfl

theorem isLeap_iff (year : Nat) : isLeap year = true ↔ year % 4 = 0 ∧ (year % 100 ≠ 0 ∨ year % 400 = 0) := by
  simp [isLeap]

theorem daysBeforeYear_succ {year : Nat} (h : 1 ≤ year) :
    daysBeforeYear (year + 1) = daysBeforeYear year + (365 + if isLeap year then 1 else 0) := by
  obtain ⟨before, rfl⟩ : ∃ before, year = before + 1 := ⟨year - 1, by omega⟩
  have hFour : (before + 1) / 4 = before / 4 + if (before + 1) % 4 = 0 then 1 else 0 := by split <;> omega
  have hHundred : (before + 1) / 100 = before / 100 + if (before + 1) % 100 = 0 then 1 else 0 := by split <;> omega
  have hCycle : (before + 1) / 400 = before / 400 + if (before + 1) % 400 = 0 then 1 else 0 := by split <;> omega
  have hLeap : (if isLeap (before + 1) = true then 1 else 0) + (if (before + 1) % 100 = 0 then 1 else 0) =
      (if (before + 1) % 4 = 0 then 1 else 0) + if (before + 1) % 400 = 0 then 1 else 0 := by
    have hFirst : (before + 1) % 400 = 0 → (before + 1) % 100 = 0 := by omega
    have hSecond : (before + 1) % 100 = 0 → (before + 1) % 4 = 0 := by omega
    simp only [isLeap_iff]
    by_cases h4 : (before + 1) % 4 = 0 <;> by_cases h100 : (before + 1) % 100 = 0 <;>
      by_cases h400 : (before + 1) % 400 = 0 <;> simp_all
  have hEnough : before / 100 ≤ before * 365 + before / 4 := by omega
  simp only [daysBeforeYear, Nat.add_sub_cancel]
  rw [hFour, hHundred, hCycle]
  generalize before / 4 = fours, before / 100 = hundreds, before / 400 = cycles at *
  omega

theorem daysBeforeYear_mono {first second : Nat} (hFirst : 1 ≤ first) (h : first ≤ second) :
    daysBeforeYear first ≤ daysBeforeYear second := by
  induction second with
  | zero => omega
  | succ second ih =>
      rcases Nat.le_succ_iff.mp h with hLess | rfl
      · rw [daysBeforeYear_succ (by omega)]
        have hBefore := ih hLess
        omega
      · exact Nat.le_refl _

theorem day_le_year {year month day : Nat} (hLow : 1 ≤ month) (hHigh : month ≤ 12) (hDay : day ≤ daysInMonth year month) :
    daysBeforeMonth year month + day ≤ 365 + if isLeap year then 1 else 0 := by
  have hLast : daysBeforeMonth year 13 = 365 + if isLeap year then 1 else 0 := by
    by_cases hLeap : isLeap year = true <;> simp [daysBeforeMonth, daysInMonth, hLeap]
  have hBefore := daysBeforeMonth_mono year hLow (show month < 13 by omega)
  omega

/-- Year, month and day order valid dates. -/
theorem toOrdinal_lt {a b : DateTime}
    (h : a.year < b.year ∨ a.year = b.year ∧ (a.month < b.month ∨ a.month = b.month ∧ a.day < b.day)) :
    toOrdinal a.year a.month a.day < toOrdinal b.year b.month b.day := by
  obtain ⟨hYear, _, hMonth, hMonths, _, hDays⟩ := a.date
  obtain ⟨_, _, _, _, hDay, _⟩ := b.date
  rw [toOrdinal_eq, toOrdinal_eq]
  rcases h with hLess | ⟨hSame, hLess | ⟨hSame', hLess⟩⟩
  · have hIn := day_le_year hMonth hMonths hDays
    have hYears := daysBeforeYear_mono (by omega) (show a.year + 1 ≤ b.year by omega)
    rw [daysBeforeYear_succ hYear] at hYears
    omega
  · have hMonths := daysBeforeMonth_mono a.year hMonth hLess
    rw [← hSame]
    omega
  · rw [← hSame, ← hSame']
    omega

/-- Microseconds of the local reading. -/
def wall (t : DateTime) : Int := t.instant + t.utcoffset

/-- The date and the time of day read earlier. -/
def ReadsBefore (a b : DateTime) : Prop :=
  a.year < b.year ∨ a.year = b.year ∧ (a.month < b.month ∨ a.month = b.month ∧ (a.day < b.day ∨ a.day = b.day ∧
    (a.hour < b.hour ∨ a.hour = b.hour ∧ (a.minute < b.minute ∨ a.minute = b.minute ∧
      (a.second < b.second ∨ a.second = b.second ∧ a.microsecond < b.microsecond)))))

/-- The date and the time of day read the same. -/
def ReadsSame (a b : DateTime) : Prop :=
  a.year = b.year ∧ a.month = b.month ∧ a.day = b.day ∧ a.hour = b.hour ∧ a.minute = b.minute ∧ a.second = b.second ∧
    a.microsecond = b.microsecond

theorem ReadsBefore.wall_lt {a b : DateTime} (h : a.ReadsBefore b) : a.wall < b.wall := by
  obtain ⟨hHour, hMinute, hSecond, hMicro⟩ := a.clock
  have hDate : toOrdinal a.year a.month a.day < toOrdinal b.year b.month b.day ∨
      toOrdinal a.year a.month a.day = toOrdinal b.year b.month b.day ∧
        (a.hour < b.hour ∨ a.hour = b.hour ∧ (a.minute < b.minute ∨ a.minute = b.minute ∧
          (a.second < b.second ∨ a.second = b.second ∧ a.microsecond < b.microsecond))) := by
    rcases h with hYear | ⟨hYear, hMonth | ⟨hMonth, hDay | ⟨hDay, hClock⟩⟩⟩
    · exact .inl (toOrdinal_lt (.inl hYear))
    · exact .inl (toOrdinal_lt (.inr ⟨hYear, .inl hMonth⟩))
    · exact .inl (toOrdinal_lt (.inr ⟨hYear, .inr ⟨hMonth, hDay⟩⟩))
    · rw [hYear, hMonth, hDay]
      exact .inr ⟨rfl, hClock⟩
  unfold wall instant
  omega

theorem ReadsSame.wall_eq {a b : DateTime} (h : a.ReadsSame b) : a.wall = b.wall := by
  obtain ⟨hYear, hMonth, hDay, hHour, hMinute, hSecond, hMicro⟩ := h
  unfold wall instant
  rw [hYear, hMonth, hDay, hHour, hMinute, hSecond, hMicro]
  omega

theorem reads_total (a b : DateTime) : a.ReadsBefore b ∨ a.ReadsSame b ∨ b.ReadsBefore a := by
  unfold ReadsBefore ReadsSame
  omega

theorem readsBefore_iff (a b : DateTime) : a.ReadsBefore b ↔ a.wall < b.wall := by
  refine ⟨ReadsBefore.wall_lt, fun h => ?_⟩
  rcases reads_total a b with hBefore | hSame | hAfter
  · exact hBefore
  · have hWall := hSame.wall_eq
    omega
  · have hWall := hAfter.wall_lt
    omega

theorem readsSame_iff (a b : DateTime) : a.ReadsSame b ↔ a.wall = b.wall := by
  refine ⟨ReadsSame.wall_eq, fun h => ?_⟩
  rcases reads_total a b with hBefore | hSame | hAfter
  · have hWall := hBefore.wall_lt
    omega
  · exact hSame
  · have hWall := hAfter.wall_lt
    omega

/-! The order of the texts. -/

/-- Texts after prefixes of one length. -/
theorem append_lt_append {first second rest other : List Char} (hLength : first.length = second.length) :
    first ++ rest < second ++ other ↔ first < second ∨ first = second ∧ rest < other := by
  induction first generalizing second with
  | nil =>
      obtain rfl := List.eq_nil_of_length_eq_zero hLength.symm
      simp
  | cons c first ih =>
      cases second with
      | nil => cases hLength
      | cons d second =>
          rw [List.cons_append, List.cons_append, List.cons_lt_cons_iff, List.cons_lt_cons_iff,
            ih (Nat.succ.inj hLength), List.cons.injEq]
          tauto

/-- Numbers below a bound, written in one length, are ordered as their texts. -/
structure Numeral (bound width : Nat) (write : Nat → List Char) : Prop where
  length : ∀ n, (write n).length = width
  lt : ∀ n < bound, ∀ m < bound, (write n < write m ↔ n < m)
  eq : ∀ n < bound, ∀ m < bound, (write n = write m ↔ n = m)

theorem digit_order : ∀ n < 10, ∀ m < 10, (digit n < digit m ↔ n < m) ∧ (digit n = digit m ↔ n = m) := by decide

theorem digit_mod (n : Nat) : digit n = digit (n % 10) := by rw [digit, digit, Nat.mod_mod]

theorem numeral_digit : Numeral 10 1 fun n => [digit n] where
  length _ := rfl
  lt n hn m hm := by simp [List.cons_lt_cons_iff, (digit_order n hn m hm).1]
  eq n hn m hm := by simp [(digit_order n hn m hm).2]

/-- Two numerals after each other are the numeral of the larger number. -/
theorem Numeral.append {bound bound' width width' : Nat} {high low : Nat → List Char} (hHigh : Numeral bound width high)
    (hLow : Numeral bound' width' low) (hPos : 0 < bound') :
    Numeral (bound * bound') (width + width') fun n => high (n / bound') ++ low (n % bound') where
  length n := by rw [List.length_append, hHigh.length, hLow.length]
  lt n hn m hm := by
    have hFirst := Nat.div_lt_of_lt_mul (Nat.mul_comm bound bound' ▸ hn)
    have hSecond := Nat.div_lt_of_lt_mul (Nat.mul_comm bound bound' ▸ hm)
    rw [append_lt_append (by rw [hHigh.length, hHigh.length]), hHigh.lt _ hFirst _ hSecond, hHigh.eq _ hFirst _ hSecond,
      hLow.lt _ (Nat.mod_lt _ hPos) _ (Nat.mod_lt _ hPos)]
    constructor
    · rintro (hLess | ⟨hSame, hLess⟩)
      · exact Nat.lt_of_div_lt_div hLess
      · rw [← Nat.div_add_mod n bound', ← Nat.div_add_mod m bound', hSame]
        omega
    · intro hLess
      have hDivs : n / bound' ≤ m / bound' := Nat.div_le_div_right (Nat.le_of_lt hLess)
      rcases Nat.lt_or_eq_of_le hDivs with hDiv | hSame
      · exact .inl hDiv
      · refine .inr ⟨hSame, ?_⟩
        rw [← Nat.div_add_mod n bound', ← Nat.div_add_mod m bound', hSame] at hLess
        omega
  eq n hn m hm := by
    have hFirst := Nat.div_lt_of_lt_mul (Nat.mul_comm bound bound' ▸ hn)
    have hSecond := Nat.div_lt_of_lt_mul (Nat.mul_comm bound bound' ▸ hm)
    constructor
    · intro h
      obtain ⟨hSame, hRest⟩ := List.append_inj h (by rw [hHigh.length, hHigh.length])
      rw [hHigh.eq _ hFirst _ hSecond] at hSame
      rw [hLow.eq _ (Nat.mod_lt _ hPos) _ (Nat.mod_lt _ hPos)] at hRest
      rw [← Nat.div_add_mod n bound', ← Nat.div_add_mod m bound', hSame, hRest]
    · rintro rfl
      rfl

theorem numeral_twoDigits : Numeral 100 2 twoDigits := by
  have h := numeral_digit.append numeral_digit (by decide)
  have hWrite : twoDigits = fun n => [digit (n / 10)] ++ [digit (n % 10)] := by
    funext n
    rw [twoDigits, digit_mod n]
    rfl
  rw [hWrite]
  exact h

theorem twoDigits_mod (n : Nat) : twoDigits n = twoDigits (n % 100) := by
  have hHigh : n % 100 / 10 % 10 = n / 10 % 10 := by omega
  have hLow : n % 100 % 10 = n % 10 := by omega
  rw [twoDigits, twoDigits, digit_mod (n / 10), digit_mod n, digit_mod (n % 100 / 10), digit_mod (n % 100), hHigh, hLow]

theorem numeral_fourDigits : Numeral 10000 4 fourDigits := by
  have h := numeral_twoDigits.append numeral_twoDigits (by decide)
  have hWrite : fourDigits = fun n => twoDigits (n / 100) ++ twoDigits (n % 100) := by
    funext n
    rw [fourDigits, twoDigits_mod n]
  rw [hWrite]
  exact h

theorem fourDigits_mod (n : Nat) : fourDigits n = fourDigits (n % 10000) := by
  have hHigh : n % 10000 / 100 % 100 = n / 100 % 100 := by omega
  have hLow : n % 10000 % 100 = n % 100 := by omega
  rw [fourDigits, fourDigits, twoDigits_mod (n / 100), twoDigits_mod n, twoDigits_mod (n % 10000 / 100),
    twoDigits_mod (n % 10000), hHigh, hLow]

theorem numeral_sixDigits : Numeral 1000000 6 sixDigits := by
  have h := numeral_twoDigits.append numeral_fourDigits (by decide)
  have hWrite : sixDigits = fun n => twoDigits (n / 10000) ++ fourDigits (n % 10000) := by
    funext n
    rw [sixDigits, fourDigits_mod n]
  rw [hWrite]
  exact h

/-- Texts that start with a numeral and a separator. -/
theorem Numeral.cons_lt {bound width n m : Nat} {write : Nat → List Char} (h : Numeral bound width write) (hn : n < bound)
    (hm : m < bound) (separator : Char) (rest other : List Char) :
    write n ++ separator :: rest < write m ++ separator :: other ↔ n < m ∨ n = m ∧ rest < other := by
  rw [append_lt_append (by rw [h.length, h.length]), h.lt n hn m hm, h.eq n hn m hm, List.cons_lt_cons_self]

/-- Both signs come before a point. -/
theorem isoOffset_point (offset : Int) (rest : List Char) :
    isoOffset offset < '.' :: rest ∧ ¬ '.' :: rest < isoOffset offset := by
  have hSign : ∃ sign tail, isoOffset offset = sign :: tail ∧ sign < '.' ∧ ¬ '.' < sign ∧ '.' ≠ sign := by
    by_cases hNegative : offset < 0
    · exact ⟨'-', _, by rw [isoOffset, if_pos hNegative]; rfl, by decide, by decide, by decide⟩
    · exact ⟨'+', _, by rw [isoOffset, if_neg hNegative]; rfl, by decide, by decide, by decide⟩
  obtain ⟨sign, tail, hText, hBefore, hAfter, hOther⟩ := hSign
  rw [hText, List.cons_lt_cons_iff, List.cons_lt_cons_iff]
  exact ⟨.inl hBefore, fun h => h.elim hAfter fun h => hOther h.1⟩

/-- A fraction comes after the text without it. -/
theorem fraction_lt {n m : Nat} (hn : n < 1000000) (hm : m < 1000000) (a b : Int) :
    (if n = 0 then [] else '.' :: sixDigits n) ++ isoOffset a < (if m = 0 then [] else '.' :: sixDigits m) ++ isoOffset b ↔
      n < m ∨ n = m ∧ isoOffset a < isoOffset b := by
  by_cases hFirst : n = 0
  · by_cases hSecond : m = 0
    · simp [hFirst, hSecond]
    · rw [if_pos hFirst, if_neg hSecond, List.nil_append, List.cons_append]
      exact iff_of_true (isoOffset_point _ _).1 (.inl (by omega))
  · by_cases hSecond : m = 0
    · rw [if_neg hFirst, if_pos hSecond, List.nil_append, List.cons_append]
      exact iff_of_false (isoOffset_point _ _).2 (by omega)
    · rw [if_neg hFirst, if_neg hSecond, List.cons_append, List.cons_append, List.cons_lt_cons_self,
        append_lt_append (by rw [numeral_sixDigits.length, numeral_sixDigits.length]), numeral_sixDigits.lt n hn m hm,
        numeral_sixDigits.eq n hn m hm]

theorem daysInMonth_le (year month : Nat) : daysInMonth year month ≤ 31 := by
  unfold daysInMonth
  split
  · split <;> omega
  · split <;> omega

/-- Stored times are ordered by their local readings, and equal readings by the
texts of their offsets. -/
theorem isoformat_lt_iff (a b : DateTime) :
    a.isoformat < b.isoformat ↔ a.wall < b.wall ∨ a.wall = b.wall ∧ isoOffset a.utcoffset < isoOffset b.utcoffset := by
  have hDays := daysInMonth_le a.year a.month
  have hDays' := daysInMonth_le b.year b.month
  obtain ⟨_, hYear, _, hMonth, _, hDay⟩ := a.date
  obtain ⟨_, hYear', _, hMonth', _, hDay'⟩ := b.date
  obtain ⟨hHour, hMinute, hSecond, hMicro⟩ := a.clock
  obtain ⟨hHour', hMinute', hSecond', hMicro'⟩ := b.clock
  rw [← readsBefore_iff, ← readsSame_iff, String.lt_iff, isoformat, isoformat, String.toList_ofList, String.toList_ofList]
  simp only [List.append_assoc, List.cons_append]
  rw [numeral_fourDigits.cons_lt (by omega) (by omega), numeral_twoDigits.cons_lt (by omega) (by omega),
    numeral_twoDigits.cons_lt (by omega) (by omega), numeral_twoDigits.cons_lt (by omega) (by omega),
    numeral_twoDigits.cons_lt (by omega) (by omega),
    append_lt_append (by rw [numeral_twoDigits.length, numeral_twoDigits.length]),
    numeral_twoDigits.lt _ (by omega) _ (by omega), numeral_twoDigits.eq _ (by omega) _ (by omega),
    fraction_lt hMicro hMicro', ReadsBefore, ReadsSame]
  by_cases hZone : isoOffset a.utcoffset < isoOffset b.utcoffset
  · simp only [hZone, and_true]
    omega
  · simp only [hZone, and_false, or_false]

/-- The optional parts of an offset: seconds, and microseconds after them. -/
theorem offsetTail_inj {s s' u u' : Nat} (hs : s < 60) (hs' : s' < 60) (hu : u < 1000000) (hu' : u' < 1000000)
    (h : (if s = 0 ∧ u = 0 then [] else ':' :: twoDigits s) ++ (if u = 0 then [] else '.' :: sixDigits u) =
      (if s' = 0 ∧ u' = 0 then [] else ':' :: twoDigits s') ++ (if u' = 0 then [] else '.' :: sixDigits u')) :
    s = s' ∧ u = u' := by
  have hLength := congrArg List.length h
  by_cases hMicro : u = 0
  · by_cases hMicro' : u' = 0
    · by_cases hSecond : s = 0
      · by_cases hSecond' : s' = 0
        · exact ⟨by omega, by omega⟩
        · simp [hMicro, hMicro', hSecond, hSecond', numeral_twoDigits.length] at hLength
      · by_cases hSecond' : s' = 0
        · simp [hMicro, hMicro', hSecond, hSecond', numeral_twoDigits.length] at hLength
        · simp only [hMicro, hMicro', hSecond, hSecond', and_true, if_true, if_false, List.append_nil, List.cons.injEq,
            true_and] at h
          exact ⟨(numeral_twoDigits.eq s (by omega) s' (by omega)).mp h, by omega⟩
    · by_cases hSecond : s = 0 <;>
        simp [hMicro, hMicro', hSecond, numeral_twoDigits.length, numeral_sixDigits.length] at hLength
  · by_cases hMicro' : u' = 0
    · by_cases hSecond' : s' = 0 <;>
        simp [hMicro, hMicro', hSecond', numeral_twoDigits.length, numeral_sixDigits.length] at hLength
    · simp only [hMicro, hMicro', and_false, if_false, List.cons_append, List.cons.injEq, true_and] at h
      obtain ⟨hSeconds, hMicros⟩ := List.append_inj h (by rw [numeral_twoDigits.length, numeral_twoDigits.length])
      rw [List.cons.injEq] at hMicros
      exact ⟨(numeral_twoDigits.eq s (by omega) s' (by omega)).mp hSeconds,
        (numeral_sixDigits.eq u hu u' hu').mp hMicros.2⟩

/-- An offset is known by its text. -/
theorem isoOffset_inj {a b : Int} (ha : -dayMicroseconds < a ∧ a < dayMicroseconds)
    (hb : -dayMicroseconds < b ∧ b < dayMicroseconds) (h : isoOffset a = isoOffset b) : a = b := by
  unfold dayMicroseconds at ha hb
  simp only [isoOffset, List.cons_append, List.append_assoc, List.cons.injEq] at h
  obtain ⟨hSign, hRest⟩ := h
  obtain ⟨hHours, hRest⟩ := List.append_inj hRest (by rw [numeral_twoDigits.length, numeral_twoDigits.length])
  rw [List.cons.injEq] at hRest
  obtain ⟨hMinutes, hRest⟩ := List.append_inj hRest.2 (by rw [numeral_twoDigits.length, numeral_twoDigits.length])
  rw [numeral_twoDigits.eq _ (by omega) _ (by omega)] at hHours hMinutes
  obtain ⟨hSeconds, hMicros⟩ := offsetTail_inj (by omega) (by omega) (by omega) (by omega) hRest
  have hSigns : a < 0 ↔ b < 0 := by
    by_cases hNegative : a < 0
    · by_cases hNegative' : b < 0
      · exact iff_of_true hNegative hNegative'
      · rw [if_pos hNegative, if_neg hNegative'] at hSign
        exact absurd hSign (by decide)
    · by_cases hNegative' : b < 0
      · rw [if_neg hNegative, if_pos hNegative'] at hSign
        exact absurd hSign (by decide)
      · exact iff_of_false hNegative hNegative'
  omega

/-- Times of one text are the same instant. -/
theorem wall_offset_eq {a b : DateTime} (hFirst : ¬ a.isoformat < b.isoformat) (hSecond : ¬ b.isoformat < a.isoformat) :
    a.wall = b.wall ∧ a.utcoffset = b.utcoffset := by
  rw [isoformat_lt_iff, not_or] at hFirst hSecond
  have hWall : a.wall = b.wall := by omega
  refine ⟨hWall, isoOffset_inj a.zone b.zone ?_⟩
  exact List.le_antisymm (fun h => hSecond.2 ⟨hWall.symm, h⟩) fun h => hFirst.2 ⟨hWall, h⟩

end DateTime

end QsAi
