import QsAi.Foundation.JsonPrint
import Mathlib.Tactic.Linarith
import Mathlib.Tactic.Positivity
import Mathlib.Algebra.Order.Field.Power
import Mathlib.Data.List.DropRight

/-! The decimal text of a double. Python writes the shortest decimal that rounds
to the double, so reading the text gives the double back. -/
namespace Binary64

/-- The rational is a double. -/
def Exact (value : ℚ) : Prop := round value = .finite value

instance exactDecidable (value : ℚ) : Decidable (Exact value) :=
  inferInstanceAs (Decidable (round value = .finite value))

/-- What rounding makes of a positive rational, before the range is looked at. -/
def rounded (value : ℚ) : ℚ := (2 : ℚ) ^ lastBit value * roundHalfEven (value / 2 ^ lastBit value)

theorem roundHalfEven_int (n : ℤ) : roundHalfEven n = n := by
  simp [roundHalfEven]

theorem roundHalfEven_le {value : ℚ} {n : ℤ} (h : value < n) : roundHalfEven value ≤ n := by
  have hFloor : ⌊value⌋ < n := Int.floor_lt.mpr h
  unfold roundHalfEven
  simp only
  split <;> omega

theorem le_roundHalfEven {value : ℚ} {n : ℤ} (h : n ≤ value) : n ≤ roundHalfEven value := by
  have hFloor : n ≤ ⌊value⌋ := Int.le_floor.mpr h
  unfold roundHalfEven
  simp only
  split <;> omega

/-- A multiple of its own last bit is kept. -/
theorem rounded_of_multiple {value : ℚ} {k : ℤ} (h : value = 2 ^ lastBit value * k) : rounded value = value := by
  have hBit : (2 : ℚ) ^ lastBit value ≠ 0 := by positivity
  have hQuotient : value / 2 ^ lastBit value = k := by
    rw [div_eq_iff hBit, mul_comm]
    exact h
  rw [rounded, hQuotient, roundHalfEven_int]
  exact h.symm

/-- The rounded coefficient has at most 53 bits, or is the next power of two. -/
theorem coefficient_le (value : ℚ) : roundHalfEven (value / 2 ^ lastBit value) ≤ 2 ^ 53 := by
  apply roundHalfEven_le
  have hBit : (0 : ℚ) < 2 ^ lastBit value := by positivity
  have hLog : value < 2 ^ (Int.log 2 value + 1) := by
    exact_mod_cast Int.lt_zpow_succ_log_self (b := 2) (by decide) value
  have hGrows : (2 : ℚ) ^ (Int.log 2 value + 1) ≤ 2 ^ (lastBit value + 53) := by
    apply zpow_le_zpow_right₀ (by norm_num)
    have hMax := le_max_left (Int.log 2 value - 52) (-1074)
    unfold lastBit
    omega
  rw [div_lt_iff₀ hBit]
  calc value < 2 ^ (Int.log 2 value + 1) := hLog
    _ ≤ 2 ^ (lastBit value + 53) := hGrows
    _ = ((2 ^ 53 : ℤ) : ℚ) * 2 ^ lastBit value := by
      rw [zpow_add₀ (by norm_num), mul_comm]
      norm_num

/-- Rounding a second time changes nothing. -/
theorem rounded_rounded {value : ℚ} (h : 0 < value) : rounded (rounded value) = rounded value := by
  set bit := lastBit value with hBitDef
  set m := roundHalfEven (value / 2 ^ bit) with hm
  have hValue : rounded value = 2 ^ bit * m := rfl
  have hHigh : m ≤ 2 ^ 53 := coefficient_le value
  have hLow : 0 ≤ m := le_roundHalfEven (by rw [Int.cast_zero]; positivity)
  by_cases hZero : m = 0
  · rw [hValue, hZero]
    exact rounded_of_multiple (k := 0) (by simp)
  have hPositive : (0 : ℚ) < 2 ^ bit * m := by
    have hCast : (0 : ℚ) < m := by exact_mod_cast lt_of_le_of_ne hLow (Ne.symm hZero)
    positivity
  rw [hValue]
  by_cases hBits : lastBit (2 ^ bit * (m : ℚ)) ≤ bit
  · obtain ⟨shift, hShift⟩ := Int.eq_ofNat_of_zero_le (sub_nonneg.mpr hBits)
    refine rounded_of_multiple (k := m * 2 ^ shift) ?_
    have hSum : bit = lastBit (2 ^ bit * (m : ℚ)) + shift := by omega
    have hSplit : (2 : ℚ) ^ bit = 2 ^ lastBit (2 ^ bit * (m : ℚ)) * 2 ^ shift := by
      rw [← zpow_natCast, ← zpow_add₀ (by norm_num), ← hSum]
    calc (2 : ℚ) ^ bit * m = 2 ^ lastBit (2 ^ bit * (m : ℚ)) * 2 ^ shift * m := by rw [← hSplit]
      _ = _ := by push_cast; ring
  · -- only a carry to the next power of two moves the last bit
    have hLog : lastBit (2 ^ bit * (m : ℚ)) = Int.log 2 (2 ^ bit * (m : ℚ)) - 52 := by
      have hFloor : (-1074 : ℤ) ≤ bit := le_max_right _ _
      unfold lastBit at hBits ⊢
      omega
    have hBelow : (2 : ℚ) ^ (lastBit (2 ^ bit * (m : ℚ)) + 52) ≤ 2 ^ bit * m := by
      have hSelf := Int.zpow_log_le_self (b := 2) (by decide) hPositive
      rw [hLog, sub_add_cancel]
      exact_mod_cast hSelf
    have hNext : lastBit (2 ^ bit * (m : ℚ)) = bit + 1 ∧ m = 2 ^ 53 := by
      have hAbove : (2 : ℚ) ^ bit * m ≤ 2 ^ (bit + 53) := by
        rw [zpow_add₀ (by norm_num)]
        have hCast : (m : ℚ) ≤ 2 ^ (53 : ℤ) := by exact_mod_cast hHigh
        exact mul_le_mul_of_nonneg_left hCast (by positivity)
      have hExponent : lastBit (2 ^ bit * (m : ℚ)) + 52 ≤ bit + 53 :=
        (zpow_le_zpow_iff_right₀ (by norm_num : (1 : ℚ) < 2)).mp (hBelow.trans hAbove)
      have hBit : lastBit (2 ^ bit * (m : ℚ)) = bit + 1 := by omega
      refine ⟨hBit, le_antisymm hHigh ?_⟩
      rw [hBit, show bit + 1 + 52 = bit + 53 by ring, zpow_add₀ (by norm_num)] at hBelow
      have hCast : (2 : ℚ) ^ (53 : ℤ) ≤ m := le_of_mul_le_mul_left hBelow (by positivity)
      exact_mod_cast hCast
    refine rounded_of_multiple (k := 2 ^ 52) ?_
    rw [hNext.1, hNext.2, zpow_add₀ (by norm_num)]
    push_cast
    ring

theorem round_eq {value : ℚ} (h : value ≠ 0) : round value =
    if (2 : ℚ) ^ 1024 ≤ rounded |value| then .infinite (decide (value < 0))
    else .finite (if value < 0 then -rounded |value| else rounded |value|) := by
  rw [round, if_neg h]
  rfl

/-- What rounding gives is a double. -/
theorem exact_of_round {value result : ℚ} (h : round value = .finite result) : Exact result := by
  by_cases hZero : value = 0
  · rw [round, if_pos hZero] at h
    cases h
    rfl
  rw [round_eq hZero] at h
  split at h
  · cases h
  · rename_i hRange
    have hPositive : 0 < |value| := abs_pos.mpr hZero
    have hNonneg : 0 ≤ rounded |value| := by
      have hLow : 0 ≤ roundHalfEven (|value| / 2 ^ lastBit |value|) := le_roundHalfEven (by rw [Int.cast_zero]; positivity)
      have hCast : (0 : ℚ) ≤ roundHalfEven (|value| / 2 ^ lastBit |value|) := by exact_mod_cast hLow
      unfold rounded
      positivity
    have hResult : result = if value < 0 then -rounded |value| else rounded |value| := by
      cases h
      rfl
    by_cases hNone : rounded |value| = 0
    · rw [hNone, neg_zero, ite_self] at hResult
      subst hResult
      rfl
    have hSome : 0 < rounded |value| := lt_of_le_of_ne hNonneg (Ne.symm hNone)
    have hAbs : |result| = rounded |value| := by
      rw [hResult]
      split
      · rw [abs_neg, abs_of_pos hSome]
      · exact abs_of_pos hSome
    have hResultNonzero : result ≠ 0 := by
      intro hEq
      rw [hEq, abs_zero] at hAbs
      exact hNone hAbs.symm
    rw [Exact, round_eq hResultNonzero, hAbs, rounded_rounded hPositive, if_neg hRange]
    congr 1
    rw [hResult]
    by_cases hSign : value < 0
    · rw [if_pos hSign, if_pos (by linarith)]
    · rw [if_neg hSign, if_neg (by linarith)]

/-- The smallest step between doubles is this negative power of two. -/
def smallestStep : Nat := 1074

/-- Rounding goes the same way on both sides of zero. -/
theorem round_neg {value result : ℚ} (h : round value = .finite result) : round (-value) = .finite (-result) := by
  by_cases hZero : value = 0
  · subst hZero
    rw [round, if_pos rfl] at h
    cases h
    rfl
  · rw [round_eq hZero] at h
    rw [round_eq (neg_ne_zero.mpr hZero), abs_neg]
    split at h
    · cases h
    · rename_i hRange
      cases h
      rw [if_neg hRange]
      congr 1
      rcases lt_or_gt_of_ne hZero with hSign | hSign
      · rw [if_neg (by linarith), if_pos hSign, neg_neg]
      · rw [if_pos (by linarith), if_neg (by linarith)]

theorem Exact.abs {value : ℚ} (h : Exact value) : Exact |value| := by
  rcases abs_choice value with hAbs | hAbs
  · rw [hAbs]
    exact h
  · rw [hAbs]
    exact round_neg h

/-- A positive double is a whole number of smallest steps. -/
theorem Exact.steps {value : ℚ} (h : Exact value) (hPositive : 0 < value) :
    ∃ steps : ℤ, value * 2 ^ smallestStep = steps := by
  rw [Exact, round_eq hPositive.ne'] at h
  split at h
  · cases h
  · rw [if_neg (not_lt.mpr hPositive.le), abs_of_pos hPositive] at h
    have hRounded : rounded value = value := Double.finite.inj h
    have hFloor : (-1074 : ℤ) ≤ lastBit value := le_max_right _ _
    obtain ⟨shift, hShift⟩ := Int.eq_ofNat_of_zero_le (by unfold smallestStep; omega : 0 ≤ lastBit value + smallestStep)
    refine ⟨roundHalfEven (value / 2 ^ lastBit value) * 2 ^ shift, ?_⟩
    have hPower : (2 : ℚ) ^ lastBit value * 2 ^ smallestStep = 2 ^ shift := by
      rw [← zpow_natCast (2 : ℚ) smallestStep, ← zpow_natCast (2 : ℚ) shift, ← zpow_add₀ (by norm_num), ← hShift]
    have hSelf : value * (2 : ℚ) ^ smallestStep =
        (2 : ℚ) ^ lastBit value * roundHalfEven (value / 2 ^ lastBit value) * 2 ^ smallestStep := by
      conv_lhs => rw [← hRounded, rounded]
    rw [hSelf, mul_right_comm, hPower]
    push_cast
    ring

/-! The shortest decimal. -/

/-- A decimal: a coefficient and a power of ten. -/
structure Decimal where
  coefficient : ℤ
  exponent : ℤ

def Decimal.value (decimal : Decimal) : ℚ := decimal.coefficient * 10 ^ decimal.exponent

/-- The place of the decimal point behind the leading digit. -/
def pointPlace (value : ℚ) : ℤ := Int.log 10 value + 1

/-- The nearest decimal with the given number of digits. -/
def nearest (value : ℚ) (digits : Nat) : Decimal :=
  ⟨roundHalfEven (value * 10 ^ (digits - pointPlace value)), pointPlace value - digits⟩

/-- The first of the nearest decimals that reads back as the double. -/
def shortest (value : ℚ) : Nat → Nat → Decimal
  | 0, digits => nearest value digits
  | fuel + 1, digits =>
      if round (nearest value digits).value = .finite value then nearest value digits else shortest value fuel (digits + 1)

theorem nearest_value {value : ℚ} (h : Exact value) (hPositive : 0 < value) {digits : Nat}
    (hDigits : pointPlace value + smallestStep ≤ digits) : (nearest value digits).value = value := by
  obtain ⟨steps, hSteps⟩ := h.steps hPositive
  obtain ⟨more, hMore⟩ := Int.eq_ofNat_of_zero_le (by omega : 0 ≤ digits - pointPlace value - smallestStep)
  have hPower : (10 : ℚ) ^ (digits - pointPlace value) = 2 ^ smallestStep * 5 ^ smallestStep * 10 ^ more := by
    rw [show (digits : ℤ) - pointPlace value = smallestStep + more by omega, zpow_add₀ (by norm_num),
      zpow_natCast, zpow_natCast, ← mul_pow, show (2 : ℚ) * 5 = 10 by norm_num]
  have hWhole : value * 10 ^ (digits - pointPlace value) = ((steps * 5 ^ smallestStep * 10 ^ more : ℤ) : ℚ) := by
    rw [hPower, ← mul_assoc, ← mul_assoc, hSteps]
    push_cast
    ring
  rw [nearest, Decimal.value, hWhole, roundHalfEven_int, ← hWhole, mul_assoc, ← zpow_add₀ (by norm_num)]
  simp

theorem round_shortest {value : ℚ} (h : Exact value) (hPositive : 0 < value) (fuel digits : Nat)
    (hDigits : pointPlace value + smallestStep ≤ (digits + fuel : Nat)) : round (shortest value fuel digits).value = .finite value := by
  induction fuel generalizing digits with
  | zero =>
      rw [shortest, nearest_value h hPositive (by simpa using hDigits)]
      exact h
  | succ fuel ih =>
      rw [shortest]
      split
      · assumption
      · exact ih (digits + 1) (by push_cast at hDigits ⊢; omega)

theorem nearest_positive {value : ℚ} (hPositive : 0 < value) {digits : Nat} (hDigits : 1 ≤ digits) :
    1 ≤ (nearest value digits).coefficient := by
  apply le_roundHalfEven
  have hLog : (10 : ℚ) ^ Int.log 10 value ≤ value := by
    exact_mod_cast Int.zpow_log_le_self (b := 10) (by decide) hPositive
  have hOne : (1 : ℚ) ≤ 10 ^ (Int.log 10 value + (digits - pointPlace value)) := by
    apply one_le_zpow₀ (by norm_num)
    unfold pointPlace
    omega
  rw [zpow_add₀ (by norm_num)] at hOne
  calc ((1 : ℤ) : ℚ) ≤ 10 ^ Int.log 10 value * 10 ^ (digits - pointPlace value) := by exact_mod_cast hOne
    _ ≤ value * 10 ^ (digits - pointPlace value) := mul_le_mul_of_nonneg_right hLog (by positivity)

theorem shortest_positive {value : ℚ} (hPositive : 0 < value) (fuel digits : Nat) (hDigits : 1 ≤ digits) :
    1 ≤ (shortest value fuel digits).coefficient := by
  induction fuel generalizing digits with
  | zero => exact nearest_positive hPositive hDigits
  | succ fuel ih =>
      rw [shortest]
      split
      · exact nearest_positive hPositive hDigits
      · exact ih (digits + 1) (by omega)

end Binary64

namespace PyJson

open Binary64

/-! Runs of digits. -/

theorem digitsValue_concat (first second : Text) :
    digitsValue (first ++ second) = digitsValue first * 10 ^ second.length + digitsValue second := by
  induction second using List.reverseRecOn with
  | nil => simp [digitsValue]
  | append_singleton second c ih =>
      rw [← List.append_assoc, digitsValue_append, digitsValue_append, ih, List.length_append, List.length_singleton]
      ring

theorem digitsValue_zeros (count : Nat) : digitsValue (List.replicate count 48) = 0 := by
  induction count with
  | zero => rfl
  | succ count ih => rw [List.replicate_succ', digitsValue_append, ih]

/-- The digits without the zeros at their end. -/
def trimZeros (digits : Text) : Text := digits.rdropWhile (· == 48)

theorem trimZeros_split (digits : Text) : ∃ count, digits = trimZeros digits ++ List.replicate count 48 := by
  induction digits using List.reverseRecOn with
  | nil => exact ⟨0, rfl⟩
  | append_singleton digits c ih =>
      unfold trimZeros at ih ⊢
      by_cases hZero : c = 48
      · subst hZero
        obtain ⟨count, hCount⟩ := ih
        refine ⟨count + 1, ?_⟩
        rw [List.rdropWhile_concat_pos _ _ _ (by simp), List.replicate_succ', ← List.append_assoc, ← hCount]
      · exact ⟨0, by rw [List.rdropWhile_concat_neg _ _ _ (by simpa using hZero)]; simp⟩

/-- At least two digits of an exponent, with its sign. -/
def exponentText (exponent : ℤ) : Text :=
  (if exponent < 0 then 45 else 43) :: ((if exponent.natAbs < 10 then [48] else []) ++ printNat exponent.natAbs)

/-- The digits with the decimal point at its place, or in scientific notation
when the point is far away. -/
def placePoint (digits : Text) (point : ℤ) : Text :=
  if -4 < point ∧ point ≤ 16 then
    if point ≤ 0 then 48 :: 46 :: (List.replicate (-point).toNat 48 ++ digits)
    else if point.toNat < digits.length then digits.take point.toNat ++ 46 :: digits.drop point.toNat
    else digits ++ (List.replicate (point.toNat - digits.length) 48 ++ [46, 48])
  else
    digits.take 1 ++ ((if digits.length ≤ 1 then [] else 46 :: digits.drop 1) ++ 101 :: exponentText (point - 1))

/-- The digits a positive double is written with, and the place of its point. -/
def significant (value : ℚ) : Text × ℤ :=
  let decimal := shortest value ((pointPlace value).toNat + smallestStep) 1
  let digits := printNat decimal.coefficient.toNat
  (trimZeros digits, digits.length + decimal.exponent)

/-- `float.__repr__`, and the names of what is not finite. -/
def floatText : Double → Text
  | .finite value =>
      if value = 0 then text "0.0"
      else (if value < 0 then [45] else []) ++ placePoint (significant |value|).1 (significant |value|).2
  | .infinite negative => if negative then text "-Infinity" else text "Infinity"

/-! Reading the text back. -/

/-- Nothing that continues a number follows. -/
def Stops (rest : Text) : Prop := ∀ c ∈ rest.head?, isDigit c = false ∧ c ≠ 46 ∧ c ≠ 101 ∧ c ≠ 69

theorem takeWhile_digits {digits rest : Text} (h : ∀ c ∈ digits, isDigit c = true)
    (hRest : ∀ c ∈ rest.head?, isDigit c = false) :
    (digits ++ rest).takeWhile isDigit = digits ∧ (digits ++ rest).dropWhile isDigit = rest := by
  rw [List.takeWhile_append_of_pos h, List.dropWhile_append_of_pos h]
  cases rest with
  | nil => simp
  | cons c rest => simp [hRest c (by simp)]

theorem scanWhole_digits {whole rest : Text} (hSome : whole ≠ []) (h : ∀ c ∈ whole, isDigit c = true)
    (hFirst : whole.head? ≠ some 48) (hRest : ∀ c ∈ rest.head?, isDigit c = false) :
    scanWhole (whole ++ rest) = some (whole, rest) := by
  obtain ⟨first, whole, rfl⟩ := List.exists_cons_of_ne_nil hSome
  obtain ⟨hTake, hDrop⟩ := takeWhile_digits (fun c hc => h c (List.mem_cons_of_mem _ hc)) hRest
  rw [List.cons_append, scanWhole, if_neg (by simpa using hFirst), if_pos (h first List.mem_cons_self), hTake, hDrop]

theorem scanFraction_digits {fraction rest : Text} (hSome : fraction ≠ []) (h : ∀ c ∈ fraction, isDigit c = true)
    (hRest : ∀ c ∈ rest.head?, isDigit c = false) : scanFraction (46 :: (fraction ++ rest)) = (fraction, rest) := by
  obtain ⟨hTake, hDrop⟩ := takeWhile_digits h hRest
  rw [scanFraction, hTake, hDrop, if_pos ⟨rfl, hSome⟩]

theorem scanFraction_none {rest : Text} (h : rest.head? ≠ some 46) : scanFraction rest = ([], rest) := by
  cases rest with
  | nil => rfl
  | cons c rest => rw [scanFraction, if_neg (by simpa using fun hPoint => absurd (congrArg some hPoint) h)]

theorem scanExponent_none {rest : Text} (h : ∀ c ∈ rest.head?, c ≠ 101 ∧ c ≠ 69) : scanExponent rest = (none, rest) := by
  cases rest with
  | nil => rfl
  | cons c rest =>
      have hc := h c (by simp)
      simp [scanExponent, hc]

theorem exponent_digits (n : Nat) : (if n < 10 then [48] else []) ++ printNat n ≠ [] ∧
    (∀ c ∈ (if n < 10 then [48] else []) ++ printNat n, isDigit c = true) ∧
    digitsValue ((if n < 10 then [48] else []) ++ printNat n) = n := by
  have hDigits : ∀ c ∈ printNat n, isDigit c = true := by
    intro c hc
    have hBounds := printNat_digits n c hc
    simp [isDigit, hBounds]
  have hSome : printNat n ≠ [] := by
    intro hNone
    have hValue := digitsValue_printNat n
    rw [hNone] at hValue
    subst hValue
    exact absurd hNone (by decide)
  refine ⟨by simp [hSome], ?_, ?_⟩
  · intro c hc
    rcases List.mem_append.mp hc with hc | hc
    · split at hc
      · rw [List.mem_singleton.mp hc]
        rfl
      · cases hc
    · exact hDigits c hc
  · rw [digitsValue_concat, digitsValue_printNat]
    split <;> simp [digitsValue]

theorem scanExponent_text {rest : Text} (exponent : ℤ) (h : ∀ c ∈ rest.head?, isDigit c = false) :
    scanExponent (101 :: (exponentText exponent ++ rest)) = (some exponent, rest) := by
  obtain ⟨hSome, hAll, hValue⟩ := exponent_digits exponent.natAbs
  obtain ⟨hTake, hDrop⟩ := takeWhile_digits hAll h
  rw [exponentText, List.cons_append, scanExponent]
  by_cases hSign : exponent < 0
  · simp only [if_pos hSign, if_true, hTake, hDrop, hValue]
    rw [if_pos ⟨.inl trivial, hSome⟩]
    simp only [Prod.mk.injEq, Option.some.injEq, and_true]
    omega
  · simp only [if_neg hSign, show (43 : Nat) ≠ 45 by decide, if_false, if_true, hTake, hDrop, hValue]
    rw [if_pos ⟨.inl trivial, hSome⟩]
    simp only [Prod.mk.injEq, Option.some.injEq, and_true]
    simp only [Bool.false_eq_true, if_false]
    omega

theorem scanWhole_some {whole tail : Text} (h : scanWhole (whole ++ tail) = some (whole, tail)) : whole ≠ [] := by
  rintro rfl
  cases tail with
  | nil => cases h
  | cons c tail =>
      rw [List.nil_append, scanWhole] at h
      split at h
      · cases h
      · split at h <;> cases h

/-- A number that spells a fraction or an exponent is read as the double nearest
to what it spells. -/
theorem scanNumber_decimal (negative : Bool) {whole tail fraction after rest : Text} {exponent : Option ℤ}
    (hMinus : whole.head? ≠ some 45) (hWhole : scanWhole (whole ++ tail) = some (whole, tail))
    (hFraction : scanFraction tail = (fraction, after)) (hExponent : scanExponent after = (exponent, rest))
    (hSpelled : ¬ (fraction = [] ∧ exponent = none)) :
    scanNumber ((if negative then [45] else []) ++ (whole ++ tail)) = .ok (.float (round
      ((if negative then -1 else 1) * (digitsValue (whole ++ fraction) * 10 ^ (exponent.getD 0 - fraction.length)))), rest) := by
  have hSome : whole ≠ [] := scanWhole_some hWhole
  obtain ⟨first, more, rfl⟩ := List.exists_cons_of_ne_nil hSome
  have hFirst : first ≠ 45 := by simpa using hMinus
  cases negative with
  | true =>
      unfold scanNumber
      simp only [if_true, List.singleton_append, hWhole, hFraction, hExponent, if_neg hSpelled]
      push_cast
      rw [mul_assoc]
  | false =>
      unfold scanNumber
      simp only [Bool.false_eq_true, if_false, List.nil_append, List.cons_append] at hWhole ⊢
      simp only [if_neg hFirst, Bool.false_eq_true, if_false, hWhole, hFraction, hExponent, if_neg hSpelled]
      push_cast
      rw [mul_assoc, List.cons_append]

/-- A number without a fraction and without an exponent is an integer. -/
theorem scanNumber_whole (negative : Bool) {whole rest : Text} (hMinus : whole.head? ≠ some 45)
    (hWhole : scanWhole (whole ++ rest) = some (whole, rest)) (hRest : Stops rest) (hDigits : whole.length ≤ maxStrDigits) :
    scanNumber ((if negative then [45] else []) ++ (whole ++ rest)) =
      .ok (.int ((if negative then -1 else 1) * digitsValue whole), rest) := by
  have hFraction : scanFraction rest = ([], rest) := scanFraction_none fun hPoint => (hRest 46 hPoint).2.1 rfl
  have hExponent : scanExponent rest = (none, rest) := scanExponent_none fun c hc => (hRest c hc).2.2
  have hSome : whole ≠ [] := scanWhole_some hWhole
  obtain ⟨first, more, rfl⟩ := List.exists_cons_of_ne_nil hSome
  have hFirst : first ≠ 45 := by simpa using hMinus
  cases negative with
  | true =>
      unfold scanNumber
      simp only [if_true, List.singleton_append, hWhole, hFraction, hExponent, and_self, if_neg (not_lt.mpr hDigits)]
  | false =>
      unfold scanNumber
      simp only [Bool.false_eq_true, if_false, List.nil_append, List.cons_append] at hWhole ⊢
      simp only [if_neg hFirst, Bool.false_eq_true, if_false, hWhole, hFraction, hExponent, and_self, if_true,
        if_neg (not_lt.mpr hDigits)]

theorem digits_zeros (count : Nat) : ∀ c ∈ List.replicate count 48, isDigit c = true := by
  intro c hc
  rw [(List.mem_replicate.mp hc).2]
  rfl

/-- Wherever the point is placed, the text spells the same decimal. -/
theorem scanNumber_placePoint (negative : Bool) {digits rest : Text} (hSome : digits ≠ []) (hAll : ∀ c ∈ digits, isDigit c = true)
    (hFirst : digits.head? ≠ some 48) (point : ℤ) (hRest : Stops rest) :
    scanNumber ((if negative then [45] else []) ++ (placePoint digits point ++ rest)) = .ok (.float (round
      ((if negative then -1 else 1) * (digitsValue digits * 10 ^ (point - digits.length)))), rest) := by
  have hDigit : ∀ c ∈ rest.head?, isDigit c = false := fun c hc => (hRest c hc).1
  have hNone : scanExponent rest = (none, rest) := scanExponent_none fun c hc => (hRest c hc).2.2
  have hMinus : ∀ {whole : Text}, (∀ c ∈ whole, isDigit c = true) → whole.head? ≠ some 45 := by
    intro whole hWhole hHead
    exact absurd (hWhole 45 (List.mem_of_mem_head? hHead)) (by decide)
  unfold placePoint
  by_cases hFixed : -4 < point ∧ point ≤ 16
  · rw [if_pos hFixed]
    by_cases hLeft : point ≤ 0
    · rw [if_pos hLeft]
      have hFraction := scanFraction_digits
        (show List.replicate (-point).toNat 48 ++ digits ≠ [] by simp [hSome]) (fun c hc => (List.mem_append.mp hc).elim (digits_zeros _ c) (hAll c)) hDigit
      have hScan := scanNumber_decimal negative (show ([48] : Text).head? ≠ some 45 by decide) rfl hFraction hNone
        (by simp [hSome])
      simp only [List.cons_append, List.nil_append] at hScan ⊢
      rw [hScan]
      have hValue : digitsValue (48 :: (List.replicate (-point).toNat 48 ++ digits)) = digitsValue digits := by
        rw [show 48 :: (List.replicate (-point).toNat 48 ++ digits) = List.replicate ((-point).toNat + 1) 48 ++ digits by
          rw [List.replicate_succ, List.cons_append], digitsValue_concat, digitsValue_zeros, zero_mul, zero_add]
      rw [hValue, List.length_append, List.length_replicate, show (none : Option ℤ).getD 0 -
        (((-point).toNat + digits.length : ℕ) : ℤ) = point - digits.length by simp; omega]
    · rw [if_neg hLeft]
      by_cases hInside : point.toNat < digits.length
      · rw [if_pos hInside]
        have hTake : ∀ c ∈ digits.take point.toNat, isDigit c = true := fun c hc => hAll c (List.mem_of_mem_take hc)
        have hWhole : scanWhole (digits.take point.toNat ++ 46 :: (digits.drop point.toNat ++ rest)) =
            some (digits.take point.toNat, 46 :: (digits.drop point.toNat ++ rest)) := scanWhole_digits
          (by rw [Ne, List.take_eq_nil_iff]; exact fun h => h.elim (by omega) hSome) hTake
          (by rw [List.head?_take, if_neg (by omega)]; exact hFirst) (by rintro c ⟨⟩; rfl)
        have hFraction := scanFraction_digits
          (show digits.drop point.toNat ≠ [] by rw [Ne, List.drop_eq_nil_iff]; omega) (fun c hc => hAll c (List.mem_of_mem_drop hc)) hDigit
        have hScan := scanNumber_decimal negative (hMinus hTake) hWhole hFraction hNone
          (by rw [List.drop_eq_nil_iff]; omega)
        rw [List.append_assoc, List.cons_append, hScan, List.take_append_drop, List.length_drop,
          show (none : Option ℤ).getD 0 - ((digits.length - point.toNat : ℕ) : ℤ) = point - digits.length by simp; omega]
      · rw [if_neg hInside]
        have hPadded : ∀ c ∈ digits ++ List.replicate (point.toNat - digits.length) 48, isDigit c = true :=
          fun c hc => (List.mem_append.mp hc).elim (hAll c) (digits_zeros _ c)
        have hWhole : scanWhole (digits ++ List.replicate (point.toNat - digits.length) 48 ++ 46 :: ([48] ++ rest)) =
            some (digits ++ List.replicate (point.toNat - digits.length) 48, 46 :: ([48] ++ rest)) := scanWhole_digits (by simp [hSome]) hPadded
          (by rw [List.head?_append_of_ne_nil _ hSome]; exact hFirst) (by rintro c ⟨⟩; rfl)
        have hFraction := scanFraction_digits (show ([48] : Text) ≠ [] by simp) (by simp [isDigit]) hDigit
        have hScan := scanNumber_decimal negative (hMinus hPadded) hWhole hFraction hNone (by simp)
        have hShape : digits ++ (List.replicate (point.toNat - digits.length) 48 ++ [46, 48]) ++ rest =
            digits ++ List.replicate (point.toNat - digits.length) 48 ++ 46 :: ([48] ++ rest) := by simp
        rw [hShape, hScan, List.append_assoc, digitsValue_concat, ← List.replicate_succ', digitsValue_zeros, List.length_replicate]
        have hShift : ((digitsValue digits * 10 ^ (point.toNat - digits.length + 1) + 0 : ℕ) : ℚ) *
            10 ^ ((none : Option ℤ).getD 0 - (([48] : Text).length : ℤ)) = digitsValue digits * 10 ^ (point - digits.length) := by
          have hSplit : point - digits.length = ((point.toNat - digits.length + 1 : ℕ) : ℤ) + -1 := by omega
          push_cast
          rw [hSplit, zpow_add₀ (by norm_num), zpow_natCast]
          simp
          ring
        rw [hShift]
  · rw [if_neg hFixed]
    have hPositive : 0 < digits.length := List.length_pos_iff.mpr hSome
    have hTake : ∀ c ∈ digits.take 1, isDigit c = true := fun c hc => hAll c (List.mem_of_mem_take hc)
    have hAfter := scanExponent_text (point - 1) hDigit
    obtain ⟨tail, hTail, hHead, hFraction⟩ : ∃ tail, tail = (if digits.length ≤ 1 then [] else 46 :: digits.drop 1) ++
        101 :: (exponentText (point - 1) ++ rest) ∧ (∀ c ∈ tail.head?, isDigit c = false) ∧
        scanFraction tail = (digits.drop 1, 101 :: (exponentText (point - 1) ++ rest)) := by
      refine ⟨_, rfl, ?_, ?_⟩
      · split
        · rintro c ⟨⟩
          rfl
        · rintro c ⟨⟩
          rfl
      · by_cases hOne : digits.length ≤ 1
        · rw [if_pos hOne, List.nil_append, scanFraction_none (by simp), List.drop_eq_nil_iff.mpr hOne]
        · rw [if_neg hOne, List.cons_append]
          exact scanFraction_digits (by rw [Ne, List.drop_eq_nil_iff]; exact hOne)
            (fun c hc => hAll c (List.mem_of_mem_drop hc)) (by rintro c ⟨⟩; rfl)
    have hWhole := scanWhole_digits (show digits.take 1 ≠ [] by rw [Ne, List.take_eq_nil_iff]; simp [hSome]) hTake
      (by rw [List.head?_take, if_neg (by decide)]; exact hFirst) hHead
    have hScan := scanNumber_decimal negative (hMinus hTake) hWhole hFraction hAfter (by simp)
    rw [List.append_assoc, List.append_assoc, List.cons_append, ← hTail, hScan, List.take_append_drop, List.length_drop,
      show (some (point - 1)).getD 0 - ((digits.length - 1 : ℕ) : ℤ) = point - digits.length by simp; omega]

/-- The digits of a positive double, and what they spell with its point. -/
theorem significant_reads {value : ℚ} (h : Exact value) (hPositive : 0 < value) :
    (significant value).1 ≠ [] ∧ (∀ c ∈ (significant value).1, isDigit c = true) ∧ (significant value).1.head? ≠ some 48 ∧
    Binary64.round (digitsValue (significant value).1 * 10 ^ ((significant value).2 - (significant value).1.length)) = .finite value := by
  set decimal := shortest value ((pointPlace value).toNat + smallestStep) 1 with hDecimal
  have hReads : Binary64.round decimal.value = .finite value := round_shortest h hPositive _ _ (by push_cast; omega)
  have hCoefficient : 1 ≤ decimal.coefficient := shortest_positive hPositive _ _ le_rfl
  obtain ⟨coefficient, hNat⟩ := Int.eq_ofNat_of_zero_le (by omega : 0 ≤ decimal.coefficient)
  have hSignificant : significant value =
      (trimZeros (printNat coefficient), (printNat coefficient).length + decimal.exponent) := by
    simp only [significant, ← hDecimal, hNat, Int.toNat_natCast]
  obtain ⟨count, hSplit⟩ := trimZeros_split (printNat coefficient)
  have hValue : coefficient = digitsValue (trimZeros (printNat coefficient)) * 10 ^ count := by
    conv_lhs => rw [← digitsValue_printNat coefficient, hSplit, digitsValue_concat, digitsValue_zeros]
    simp
  have hSome : trimZeros (printNat coefficient) ≠ [] := by
    intro hNone
    rw [hNone] at hValue
    simp [digitsValue] at hValue
    omega
  rw [hSignificant]
  refine ⟨hSome, ?_, ?_, ?_⟩
  · intro c hc
    have hBounds := printNat_digits coefficient c (by rw [hSplit]; exact List.mem_append_left _ hc)
    simp [isDigit, hBounds]
  · have hHead : (printNat coefficient).head? = (trimZeros (printNat coefficient)).head? := by
      conv_lhs => rw [hSplit]
      rw [List.head?_append_of_ne_nil _ hSome]
    intro hZero
    rw [← hHead] at hZero
    have hScan : scanWhole (printNat coefficient ++ []) = some (printNat coefficient, []) :=
      scanWhole_printNat coefficient (by simp)
    have hPrintSome : printNat coefficient ≠ [] := by
      intro hNone
      rw [hNone] at hZero
      cases hZero
    obtain ⟨first, digits, hPrint⟩ := List.exists_cons_of_ne_nil hPrintSome
    rw [hPrint, List.head?_cons, Option.some.injEq] at hZero
    subst hZero
    rw [hPrint, List.append_nil, scanWhole, if_pos rfl, Option.some.injEq, Prod.mk.injEq] at hScan
    have hOne := digitsValue_printNat coefficient
    rw [hPrint, ← hScan.1] at hOne
    simp [digitsValue] at hOne
    omega
  · rw [← hReads]
    congr 1
    have hLength : (printNat coefficient).length = (trimZeros (printNat coefficient)).length + count := by
      conv_lhs => rw [hSplit]
      simp
    have hCast : (decimal.coefficient : ℚ) = digitsValue (trimZeros (printNat coefficient)) * 10 ^ count := by
      rw [hNat]
      exact_mod_cast hValue
    rw [Decimal.value, hCast, hLength, mul_assoc, ← zpow_natCast, ← zpow_add₀ (by norm_num)]
    congr 2
    push_cast
    ring

/-- The reader takes the double back from its text. -/
theorem scanNumber_floatText {value : ℚ} (h : Exact value) {rest : Text} (hRest : Stops rest) :
    scanNumber (floatText (.finite value) ++ rest) = .ok (.float (.finite value), rest) := by
  by_cases hZero : value = 0
  · subst hZero
    have hFraction := scanFraction_digits (show ([48] : Text) ≠ [] by simp) (by simp [isDigit])
      fun c hc => (hRest c hc).1
    have hScan := scanNumber_decimal false (show ([48] : Text).head? ≠ some 45 by decide) rfl hFraction
      (scanExponent_none fun c hc => (hRest c hc).2.2) (by simp)
    simpa [floatText, text, digitsValue, Binary64.round] using hScan
  · have hPositive : 0 < |value| := abs_pos.mpr hZero
    obtain ⟨hSome, hAll, hFirst, hReads⟩ := significant_reads h.abs hPositive
    have hScan := scanNumber_placePoint (decide (value < 0)) hSome hAll hFirst (significant |value|).2 hRest
    rw [floatText, if_neg hZero, List.append_assoc]
    simp only [decide_eq_true_eq] at hScan
    rw [hScan]
    by_cases hSign : value < 0
    · rw [if_pos hSign, neg_one_mul, round_neg hReads, abs_of_neg hSign, neg_neg]
    · rw [if_neg hSign, one_mul, hReads, abs_of_nonneg (not_lt.mp hSign)]

/-! Characters of a number. -/

/-- A digit, a sign, a decimal point or the mark of an exponent. -/
def numberCode (c : Nat) : Bool := isDigit c || c == 43 || c == 45 || c == 46 || c == 101

theorem numberCode_printNat (n : Nat) : ∀ c ∈ printNat n, numberCode c = true := by
  intro c hc
  simp [numberCode, isDigit, printNat_digits n c hc]

theorem numberCode_append {first second : Text} (hFirst : ∀ c ∈ first, numberCode c = true)
    (hSecond : ∀ c ∈ second, numberCode c = true) : ∀ c ∈ first ++ second, numberCode c = true :=
  List.forall_mem_append.mpr ⟨hFirst, hSecond⟩

theorem numberCode_cons {c : Nat} {rest : Text} (hFirst : numberCode c = true) (hRest : ∀ c ∈ rest, numberCode c = true) :
    ∀ d ∈ c :: rest, numberCode d = true :=
  List.forall_mem_cons.mpr ⟨hFirst, hRest⟩

theorem numberCode_zeros (count : Nat) : ∀ c ∈ List.replicate count 48, numberCode c = true := by
  intro c hc
  rw [List.eq_of_mem_replicate hc]
  rfl

theorem numberCode_placePoint {digits : Text} (h : ∀ c ∈ digits, numberCode c = true) (point : ℤ) :
    ∀ c ∈ placePoint digits point, numberCode c = true := by
  have hTake : ∀ count, ∀ c ∈ digits.take count, numberCode c = true := fun count c hc => h c (List.mem_of_mem_take hc)
  have hDrop : ∀ count, ∀ c ∈ digits.drop count, numberCode c = true := fun count c hc => h c (List.mem_of_mem_drop hc)
  unfold placePoint
  split
  · split
    · exact numberCode_cons rfl (numberCode_cons rfl (numberCode_append (numberCode_zeros _) h))
    split
    · exact numberCode_append (hTake _) (numberCode_cons rfl (hDrop _))
    · exact numberCode_append h (numberCode_append (numberCode_zeros _) (by decide))
  · refine numberCode_append (hTake _) (numberCode_append ?_ (numberCode_cons rfl ?_))
    · split
      · exact nofun
      · exact numberCode_cons rfl (hDrop _)
    · refine numberCode_cons (by split <;> rfl) (numberCode_append ?_ (numberCode_printNat _))
      split
      · decide
      · exact nofun

/-- A finite number is written with such characters only. -/
theorem numberCode_floatText (value : ℚ) : ∀ c ∈ floatText (.finite value), numberCode c = true := by
  unfold floatText
  simp only
  split
  · decide
  refine numberCode_append ?_ (numberCode_placePoint ?_ _)
  · split
    · decide
    · exact nofun
  · intro c hc
    set n := (shortest |value| ((pointPlace |value|).toNat + smallestStep) 1).coefficient.toNat
    obtain ⟨count, hSplit⟩ := trimZeros_split (printNat n)
    have hMem : c ∈ trimZeros (printNat n) ++ List.replicate count 48 := List.mem_append_left _ hc
    exact numberCode_printNat n c (hSplit ▸ hMem)

end PyJson
