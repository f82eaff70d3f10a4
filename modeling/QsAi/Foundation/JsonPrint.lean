import QsAi.Foundation.JsonBytes
import Mathlib.Data.Nat.Digits.Lemmas

/-! Printed JSON. A flat object of plain strings and numbers is written without
blanks or escapes, and the reader takes the same members from the text. -/
namespace PyJson

open Guarded

/-- A value that is printed without structure. -/
inductive Scalar
  | string (value : Text)
  | nat (value : Nat)
deriving DecidableEq

def Scalar.value : Scalar → Value
  | .string value => .string value
  | .nat value => .int value

/-- Characters that no encoding and no string literal changes. -/
def plainCode (c : Nat) : Bool := 32 ≤ c && c < 127 && c != 34 && c != 92

def Plain (value : Text) : Prop := ∀ c ∈ value, plainCode c = true

instance plainDecidable (value : Text) : Decidable (Plain value) :=
  inferInstanceAs (Decidable (∀ c ∈ value, plainCode c = true))

/-- Decimal digits, the most significant one first. -/
def printNat (value : Nat) : Text := if value = 0 then [48] else (Nat.digits 10 value).reverse.map (48 + ·)

def Scalar.print : Scalar → Text
  | .string value => 34 :: value ++ [34]
  | .nat value => printNat value

def Scalar.Plain : Scalar → Prop
  | .string value => PyJson.Plain value
  | .nat value => (printNat value).length ≤ maxStrDigits

/-- The members of an object and its closing brace. -/
def printFields : List (Text × Scalar) → Text
  | [] => [125]
  | [(key, value)] => 34 :: key ++ 34 :: 58 :: value.print ++ [125]
  | (key, value) :: next :: rest => 34 :: key ++ 34 :: 58 :: value.print ++ 44 :: printFields (next :: rest)

def printObject (fields : List (Text × Scalar)) : Text := 123 :: printFields fields

/-- The members a reader hands to its hook. -/
def members (fields : List (Text × Scalar)) : List (Text × Value) := fields.map fun field => (field.1, field.2.value)

/-! Digits. -/

theorem printNat_digits (value : Nat) : ∀ c ∈ printNat value, 48 ≤ c ∧ c ≤ 57 := by
  unfold printNat
  split
  · simp
  · intro c hc
    obtain ⟨digit, hDigit, rfl⟩ := List.mem_map.mp hc
    have hLess := Nat.digits_lt_base (by decide) (List.mem_reverse.mp hDigit)
    omega

theorem printNat_plain (value : Nat) : Plain (printNat value) := by
  intro c hc
  obtain ⟨hLow, hHigh⟩ := printNat_digits value c hc
  simp [plainCode]
  omega

theorem digitsValue_append (digits : Text) (c : Nat) : digitsValue (digits ++ [c]) = 10 * digitsValue digits + (c - 48) := by
  simp [digitsValue]

/-- The digits spell the number. -/
theorem digitsValue_printNat (value : Nat) : digitsValue (printNat value) = value := by
  have hDigits : ∀ digits : List Nat, digitsValue (digits.reverse.map (48 + ·)) = Nat.ofDigits 10 digits := by
    intro digits
    induction digits with
    | nil => rfl
    | cons digit digits ih =>
        rw [List.reverse_cons, List.map_append, List.map_singleton, digitsValue_append, ih, Nat.ofDigits_cons]
        simp only [Nat.add_sub_cancel_left]
        omega
  unfold printNat
  split
  · subst value
    rfl
  · rw [hDigits, Nat.ofDigits_digits]

/-- A number below a power of ten has at most so many digits. -/
theorem length_printNat {value width : Nat} (hWidth : 0 < width) (h : value < 10 ^ width) :
    (printNat value).length ≤ width := by
  unfold printNat
  split
  · exact hWidth
  · rename_i hPositive
    rw [List.length_map, List.length_reverse]
    by_contra hLong
    have hLast := Nat.ofDigits_digits 10 value
    have hBase := Nat.base_pow_length_digits_le 10 value (by decide) hPositive
    have hPower : 10 ^ (width + 1) ≤ 10 ^ (Nat.digits 10 value).length := Nat.pow_le_pow_right (by decide) (by omega)
    rw [pow_succ] at hPower
    omega

/-- Only zero starts with a zero. -/
theorem scanWhole_printNat (value : Nat) {rest : Text} (hRest : ∀ c ∈ rest.head?, isDigit c = false) :
    scanWhole (printNat value ++ rest) = some (printNat value, rest) := by
  have hAll := printNat_digits value
  by_cases hZero : value = 0
  · subst value
    rfl
  · have hNonempty : printNat value ≠ [] := by
      unfold printNat
      rw [if_neg hZero]
      simp [Nat.digits_ne_nil_iff_ne_zero.mpr hZero]
    obtain ⟨first, digits, hPrint⟩ := List.exists_cons_of_ne_nil hNonempty
    have hFirst : first ≠ 48 := by
      have hLast := Nat.getLast_digit_ne_zero 10 hZero
      have hHead : (printNat value).head hNonempty = 48 + (Nat.digits 10 value).getLast (Nat.digits_ne_nil_iff_ne_zero.mpr hZero) := by
        simp [printNat, hZero]
      simp only [hPrint, List.head_cons] at hHead
      omega
    rw [hPrint] at hAll ⊢
    have hFirstDigit : isDigit first = true := by
      have hBounds := hAll first (by simp)
      simp [isDigit, hBounds]
    have hDigits : ∀ c ∈ digits, isDigit c = true := by
      intro c hc
      have hBounds := hAll c (by simp [hc])
      simp [isDigit, hBounds]
    have hTake : (digits ++ rest).takeWhile isDigit = digits := by
      rw [List.takeWhile_append_of_pos hDigits]
      cases rest with
      | nil => simp
      | cons c rest => simp [hRest c (by simp)]
    have hDrop : (digits ++ rest).dropWhile isDigit = rest := by
      rw [List.dropWhile_append_of_pos hDigits]
      cases rest with
      | nil => rfl
      | cons c rest => simp [hRest c (by simp)]
    rw [List.cons_append, scanWhole, if_neg hFirst, if_pos hFirstDigit, hTake, hDrop]

/-- What can follow a scalar in a printed object. -/
def Ends (rest : Text) : Prop := rest.head? = some 44 ∨ rest.head? = some 125

theorem scanNumber_printNat (value : Nat) (hLength : (printNat value).length ≤ maxStrDigits) {rest : Text} (hRest : Ends rest) :
    scanNumber (printNat value ++ rest) = .ok (.int value, rest) := by
  obtain ⟨c, rest, rfl, hc⟩ : ∃ c tail, rest = c :: tail ∧ (c = 44 ∨ c = 125) := by
    cases rest with
    | nil => rcases hRest with h | h <;> cases h
    | cons c tail => exact ⟨c, tail, rfl, by simpa [Ends] using hRest⟩
  have hWhole : scanWhole (printNat value ++ c :: rest) = some (printNat value, c :: rest) := by
    apply scanWhole_printNat
    rintro d ⟨⟩
    rcases hc with rfl | rfl <;> decide
  have hFraction : scanFraction (c :: rest) = ([], c :: rest) := by
    rw [scanFraction, if_neg]
    rcases hc with rfl | rfl <;> simp
  have hExponent : scanExponent (c :: rest) = (none, c :: rest) := by
    unfold scanExponent
    rcases hc with rfl | rfl <;> simp
  have hUnsigned : ∀ first tail, printNat value ++ c :: rest = first :: tail → first ≠ 45 := by
    intro first tail hFirst
    have hMem : first ∈ printNat value ++ c :: rest := by simp [hFirst]
    cases hPrint : printNat value with
    | nil =>
        rw [hPrint, List.nil_append] at hFirst
        obtain rfl := (List.cons.inj hFirst).1
        rcases hc with rfl | rfl <;> decide
    | cons digit digits =>
        rw [hPrint, List.cons_append] at hFirst
        obtain rfl := (List.cons.inj hFirst).1
        have hBounds := printNat_digits value digit (by simp [hPrint])
        omega
  unfold scanNumber
  cases hInput : printNat value ++ c :: rest with
  | nil => simp at hInput
  | cons first tail =>
      have hPositive := hUnsigned first tail hInput
      simp only [if_neg hPositive]
      rw [← hInput, hWhole]
      simp only [hFraction, hExponent]
      rw [if_pos ⟨trivial, trivial⟩, if_neg (by omega), digitsValue_printNat]
      simp

/-! Strings and members. -/

theorem scanUnits_plain {value : Text} (h : Plain value) (rest : Text) :
    scanUnits (value ++ 34 :: rest) = .ok (value.map fun c => (c, false), rest) := by
  induction value with
  | nil =>
      rw [List.nil_append]
      unfold scanUnits
      rfl
  | cons c value ih =>
      have hc := h c (by simp)
      simp only [plainCode, Bool.and_eq_true, decide_eq_true_eq, bne_iff_ne] at hc
      have hRest := ih fun d hd => h d (by simp [hd])
      rw [List.cons_append]
      unfold scanUnits
      rw [if_neg hc.1.2, if_neg (by omega), if_pos hc.2, hRest]
      rfl

theorem scanString_plain {value : Text} (h : Plain value) (rest : Text) :
    scanString (value ++ 34 :: rest) = .ok (value, rest) := by
  rw [scanString, scanUnits_plain h]
  simp [Function.comp_def]

theorem skipSpace_cons {c : Nat} (h : c ≠ 32 ∧ c ≠ 9 ∧ c ≠ 10 ∧ c ≠ 13) (rest : Text) : skipSpace (c :: rest) = c :: rest := by
  simp [skipSpace, h]

variable {hook : List (Text × Value) → Except Refusal Value} {depth : Option Nat}

theorem print_head (value : Scalar) : ∃ c tail, value.print = c :: tail ∧ (c = 34 ∨ 48 ≤ c ∧ c ≤ 57) := by
  cases value with
  | string value => exact ⟨34, value ++ [34], rfl, Or.inl rfl⟩
  | nat value =>
      cases hPrint : printNat value with
      | nil =>
          unfold printNat at hPrint
          split at hPrint
          · cases hPrint
          · simp [Nat.digits_eq_nil_iff_eq_zero, *] at hPrint
      | cons c tail => exact ⟨c, tail, hPrint, Or.inr (printNat_digits value c (by simp [hPrint]))⟩

theorem scanValue_print (fuel : Nat) {value : Scalar} (h : value.Plain) {rest : Text} (hRest : Ends rest) :
    scanValue hook (fuel + 1) depth (value.print ++ rest) = .ok (value.value, rest) := by
  cases value with
  | string value =>
      have hString := scanString_plain h rest
      rw [Scalar.print, List.append_assoc, List.cons_append, scanValue, if_pos rfl]
      simp only [List.cons_append, List.nil_append]
      rw [hString]
      rfl
  | nat value =>
      have hNumber := scanNumber_printNat value h hRest
      obtain ⟨c, tail, hPrint, hc⟩ := print_head (.nat value)
      have hDigit : 48 ≤ c ∧ c ≤ 57 := by
        rcases hc with rfl | hc
        · have hBounds := printNat_digits value 34 (by rw [show printNat value = 34 :: tail from hPrint]; simp)
          omega
        · exact hc
      have hWord : scanWord (c :: (tail ++ rest)) = none := by
        have hNull : c ≠ 110 ∧ c ≠ 116 ∧ c ≠ 102 := by omega
        simp [scanWord, text, hNull]
      rw [show (Scalar.nat value).print = printNat value from rfl] at hPrint ⊢
      rw [hPrint, List.cons_append] at hNumber ⊢
      rw [scanValue, if_neg (by omega), if_neg (by omega), if_neg (by omega), hWord]
      exact hNumber

/-- Every key and every value can be printed. -/
def Printable (fields : List (Text × Scalar)) : Prop := ∀ field ∈ fields, Plain field.1 ∧ field.2.Plain

theorem scanFields_print {fields : List (Text × Scalar)} (hSome : fields ≠ []) (hPlain : Printable fields) {fuel : Nat}
    (hFuel : fields.length < fuel) (rest : Text) :
    scanFields hook fuel depth (printFields fields ++ rest) = .ok (members fields, rest) := by
  induction fields generalizing fuel with
  | nil => exact absurd rfl hSome
  | cons field fields ih =>
      obtain ⟨key, value⟩ := field
      obtain ⟨hKey, hValue⟩ := hPlain (key, value) (by simp)
      obtain ⟨fuel, rfl⟩ : ∃ less, fuel = less + 2 := ⟨fuel - 2, by simp at hFuel; omega⟩
      obtain ⟨c, tail, hPrint, hc⟩ := print_head value
      have hBlank : ∀ more, skipSpace (value.print ++ more) = value.print ++ more := by
        intro more
        rw [hPrint, List.cons_append]
        exact skipSpace_cons (by omega) _
      cases fields with
      | nil =>
          have hScan : scanValue hook (fuel + 1) depth (value.print ++ 125 :: rest) = .ok (value.value, 125 :: rest) :=
            scanValue_print fuel hValue (Or.inr rfl)
          simp only [printFields, List.cons_append, List.append_assoc, scanFields, ne_eq, not_true_eq_false, if_false]
          rw [scanString_plain hKey, ok_bind]
          simp only [skipSpace_cons (c := 58) (by decide), not_true_eq_false, if_false, List.nil_append]
          rw [hBlank, hScan, ok_bind]
          simp only [skipSpace_cons (c := 125) (by decide), if_true]
          rfl
      | cons next fields =>
          have hScan : scanValue hook (fuel + 1) depth (value.print ++ 44 :: (printFields (next :: fields) ++ rest)) =
              .ok (value.value, 44 :: (printFields (next :: fields) ++ rest)) := scanValue_print fuel hValue (Or.inl rfl)
          have hLess : (next :: fields).length < fuel + 1 := by
            simp at hFuel ⊢
            omega
          have hLater := ih (List.cons_ne_nil _ _) (fun field hField => hPlain field (by simp [hField])) hLess
          have hQuote : ∃ more, printFields (next :: fields) ++ rest = 34 :: more := by
            cases fields with
            | nil => exact ⟨_, rfl⟩
            | cons after fields => exact ⟨_, rfl⟩
          obtain ⟨more, hMore⟩ := hQuote
          simp only [printFields, List.cons_append, List.append_assoc]
          rw [scanFields]
          simp only [ne_eq, not_true_eq_false, if_false]
          rw [scanString_plain hKey, ok_bind]
          simp only [skipSpace_cons (c := 58) (by decide), not_true_eq_false, if_false]
          rw [hBlank, hScan, ok_bind]
          simp only [skipSpace_cons (c := 44) (by decide)]
          rw [if_neg (by decide), if_pos trivial, hMore, skipSpace_cons (by decide), ← hMore, hLater]
          rfl

/-- The reader hands the printed members to its hook. -/
theorem loads_printObject {fields : List (Text × Scalar)} (hSome : fields ≠ []) (hPlain : Printable fields) (limit : Nat) :
    loads hook (some (limit + 1)) (printObject fields) = hook (members fields) := by
  have hQuote : ∃ more, printFields fields ++ [] = 34 :: more := by
    cases fields with
    | nil => exact absurd rfl hSome
    | cons field fields =>
        cases fields with
        | nil => exact ⟨_, rfl⟩
        | cons next fields => exact ⟨_, rfl⟩
  obtain ⟨more, hMore⟩ := hQuote
  have hLength : fields.length < 2 * (printObject fields).length + 1 := by
    have hFields : ∀ fields : List (Text × Scalar), fields.length ≤ (printFields fields).length := by
      intro fields
      fun_induction printFields fields with
      | case1 => simp
      | case2 key value => simp
      | case3 key value next rest ih => simp at ih ⊢; omega
    have hShort := hFields fields
    simp only [printObject, List.length_cons]
    omega
  have hScan : scanFields hook (2 * (printObject fields).length + 1) (some limit) (printFields fields ++ []) =
      .ok (members fields, []) := scanFields_print hSome hPlain hLength []
  have hBlank : skipSpace (printObject fields) = printObject fields := skipSpace_cons (by decide) _
  rw [List.append_nil] at hMore
  rw [List.append_nil] at hScan
  rw [loads, if_neg (by simp [printObject]), decode, hBlank]
  simp only [printObject] at hScan ⊢
  rw [show 2 * (123 :: printFields fields).length + 2 = 2 * (123 :: printFields fields).length + 1 + 1 from rfl, scanValue,
    if_neg (by decide), if_pos rfl]
  simp only [deeper]
  rw [if_neg (by rw [hMore, skipSpace_cons (by decide)]; simp), hMore, skipSpace_cons (by decide), ← hMore, hScan]
  simp only [ok_bind]
  cases hook (members fields) <;> rfl

end PyJson
