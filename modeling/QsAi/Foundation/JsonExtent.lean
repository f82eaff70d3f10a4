import QsAi.Foundation.JsonDump

/-! The extent of what the JSON reader takes. A value is read from the text it
covers alone: whatever follows, as long as it does not continue a number, is
left, and a reader that is laxer about nesting and objects takes the same
extent. -/
namespace PyJson

open Binary64 Guarded

/-- The first depth is allowed wherever the second is. -/
def Allows (more depth : Option Nat) : Prop := ∀ most, more = some most → ∃ least, depth = some least ∧ least ≤ most

theorem Allows.refl (depth : Option Nat) : Allows depth depth := fun most h => ⟨most, h, Nat.le_refl most⟩

theorem Allows.deeper {more depth inner : Option Nat} (hMore : Allows more depth) (h : deeper depth = some inner) :
    ∃ next, PyJson.deeper more = some next ∧ Allows next inner := by
  cases more with
  | none => exact ⟨none, rfl, fun most hMost => by cases hMost⟩
  | some most =>
      obtain ⟨least, rfl, hLess⟩ := hMore most rfl
      cases least with
      | zero => cases h
      | succ least =>
          obtain rfl := Option.some.inj h
          obtain ⟨most, rfl⟩ : ∃ before, most = before + 1 := ⟨most - 1, by omega⟩
          refine ⟨some most, rfl, fun bound hBound => ⟨least, rfl, ?_⟩⟩
          obtain rfl := Option.some.inj hBound
          omega

/-! Tokens. -/

theorem pushUnit_length (unit : Nat) (units : List (Nat × Bool)) : (pushUnit unit units).length ≤ units.length + 1 := by
  unfold pushUnit
  split
  · split <;> simp
  · simp

theorem scanUnits_extent {input : Text} {units : List (Nat × Bool)} {rest : Text} (h : scanUnits input = .ok (units, rest)) :
    ∃ extent, input = extent ++ rest ∧ units.length < extent.length ∧ ∀ after, scanUnits (extent ++ after) = .ok (units, after) := by
  induction input using scanUnits.induct generalizing units rest with
  | case1 => cases h
  | case2 tail =>
      rw [scanUnits.eq_def] at h
      cases h
      exact ⟨[34], rfl, by decide, fun after => by rw [List.singleton_append, scanUnits.eq_def]; rfl⟩
  | case3 c tail hQuote hControl =>
      rw [scanUnits.eq_def] at h
      simp [hQuote, hControl] at h
  | case4 c tail hQuote hControl hPlain ih =>
      rw [scanUnits.eq_def] at h
      simp only [hQuote, hControl, hPlain, if_false, if_true, ne_eq, not_false_eq_true, bind_ok] at h
      obtain ⟨⟨found, left⟩, hFound, h⟩ := h
      cases h
      obtain ⟨extent, hExtent, hLength, hAfter⟩ := ih hFound
      refine ⟨c :: extent, by rw [hExtent, List.cons_append], Nat.succ_lt_succ hLength, fun after => ?_⟩
      rw [List.cons_append, scanUnits.eq_def]
      simp only [hQuote, hControl, hPlain, if_false, if_true, ne_eq, not_false_eq_true, hAfter]
      rfl
  | case5 c hQuote hControl hPlain =>
      rw [scanUnits.eq_def] at h
      simp [hQuote, hControl, hPlain] at h
  | case6 c hQuote hControl hPlain h₁ h₂ h₃ h₄ tail hUnit =>
      rw [scanUnits.eq_def] at h
      simp [hQuote, hControl, hPlain, hUnit] at h
  | case7 c hQuote hControl hPlain h₁ h₂ h₃ h₄ tail unit hUnit ih =>
      rw [scanUnits.eq_def] at h
      simp only [hQuote, hControl, hPlain, if_false, if_true, hUnit, bind_ok] at h
      obtain ⟨⟨found, left⟩, hFound, h⟩ := h
      cases h
      obtain ⟨extent, hExtent, hLength, hAfter⟩ := ih hFound
      have hPush := pushUnit_length unit found
      refine ⟨c :: 117 :: h₁ :: h₂ :: h₃ :: h₄ :: extent, by simp [hExtent], by simp only [List.length_cons]; omega, fun after => ?_⟩
      simp only [List.cons_append]
      rw [scanUnits.eq_def]
      simp only [hQuote, hControl, hPlain, if_false, if_true, hUnit, hAfter]
      rfl
  | case8 c hQuote hControl hPlain tail hShort =>
      rw [scanUnits.eq_def] at h
      simp only [hQuote, hControl, hPlain, if_false, if_true] at h
      cases h
  | case9 c hQuote hControl hPlain e tail hUnicode hEscape =>
      rw [scanUnits.eq_def] at h
      simp [hQuote, hControl, hPlain, hUnicode, hEscape] at h
  | case10 c hQuote hControl hPlain e tail hUnicode unit hEscape ih =>
      rw [scanUnits.eq_def] at h
      simp only [hQuote, hControl, hPlain, hUnicode, if_false, hEscape, bind_ok] at h
      obtain ⟨⟨found, left⟩, hFound, h⟩ := h
      cases h
      obtain ⟨extent, hExtent, hLength, hAfter⟩ := ih hFound
      refine ⟨c :: e :: extent, by simp [hExtent], by simp only [List.length_cons]; omega, fun after => ?_⟩
      simp only [List.cons_append]
      rw [scanUnits.eq_def]
      simp only [hQuote, hControl, hPlain, hUnicode, if_false, hEscape, hAfter]
      rfl

theorem scanString_extent {input value rest : Text} (h : scanString input = .ok (value, rest)) :
    ∃ extent, input = extent ++ rest ∧ value.length < extent.length ∧ ∀ after, scanString (extent ++ after) = .ok (value, after) := by
  rw [scanString, bind_ok] at h
  obtain ⟨⟨units, left⟩, hUnits, h⟩ := h
  cases h
  obtain ⟨extent, hExtent, hLength, hAfter⟩ := scanUnits_extent hUnits
  exact ⟨extent, hExtent, by rw [List.length_map]; exact hLength, fun after => (bind_ok _ _ _).mpr ⟨(units, after), hAfter after, rfl⟩⟩

theorem scanWhole_extent {input whole rest : Text} (h : scanWhole input = some (whole, rest)) :
    input = whole ++ rest ∧ whole ≠ [] ∧ whole.head? ≠ some 45 ∧
      ∀ after, (∀ c ∈ after.head?, isDigit c = false) → scanWhole (whole ++ after) = some (whole, after) := by
  cases input with
  | nil => cases h
  | cons c tail =>
      rw [scanWhole] at h
      by_cases hZero : c = 48
      · rw [if_pos hZero] at h
        cases h
        subst hZero
        exact ⟨rfl, by simp, by simp, fun after _ => by rw [List.singleton_append, scanWhole, if_pos rfl]⟩
      rw [if_neg hZero] at h
      by_cases hDigit : isDigit c
      swap
      · rw [if_neg hDigit] at h
        cases h
      rw [if_pos hDigit] at h
      cases h
      have hMinus : c ≠ 45 := by
        rintro rfl
        exact absurd hDigit (by decide)
      have hAll : ∀ d ∈ c :: tail.takeWhile isDigit, isDigit d = true := by
        rintro d (_ | ⟨_, hMem⟩)
        · exact hDigit
        · exact List.mem_takeWhile_imp hMem
      refine ⟨by rw [List.cons_append, List.takeWhile_append_dropWhile], by simp, by simpa using hMinus, fun after hAfter => ?_⟩
      exact scanWhole_digits (by simp) hAll (by simpa using hZero) hAfter

theorem scanFraction_extent {input fraction rest : Text} (h : scanFraction input = (fraction, rest)) :
    (fraction = [] ∧ input = rest) ∨ (fraction ≠ [] ∧ input = 46 :: (fraction ++ rest) ∧ (∀ c ∈ fraction, isDigit c = true)) := by
  cases input with
  | nil =>
      cases h
      exact .inl ⟨rfl, rfl⟩
  | cons c tail =>
      rw [scanFraction] at h
      split at h
      · rename_i hPoint
        cases h
        refine .inr ⟨hPoint.2, ?_, fun d hd => List.mem_takeWhile_imp hd⟩
        rw [hPoint.1, List.takeWhile_append_dropWhile]
      · cases h
        exact .inl ⟨rfl, rfl⟩

/-- The sign before the digits of an exponent, and what follows it. -/
def exponentSign : Text → Bool × Text
  | s :: tail => if s = 45 then (true, tail) else if s = 43 then (false, tail) else (false, s :: tail)
  | [] => (false, [])

theorem scanExponent_cons (letter : Nat) (input : Text) :
    scanExponent (letter :: input) =
      if (letter = 101 ∨ letter = 69) ∧ (exponentSign input).2.takeWhile isDigit ≠ [] then
        (some (if (exponentSign input).1 then -(digitsValue ((exponentSign input).2.takeWhile isDigit) : Int)
          else digitsValue ((exponentSign input).2.takeWhile isDigit)), (exponentSign input).2.dropWhile isDigit)
      else (none, letter :: input) := by
  cases input with
  | nil => rfl
  | cons s tail =>
      unfold scanExponent exponentSign
      by_cases hMinus : s = 45
      · simp only [if_pos hMinus]
      by_cases hPlus : s = 43
      · simp only [if_neg hMinus, if_pos hPlus]
      · simp only [if_neg hMinus, if_neg hPlus]

/-- The sign is read again before the digits alone. -/
theorem exponentSign_again {input : Text} (hSome : (exponentSign input).2.takeWhile isDigit ≠ []) :
    ∃ sign, input = sign ++ (exponentSign input).2 ∧ ∀ after,
      exponentSign (sign ++ ((exponentSign input).2.takeWhile isDigit ++ after)) =
        ((exponentSign input).1, (exponentSign input).2.takeWhile isDigit ++ after) := by
  cases input with
  | nil => exact absurd rfl hSome
  | cons s tail =>
      by_cases hMinus : s = 45
      · simp only [exponentSign, if_pos hMinus]
        exact ⟨[s], rfl, fun after => by simp [hMinus]⟩
      by_cases hPlus : s = 43
      · simp only [exponentSign, if_neg hMinus, if_pos hPlus]
        exact ⟨[s], rfl, fun after => by simp [hPlus]⟩
      · simp only [exponentSign, if_neg hMinus, if_neg hPlus] at hSome ⊢
        refine ⟨[], rfl, fun after => ?_⟩
        have hDigit : isDigit s = true := by
          rw [List.takeWhile_cons] at hSome
          by_contra hNot
          rw [if_neg hNot] at hSome
          exact hSome rfl
        simp [hDigit, hMinus, hPlus]

/-- An exponent starts with its letter and ends with its digits. -/
theorem scanExponent_extent {input rest : Text} {exponent : Option Int} (h : scanExponent input = (exponent, rest)) :
    (exponent = none ∧ input = rest) ∨
    ∃ letter extent, (letter = 101 ∨ letter = 69) ∧ input = letter :: (extent ++ rest) ∧
      ∀ after, (∀ c ∈ after.head?, isDigit c = false) → scanExponent (letter :: (extent ++ after)) = (exponent, after) := by
  cases input with
  | nil =>
      cases h
      exact .inl ⟨rfl, rfl⟩
  | cons letter tail =>
      rw [scanExponent_cons] at h
      split at h
      · rename_i hSpelled
        cases h
        have hAll : ∀ c ∈ (exponentSign tail).2.takeWhile isDigit, isDigit c = true := fun c hc => List.mem_takeWhile_imp hc
        obtain ⟨sign, hTail, hAgain⟩ := exponentSign_again hSpelled.2
        refine .inr ⟨letter, sign ++ (exponentSign tail).2.takeWhile isDigit, hSpelled.1, ?_, fun after hAfter => ?_⟩
        · rw [List.append_assoc, List.takeWhile_append_dropWhile, ← hTail]
        · obtain ⟨hTake, hDrop⟩ := takeWhile_digits hAll hAfter
          rw [List.append_assoc, scanExponent_cons, hAgain after]
          simp only [hTake, hDrop]
          rw [if_pos hSpelled]
      · cases h
        exact .inl ⟨rfl, rfl⟩

/-- The value of a number, from what its parts spell. -/
def spelledNumber (negative : Bool) (whole fraction : Text) (exponent : Option Int) : Except Refusal Value :=
  let sign : Int := if negative then -1 else 1
  if fraction = [] ∧ exponent = none then
    if maxStrDigits < whole.length then .error .malformed else .ok (.int (sign * digitsValue whole))
  else
    let scaled : ℚ := sign * digitsValue (whole ++ fraction)
    .ok (.float (round (scaled * 10 ^ (exponent.getD 0 - fraction.length))))

theorem scanNumber_parts (negative : Bool) {whole tail fraction after rest : Text} {exponent : Option Int}
    (hMinus : whole.head? ≠ some 45) (hSome : whole ≠ []) (hWhole : scanWhole (whole ++ tail) = some (whole, tail))
    (hFraction : scanFraction tail = (fraction, after)) (hExponent : scanExponent after = (exponent, rest)) :
    scanNumber ((if negative then [45] else []) ++ (whole ++ tail)) =
      (spelledNumber negative whole fraction exponent).map fun value => (value, rest) := by
  obtain ⟨first, more, rfl⟩ := List.exists_cons_of_ne_nil hSome
  have hFirst : first ≠ 45 := by simpa using hMinus
  cases negative with
  | true =>
      unfold scanNumber spelledNumber
      simp only [if_true, List.singleton_append, hWhole, hFraction, hExponent]
      split
      · split <;> rfl
      · rfl
  | false =>
      unfold scanNumber spelledNumber
      simp only [Bool.false_eq_true, if_false, List.nil_append, List.cons_append] at hWhole ⊢
      simp only [if_neg hFirst, hWhole, hFraction, hExponent]
      split
      · split <;> rfl
      · rfl

/-- The parts of a number that is read. -/
theorem scanNumber_some {input rest : Text} {value : Value} (h : scanNumber input = .ok (value, rest)) :
    ∃ negative whole tail fraction after exponent, input = (if negative then [45] else []) ++ (whole ++ tail) ∧
      scanWhole (whole ++ tail) = some (whole, tail) ∧ scanFraction tail = (fraction, after) ∧
      scanExponent after = (exponent, rest) ∧ spelledNumber negative whole fraction exponent = .ok value := by
  obtain ⟨negative, unsigned, hInput, hSign⟩ : ∃ negative unsigned, input = (if negative then [45] else []) ++ unsigned ∧
      (negative = false → unsigned.head? ≠ some 45) := by
    cases input with
    | nil => exact ⟨false, [], rfl, fun _ => by simp⟩
    | cons c tail =>
        by_cases hMinus : c = 45
        · exact ⟨true, tail, by simp [hMinus], fun hFalse => by cases hFalse⟩
        · exact ⟨false, c :: tail, rfl, fun _ => by simpa using hMinus⟩
  cases hWhole : scanWhole unsigned with
  | none =>
      exfalso
      subst hInput
      cases negative with
      | true => simp [scanNumber, hWhole] at h
      | false =>
          cases unsigned with
          | nil => simp [scanNumber, hWhole] at h
          | cons c tail =>
              have hFirst : c ≠ 45 := by simpa using hSign rfl
              simp [scanNumber, hFirst, hWhole] at h
  | some found =>
      obtain ⟨whole, tail⟩ := found
      obtain ⟨rfl, hSome, hMinus, _⟩ := scanWhole_extent hWhole
      obtain ⟨⟨fraction, after⟩, hFraction⟩ : ∃ found, scanFraction tail = found := ⟨_, rfl⟩
      obtain ⟨⟨exponent, left⟩, hExponent⟩ : ∃ found, scanExponent after = found := ⟨_, rfl⟩
      rw [hInput, scanNumber_parts negative hMinus hSome hWhole hFraction hExponent] at h
      cases hValue : spelledNumber negative whole fraction exponent with
      | error refusal =>
          rw [hValue] at h
          cases h
      | ok found =>
          rw [hValue] at h
          cases h
          exact ⟨negative, whole, tail, fraction, after, exponent, hInput, hWhole, hFraction, hExponent, hValue⟩

/-- A number is read from the text it covers, when nothing continues it. -/
theorem scanNumber_extent {input rest : Text} {value : Value} (h : scanNumber input = .ok (value, rest)) :
    ∃ extent, input = extent ++ rest ∧ extent ≠ [] ∧ ∀ after, Stops after → scanNumber (extent ++ after) = .ok (value, after) := by
  obtain ⟨negative, whole, tail, fraction, left, exponent, rfl, hWhole, hFraction, hExponent, hValue⟩ := scanNumber_some h
  obtain ⟨_, hSome, hMinus, hWholeAgain⟩ := scanWhole_extent hWhole
  -- the exponent again, before another rest
  obtain ⟨power, hLeft, hPower⟩ : ∃ power, left = power ++ rest ∧ ∀ after, Stops after →
      scanExponent (power ++ after) = (exponent, after) ∧
      ∀ c ∈ (power ++ after).head?, isDigit c = false ∧ c ≠ 46 := by
    rcases scanExponent_extent hExponent with ⟨rfl, rfl⟩ | ⟨letter, extent, hLetter, hExtent, hAgain⟩
    · exact ⟨[], rfl, fun after hAfter => ⟨scanExponent_none fun c hc => (hAfter c hc).2.2,
        fun c hc => ⟨(hAfter c hc).1, (hAfter c hc).2.1⟩⟩⟩
    · refine ⟨letter :: extent, by rw [hExtent, List.cons_append], fun after hAfter => ⟨?_, ?_⟩⟩
      · rw [List.cons_append]
        exact hAgain after fun c hc => (hAfter c hc).1
      · rintro c ⟨⟩
        rcases hLetter with rfl | rfl <;> decide
  -- the fraction again
  obtain ⟨places, hTail, hPlaces⟩ : ∃ places, tail = places ++ left ∧ ∀ after, Stops after →
      scanFraction (places ++ (power ++ after)) = (fraction, power ++ after) ∧
      ∀ c ∈ (places ++ (power ++ after)).head?, isDigit c = false := by
    rcases scanFraction_extent hFraction with ⟨rfl, rfl⟩ | ⟨hDigits, hPoint, hAll⟩
    · refine ⟨[], rfl, fun after hAfter => ⟨scanFraction_none fun hPoint => ?_, fun c hc => ((hPower after hAfter).2 c hc).1⟩⟩
      exact ((hPower after hAfter).2 46 hPoint).2 rfl
    · refine ⟨46 :: fraction, by rw [hPoint, List.cons_append], fun after hAfter => ⟨?_, ?_⟩⟩
      · rw [List.cons_append]
        exact scanFraction_digits hDigits hAll fun c hc => ((hPower after hAfter).2 c hc).1
      · rintro c ⟨⟩
        rfl
  refine ⟨(if negative then [45] else []) ++ (whole ++ (places ++ power)), ?_, ?_, fun after hAfter => ?_⟩
  · rw [hTail, hLeft]
    simp only [List.append_assoc]
  · simp [hSome]
  · simp only [List.append_assoc]
    rw [scanNumber_parts negative hMinus hSome (hWholeAgain _ (hPlaces after hAfter).2) (hPlaces after hAfter).1
      (hPower after hAfter).1, hValue]
    rfl

theorem scanWord_extent {input rest : Text} {value : Value} (h : scanWord input = some (value, rest)) :
    ∃ extent, input = extent ++ rest ∧ extent ≠ [] ∧ ∀ after, scanWord (extent ++ after) = some (value, after) := by
  unfold scanWord at h
  split at h
  · rename_i hWord
    cases h
    refine ⟨text "null", by rw [← hWord, List.take_append_drop], by decide, fun after => ?_⟩
    simp [scanWord, text]
  · split at h
    · rename_i hWord
      cases h
      refine ⟨text "true", by rw [← hWord, List.take_append_drop], by decide, fun after => ?_⟩
      simp [scanWord, text]
    · split at h
      · rename_i hWord
        cases h
        refine ⟨text "false", by rw [← hWord, List.take_append_drop], by decide, fun after => ?_⟩
        simp [scanWord, text]
      · cases h

theorem scanWord_scalar {input rest : Text} {value : Value} (h : scanWord input = some (value, rest)) :
    value = .null ∨ ∃ flag, value = .bool flag := by
  unfold scanWord at h
  split at h
  · cases h
    exact .inl rfl
  · split at h
    · cases h
      exact .inr ⟨true, rfl⟩
    · split at h
      · cases h
        exact .inr ⟨false, rfl⟩
      · cases h

theorem scanNumber_scalar {input rest : Text} {value : Value} (h : scanNumber input = .ok (value, rest)) :
    (∃ number, value = .int number) ∨ ∃ double, value = .float double := by
  obtain ⟨negative, whole, _, fraction, _, exponent, _, _, _, _, hValue⟩ := scanNumber_some h
  by_cases hWhole : fraction = [] ∧ exponent = none
  · by_cases hLong : maxStrDigits < whole.length
    · simp [spelledNumber, hWhole, hLong] at hValue
    · simp only [spelledNumber, if_pos hWhole, if_neg hLong] at hValue
      exact .inl ⟨_, (Except.ok.inj hValue).symm⟩
  · simp only [spelledNumber, if_neg hWhole] at hValue
    exact .inr ⟨_, (Except.ok.inj hValue).symm⟩

/-! Space. -/

theorem skipSpace_extent {input rest : Text} {c : Nat} (h : skipSpace input = c :: rest) :
    ∃ space, input = space ++ c :: rest ∧ (∀ d ∈ space, d = 32 ∨ d = 9 ∨ d = 10 ∨ d = 13) ∧
      ∀ after, skipSpace (space ++ c :: after) = c :: after := by
  have hSpace : ∀ d ∈ input.takeWhile (fun c => c == 32 || c == 9 || c == 10 || c == 13),
      (d == 32 || d == 9 || d == 10 || d == 13) = true := by
    intro d hd
    exact List.mem_takeWhile_imp (p := fun c => c == 32 || c == 9 || c == 10 || c == 13) hd
  have hFirst : (c == 32 || c == 9 || c == 10 || c == 13) = false := by
    have hNot := List.head?_dropWhile_not (fun c => c == 32 || c == 9 || c == 10 || c == 13) input
    unfold skipSpace at h
    rw [h] at hNot
    simpa using hNot
  refine ⟨_, by rw [← h]; exact (List.takeWhile_append_dropWhile).symm, fun d hd => ?_, fun after => ?_⟩
  · simpa [or_assoc] using hSpace d hd
  · rw [skipSpace, List.dropWhile_append_of_pos hSpace, List.dropWhile_cons, hFirst]
    rfl

theorem skipSpace_before {input extent rest : Text} (hSome : extent ≠ []) (h : skipSpace input = extent ++ rest) :
    ∃ space, input = space ++ (extent ++ rest) ∧ ∀ after, skipSpace (space ++ (extent ++ after)) = extent ++ after := by
  obtain ⟨c, extent, rfl⟩ := List.exists_cons_of_ne_nil hSome
  obtain ⟨space, hInput, _, hSkip⟩ := skipSpace_extent h
  exact ⟨space, hInput, fun after => hSkip (extent ++ after)⟩

theorem stops_space {space : Text} (hSpace : ∀ d ∈ space, d = 32 ∨ d = 9 ∨ d = 10 ∨ d = 13) {c : Nat}
    (h : c = 44 ∨ c = 93 ∨ c = 125) (rest : Text) : Stops (space ++ c :: rest) := by
  cases space with
  | nil => exact stops_of_code h rest
  | cons d space =>
      rintro e ⟨⟩
      rcases hSpace d List.mem_cons_self with rfl | rfl | rfl | rfl <;> decide

/-! What a reader has read. -/

section Inversion

variable {hook : List (Text × Value) → Except Refusal Value} {depth : Option Nat} {fuel : Nat}

theorem scanItems_some {input rest : Text} {items : List Value} (h : scanItems hook fuel depth input = .ok (items, rest)) :
    ∃ less value left, fuel = less + 1 ∧ scanValue hook less depth input = .ok (value, left) ∧
      ((skipSpace left = 93 :: rest ∧ items = [value]) ∨
        ∃ tail others, skipSpace left = 44 :: tail ∧ scanItems hook less depth (skipSpace tail) = .ok (others, rest) ∧
          items = value :: others) := by
  cases fuel with
  | zero => simp [scanItems] at h
  | succ less =>
      rw [scanItems, bind_ok] at h
      obtain ⟨⟨value, left⟩, hFirst, h⟩ := h
      refine ⟨less, value, left, rfl, hFirst, ?_⟩
      cases hSkip : skipSpace left with
      | nil =>
          simp only [hSkip] at h
          cases h
      | cons c tail =>
          simp only [hSkip] at h
          by_cases hEnd : c = 93
          · rw [if_pos hEnd] at h
            cases h
            exact .inl ⟨by rw [hEnd], rfl⟩
          by_cases hComma : c = 44
          swap
          · rw [if_neg hEnd, if_neg hComma] at h
            cases h
          rw [if_neg hEnd, if_pos hComma, bind_ok] at h
          obtain ⟨⟨others, left⟩, hRest, h⟩ := h
          cases h
          exact .inr ⟨tail, others, by rw [hComma], hRest, rfl⟩

theorem scanFields_some {input rest : Text} {fields : List (Text × Value)}
    (h : scanFields hook fuel depth input = .ok (fields, rest)) :
    ∃ less word key afterKey afterColon value left, fuel = less + 1 ∧ input = 34 :: word ∧
      scanString word = .ok (key, afterKey) ∧ skipSpace afterKey = 58 :: afterColon ∧
      scanValue hook less depth (skipSpace afterColon) = .ok (value, left) ∧
      ((skipSpace left = 125 :: rest ∧ fields = [(key, value)]) ∨
        ∃ tail others, skipSpace left = 44 :: tail ∧ scanFields hook less depth (skipSpace tail) = .ok (others, rest) ∧
          fields = (key, value) :: others) := by
  cases fuel with
  | zero => simp [scanFields] at h
  | succ less =>
      cases input with
      | nil => simp [scanFields] at h
      | cons q word =>
          rw [scanFields] at h
          by_cases hQuote : q = 34
          swap
          · rw [if_pos hQuote] at h
            cases h
          rw [if_neg (not_not.mpr hQuote), bind_ok] at h
          obtain ⟨⟨key, afterKey⟩, hKey, h⟩ := h
          cases hColon : skipSpace afterKey with
          | nil =>
              simp only [hColon] at h
              cases h
          | cons s afterColon =>
              simp only [hColon] at h
              by_cases hSign : s = 58
              swap
              · rw [if_pos hSign] at h
                cases h
              rw [if_neg (not_not.mpr hSign), bind_ok] at h
              obtain ⟨⟨value, left⟩, hFirst, h⟩ := h
              refine ⟨less, word, key, afterKey, afterColon, value, left, rfl, by rw [hQuote], hKey, by rw [hColon, hSign],
                hFirst, ?_⟩
              cases hSkip : skipSpace left with
              | nil =>
                  simp only [hSkip] at h
                  cases h
              | cons c tail =>
                  simp only [hSkip] at h
                  by_cases hEnd : c = 125
                  · rw [if_pos hEnd] at h
                    cases h
                    exact .inl ⟨by rw [hEnd], rfl⟩
                  by_cases hComma : c = 44
                  swap
                  · rw [if_neg hEnd, if_neg hComma] at h
                    cases h
                  rw [if_neg hEnd, if_pos hComma, bind_ok] at h
                  obtain ⟨⟨others, left⟩, hRest, h⟩ := h
                  cases h
                  exact .inr ⟨tail, others, by rw [hComma], hRest, rfl⟩

/-- An object is read between its braces. -/
theorem scanValue_brace {rest tail : Text} {value : Value}
    (h : scanValue hook (fuel + 1) depth (123 :: tail) = .ok (value, rest)) :
    ∃ inner, deeper depth = some inner ∧
      ((skipSpace tail = 125 :: rest ∧ hook [] = .ok value) ∨
        (skipSpace tail).head? ≠ some 125 ∧ ∃ fields, scanFields hook fuel inner (skipSpace tail) = .ok (fields, rest) ∧
          hook fields = .ok value) := by
  rw [scanValue, if_neg (by decide), if_pos rfl] at h
  cases hDeeper : deeper depth with
  | none =>
      rw [hDeeper] at h
      cases h
  | some inner =>
      refine ⟨inner, rfl, ?_⟩
      simp only [hDeeper] at h
      by_cases hEmpty : (skipSpace tail).head? = some 125
      · simp only [hEmpty, if_true, bind_ok] at h
        obtain ⟨found, hFound, h⟩ := h
        obtain ⟨left, hLeft⟩ : ∃ left, skipSpace tail = 125 :: left := ⟨_, List.eq_cons_of_mem_head? hEmpty⟩
        rw [hLeft] at h
        cases h
        exact .inl ⟨hLeft, hFound⟩
      · simp only [hEmpty, if_false, bind_ok] at h
        obtain ⟨⟨fields, left⟩, hRead, found, hFound, h⟩ := h
        cases h
        exact .inr ⟨hEmpty, fields, hRead, hFound⟩

/-- An array is read between its brackets. -/
theorem scanValue_bracket {rest tail : Text} {value : Value}
    (h : scanValue hook (fuel + 1) depth (91 :: tail) = .ok (value, rest)) :
    ∃ inner, deeper depth = some inner ∧
      ((skipSpace tail = 93 :: rest ∧ value = .array []) ∨
        (skipSpace tail).head? ≠ some 93 ∧ ∃ items, scanItems hook fuel inner (skipSpace tail) = .ok (items, rest) ∧
          value = .array items) := by
  rw [scanValue, if_neg (by decide), if_neg (by decide), if_pos rfl] at h
  cases hDeeper : deeper depth with
  | none =>
      rw [hDeeper] at h
      cases h
  | some inner =>
      refine ⟨inner, rfl, ?_⟩
      simp only [hDeeper] at h
      by_cases hEmpty : (skipSpace tail).head? = some 93
      · simp only [hEmpty, if_true] at h
        obtain ⟨left, hLeft⟩ : ∃ left, skipSpace tail = 93 :: left := ⟨_, List.eq_cons_of_mem_head? hEmpty⟩
        rw [hLeft] at h
        cases h
        exact .inl ⟨hLeft, rfl⟩
      · simp only [hEmpty, if_false, bind_ok] at h
        obtain ⟨⟨items, left⟩, hRead, h⟩ := h
        cases h
        exact .inr ⟨hEmpty, items, hRead, rfl⟩

end Inversion

/-! Reading again. -/

/-- One reader reads again, from the text it covers, what another read. -/
def ReadsAgain {α : Type} (stops : Text → Prop) (first second : Nat → Option Nat → Text → Except Refusal (α × Text))
    (fuel : Nat) : Prop :=
  ∀ {depth : Option Nat} {input rest : Text} {found : α}, first fuel depth input = .ok (found, rest) →
    ∃ extent, input = extent ++ rest ∧ extent ≠ [] ∧ ∀ {more : Nat} {depth' : Option Nat} {after : Text},
      2 * extent.length ≤ more → Allows depth' depth → stops after → second more depth' (extent ++ after) = .ok (found, after)

section Extent

variable {strict lax : List (Text × Value) → Except Refusal Value}

theorem readsAgain_items {fuel : Nat} (hValue : ReadsAgain Stops (scanValue strict) (scanValue lax) fuel)
    (hItems : ReadsAgain (fun _ => True) (scanItems strict) (scanItems lax) fuel) :
    ReadsAgain (fun _ => True) (scanItems strict) (scanItems lax) (fuel + 1) := by
  intro depth input rest items h
  obtain ⟨less, value, left, hLess, hFirst, hShape⟩ := scanItems_some h
  obtain rfl := Nat.succ.inj hLess
  obtain ⟨extent, rfl, hSome, hAgain⟩ := hValue hFirst
  rcases hShape with ⟨hEnd, rfl⟩ | ⟨tail, others, hComma, hRest, rfl⟩
  · obtain ⟨space, rfl, hSpace, hSkip⟩ := skipSpace_extent hEnd
    refine ⟨extent ++ (space ++ [93]), by simp, by simp, fun {more depth' after} hMore hDepth _ => ?_⟩
    simp only [List.length_append, List.length_singleton] at hMore
    obtain ⟨more, rfl⟩ : ∃ less, more = less + 1 := ⟨more - 1, by omega⟩
    simp only [List.append_assoc, List.singleton_append]
    rw [scanItems, bind_ok]
    refine ⟨(value, space ++ 93 :: after), hAgain (by omega) hDepth (stops_space hSpace (.inr (.inl rfl)) after), ?_⟩
    simp only [hSkip, if_true]
  · obtain ⟨last, hTail, hLastSome, hLast⟩ := hItems hRest
    obtain ⟨space, rfl, hSpace, hSkip⟩ := skipSpace_extent hComma
    obtain ⟨gap, rfl, hGap⟩ := skipSpace_before hLastSome hTail
    refine ⟨extent ++ (space ++ 44 :: (gap ++ last)), by simp, by simp, fun {more depth' after} hMore hDepth _ => ?_⟩
    simp only [List.length_append, List.length_cons] at hMore
    obtain ⟨more, rfl⟩ : ∃ less, more = less + 1 := ⟨more - 1, by omega⟩
    simp only [List.append_assoc, List.cons_append]
    rw [scanItems, bind_ok]
    refine ⟨(value, space ++ 44 :: (gap ++ (last ++ after))), hAgain (by omega) hDepth (stops_space hSpace (.inl rfl) _), ?_⟩
    simp only [hSkip, if_neg (show (44 : Nat) ≠ 93 by decide), if_true, bind_ok, hGap]
    exact ⟨(others, after), hLast (by omega) hDepth trivial, rfl⟩

theorem readsAgain_fields {fuel : Nat} (hValue : ReadsAgain Stops (scanValue strict) (scanValue lax) fuel)
    (hFields : ReadsAgain (fun _ => True) (scanFields strict) (scanFields lax) fuel) :
    ReadsAgain (fun _ => True) (scanFields strict) (scanFields lax) (fuel + 1) := by
  intro depth input rest fields h
  obtain ⟨less, word, key, afterKey, afterColon, value, left, hLess, rfl, hKey, hColon, hFirst, hShape⟩ := scanFields_some h
  obtain rfl := Nat.succ.inj hLess
  obtain ⟨word, rfl, _, hWord⟩ := scanString_extent hKey
  obtain ⟨gap, rfl, _, hGap⟩ := skipSpace_extent hColon
  obtain ⟨extent, hExtent, hSome, hAgain⟩ := hValue hFirst
  obtain ⟨lead, rfl, hLead⟩ := skipSpace_before hSome hExtent
  rcases hShape with ⟨hEnd, rfl⟩ | ⟨tail, others, hComma, hRest, rfl⟩
  · obtain ⟨space, rfl, hSpace, hSkip⟩ := skipSpace_extent hEnd
    refine ⟨34 :: (word ++ (gap ++ 58 :: (lead ++ (extent ++ (space ++ [125]))))), by simp, by simp,
      fun {more depth' after} hMore hDepth _ => ?_⟩
    simp only [List.length_append, List.length_cons, List.length_nil] at hMore
    obtain ⟨more, rfl⟩ : ∃ less, more = less + 1 := ⟨more - 1, by omega⟩
    simp only [List.append_assoc, List.cons_append, List.nil_append]
    rw [scanFields, if_neg (not_not.mpr rfl), hWord, bind_ok]
    refine ⟨_, rfl, ?_⟩
    simp only [hGap, if_neg (show ¬ (58 : Nat) ≠ 58 by decide), hLead, bind_ok]
    refine ⟨(value, space ++ 125 :: after), hAgain (by omega) hDepth (stops_space hSpace (.inr (.inr rfl)) after), ?_⟩
    simp only [hSkip, if_true]
  · obtain ⟨last, hTail, hLastSome, hLast⟩ := hFields hRest
    obtain ⟨space, rfl, hSpace, hSkip⟩ := skipSpace_extent hComma
    obtain ⟨next, rfl, hNext⟩ := skipSpace_before hLastSome hTail
    refine ⟨34 :: (word ++ (gap ++ 58 :: (lead ++ (extent ++ (space ++ 44 :: (next ++ last)))))), by simp, by simp,
      fun {more depth' after} hMore hDepth _ => ?_⟩
    simp only [List.length_append, List.length_cons] at hMore
    obtain ⟨more, rfl⟩ : ∃ less, more = less + 1 := ⟨more - 1, by omega⟩
    simp only [List.append_assoc, List.cons_append]
    rw [scanFields, if_neg (not_not.mpr rfl), hWord, bind_ok]
    refine ⟨_, rfl, ?_⟩
    simp only [hGap, if_neg (show ¬ (58 : Nat) ≠ 58 by decide), hLead, bind_ok]
    refine ⟨(value, space ++ 44 :: (next ++ (last ++ after))), hAgain (by omega) hDepth (stops_space hSpace (.inl rfl) _), ?_⟩
    simp only [hSkip, if_neg (show (44 : Nat) ≠ 125 by decide), if_true, bind_ok, hNext]
    exact ⟨(others, after), hLast (by omega) hDepth trivial, rfl⟩

theorem readsAgain_brace (hHook : ∀ fields value, strict fields = .ok value → lax fields = .ok value) {fuel : Nat}
    (hFields : ReadsAgain (fun _ => True) (scanFields strict) (scanFields lax) fuel) {depth : Option Nat} {tail rest : Text}
    {value : Value} (h : scanValue strict (fuel + 1) depth (123 :: tail) = .ok (value, rest)) :
    ∃ extent, 123 :: tail = extent ++ rest ∧ extent ≠ [] ∧ ∀ {more : Nat} {depth' : Option Nat} {after : Text},
      2 * extent.length ≤ more → Allows depth' depth → scanValue lax more depth' (extent ++ after) = .ok (value, after) := by
  obtain ⟨inner, hDeeper, ⟨hEmpty, hFound⟩ | ⟨hEmpty, fields, hRead, hFound⟩⟩ := scanValue_brace h
  · obtain ⟨space, rfl, _, hSkip⟩ := skipSpace_extent hEmpty
    refine ⟨123 :: (space ++ [125]), by simp, by simp, fun {more depth' after} hMore hDepth => ?_⟩
    simp only [List.length_cons] at hMore
    obtain ⟨more, rfl⟩ : ∃ less, more = less + 1 := ⟨more - 1, by omega⟩
    obtain ⟨next, hNext, _⟩ := hDepth.deeper hDeeper
    simp only [List.cons_append, List.append_assoc, List.nil_append]
    rw [scanValue, if_neg (by decide), if_pos rfl]
    simp only [hNext, hSkip, List.head?_cons, if_true, bind_ok]
    exact ⟨value, hHook _ _ hFound, rfl⟩
  · obtain ⟨extent, hTail, hSome, hAgain⟩ := hFields hRead
    obtain ⟨space, rfl, hSkip⟩ := skipSpace_before hSome hTail
    rw [hSkip] at hEmpty
    refine ⟨123 :: (space ++ extent), by simp, by simp, fun {more depth' after} hMore hDepth => ?_⟩
    simp only [List.length_cons, List.length_append] at hMore
    obtain ⟨more, rfl⟩ : ∃ less, more = less + 1 := ⟨more - 1, by omega⟩
    obtain ⟨next, hNext, hInner⟩ := hDepth.deeper hDeeper
    have hStart : (extent ++ after).head? ≠ some 125 := by
      rw [List.head?_append_of_ne_nil _ hSome] at hEmpty ⊢
      exact hEmpty
    simp only [List.cons_append, List.append_assoc]
    rw [scanValue, if_neg (by decide), if_pos rfl]
    simp only [hNext, hSkip, hStart, if_false, bind_ok]
    exact ⟨(fields, after), hAgain (by omega) hInner trivial, value, hHook _ _ hFound, rfl⟩

theorem readsAgain_bracket {fuel : Nat} (hItems : ReadsAgain (fun _ => True) (scanItems strict) (scanItems lax) fuel)
    {depth : Option Nat} {tail rest : Text} {value : Value}
    (h : scanValue strict (fuel + 1) depth (91 :: tail) = .ok (value, rest)) :
    ∃ extent, 91 :: tail = extent ++ rest ∧ extent ≠ [] ∧ ∀ {more : Nat} {depth' : Option Nat} {after : Text},
      2 * extent.length ≤ more → Allows depth' depth → scanValue lax more depth' (extent ++ after) = .ok (value, after) := by
  obtain ⟨inner, hDeeper, ⟨hEmpty, rfl⟩ | ⟨hEmpty, items, hRead, rfl⟩⟩ := scanValue_bracket h
  · obtain ⟨space, rfl, _, hSkip⟩ := skipSpace_extent hEmpty
    refine ⟨91 :: (space ++ [93]), by simp, by simp, fun {more depth' after} hMore hDepth => ?_⟩
    simp only [List.length_cons] at hMore
    obtain ⟨more, rfl⟩ : ∃ less, more = less + 1 := ⟨more - 1, by omega⟩
    obtain ⟨next, hNext, _⟩ := hDepth.deeper hDeeper
    simp only [List.cons_append, List.append_assoc, List.nil_append]
    rw [scanValue, if_neg (by decide), if_neg (by decide), if_pos rfl]
    simp only [hNext, hSkip, List.head?_cons, if_true, List.tail_cons]
  · obtain ⟨extent, hTail, hSome, hAgain⟩ := hItems hRead
    obtain ⟨space, rfl, hSkip⟩ := skipSpace_before hSome hTail
    rw [hSkip] at hEmpty
    refine ⟨91 :: (space ++ extent), by simp, by simp, fun {more depth' after} hMore hDepth => ?_⟩
    simp only [List.length_cons, List.length_append] at hMore
    obtain ⟨more, rfl⟩ : ∃ less, more = less + 1 := ⟨more - 1, by omega⟩
    obtain ⟨next, hNext, hInner⟩ := hDepth.deeper hDeeper
    have hStart : (extent ++ after).head? ≠ some 93 := by
      rw [List.head?_append_of_ne_nil _ hSome] at hEmpty ⊢
      exact hEmpty
    simp only [List.cons_append, List.append_assoc]
    rw [scanValue, if_neg (by decide), if_neg (by decide), if_pos rfl]
    simp only [hNext, hSkip, hStart, if_false, bind_ok]
    exact ⟨(items, after), hAgain (by omega) hInner trivial, rfl⟩

theorem readsAgain_value (hHook : ∀ fields value, strict fields = .ok value → lax fields = .ok value) {fuel : Nat}
    (hItems : ReadsAgain (fun _ => True) (scanItems strict) (scanItems lax) fuel)
    (hFields : ReadsAgain (fun _ => True) (scanFields strict) (scanFields lax) fuel) :
    ReadsAgain Stops (scanValue strict) (scanValue lax) (fuel + 1) := by
  intro depth input rest value h
  cases input with
  | nil => simp [scanValue] at h
  | cons c tail =>
      by_cases hBrace : c = 123
      · subst hBrace
        obtain ⟨extent, hInput, hSome, hAgain⟩ := readsAgain_brace hHook hFields h
        exact ⟨extent, hInput, hSome, fun hMore hDepth _ => hAgain hMore hDepth⟩
      by_cases hBracket : c = 91
      · subst hBracket
        obtain ⟨extent, hInput, hSome, hAgain⟩ := readsAgain_bracket hItems h
        exact ⟨extent, hInput, hSome, fun hMore hDepth _ => hAgain hMore hDepth⟩
      rw [scanValue] at h
      by_cases hQuote : c = 34
      · rw [if_pos hQuote, bind_ok] at h
        obtain ⟨⟨found, left⟩, hFound, h⟩ := h
        cases h
        obtain ⟨word, rfl, _, hWord⟩ := scanString_extent hFound
        refine ⟨c :: word, rfl, by simp, fun {more depth' after} hMore _ _ => ?_⟩
        simp only [List.length_cons] at hMore
        obtain ⟨more, rfl⟩ : ∃ less, more = less + 1 := ⟨more - 1, by omega⟩
        rw [List.cons_append, scanValue, if_pos hQuote, hWord]
        rfl
      rw [if_neg hQuote, if_neg hBrace, if_neg hBracket] at h
      cases hWord : scanWord (c :: tail) with
      | some found =>
          rw [hWord] at h
          cases h
          obtain ⟨extent, hInput, hSome, hAgain⟩ := scanWord_extent hWord
          obtain ⟨d, extent, rfl⟩ := List.exists_cons_of_ne_nil hSome
          obtain rfl : c = d := (List.cons.inj hInput).1
          refine ⟨c :: extent, hInput, hSome, fun {more depth' after} hMore _ _ => ?_⟩
          simp only [List.length_cons] at hMore
          obtain ⟨more, rfl⟩ : ∃ less, more = less + 1 := ⟨more - 1, by omega⟩
          have hFound := hAgain after
          rw [List.cons_append] at hFound ⊢
          rw [scanValue, if_neg hQuote, if_neg hBrace, if_neg hBracket, hFound]
      | none =>
          rw [hWord] at h
          obtain ⟨extent, hInput, hSome, hAgain⟩ := scanNumber_extent h
          refine ⟨extent, hInput, hSome, fun {more depth' after} hMore _ hStops => ?_⟩
          obtain ⟨more, rfl⟩ : ∃ less, more = less + 1 := ⟨more - 1, by have := List.length_pos_iff.mpr hSome; omega⟩
          exact scanValue_number (hAgain after hStops) more

/-- The three readers together, by induction on the fuel of the first. -/
theorem scan_extent (hHook : ∀ fields value, strict fields = .ok value → lax fields = .ok value) (fuel : Nat) :
    ReadsAgain Stops (scanValue strict) (scanValue lax) fuel ∧
    ReadsAgain (fun _ => True) (scanItems strict) (scanItems lax) fuel ∧
    ReadsAgain (fun _ => True) (scanFields strict) (scanFields lax) fuel := by
  induction fuel with
  | zero =>
      refine ⟨fun h => ?_, fun h => ?_, fun h => ?_⟩
      · simp [scanValue] at h
      · simp [scanItems] at h
      · simp [scanFields] at h
  | succ fuel ih =>
      obtain ⟨hValue, hItems, hFields⟩ := ih
      exact ⟨readsAgain_value hHook hItems hFields, readsAgain_items hValue hItems, readsAgain_fields hValue hFields⟩

/-- What is read starts with a character of a value. -/
theorem scanValue_starts {fuel : Nat} {depth : Option Nat} {input rest : Text} {value : Value}
    (h : scanValue strict fuel depth input = .ok (value, rest)) : ∃ c tail, input = c :: tail ∧ 34 ≤ c ∧ c ≤ 123 := by
  cases fuel with
  | zero => simp [scanValue] at h
  | succ fuel =>
      cases input with
      | nil => simp [scanValue] at h
      | cons c tail =>
          rw [scanValue] at h
          by_cases hQuote : c = 34
          · exact ⟨c, tail, rfl, by omega⟩
          by_cases hBrace : c = 123
          · exact ⟨c, tail, rfl, by omega⟩
          by_cases hBracket : c = 91
          · exact ⟨c, tail, rfl, by omega⟩
          rw [if_neg hQuote, if_neg hBrace, if_neg hBracket] at h
          cases hWord : scanWord (c :: tail) with
          | some found =>
              have hLetter : c = 110 ∨ c = 116 ∨ c = 102 := by
                by_contra hNot
                rw [not_or, not_or] at hNot
                simp [scanWord, text, hNot] at hWord
              exact ⟨c, tail, rfl, by omega⟩
          | none =>
              rw [hWord] at h
              obtain ⟨d, more, hFirst, hNumber⟩ := number_head h
              refine ⟨d, more, hFirst, ?_⟩
              rcases hNumber with rfl | hDigit
              · omega
              · simp only [isDigit, Bool.and_eq_true, decide_eq_true_eq] at hDigit
                omega

/-- Only a brace opens an object. -/
theorem object_brace {fuel : Nat} {depth : Option Nat} {input rest : Text} {fields : List (Text × Value)}
    (h : scanValue strict (fuel + 1) depth input = .ok (.object fields, rest)) : ∃ tail, input = 123 :: tail := by
  cases input with
  | nil => simp [scanValue] at h
  | cons c tail =>
      rw [scanValue] at h
      by_cases hQuote : c = 34
      · rw [if_pos hQuote, bind_ok] at h
        obtain ⟨found, _, h⟩ := h
        cases h
      by_cases hBrace : c = 123
      · exact ⟨tail, by rw [hBrace]⟩
      by_cases hBracket : c = 91
      · subst hBracket
        obtain ⟨_, _, ⟨_, hArray⟩ | ⟨_, _, _, hArray⟩⟩ := scanValue_bracket h
        · cases hArray
        · cases hArray
      rw [if_neg hQuote, if_neg hBrace, if_neg hBracket] at h
      split at h
      · rename_i hWord
        cases h
        rcases scanWord_scalar hWord with hNull | ⟨_, hBool⟩
        · cases hNull
        · cases hBool
      · rcases scanNumber_scalar h with ⟨_, hInt⟩ | ⟨_, hFloat⟩
        · cases hInt
        · cases hFloat

/-- The text that a value covers is read alone. -/
theorem loads_extent (hHook : ∀ fields value, strict fields = .ok value → lax fields = .ok value) {fuel : Nat}
    {depth more : Option Nat} (hMore : Allows more depth) {input rest : Text} {value : Value}
    (h : scanValue strict fuel depth input = .ok (value, rest)) :
    ∃ extent, input = extent ++ rest ∧ extent ≠ [] ∧ loads lax more extent = .ok value := by
  obtain ⟨extent, hInput, hSome, hAgain⟩ := (scan_extent hHook fuel).1 h
  obtain ⟨c, tail, hFirst, hLow, hHigh⟩ := scanValue_starts h
  have hHead : extent.head? = some c := by
    rw [← List.head?_append_of_ne_nil _ hSome, ← hInput, hFirst, List.head?_cons]
  have hSkip : skipSpace extent = extent := by
    obtain ⟨d, extent, rfl⟩ := List.exists_cons_of_ne_nil hSome
    cases hHead
    exact skipSpace_cons (by omega) extent
  have hRead : scanValue lax (2 * extent.length + 2) more (extent ++ []) = .ok (value, []) :=
    hAgain (by omega) hMore (by simp [Stops])
  rw [List.append_nil] at hRead
  refine ⟨extent, hInput, hSome, ?_⟩
  have hMark : ¬ extent.head? = some 0xFEFF := by
    rw [hHead]
    rintro ⟨⟩
    omega
  rw [loads, if_neg hMark, decode, hSkip, bind_ok]
  exact ⟨(value, []), hRead, rfl⟩

end Extent

end PyJson
