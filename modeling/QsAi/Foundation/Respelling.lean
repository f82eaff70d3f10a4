import QsAi.Foundation.JsonExtent

/-! Other spellings of a JSON text. A character of a string literal may as well be
written by its number: writers do so for characters beyond ASCII, or for those
that mean something to the reader of a web page. Such characters stand nowhere
else in JSON, so they may be replaced without looking at the grammar, and what
is read stays the same. -/
namespace PyJson

open Guarded TextEncoding

/-- One code unit by its number. -/
def numbered (unit : Nat) : Text :=
  [92, 117, hexCode (unit / 4096 % 16), hexCode (unit / 256 % 16), hexCode (unit / 16 % 16), hexCode (unit % 16)]

/-- A character by its number, or by those of its two surrogates. -/
def respelled (c : Nat) : Text :=
  if c < 0x10000 then numbered c
  else numbered (0xD800 + (c - 0x10000) / 0x400) ++ numbered (0xDC00 + (c - 0x10000) % 0x400)

/-- The chosen characters are written by number, wherever they stand. -/
def respell (chosen : Nat → Bool) (input : Text) : Text := input.flatMap fun c => if chosen c then respelled c else [c]

/-- The chosen characters are not part of the grammar. -/
def OutsideGrammar (chosen : Nat → Bool) : Prop := ∀ c, chosen c = true → c = 38 ∨ c = 60 ∨ c = 62 ∨ 127 ≤ c

/-- The chosen characters of a text have numbers. -/
def Spellable (chosen : Nat → Bool) (input : Text) : Prop :=
  ∀ c ∈ input, chosen c = true → c < 0x110000 ∧ isSurrogate c = false

variable {chosen : Nat → Bool}

theorem Spellable.suffix {input rest : Text} (h : Spellable chosen input) (hRest : rest <:+ input) : Spellable chosen rest :=
  fun c hc => h c (hRest.subset hc)

@[simp] theorem respell_nil : respell chosen [] = [] := rfl

theorem respell_append (first second : Text) : respell chosen (first ++ second) = respell chosen first ++ respell chosen second :=
  List.flatMap_append

theorem respell_kept {c : Nat} (h : chosen c = false) (rest : Text) : respell chosen (c :: rest) = c :: respell chosen rest := by
  rw [respell, List.flatMap_cons, h]
  rfl

theorem respell_chosen {c : Nat} (h : chosen c = true) (rest : Text) :
    respell chosen (c :: rest) = respelled c ++ respell chosen rest := by
  rw [respell, List.flatMap_cons, if_pos h]
  rfl

theorem respelled_head (c : Nat) : ∃ tail, respelled c = 92 :: tail := by
  unfold respelled
  split
  · exact ⟨_, rfl⟩
  · exact ⟨_, rfl⟩

theorem length_respell (chosen : Nat → Bool) (input : Text) : input.length ≤ (respell chosen input).length := by
  induction input with
  | nil => simp
  | cons c rest ih =>
      cases hChosen : chosen c with
      | false =>
          rw [respell_kept hChosen, List.length_cons, List.length_cons]
          omega
      | true =>
          obtain ⟨tail, hTail⟩ := respelled_head c
          rw [respell_chosen hChosen, hTail, List.cons_append, List.length_cons, List.length_cons, List.length_append]
          omega

/-- A run of characters that are kept ends where it ended. -/
theorem span_respell {p : Nat → Bool} (hKept : ∀ c, p c = true → chosen c = false) (hSlash : p 92 = false) (input : Text) :
    (respell chosen input).takeWhile p = input.takeWhile p ∧
      (respell chosen input).dropWhile p = respell chosen (input.dropWhile p) := by
  induction input with
  | nil => exact ⟨rfl, rfl⟩
  | cons c rest ih =>
      cases hChosen : chosen c with
      | true =>
          have hNot : p c = false := by
            by_contra hYes
            rw [Bool.not_eq_false] at hYes
            rw [hKept c hYes] at hChosen
            cases hChosen
          obtain ⟨tail, hTail⟩ := respelled_head c
          rw [List.takeWhile_cons_of_neg (by simp [hNot]), List.dropWhile_cons_of_neg (by simp [hNot]),
            respell_chosen hChosen, hTail, List.cons_append, List.takeWhile_cons_of_neg (by simp [hSlash]),
            List.dropWhile_cons_of_neg (by simp [hSlash])]
          exact ⟨rfl, rfl⟩
      | false =>
          rw [respell_kept hChosen]
          cases hMore : p c with
          | true =>
              rw [List.takeWhile_cons_of_pos hMore, List.takeWhile_cons_of_pos hMore, List.dropWhile_cons_of_pos hMore,
                List.dropWhile_cons_of_pos hMore, ih.1, ih.2]
              exact ⟨rfl, rfl⟩
          | false =>
              rw [List.takeWhile_cons_of_neg (by simp [hMore]), List.takeWhile_cons_of_neg (by simp [hMore]),
                List.dropWhile_cons_of_neg (by simp [hMore]), List.dropWhile_cons_of_neg (by simp [hMore]),
                respell_kept hChosen]
              exact ⟨rfl, rfl⟩

section Tokens

variable (hFree : OutsideGrammar chosen)

include hFree

/-- What the grammar looks at is kept. -/
theorem OutsideGrammar.kept {c : Nat} (hGrammar : c ≠ 38 ∧ c ≠ 60 ∧ c ≠ 62 ∧ c < 127) : chosen c = false := by
  by_contra hChosen
  rw [Bool.not_eq_false] at hChosen
  have hCases := hFree c hChosen
  omega

theorem OutsideGrammar.digit {c : Nat} (h : isDigit c = true) : chosen c = false := by
  simp only [isDigit, Bool.and_eq_true, decide_eq_true_eq] at h
  exact hFree.kept (by omega)

theorem OutsideGrammar.hex {c value : Nat} (h : hexDigit c = some value) : chosen c = false := by
  have hBound : 48 ≤ c ∧ c ≤ 57 ∨ 97 ≤ c ∧ c ≤ 102 ∨ 65 ≤ c ∧ c ≤ 70 := by
    unfold PyJson.hexDigit at h
    split at h
    · omega
    split at h
    · omega
    split at h
    · omega
    · cases h
  exact hFree.kept (by omega)

theorem respell_skipSpace (input : Text) : skipSpace (respell chosen input) = respell chosen (skipSpace input) := by
  refine (span_respell (fun c hBlank => hFree.kept ?_) rfl input).2
  simp only [Bool.or_eq_true, beq_iff_eq] at hBlank
  omega

theorem respell_digits (input : Text) : (respell chosen input).takeWhile isDigit = input.takeWhile isDigit ∧
    (respell chosen input).dropWhile isDigit = respell chosen (input.dropWhile isDigit) :=
  span_respell (fun _ => hFree.digit) rfl input

/-- A text that starts with a chosen character starts with none of the grammar
afterwards either. -/
theorem respell_other {c : Nat} (hChosen : chosen c = true) (rest : Text) :
    (c = 38 ∨ c = 60 ∨ c = 62 ∨ 127 ≤ c) ∧ ∃ tail, respell chosen (c :: rest) = 92 :: tail := by
  obtain ⟨tail, hTail⟩ := respelled_head c
  exact ⟨hFree c hChosen, tail ++ respell chosen rest, by rw [respell_chosen hChosen, hTail, List.cons_append]⟩

theorem scanWhole_respell (input : Text) :
    scanWhole (respell chosen input) = (scanWhole input).map fun found => (found.1, respell chosen found.2) := by
  cases input with
  | nil => rfl
  | cons c rest =>
      cases hChosen : chosen c with
      | true =>
          obtain ⟨hOther, tail, hTail⟩ := respell_other hFree hChosen rest
          have hDigit : isDigit c = false := by
            simp only [isDigit, Bool.and_eq_false_iff, decide_eq_false_iff_not]
            omega
          rw [hTail, scanWhole, scanWhole, if_neg (by decide), if_neg (by decide), if_neg (by omega), if_neg (by simp [hDigit])]
          rfl
      | false =>
          obtain ⟨hTake, hDrop⟩ := respell_digits hFree rest
          rw [respell_kept hChosen, scanWhole, scanWhole, hTake, hDrop]
          split
          · rfl
          · split <;> rfl

theorem scanFraction_respell (input : Text) :
    scanFraction (respell chosen input) = ((scanFraction input).1, respell chosen (scanFraction input).2) := by
  cases input with
  | nil => rfl
  | cons c rest =>
      cases hChosen : chosen c with
      | true =>
          obtain ⟨hOther, tail, hTail⟩ := respell_other hFree hChosen rest
          rw [hTail, scanFraction, scanFraction, if_neg (by simp), if_neg (by omega), hTail]
      | false =>
          obtain ⟨hTake, hDrop⟩ := respell_digits hFree rest
          rw [respell_kept hChosen, scanFraction, scanFraction, hTake, hDrop]
          split
          · rfl
          · rw [respell_kept hChosen]

theorem exponentSign_respell (input : Text) :
    exponentSign (respell chosen input) = ((exponentSign input).1, respell chosen (exponentSign input).2) := by
  cases input with
  | nil => rfl
  | cons s rest =>
      cases hChosen : chosen s with
      | true =>
          obtain ⟨hOther, tail, hTail⟩ := respell_other hFree hChosen rest
          rw [hTail, exponentSign, exponentSign, if_neg (by decide), if_neg (by decide), if_neg (by omega), if_neg (by omega),
            hTail]
      | false =>
          rw [respell_kept hChosen, exponentSign, exponentSign]
          split
          · rfl
          · split
            · rfl
            · rw [respell_kept hChosen]

theorem scanExponent_respell (input : Text) :
    scanExponent (respell chosen input) = ((scanExponent input).1, respell chosen (scanExponent input).2) := by
  cases input with
  | nil => rfl
  | cons c rest =>
      cases hChosen : chosen c with
      | true =>
          obtain ⟨hOther, tail, hTail⟩ := respell_other hFree hChosen rest
          rw [hTail, scanExponent_cons, scanExponent_cons, if_neg (by simp), if_neg (by omega), hTail]
      | false =>
          obtain ⟨hTake, hDrop⟩ := respell_digits hFree (exponentSign rest).2
          rw [respell_kept hChosen, scanExponent_cons, scanExponent_cons, exponentSign_respell hFree]
          simp only [hTake, hDrop]
          split
          · rfl
          · rw [respell_kept hChosen]

theorem scanNumber_respell {input rest : Text} {value : Value} (h : scanNumber input = .ok (value, rest)) :
    scanNumber (respell chosen input) = .ok (value, respell chosen rest) := by
  obtain ⟨negative, whole, tail, fraction, after, exponent, rfl, hWhole, hFraction, hExponent, hValue⟩ := scanNumber_some h
  obtain ⟨hTail, hSome, hMinus, -⟩ := scanWhole_extent hWhole
  have hWhole' := scanWhole_respell hFree (whole ++ tail)
  have hFraction' := scanFraction_respell hFree tail
  have hExponent' := scanExponent_respell hFree after
  rw [hWhole, Option.map_some] at hWhole'
  rw [hFraction] at hFraction'
  rw [hExponent] at hExponent'
  have hInput : respell chosen (whole ++ tail) = whole ++ respell chosen tail := (scanWhole_extent hWhole').1
  have hSign : respell chosen ((if negative then [45] else []) ++ (whole ++ tail)) =
      (if negative then [45] else []) ++ (whole ++ respell chosen tail) := by
    rw [respell_append, hInput]
    cases negative with
    | true => rw [if_pos rfl, respell_kept (hFree.kept (by decide)), respell_nil]
    | false => rfl
  rw [hInput] at hWhole'
  rw [hSign, scanNumber_parts negative hMinus hSome hWhole' hFraction' hExponent', hValue]
  rfl

theorem scanWord_respell {input rest : Text} {value : Value} (h : scanWord input = some (value, rest)) :
    scanWord (respell chosen input) = some (value, respell chosen rest) := by
  have hWord : ∀ word : Text, (∀ c ∈ word, 97 ≤ c ∧ c ≤ 122) → ∀ tail, respell chosen (word ++ tail) = word ++ respell chosen tail := by
    intro word hLetters tail
    induction word with
    | nil => rfl
    | cons c word ih =>
        have hLetter := hLetters c List.mem_cons_self
        rw [List.cons_append, respell_kept (hFree.kept (by omega)), ih fun d hd => hLetters d (List.mem_cons_of_mem _ hd)]
        rfl
  unfold scanWord at h
  split at h
  · rename_i hTake
    cases h
    rw [← List.take_append_drop 4 input, hTake, hWord _ (by decide)]
    simp [scanWord, text]
  split at h
  · rename_i hTake
    cases h
    rw [← List.take_append_drop 4 input, hTake, hWord _ (by decide)]
    simp [scanWord, text]
  split at h
  · rename_i hTake
    cases h
    rw [← List.take_append_drop 5 input, hTake, hWord _ (by decide)]
    simp [scanWord, text]
  · cases h

end Tokens

/-! String literals. -/

theorem hexDigit_code {n : Nat} (h : n < 16) : PyJson.hexDigit (hexCode n) = some n := by
  have hAll : ∀ n < 16, PyJson.hexDigit (hexCode n) = some n := by decide
  exact hAll n h

theorem hexUnit_numbered {unit : Nat} (h : unit < 0x10000) :
    hexUnit (hexCode (unit / 4096 % 16)) (hexCode (unit / 256 % 16)) (hexCode (unit / 16 % 16)) (hexCode (unit % 16)) =
      some unit := by
  rw [hexUnit, hexDigit_code (by omega), hexDigit_code (by omega), hexDigit_code (by omega), hexDigit_code (by omega)]
  simp only [Option.bind_eq_bind, Option.bind_some, Option.some.injEq]
  omega

theorem scanUnits_numbered (unit : Nat) (hUnit : unit < 0x10000) {rest after : Text} {units : List (Nat × Bool)}
    (h : scanUnits rest = .ok (units, after)) : scanUnits (numbered unit ++ rest) = .ok (pushUnit unit units, after) := by
  unfold numbered
  simp only [List.cons_append, List.nil_append]
  rw [scanUnits.eq_def]
  simp only [hexUnit_numbered hUnit, h]
  rfl

theorem pushUnit_plain {unit : Nat} (h : isHigh unit = false) (units : List (Nat × Bool)) :
    pushUnit unit units = (unit, true) :: units := by
  cases units with
  | nil => rfl
  | cons next units => simp [pushUnit, h]

/-- A character with a number is read from its number. -/
theorem scanUnits_respelled {c : Nat} (hScalar : c < 0x110000 ∧ isSurrogate c = false) {rest after : Text}
    {units : List (Nat × Bool)} (h : scanUnits rest = .ok (units, after)) :
    ∃ flag, scanUnits (respelled c ++ rest) = .ok ((c, flag) :: units, after) := by
  obtain ⟨hBound, hSurrogate⟩ := hScalar
  simp only [isSurrogate, Bool.and_eq_false_iff, decide_eq_false_iff_not] at hSurrogate
  unfold respelled
  split
  · rename_i hUnit
    refine ⟨true, ?_⟩
    rw [scanUnits_numbered c hUnit h, pushUnit_plain]
    simp only [isHigh, Bool.and_eq_false_iff, decide_eq_false_iff_not]
    omega
  · rename_i hPair
    -- the low surrogate is read first, then the high one before it
    have hLow := scanUnits_numbered (0xDC00 + (c - 0x10000) % 0x400) (by omega) h
    rw [pushUnit_plain (by simp only [isHigh, Bool.and_eq_false_iff, decide_eq_false_iff_not]; omega)] at hLow
    have hHigh := scanUnits_numbered (0xD800 + (c - 0x10000) / 0x400) (by omega) hLow
    have hJoin : joinSurrogates (0xD800 + (c - 0x10000) / 0x400) (0xDC00 + (c - 0x10000) % 0x400) = c := by
      unfold joinSurrogates
      omega
    have hBoth : (isHigh (0xD800 + (c - 0x10000) / 0x400) && true && isLow (0xDC00 + (c - 0x10000) % 0x400)) = true := by
      simp only [isHigh, isLow, Bool.and_true, Bool.and_eq_true, decide_eq_true_eq]
      omega
    refine ⟨false, ?_⟩
    rw [List.append_assoc, hHigh, pushUnit, if_pos hBoth, hJoin]

/-- The same code units; whether one was escaped matters for low surrogates only. -/
def SameUnits : List (Nat × Bool) → List (Nat × Bool) → Prop :=
  List.Forall₂ fun unit spelled => unit.1 = spelled.1 ∧ (isLow unit.1 = true → unit.2 = spelled.2)

theorem SameUnits.codes {units spelled : List (Nat × Bool)} (h : SameUnits units spelled) :
    spelled.map (·.1) = units.map (·.1) := by
  induction h with
  | nil => rfl
  | cons hFirst _ ih => rw [List.map_cons, List.map_cons, ih, hFirst.1]

theorem SameUnits.push {units spelled : List (Nat × Bool)} (h : SameUnits units spelled) (unit : Nat) :
    SameUnits (pushUnit unit units) (pushUnit unit spelled) := by
  cases h with
  | nil => exact .cons ⟨rfl, fun _ => rfl⟩ .nil
  | @cons first other rest others hFirst hRest =>
      obtain ⟨next, escaped⟩ := first
      obtain ⟨next', escaped'⟩ := other
      obtain ⟨hCode, hFlag⟩ := hFirst
      simp only at hCode hFlag
      subst hCode
      have hJoin : (isHigh unit && escaped && isLow next) = (isHigh unit && escaped' && isLow next) := by
        cases hLow : isLow next with
        | true => rw [hFlag hLow]
        | false => simp
      simp only [pushUnit, hJoin]
      split
      · exact .cons ⟨rfl, fun _ => rfl⟩ hRest
      · exact .cons ⟨rfl, fun _ => rfl⟩ (.cons ⟨rfl, hFlag⟩ hRest)

theorem scanUnits_respell (hFree : OutsideGrammar chosen) {input : Text} (hSpell : Spellable chosen input)
    {units : List (Nat × Bool)} {rest : Text} (h : scanUnits input = .ok (units, rest)) :
    ∃ spelled, scanUnits (respell chosen input) = .ok (spelled, respell chosen rest) ∧ SameUnits units spelled := by
  induction input using scanUnits.induct generalizing units rest with
  | case1 => cases h
  | case2 tail =>
      rw [scanUnits.eq_def] at h
      cases h
      exact ⟨[], by rw [respell_kept (hFree.kept (by decide)), scanUnits.eq_def]; rfl, .nil⟩
  | case3 c tail hQuote hControl =>
      rw [scanUnits.eq_def] at h
      simp [hQuote, hControl] at h
  | case4 c tail hQuote hControl hPlain ih =>
      rw [scanUnits.eq_def] at h
      simp only [hQuote, hControl, hPlain, if_false, if_true, ne_eq, not_false_eq_true, bind_ok] at h
      obtain ⟨⟨found, left⟩, hFound, h⟩ := h
      cases h
      obtain ⟨spelled, hSpelled, hSame⟩ := ih (hSpell.suffix (List.suffix_cons _ _)) hFound
      cases hChosen : chosen c with
      | false =>
          refine ⟨(c, false) :: spelled, ?_, .cons ⟨rfl, fun _ => rfl⟩ hSame⟩
          rw [respell_kept hChosen, scanUnits.eq_def]
          simp only [hQuote, hControl, hPlain, if_false, if_true, ne_eq, not_false_eq_true, hSpelled]
          rfl
      | true =>
          have hScalar := hSpell c List.mem_cons_self hChosen
          obtain ⟨flag, hFlag⟩ := scanUnits_respelled hScalar hSpelled
          refine ⟨(c, flag) :: spelled, by rw [respell_chosen hChosen]; exact hFlag, .cons ⟨rfl, fun hLow => ?_⟩ hSame⟩
          have hSurrogate := hScalar.2
          simp only [isLow, isSurrogate, Bool.and_eq_true, Bool.and_eq_false_iff, decide_eq_true_eq,
            decide_eq_false_iff_not] at hLow hSurrogate
          omega
  | case5 c hQuote hControl hPlain =>
      rw [scanUnits.eq_def] at h
      simp [hQuote, hControl, hPlain] at h
  | case6 c hQuote hControl hPlain h₁ h₂ h₃ h₄ tail hUnit =>
      rw [scanUnits.eq_def] at h
      simp [hQuote, hControl, hPlain, hUnit] at h
  | case7 c hQuote hControl hPlain h₁ h₂ h₃ h₄ tail unit hUnit ih =>
      rw [scanUnits.eq_def] at h
      simp only [hQuote, hControl, hPlain, if_false, if_true, hUnit, bind_ok] at h
      obtain ⟨⟨found, left⟩, hFound, h⟩ := h
      cases h
      have hSuffix : tail <:+ c :: 117 :: h₁ :: h₂ :: h₃ :: h₄ :: tail := ⟨[c, 117, h₁, h₂, h₃, h₄], rfl⟩
      obtain ⟨spelled, hSpelled, hSame⟩ := ih (hSpell.suffix hSuffix) hFound
      have hSlash : c = 92 := not_not.mp hPlain
      subst hSlash
      have hDigits := hUnit
      simp only [hexUnit, Option.bind_eq_bind, Option.bind_eq_some_iff] at hDigits
      obtain ⟨_, hFirst, _, hSecond, _, hThird, _, hFourth, _⟩ := hDigits
      refine ⟨pushUnit unit spelled, ?_, hSame.push unit⟩
      rw [respell_kept (hFree.kept (by decide)), respell_kept (hFree.kept (by decide)), respell_kept (hFree.hex hFirst),
        respell_kept (hFree.hex hSecond), respell_kept (hFree.hex hThird), respell_kept (hFree.hex hFourth), scanUnits.eq_def]
      simp only [hUnit, hSpelled]
      rfl
  | case8 c hQuote hControl hPlain tail hShort =>
      rw [scanUnits.eq_def] at h
      simp only [hQuote, hControl, hPlain, if_false, if_true] at h
      cases h
  | case9 c hQuote hControl hPlain e tail hUnicode hEscape =>
      rw [scanUnits.eq_def] at h
      simp [hQuote, hControl, hPlain, hUnicode, hEscape] at h
  | case10 c hQuote hControl hPlain e tail hUnicode unit hEscape ih =>
      rw [scanUnits.eq_def] at h
      simp only [hQuote, hControl, hPlain, hUnicode, if_false, hEscape, bind_ok] at h
      obtain ⟨⟨found, left⟩, hFound, h⟩ := h
      cases h
      obtain ⟨spelled, hSpelled, hSame⟩ := ih (hSpell.suffix ⟨[c, e], rfl⟩) hFound
      have hSlash : c = 92 := not_not.mp hPlain
      subst hSlash
      have hEscaped : chosen e = false := by
        refine hFree.kept ?_
        unfold shortEscape at hEscape
        split at hEscape
        · omega
        · repeat' split at hEscape
          all_goals first | omega | cases hEscape
      refine ⟨(unit, false) :: spelled, ?_, .cons ⟨rfl, fun _ => rfl⟩ hSame⟩
      rw [respell_kept (hFree.kept (by decide)), respell_kept hEscaped, scanUnits_short hUnicode hEscape hSpelled]

theorem scanString_respell (hFree : OutsideGrammar chosen) {input value rest : Text} (hSpell : Spellable chosen input)
    (h : scanString input = .ok (value, rest)) : scanString (respell chosen input) = .ok (value, respell chosen rest) := by
  rw [scanString, bind_ok] at h
  obtain ⟨⟨units, left⟩, hUnits, h⟩ := h
  cases h
  obtain ⟨spelled, hSpelled, hSame⟩ := scanUnits_respell hFree hSpell hUnits
  rw [scanString, hSpelled, ok_bind]
  simp only [hSame.codes]

/-! Values. -/

section Scan

variable {hook : List (Text × Value) → Except Refusal Value}

theorem skipSpace_suffix (input : Text) : skipSpace input <:+ input := List.dropWhile_suffix _

/-- What follows after blanks is the end of the text. -/
theorem suffix_blank {c : Nat} {tail input : Text} (h : skipSpace input = c :: tail) : tail <:+ input :=
  (List.suffix_cons c tail).trans (h ▸ skipSpace_suffix input)

theorem scanString_suffix {input value rest : Text} (h : scanString input = .ok (value, rest)) : rest <:+ input := by
  obtain ⟨extent, rfl, -⟩ := scanString_extent h
  exact List.suffix_append extent rest

theorem scanValue_suffix {fuel : Nat} {depth : Option Nat} {input rest : Text} {value : Value}
    (h : scanValue hook fuel depth input = .ok (value, rest)) : rest <:+ input := by
  obtain ⟨extent, rfl, -⟩ := (scan_extent (fun _ _ h => h) fuel).1 h
  exact List.suffix_append extent rest

/-- A reader takes the same from the other spelling. -/
def Respells {α : Type} (chosen : Nat → Bool) (scan : Nat → Option Nat → Text → Except Refusal (α × Text)) (fuel : Nat) : Prop :=
  ∀ {depth : Option Nat} {input rest : Text} {found : α}, Spellable chosen input →
    scan fuel depth input = .ok (found, rest) → ∀ {more : Nat}, fuel ≤ more →
      scan more depth (respell chosen input) = .ok (found, respell chosen rest)

theorem respells_items (hFree : OutsideGrammar chosen) {fuel : Nat} (hValue : Respells chosen (scanValue hook) fuel)
    (hItems : Respells chosen (scanItems hook) fuel) : Respells chosen (scanItems hook) (fuel + 1) := by
  intro depth input rest items hSpell h more hMore
  obtain ⟨more, rfl⟩ : ∃ less, more = less + 1 := ⟨more - 1, by omega⟩
  obtain ⟨less, value, left, hLess, hFirst, hShape⟩ := scanItems_some h
  obtain rfl := Nat.succ.inj hLess
  have hLeft := scanValue_suffix hFirst
  rw [scanItems, hValue hSpell hFirst (by omega), ok_bind]
  simp only [respell_skipSpace hFree]
  rcases hShape with ⟨hEnd, rfl⟩ | ⟨tail, others, hComma, hRest, rfl⟩
  · rw [hEnd, respell_kept (hFree.kept (by decide))]
    rfl
  · have hTail := hSpell.suffix ((skipSpace_suffix tail).trans ((suffix_blank hComma).trans hLeft))
    rw [hComma, respell_kept (hFree.kept (by decide))]
    simp only [if_neg (show (44 : Nat) ≠ 93 by decide), if_true, respell_skipSpace hFree, hItems hTail hRest (by omega : _ ≤ more)]
    rfl

theorem respells_fields (hFree : OutsideGrammar chosen) {fuel : Nat} (hValue : Respells chosen (scanValue hook) fuel)
    (hFields : Respells chosen (scanFields hook) fuel) : Respells chosen (scanFields hook) (fuel + 1) := by
  intro depth input rest fields hSpell h more hMore
  obtain ⟨more, rfl⟩ : ∃ less, more = less + 1 := ⟨more - 1, by omega⟩
  obtain ⟨less, word, key, afterKey, afterColon, value, left, hLess, rfl, hKey, hColon, hFirst, hShape⟩ := scanFields_some h
  obtain rfl := Nat.succ.inj hLess
  have hWord : word <:+ 34 :: word := List.suffix_cons _ _
  have hAfterKey := (scanString_suffix hKey).trans hWord
  have hInner := (skipSpace_suffix afterColon).trans ((suffix_blank hColon).trans hAfterKey)
  have hLeft := (scanValue_suffix hFirst).trans hInner
  rw [respell_kept (hFree.kept (by decide)), scanFields, if_neg (not_not.mpr rfl),
    scanString_respell hFree (hSpell.suffix hWord) hKey, ok_bind]
  simp only [respell_skipSpace hFree]
  rw [hColon, respell_kept (hFree.kept (by decide))]
  simp only [if_neg (show ¬ (58 : Nat) ≠ 58 by decide), respell_skipSpace hFree,
    hValue (hSpell.suffix hInner) hFirst (by omega : _ ≤ more), ok_bind]
  rcases hShape with ⟨hEnd, rfl⟩ | ⟨tail, others, hComma, hRest, rfl⟩
  · rw [hEnd, respell_kept (hFree.kept (by decide))]
    rfl
  · have hTail := hSpell.suffix ((skipSpace_suffix tail).trans ((suffix_blank hComma).trans hLeft))
    rw [hComma, respell_kept (hFree.kept (by decide))]
    simp only [if_neg (show (44 : Nat) ≠ 125 by decide), if_true, respell_skipSpace hFree,
      hFields hTail hRest (by omega : _ ≤ more)]
    rfl

theorem respell_head_ne (hFree : OutsideGrammar chosen) {input : Text} {c : Nat} (hSlash : c ≠ 92) (h : input.head? ≠ some c) :
    (respell chosen input).head? ≠ some c := by
  cases input with
  | nil => exact h
  | cons d rest =>
      cases hChosen : chosen d with
      | false =>
          rw [respell_kept hChosen]
          exact h
      | true =>
          obtain ⟨-, tail, hTail⟩ := respell_other hFree hChosen rest
          rw [hTail, List.head?_cons, ne_eq, Option.some.injEq]
          exact Ne.symm hSlash

theorem respells_value (hFree : OutsideGrammar chosen) {fuel : Nat} (hItems : Respells chosen (scanItems hook) fuel)
    (hFields : Respells chosen (scanFields hook) fuel) : Respells chosen (scanValue hook) (fuel + 1) := by
  intro depth input rest value hSpell h more hMore
  obtain ⟨more, rfl⟩ : ∃ less, more = less + 1 := ⟨more - 1, by omega⟩
  have hLess : fuel ≤ more := by omega
  cases input with
  | nil => simp [scanValue] at h
  | cons c tail =>
      have hTail : tail <:+ c :: tail := List.suffix_cons _ _
      have hInner := hSpell.suffix ((skipSpace_suffix tail).trans hTail)
      by_cases hBrace : c = 123
      · subst hBrace
        rw [respell_kept (hFree.kept (by decide)), scanValue, if_neg (by decide), if_pos rfl]
        obtain ⟨inner, hDeeper, ⟨hEmpty, hFound⟩ | ⟨hEmpty, fields, hRead, hFound⟩⟩ := scanValue_brace h
        · simp only [hDeeper, respell_skipSpace hFree, hEmpty, respell_kept (hFree.kept (c := 125) (by decide)),
            List.head?_cons, if_true, hFound]
          rfl
        · have hHead := respell_head_ne hFree (by decide) hEmpty
          simp only [hDeeper, respell_skipSpace hFree, hHead, if_false, hFields hInner hRead hLess, ok_bind, hFound]
      by_cases hBracket : c = 91
      · subst hBracket
        rw [respell_kept (hFree.kept (by decide)), scanValue, if_neg (by decide), if_neg (by decide), if_pos rfl]
        obtain ⟨inner, hDeeper, ⟨hEmpty, rfl⟩ | ⟨hEmpty, items, hRead, rfl⟩⟩ := scanValue_bracket h
        · simp only [hDeeper, respell_skipSpace hFree, hEmpty, respell_kept (hFree.kept (c := 93) (by decide)),
            List.head?_cons, if_true, List.tail_cons]
        · have hHead := respell_head_ne hFree (by decide) hEmpty
          simp only [hDeeper, respell_skipSpace hFree, hHead, if_false, hItems hInner hRead hLess, ok_bind]
      by_cases hQuote : c = 34
      · subst hQuote
        rw [scanValue, if_pos rfl, bind_ok] at h
        obtain ⟨⟨found, left⟩, hFound, h⟩ := h
        cases h
        rw [respell_kept (hFree.kept (by decide)), scanValue, if_pos rfl,
          scanString_respell hFree (hSpell.suffix hTail) hFound]
        rfl
      rw [scanValue, if_neg hQuote, if_neg hBrace, if_neg hBracket] at h
      cases hWord : scanWord (c :: tail) with
      | some found =>
          rw [hWord] at h
          cases h
          have hWord' := scanWord_respell hFree hWord
          have hKept : chosen c = false := by
            by_contra hChosen
            rw [Bool.not_eq_false] at hChosen
            obtain ⟨-, rest', hRest'⟩ := respell_other hFree hChosen tail
            rw [hRest'] at hWord'
            simp [scanWord, text] at hWord'
          rw [respell_kept hKept] at hWord' ⊢
          rw [scanValue, if_neg hQuote, if_neg hBrace, if_neg hBracket, hWord']
      | none =>
          rw [hWord] at h
          exact scanValue_number (scanNumber_respell hFree h) more

theorem scan_respell (hFree : OutsideGrammar chosen) (fuel : Nat) : Respells chosen (scanValue hook) fuel ∧
    Respells chosen (scanItems hook) fuel ∧ Respells chosen (scanFields hook) fuel := by
  induction fuel with
  | zero =>
      refine ⟨fun _ h => ?_, fun _ h => ?_, fun _ h => ?_⟩
      · simp [scanValue] at h
      · simp [scanItems] at h
      · simp [scanFields] at h
  | succ fuel ih =>
      obtain ⟨hValue, hItems, hFields⟩ := ih
      exact ⟨respells_value hFree hItems hFields, respells_items hFree hValue hItems, respells_fields hFree hValue hFields⟩

/-- The other spelling of a text is read as the same value. -/
theorem loads_respell (hFree : OutsideGrammar chosen) {depth : Option Nat} {input : Text} {value : Value}
    (hSpell : Spellable chosen input) (h : loads hook depth input = .ok value) :
    loads hook depth (respell chosen input) = .ok value := by
  unfold loads at h ⊢
  split at h
  · cases h
  rename_i hMark
  rw [if_neg (respell_head_ne hFree (by decide) hMark)]
  rw [decode, bind_ok] at h
  obtain ⟨⟨found, rest⟩, hFound, hEnd⟩ := h
  have hLength := length_respell chosen input
  have hScan := (scan_respell hFree _).1 (hSpell.suffix (skipSpace_suffix input)) hFound
    (by omega : 2 * input.length + 2 ≤ 2 * (respell chosen input).length + 2)
  rw [decode, respell_skipSpace hFree, hScan, ok_bind]
  simp only at hEnd ⊢
  split at hEnd
  · rename_i hBlank
    rw [respell_skipSpace hFree, hBlank]
    exact hEnd
  · cases hEnd

theorem stops_blank {rest : Text} (h : skipSpace rest = []) : Stops rest := by
  intro c hc
  cases rest with
  | nil => cases hc
  | cons d rest =>
      obtain rfl := Option.some.inj hc
      rw [skipSpace, List.dropWhile_eq_nil_iff] at h
      have hBlank := h d List.mem_cons_self
      simp only [Bool.or_eq_true, beq_iff_eq] at hBlank
      simp only [isDigit, Bool.and_eq_false_iff, decide_eq_false_iff_not]
      omega

/-- A line is read like the text on it. -/
theorem loads_line {depth : Option Nat} {input : Text} {value : Value} (h : loads hook depth input = .ok value) :
    loads hook depth (input ++ [10]) = .ok value := by
  unfold loads at h ⊢
  split at h
  · cases h
  rename_i hMark
  rw [decode, bind_ok] at h
  obtain ⟨⟨found, rest⟩, hFound, hEnd⟩ := h
  simp only at hEnd
  split at hEnd
  swap
  · cases hEnd
  rename_i hRest
  cases hEnd
  obtain ⟨extent, hExtent, hSome, hAgain⟩ := (scan_extent (fun _ _ h => h) _).1 hFound
  obtain ⟨space, hInput, hSkip⟩ := skipSpace_before hSome hExtent
  have hBlank : skipSpace (rest ++ [10]) = [] := by
    rw [skipSpace, List.dropWhile_eq_nil_iff] at hRest ⊢
    intro c hc
    rcases List.mem_append.mp hc with hc | hc
    · exact hRest c hc
    · rw [List.mem_singleton.mp hc]
      rfl
  have hLine : input ++ [10] = space ++ (extent ++ (rest ++ [10])) := by rw [hInput]; simp only [List.append_assoc]
  have hMark' : ¬ (input ++ [10]).head? = some 0xFEFF := by
    rw [List.head?_append_of_ne_nil _ (by rw [hInput]; simp [hSome])]
    exact hMark
  have hScan : scanValue hook (2 * (input ++ [10]).length + 2) depth (extent ++ (rest ++ [10])) = .ok (value, rest ++ [10]) :=
    hAgain (by rw [hLine]; simp only [List.length_append]; omega) (Allows.refl depth) (stops_blank hBlank)
  rw [if_neg hMark', decode, hLine, hSkip, ← hLine, hScan, ok_bind]
  simp only [hBlank, if_true]

end Scan

end PyJson
