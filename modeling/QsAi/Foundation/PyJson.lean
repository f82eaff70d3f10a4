import QsAi.Foundation.Binary64
import QsAi.Foundation.Guarded

/-! The JSON reader of Python. A text is a list of code points, surrogates
included; the reader follows the scanner of the standard library, with its
hook for objects and with the depth of nesting that the interpreter allows. -/
namespace PyJson

open Binary64 Guarded

/-- A Python string: its code points. -/
abbrev Text := List Nat

instance text_lawfulBEq : LawfulBEq Text := inferInstance

inductive Value
  | null
  | bool (value : Bool)
  | int (value : Int)
  | float (value : Double)
  | string (value : Text)
  | array (items : List Value)
  | object (fields : List (Text × Value))

/-- Why a text is not read: it is not JSON, or it nests too deeply. -/
inductive Refusal
  | malformed
  | tooDeep
deriving DecidableEq, Repr

/-- The code points of a string of characters. -/
def text (value : String) : Text := value.toList.map (·.toNat)

def isSurrogate (c : Nat) : Bool := 0xD800 ≤ c && c ≤ 0xDFFF

/-- Strict encoding: only texts without surrogates are strings of characters. -/
def encode (value : Text) : Option String :=
  if value.any isSurrogate then none else some (String.ofList (value.map Char.ofNat))

/-! Tokens. -/

def skipSpace (input : Text) : Text :=
  input.dropWhile fun c => c == 32 || c == 9 || c == 10 || c == 13

def isDigit (c : Nat) : Bool := 48 ≤ c && c ≤ 57

def hexDigit (c : Nat) : Option Nat :=
  if 48 ≤ c ∧ c ≤ 57 then some (c - 48)
  else if 97 ≤ c ∧ c ≤ 102 then some (c - 87)
  else if 65 ≤ c ∧ c ≤ 70 then some (c - 55)
  else none

/-- The code unit of an escape with four hexadecimal digits. -/
def hexUnit (a b c d : Nat) : Option Nat := do
  let a ← hexDigit a
  let b ← hexDigit b
  let c ← hexDigit c
  let d ← hexDigit d
  some (4096 * a + 256 * b + 16 * c + d)

def isHigh (c : Nat) : Bool := 0xD800 ≤ c && c ≤ 0xDBFF

def isLow (c : Nat) : Bool := 0xDC00 ≤ c && c ≤ 0xDFFF

def joinSurrogates (high low : Nat) : Nat := 0x10000 + (high - 0xD800) * 0x400 + (low - 0xDC00)

/-- The character of a short escape. -/
def shortEscape (c : Nat) : Option Nat :=
  if c = 34 ∨ c = 92 ∨ c = 47 then some c
  else if c = 98 then some 8
  else if c = 102 then some 12
  else if c = 110 then some 10
  else if c = 114 then some 13
  else if c = 116 then some 9
  else none

/-- Put a code unit before the code units that follow it: a high surrogate that
was escaped joins a low one that is escaped right after it. -/
def pushUnit (unit : Nat) : List (Nat × Bool) → List (Nat × Bool)
  | (next, escaped) :: rest =>
      if isHigh unit && escaped && isLow next then (joinSurrogates unit next, false) :: rest
      else (unit, true) :: (next, escaped) :: rest
  | [] => [(unit, true)]

/-- The rest of a string after its opening quote, each code unit with whether
it was escaped by number. -/
def scanUnits : Text → Except Refusal (List (Nat × Bool) × Text)
  | [] => .error .malformed
  | c :: rest =>
      if c = 34 then .ok ([], rest)
      else if c < 32 then .error .malformed
      else if c ≠ 92 then do
        let (units, rest) ← scanUnits rest
        .ok ((c, false) :: units, rest)
      else
        match rest with
        | [] => .error .malformed
        | e :: tail =>
            if e = 117 then
              match tail with
              | h₁ :: h₂ :: h₃ :: h₄ :: after =>
                  match hexUnit h₁ h₂ h₃ h₄ with
                  | none => .error .malformed
                  | some unit => do
                      let (units, rest) ← scanUnits after
                      .ok (pushUnit unit units, rest)
              | _ => .error .malformed
            else
              match shortEscape e with
              | none => .error .malformed
              | some c => do
                  let (units, rest) ← scanUnits tail
                  .ok ((c, false) :: units, rest)

def scanString (input : Text) : Except Refusal (Text × Text) := do
  let (units, rest) ← scanUnits input
  .ok (units.map (·.1), rest)

/-- The number that a run of digits spells. -/
def digitsValue (digits : Text) : Nat := digits.foldl (fun value c => 10 * value + (c - 48)) 0

/-- The integer part of a number: zero alone, or digits that do not start with
zero. -/
def scanWhole : Text → Option (Text × Text)
  | [] => none
  | c :: rest =>
      if c = 48 then some ([48], rest)
      else if isDigit c then some (c :: rest.takeWhile isDigit, rest.dropWhile isDigit)
      else none

/-- A point and at least one digit, or nothing. -/
def scanFraction : Text → Text × Text
  | c :: rest =>
      if c = 46 ∧ rest.takeWhile isDigit ≠ [] then (rest.takeWhile isDigit, rest.dropWhile isDigit)
      else ([], c :: rest)
  | [] => ([], [])

/-- An exponent with at least one digit, or nothing. -/
def scanExponent : Text → Option Int × Text
  | c :: rest =>
      let (negative, digits) := match rest with
        | s :: tail => if s = 45 then (true, tail) else if s = 43 then (false, tail) else (false, rest)
        | [] => (false, [])
      if (c = 101 ∨ c = 69) ∧ digits.takeWhile isDigit ≠ [] then
        let value : Int := digitsValue (digits.takeWhile isDigit)
        (some (if negative then -value else value), digits.dropWhile isDigit)
      else (none, c :: rest)
  | [] => (none, [])

/-- The longest run of digits that is converted to an integer. -/
def maxStrDigits : Nat := 4300

/-- An integer literal, or a double when a fraction or an exponent is spelled. -/
def scanNumber (input : Text) : Except Refusal (Value × Text) :=
  let (negative, unsigned) := match input with
    | c :: rest => if c = 45 then (true, rest) else (false, input)
    | [] => (false, [])
  match scanWhole unsigned with
  | none => .error .malformed
  | some (whole, rest) =>
      let (fraction, rest) := scanFraction rest
      let (exponent, rest) := scanExponent rest
      let sign : Int := if negative then -1 else 1
      if fraction = [] ∧ exponent = none then
        if maxStrDigits < whole.length then .error .malformed
        else .ok (.int (sign * digitsValue whole), rest)
      else
        let scaled : ℚ := sign * digitsValue (whole ++ fraction)
        .ok (.float (round (scaled * 10 ^ (exponent.getD 0 - fraction.length))), rest)

/-- The words of the language. The constants that are not JSON are refused. -/
def scanWord (input : Text) : Option (Value × Text) :=
  if input.take 4 = text "null" then some (.null, input.drop 4)
  else if input.take 4 = text "true" then some (.bool true, input.drop 4)
  else if input.take 5 = text "false" then some (.bool false, input.drop 5)
  else none

/-! Values. The fuel bounds the length of the scan; it is used up only by texts
that were already read to their end. -/

/-- One container deeper, where the interpreter allows it. -/
def deeper : Option Nat → Option (Option Nat)
  | none => some none
  | some 0 => none
  | some (depth + 1) => some (some depth)

section Scan

variable (hook : List (Text × Value) → Except Refusal Value)

mutual

def scanValue : Nat → Option Nat → Text → Except Refusal (Value × Text)
  | 0, _, _ => .error .malformed
  | _ + 1, _, [] => .error .malformed
  | fuel + 1, depth, c :: rest =>
      if c = 34 then do
        let (value, rest) ← scanString rest
        .ok (.string value, rest)
      else if c = 123 then
        match deeper depth with
        | none => .error .tooDeep
        | some depth =>
            if (skipSpace rest).head? = some 125 then do
              let value ← hook []
              .ok (value, (skipSpace rest).tail)
            else do
              let (fields, rest) ← scanFields fuel depth (skipSpace rest)
              let value ← hook fields
              .ok (value, rest)
      else if c = 91 then
        match deeper depth with
        | none => .error .tooDeep
        | some depth =>
            if (skipSpace rest).head? = some 93 then .ok (.array [], (skipSpace rest).tail)
            else do
              let (items, rest) ← scanItems fuel depth (skipSpace rest)
              .ok (.array items, rest)
      else
        match scanWord (c :: rest) with
        | some found => .ok found
        | none => scanNumber (c :: rest)

def scanItems : Nat → Option Nat → Text → Except Refusal (List Value × Text)
  | 0, _, _ => .error .malformed
  | fuel + 1, depth, input => do
      let (value, rest) ← scanValue fuel depth input
      match skipSpace rest with
      | [] => .error .malformed
      | c :: rest =>
          if c = 93 then .ok ([value], rest)
          else if c = 44 then do
            let (items, rest) ← scanItems fuel depth (skipSpace rest)
            .ok (value :: items, rest)
          else .error .malformed

def scanFields : Nat → Option Nat → Text → Except Refusal (List (Text × Value) × Text)
  | 0, _, _ => .error .malformed
  | _ + 1, _, [] => .error .malformed
  | fuel + 1, depth, q :: input =>
      if q ≠ 34 then .error .malformed
      else do
        let (key, rest) ← scanString input
        match skipSpace rest with
        | [] => .error .malformed
        | s :: rest =>
            if s ≠ 58 then .error .malformed
            else do
              let (value, rest) ← scanValue fuel depth (skipSpace rest)
              match skipSpace rest with
              | [] => .error .malformed
              | c :: rest =>
                  if c = 125 then .ok ([(key, value)], rest)
                  else if c = 44 then do
                    let (fields, rest) ← scanFields fuel depth (skipSpace rest)
                    .ok ((key, value) :: fields, rest)
                  else .error .malformed

end

/-- Read one value and nothing after it. -/
def decode (depth : Option Nat) (input : Text) : Except Refusal Value := do
  let (value, rest) ← scanValue hook (2 * input.length + 2) depth (skipSpace input)
  if skipSpace rest = [] then .ok value else .error .malformed

/-- Read a text; one that starts with a byte order mark is refused. -/
def loads (depth : Option Nat) (input : Text) : Except Refusal Value :=
  if input.head? = some 0xFEFF then .error .malformed else decode hook depth input

end Scan

/-! Objects. -/

/-- A dictionary: a repeated key keeps its place and takes the new value. -/
def insert (fields : List (Text × Value)) (key : Text) (value : Value) : List (Text × Value) :=
  if key ∈ fields.map (·.1) then fields.map fun field => if field.1 = key then (key, value) else field
  else fields ++ [(key, value)]

/-- Without a hook a repeated key overwrites. -/
def overwrite (fields : List (Text × Value)) : Except Refusal Value :=
  .ok (.object (fields.foldl (fun dict field => insert dict field.1 field.2) []))

/-- A hook that refuses repeated keys. -/
def distinct (fields : List (Text × Value)) : Except Refusal Value :=
  if (fields.map (·.1)).Nodup then .ok (.object fields) else .error .malformed

/-! What a stricter reader accepts, a laxer one reads the same way. -/

section Laxer

variable {strict lax : List (Text × Value) → Except Refusal Value} {depth more : Option Nat}

theorem deeper_some {inner : Option Nat} (hMore : more = depth ∨ more = none) (h : deeper depth = some inner) :
    ∃ next, deeper more = some next ∧ (next = inner ∨ next = none) := by
  rcases hMore with rfl | rfl
  · exact ⟨inner, h, .inl rfl⟩
  · exact ⟨none, rfl, .inr rfl⟩

/-- The three scanners together, by induction on the fuel. -/
theorem scan_lax (hHook : ∀ fields value, strict fields = .ok value → lax fields = .ok value) (fuel : Nat)
    (hMore : more = depth ∨ more = none) (input : Text) :
    (∀ found, scanValue strict fuel depth input = .ok found → scanValue lax fuel more input = .ok found) ∧
    (∀ found, scanItems strict fuel depth input = .ok found → scanItems lax fuel more input = .ok found) ∧
    ∀ found, scanFields strict fuel depth input = .ok found → scanFields lax fuel more input = .ok found := by
  induction fuel generalizing depth more input with
  | zero =>
      refine ⟨fun found h => ?_, fun found h => ?_, fun found h => ?_⟩
      · simp [scanValue] at h
      · simp [scanItems] at h
      · simp [scanFields] at h
  | succ fuel ih =>
      refine ⟨fun found h => ?_, fun found h => ?_, fun found h => ?_⟩
      · cases input with
        | nil => simp [scanValue] at h
        | cons c rest =>
            rw [scanValue] at h ⊢
            by_cases hQuote : c = 34
            · rw [if_pos hQuote] at h ⊢
              exact h
            by_cases hBrace : c = 123
            · rw [if_neg hQuote, if_pos hBrace] at h ⊢
              cases hDeeper : deeper depth with
              | none =>
                  rw [hDeeper] at h
                  cases h
              | some inner =>
                  obtain ⟨next, hNext, hInner⟩ := deeper_some hMore hDeeper
                  simp only [hDeeper, hNext] at h ⊢
                  by_cases hEmpty : (skipSpace rest).head? = some 125
                  · simp only [hEmpty, if_true, bind_ok] at h ⊢
                    obtain ⟨value, hValue, hFound⟩ := h
                    exact ⟨value, hHook _ _ hValue, hFound⟩
                  · simp only [hEmpty, if_false, bind_ok] at h ⊢
                    obtain ⟨fields, hFields, value, hValue, hFound⟩ := h
                    exact ⟨fields, (ih hInner _).2.2 _ hFields, value, hHook _ _ hValue, hFound⟩
            by_cases hBracket : c = 91
            · rw [if_neg hQuote, if_neg hBrace, if_pos hBracket] at h ⊢
              cases hDeeper : deeper depth with
              | none =>
                  rw [hDeeper] at h
                  cases h
              | some inner =>
                  obtain ⟨next, hNext, hInner⟩ := deeper_some hMore hDeeper
                  simp only [hDeeper, hNext] at h ⊢
                  by_cases hEmpty : (skipSpace rest).head? = some 93
                  · simp only [hEmpty, if_true] at h ⊢
                    exact h
                  · simp only [hEmpty, if_false, bind_ok] at h ⊢
                    obtain ⟨items, hItems, hFound⟩ := h
                    exact ⟨items, (ih hInner _).2.1 _ hItems, hFound⟩
            rw [if_neg hQuote, if_neg hBrace, if_neg hBracket] at h ⊢
            exact h
      · rw [scanItems, bind_ok] at h ⊢
        obtain ⟨first, hFirst, h⟩ := h
        refine ⟨first, (ih hMore input).1 _ hFirst, ?_⟩
        cases hRest : skipSpace first.2 with
        | nil =>
            simp only [hRest] at h
            cases h
        | cons c rest =>
            simp only [hRest] at h ⊢
            by_cases hEnd : c = 93
            · rw [if_pos hEnd] at h ⊢
              exact h
            by_cases hComma : c = 44
            · rw [if_neg hEnd, if_pos hComma, bind_ok] at h ⊢
              obtain ⟨items, hItems, hFound⟩ := h
              exact ⟨items, (ih hMore _).2.1 _ hItems, hFound⟩
            · rw [if_neg hEnd, if_neg hComma] at h
              cases h
      · cases input with
        | nil => simp [scanFields] at h
        | cons q rest =>
            rw [scanFields] at h ⊢
            by_cases hQuote : q = 34
            swap
            · rw [if_pos hQuote] at h
              cases h
            rw [if_neg (not_not.mpr hQuote), bind_ok] at h ⊢
            obtain ⟨key, hKey, h⟩ := h
            refine ⟨key, hKey, ?_⟩
            cases hRest : skipSpace key.2 with
            | nil =>
                simp only [hRest] at h
                cases h
            | cons s rest =>
                simp only [hRest] at h ⊢
                by_cases hColon : s = 58
                swap
                · rw [if_pos hColon] at h
                  cases h
                rw [if_neg (not_not.mpr hColon), bind_ok] at h ⊢
                obtain ⟨value, hValue, h⟩ := h
                refine ⟨value, (ih hMore _).1 _ hValue, ?_⟩
                cases hAfter : skipSpace value.2 with
                | nil =>
                    simp only [hAfter] at h
                    cases h
                | cons c rest =>
                    simp only [hAfter] at h ⊢
                    by_cases hEnd : c = 125
                    · rw [if_pos hEnd] at h ⊢
                      exact h
                    by_cases hComma : c = 44
                    · rw [if_neg hEnd, if_pos hComma, bind_ok] at h ⊢
                      obtain ⟨fields, hFields, hFound⟩ := h
                      exact ⟨fields, (ih hMore _).2.2 _ hFields, hFound⟩
                    · rw [if_neg hEnd, if_neg hComma] at h
                      cases h

theorem loads_lax (hHook : ∀ fields value, strict fields = .ok value → lax fields = .ok value)
    (hMore : more = depth ∨ more = none) {input : Text} {value : Value}
    (h : loads strict depth input = .ok value) : loads lax more input = .ok value := by
  unfold loads at h ⊢
  split at h
  · cases h
  · rename_i hMark
    rw [if_neg hMark]
    rw [decode, bind_ok] at h ⊢
    obtain ⟨found, hFound, hEnd⟩ := h
    exact ⟨found, (scan_lax hHook _ hMore _).1 _ hFound, hEnd⟩

end Laxer

/-- Different keys are inserted in order. -/
theorem foldl_insert {fields dict : List (Text × Value)} (h : ((dict ++ fields).map (·.1)).Nodup) :
    fields.foldl (fun dict field => insert dict field.1 field.2) dict = dict ++ fields := by
  induction fields generalizing dict with
  | nil => simp
  | cons field rest ih =>
      have hNew : field.1 ∉ dict.map (·.1) := by
        rw [List.map_append, List.map_cons, List.nodup_append] at h
        exact fun hMem => h.2.2 _ hMem _ List.mem_cons_self rfl
      rw [List.foldl_cons, insert, if_neg hNew, ih]
      · simp
      · simpa using h

theorem overwrite_of_distinct {fields : List (Text × Value)} {value : Value} (h : distinct fields = .ok value) :
    overwrite fields = .ok value := by
  unfold distinct at h
  split at h
  · rename_i hNodup
    rw [overwrite, foldl_insert (by simpa using hNodup)]
    exact h
  · cases h

end PyJson
