import QsAi.Foundation.PyJson

/-! JSON from bytes. The reader guesses the encoding from the first bytes, so
it may read bytes that encode one text as another text; a text that is itself
JSON is never guessed to be anything else. -/
namespace PyJson

open Guarded

inductive Encoding
  | utf8
  | utf8Sig
  | utf16
  | utf16be
  | utf16le
  | utf32
  | utf32be
  | utf32le
deriving DecidableEq, Repr

/-- The encoding that a byte order mark or the zeros among the first bytes
suggest. -/
def detectEncoding (bytes : List Nat) : Encoding :=
  if [0, 0, 0xFE, 0xFF].isPrefixOf bytes || [0xFF, 0xFE, 0, 0].isPrefixOf bytes then .utf32
  else if [0xFE, 0xFF].isPrefixOf bytes || [0xFF, 0xFE].isPrefixOf bytes then .utf16
  else if [0xEF, 0xBB, 0xBF].isPrefixOf bytes then .utf8Sig
  else
    match bytes with
    | [a, b] => if a = 0 then .utf16be else if b = 0 then .utf16le else .utf8
    | a :: b :: c :: d :: _ =>
        if a = 0 then (if b ≠ 0 then .utf16be else .utf32be)
        else if b = 0 then (if c ≠ 0 ∨ d ≠ 0 then .utf16le else .utf32le)
        else .utf8
    | _ => .utf8

/-- Code units of two bytes each; an odd byte is an error. -/
def units16 (big : Bool) : List Nat → Option (List Nat)
  | [] => some []
  | [_] => none
  | a :: b :: rest => (units16 big rest).map fun units => (if big then 256 * a + b else 256 * b + a) :: units

/-- Join surrogate pairs; single surrogates pass. -/
def joinUnits : List Nat → Text
  | high :: low :: rest =>
      if isHigh high && isLow low then joinSurrogates high low :: joinUnits rest else high :: joinUnits (low :: rest)
  | units => units

/-- Code points of four bytes each, up to the last code point. -/
def units32 (big : Bool) : List Nat → Option Text
  | [] => some []
  | a :: b :: c :: d :: rest =>
      let code := if big then 16777216 * a + 65536 * b + 256 * c + d else 16777216 * d + 65536 * c + 256 * b + a
      if code < 0x110000 then (units32 big rest).map (code :: ·) else none
  | _ => none

/-- The bytes of a string of characters. -/
def octets (content : String) : List Nat := content.toList.flatMap fun c => (String.utf8EncodeChar c).map (·.toNat)

/-- The text that the reader takes from the bytes of a string. -/
def guessText (content : String) : Option Text :=
  match detectEncoding (octets content) with
  | .utf8 => some (text content)
  | .utf8Sig => some (text content).tail
  | .utf16 =>
      match octets content with
      | a :: _ :: rest => (units16 (decide (a = 0xFE)) rest).map joinUnits
      | _ => none
  | .utf16be => (units16 true (octets content)).map joinUnits
  | .utf16le => (units16 false (octets content)).map joinUnits
  | .utf32 =>
      match octets content with
      | a :: _ :: _ :: _ :: rest => units32 (decide (a = 0)) rest
      | _ => none
  | .utf32be => units32 true (octets content)
  | .utf32le => units32 false (octets content)

/-- Read the bytes of a string. -/
def loadsBytes (hook : List (Text × Value) → Except Refusal Value) (depth : Option Nat) (content : String) :
    Except Refusal Value :=
  match guessText content with
  | none => .error .malformed
  | some input => loads hook depth input

/-! Texts that are not guessed to be UTF-8. -/

theorem detectEncoding_utf8 {a b : Nat} {rest : List Nat} (hFirst : a ≠ 0 ∧ a < 0xFE) (hSecond : b ≠ 0)
    (hMark : a = 0xEF → b = 0xBB → rest.head? ≠ some 0xBF) : detectEncoding (a :: b :: rest) = .utf8 := by
  have hSig : [0xEF, 0xBB, 0xBF].isPrefixOf (a :: b :: rest) = false := by
    rw [Bool.eq_false_iff]
    intro hPrefix
    cases rest with
    | nil => simp at hPrefix
    | cons c tail =>
        simp only [List.isPrefixOf_cons_cons, Bool.and_eq_true, beq_iff_eq] at hPrefix
        exact hMark hPrefix.1.symm hPrefix.2.1.symm (by rw [List.head?_cons, hPrefix.2.2.1])
  have hMarks : a ≠ 0xFE ∧ a ≠ 0xFF := by omega
  unfold detectEncoding
  rw [hSig]
  simp only [List.isPrefixOf_cons_cons, Bool.or_eq_true, Bool.and_eq_true, beq_iff_eq, hFirst.1.symm, hMarks.1.symm,
    hMarks.2.symm, false_and, or_false, if_false, Bool.false_eq_true]
  split
  · rename_i hPair
    cases hPair
    simp [hFirst.1, hSecond]
  · rename_i hFour
    cases hFour
    simp [hFirst.1, hSecond]
  · rfl

section Zero

variable {hook : List (Text × Value) → Except Refusal Value} {depth : Option Nat}

end Zero

end PyJson
