import QsAi.Foundation.Standing
import QsAi.Foundation.PyObject
import QsAi.Interpretation.Output

/-! Type codes in an output. The scan runs over the written document, so a code
is looked for in the escaped text of every string, where some escapes end in a
letter. -/
namespace QsAi

open Guarded PyJson Standing

namespace ReportOutput

/-! What the scan finds. -/

/-- A type code stands in the text. -/
def Stands (before : Option Nat) (code input : Text) : Prop := StandsFrom isWordLetter isWordLetter isTypeCode before code input

theorem typeCode_proper : Proper isTypeCode := rfl

theorem typeCode_letters {code : Text} (h : isTypeCode code = true) : ∃ a b c d, code = [a, b, c, d] ∧
    isAttitude a = true ∧ isPerception b = true ∧ isJudgement c = true ∧ isLifestyle d = true := by
  unfold isTypeCode at h
  split at h
  · rename_i a b c d
    simp only [Bool.and_eq_true] at h
    exact ⟨a, b, c, d, rfl, h.1.1.1, h.1.1.2, h.1.2, h.2⟩
  · cases h

theorem attitude_letter {c : Nat} (h : isAttitude c = true) : isWordLetter c = true := by
  simp only [isAttitude, Bool.or_eq_true, beq_iff_eq] at h
  rcases h with ((((rfl | rfl) | rfl) | rfl) | rfl) | rfl <;> rfl

theorem perception_letter {c : Nat} (h : isPerception c = true) : isWordLetter c = true := by
  simp only [isPerception, Bool.or_eq_true, beq_iff_eq] at h
  rcases h with (((rfl | rfl) | rfl) | rfl) | rfl <;> rfl

theorem judgement_letter {c : Nat} (h : isJudgement c = true) : isWordLetter c = true := by
  simp only [isJudgement, Bool.or_eq_true, beq_iff_eq] at h
  rcases h with ((rfl | rfl) | rfl) | rfl <;> rfl

theorem lifestyle_letter {c : Nat} (h : isLifestyle c = true) : isWordLetter c = true := by
  simp only [isLifestyle, Bool.or_eq_true, beq_iff_eq] at h
  rcases h with ((rfl | rfl) | rfl) | rfl <;> rfl

theorem typeCode_spelled : Spelled isWordLetter isTypeCode := by
  intro code hCode
  obtain ⟨a, b, c, d, rfl, ha, hb, hc, hd⟩ := typeCode_letters hCode
  simp only [List.forall_mem_cons, List.not_mem_nil, false_implies, implies_true, and_true]
  exact ⟨attitude_letter ha, perception_letter hb, judgement_letter hc, lifestyle_letter hd⟩

theorem startsCode_iff {before : Option Nat} {input : Text} : startsCode before input = true ↔
    StandsHere isWordLetter isWordLetter isTypeCode before (input.take 4) input := by
  have hClear : ∀ neighbour : Option Nat, (!neighbour.any isWordLetter) = true ↔ Clear isWordLetter neighbour := by
    intro neighbour
    cases neighbour <;> simp
  rw [startsCode, Bool.and_eq_true, Bool.and_eq_true, hClear, hClear]
  constructor
  · rintro ⟨⟨hBefore, hCode⟩, hBack⟩
    exact ⟨hCode, hBefore, input.drop 4, (List.take_append_drop 4 input).symm, hBack⟩
  · rintro ⟨hCode, hBefore, back, hInput, hBack⟩
    refine ⟨⟨hBefore, hCode⟩, ?_⟩
    have hDrop : input.drop 4 = back := List.append_cancel_left ((List.take_append_drop 4 input).trans hInput)
    rw [hDrop]
    exact hBack

/-- A code that stands at the start is made of the first four characters. -/
theorem standsHere_take {before : Option Nat} {code input : Text} (h : StandsHere isWordLetter isWordLetter isTypeCode before code input) :
    code = input.take 4 := by
  obtain ⟨hCode, -, back, rfl, -⟩ := h
  obtain ⟨a, b, c, d, rfl, -⟩ := typeCode_letters hCode
  rfl

/-- After a letter no code starts. -/
theorem not_standsHere {c : Nat} (hLetter : isWordLetter c = true) {code input : Text} :
    ¬ StandsHere isWordLetter isWordLetter isTypeCode (some c) code input := by
  rintro ⟨-, hBefore, -⟩
  rw [clear_some, hLetter] at hBefore
  cases hBefore

/-- The scan finds exactly the codes that stand in the text; behind a match it
skips letters only. -/
theorem mem_mentionedFrom {code input : Text} {before : Option Nat} {skip : Nat}
    (hSkip : skip ≠ 0 → (∃ c, before = some c ∧ isWordLetter c = true) ∧ ∀ c ∈ input.take skip, isWordLetter c = true) :
    code ∈ mentionedFrom before skip input ↔ Stands before code input := by
  induction input generalizing before skip with
  | nil => simp [mentionedFrom, Stands, not_standsFrom_nil typeCode_proper]
  | cons c rest ih =>
      cases skip with
      | zero =>
          rw [mentionedFrom, Stands, standsFrom_cons]
          split
          · rename_i hStarts
            have hHere := startsCode_iff.mp hStarts
            have hLetters := typeCode_spelled _ hHere.1
            have hFirst : isWordLetter c = true := hLetters c List.mem_cons_self
            have hRest : ∀ d ∈ rest.take 3, isWordLetter d = true := fun d hd => hLetters d (List.mem_cons_of_mem _ hd)
            rw [List.mem_cons, ih fun _ => ⟨⟨c, rfl, hFirst⟩, hRest⟩]
            exact or_congr_left ⟨fun h => h ▸ hHere, standsHere_take⟩
          · rename_i hStarts
            rw [ih (by simp)]
            refine (or_iff_right fun hHere => hStarts ?_).symm
            rw [startsCode_iff]
            exact standsHere_take hHere ▸ hHere
      | succ skip =>
          obtain ⟨⟨letter, rfl, hLetter⟩, hAll⟩ := hSkip (by omega)
          rw [List.take_succ_cons, List.forall_mem_cons] at hAll
          rw [mentionedFrom, Stands, standsFrom_cons, ih fun _ => ⟨⟨c, rfl, hAll.1⟩, hAll.2⟩]
          exact (or_iff_right (not_standsHere hLetter)).symm

theorem mem_mentioned {code narrative : Text} : code ∈ mentioned narrative ↔ Stands none code narrative :=
  mem_mentionedFrom nofun

/-! Where codes stand in a document. -/

theorem stands_separator {separator : Nat} (h : isWordLetter separator = false) {before : Option Nat} {code left right : Text} :
    Stands before code (left ++ separator :: right) ↔ Stands before code left ∨ Stands none code right :=
  standsFrom_separator typeCode_proper typeCode_spelled h h

theorem stands_after {separator : Nat} (h : isWordLetter separator = false) {before : Option Nat} {code right : Text} :
    Stands before code (separator :: right) ↔ Stands none code right := by
  have hSplit : Stands before code ([] ++ separator :: right) ↔ Stands before code [] ∨ Stands none code right :=
    stands_separator h
  rw [List.nil_append] at hSplit
  rw [hSplit]
  exact or_iff_right (not_standsFrom_nil typeCode_proper)

theorem not_stands_nil {before : Option Nat} {code : Text} : ¬ Stands before code [] := not_standsFrom_nil typeCode_proper

/-- Where no second letter of a code occurs, no code stands. -/
theorem not_stands_of_no_perception {before : Option Nat} {code input : Text} (h : ∀ c ∈ input, isPerception c = false) :
    ¬ Stands before code input := by
  rintro ⟨hCode, front, back, rfl, -⟩
  obtain ⟨a, b, c, d, rfl, -, hb, -⟩ := typeCode_letters hCode
  have hNone := h b (by simp)
  rw [hb] at hNone
  cases hNone

theorem not_stands_number {before : Option Nat} {code input : Text} (h : ∀ c ∈ input, numberCode c = true) :
    ¬ Stands before code input := by
  apply not_stands_of_no_perception
  intro c hc
  have hNumber := h c hc
  rw [Bool.eq_false_iff]
  intro hPerception
  simp only [isPerception, Bool.or_eq_true, beq_iff_eq] at hPerception
  rcases hPerception with (((rfl | rfl) | rfl) | rfl) | rfl <;> cases hNumber

theorem not_stands_of_mentioned {code input : Text} (h : mentioned input = []) : ¬ Stands none code input := by
  rw [← mem_mentioned, h]
  exact List.not_mem_nil

/-- A code stands in a quoted string when it stands in the escaped text. -/
theorem stands_quoted {code value : Text} : Stands none code (quoted value) ↔ Stands none code (escapeText value) := by
  rw [quoted, stands_after rfl, stands_separator rfl]
  exact or_iff_left not_stands_nil

theorem spaced_item : spaced.item = [44, 32] := rfl

theorem spaced_key : spaced.key = [58, 32] := rfl

mutual

/-- A code stands in the text of a document exactly when it stands in the escaped
text of one of its strings. -/
theorem stands_valueText {code : Text} : ∀ value : Value,
    Stands none code (valueText spaced value) ↔ ∃ found ∈ texts true value, Stands none code (escapeText found)
  | .null => by
      simp only [valueText, texts, List.not_mem_nil, false_and, exists_false, iff_false]
      exact not_stands_of_mentioned (by decide)
  | .bool value => by
      simp only [valueText, texts, List.not_mem_nil, false_and, exists_false, iff_false]
      cases value
      · exact not_stands_of_mentioned (by decide)
      · exact not_stands_of_mentioned (by decide)
  | .int value => by
      simp only [valueText, texts, List.not_mem_nil, false_and, exists_false, iff_false]
      exact not_stands_number (numberCode_intText value)
  | .float value => by
      simp only [valueText, texts, List.not_mem_nil, false_and, exists_false, iff_false]
      cases value with
      | finite value => exact not_stands_number (numberCode_floatText value)
      | infinite negative =>
          cases negative
          · exact not_stands_of_mentioned (by decide)
          · exact not_stands_of_mentioned (by decide)
  | .string value => by
      simp only [valueText, texts, List.mem_singleton, exists_eq_left]
      exact stands_quoted
  | .array items => by
      rw [valueText, texts, stands_after rfl, stands_separator rfl, stands_itemsText items]
      exact or_iff_left not_stands_nil
  | .object fields => by
      rw [valueText, texts, stands_after rfl, stands_separator rfl, stands_fieldsText fields]
      exact or_iff_left not_stands_nil
termination_by structural value => value

theorem stands_itemsText {code : Text} : ∀ items : List Value,
    Stands none code (itemsText spaced items) ↔ ∃ found ∈ textsOfItems true items, Stands none code (escapeText found)
  | [] => by simp [itemsText, textsOfItems, not_stands_nil]
  | [item] => by
      rw [itemsText, textsOfItems, textsOfItems, List.append_nil]
      exact stands_valueText item
  | item :: next :: rest => by
      have hRest : Stands none code (itemsText spaced (next :: rest)) ↔ _ := stands_itemsText (next :: rest)
      rw [itemsText, textsOfItems, spaced_item]
      simp only [List.cons_append, List.nil_append, List.mem_append, or_and_right, exists_or]
      rw [stands_separator rfl, stands_after rfl, stands_valueText item]
      exact or_congr_right hRest
termination_by structural items => items

theorem stands_fieldsText {code : Text} : ∀ fields : List (Text × Value),
    Stands none code (fieldsText spaced fields) ↔ ∃ found ∈ textsOfFields true fields, Stands none code (escapeText found)
  | [] => by simp [fieldsText, textsOfFields, not_stands_nil]
  | [(name, value)] => by
      rw [fieldsText, textsOfFields, textsOfFields, List.append_nil, spaced_key, if_pos rfl]
      simp only [List.cons_append, List.nil_append, List.mem_cons, exists_eq_or_imp]
      rw [stands_separator rfl, stands_after rfl, stands_quoted, stands_valueText value]
  | (name, value) :: next :: rest => by
      have hRest : Stands none code (fieldsText spaced (next :: rest)) ↔ _ := stands_fieldsText (next :: rest)
      rw [fieldsText, textsOfFields, spaced_key, spaced_item, if_pos rfl]
      simp only [List.cons_append, List.nil_append, List.mem_cons, List.mem_append, or_and_right, exists_or, exists_eq_left]
      rw [stands_separator rfl, stands_after rfl, stands_quoted, stands_separator rfl, stands_after rfl, stands_valueText value]
      exact or_congr_right (or_congr_right hRest)
termination_by structural fields => fields

end

/-! Codes in a string and in its escaped text. -/

/-- The escape of the character ends in a letter: it is one of the short ones, or
its last digit is one. -/
def endsInLetter (c : Nat) : Bool := (8 ≤ c && c ≤ 15) || (26 ≤ c && c ≤ 31)

/-- In the written document the character joins on to what follows it. -/
def joinsOn (c : Nat) : Bool := isWordLetter c || endsInLetter c

/-- A code stands in the string, and nothing joins on to it. -/
def StandsClear (before : Option Nat) (code value : Text) : Prop :=
  StandsFrom joinsOn isWordLetter isTypeCode before code value

/-- The escape of a control character ends in the first letter of the code, and
the string goes on with the other ones. -/
def StandsSplit (code value : Text) : Prop :=
  ∃ front c rest back, value = front ++ c :: (rest ++ back) ∧ (c = 14 ∨ c = 30) ∧ code = 101 :: rest ∧
    isTypeCode code = true ∧ Clear isWordLetter back.head?

/-- The document shows a type other than the expected one by this string. -/
def Shows (expected : Value) (value : Text) : Prop :=
  ∃ code, (StandsClear none code value ∨ StandsSplit code value) ∧ expected.isText (code.map upperLetter) = false

/-- What the check of types says of a document that can be written. -/
theorem checkTypes_conflict {depth : Nat} {expected content : Value} (hWritten : checkWritten true (some depth) content = .ok ()) :
    checkTypes depth expected content =
      if typeConflict expected (valueText spaced content) then invalidOutput "mbti_type_conflict" else pure () := by
  have hDump : native (dumps spaced true (some depth) content) = (.ok (valueText spaced content) : OutputCheck Text) :=
    native_ok.mpr (dumps_ok.mpr ⟨hWritten, rfl⟩)
  rw [checkTypes, hDump, ok_bind]

end ReportOutput

end QsAi
