import QsAi.Foundation.Codec
import QsAi.Foundation.JsonOrder

/-! The canonical text of a value: its keys sorted, no blanks, and characters
beyond ASCII by their numbers. Texts without lone surrogates and numbers without
fractions are read back from it as they were. -/
namespace PyJson

open Guarded TextEncoding

/-- A text of Unicode characters. -/
def ScalarText (word : Text) : Prop := ∀ c ∈ word, c < 0x110000 ∧ isSurrogate c = false

theorem scalarText_text (word : String) : ScalarText (text word) := by
  intro c hc
  obtain ⟨char, -, rfl⟩ := List.mem_map.mp hc
  have hValid : char.toNat < 0xD800 ∨ 0xDFFF < char.toNat ∧ char.toNat < 0x110000 := char.valid
  simp only [isSurrogate, Bool.and_eq_false_iff, decide_eq_false_iff_not]
  omega

theorem scalarText_ascii {word : Text} (h : ∀ c ∈ word, c < 128) : ScalarText word := by
  intro c hc
  have hLess := h c hc
  simp only [isSurrogate, Bool.and_eq_false_iff, decide_eq_false_iff_not]
  omega

/-- Values without doubles and without lone surrogates, their dictionaries with
different keys. -/
inductive Portable : Value → Prop
  | null : Portable .null
  | bool (flag : Bool) : Portable (.bool flag)
  | int (number : Int) : Portable (.int number)
  | string {word : Text} (hWord : ScalarText word) : Portable (.string word)
  | array {items : List Value} (hItems : ∀ item ∈ items, Portable item) : Portable (.array items)
  | object {fields : List (Text × Value)} (hDistinct : (fields.map (·.1)).Nodup)
      (hKeys : ∀ field ∈ fields, ScalarText field.1) (hFields : ∀ field ∈ fields, Portable field.2) : Portable (.object fields)

theorem Portable.wellFormed {value : Value} (h : Portable value) : value.WellFormed := by
  induction h with
  | null => trivial
  | bool => trivial
  | int => trivial
  | string => trivial
  | array _ ih => exact wellFormed_array.mpr ih
  | object hDistinct _ _ ih => exact wellFormed_object.mpr ⟨hDistinct, ih⟩

theorem Portable.sorted {value : Value} (h : Portable value) : Portable (sortKeys value) := by
  induction h with
  | null => exact .null
  | bool flag => exact .bool flag
  | int number => exact .int number
  | string hWord => exact .string hWord
  | @array items _ ih =>
      rw [sortKeys_array]
      refine .array fun item hMem => ?_
      obtain ⟨inner, hInner, rfl⟩ := List.mem_map.mp hMem
      exact ih inner hInner
  | @object fields hDistinct hKeys _ ih =>
      obtain ⟨sorted, hSorted, hPerm⟩ := sortKeys_object fields
      rw [hSorted]
      refine .object ((sortKeys_keys hPerm).nodup_iff.mpr hDistinct) (fun field hMem => ?_) fun field hMem => ?_
      · obtain ⟨inner, hInner, rfl⟩ := List.mem_map.mp (hPerm.mem_iff.mp hMem)
        exact hKeys inner hInner
      · obtain ⟨inner, hInner, rfl⟩ := List.mem_map.mp (hPerm.mem_iff.mp hMem)
        exact ih inner hInner

/-- A dictionary whose keys are strings of the program. -/
def dictionary (fields : List (String × Value)) : Value := .object (fields.map fun field => (text field.1, field.2))

theorem lookup_text (fields : List (String × Value)) (name : String) :
    (fields.map fun field => (text field.1, field.2)).lookup (text name) = fields.lookup name := by
  induction fields with
  | nil => rfl
  | cons field rest ih =>
      rw [List.map_cons, List.lookup_cons, List.lookup_cons, ih]
      by_cases hName : name = field.1
      · rw [hName, beq_self_eq_true, beq_self_eq_true]
      · rw [beq_false_of_ne hName, beq_false_of_ne fun h => hName (text_inj.mp h)]

theorem Portable.dictionary {fields : List (String × Value)} (hDistinct : (fields.map (·.1)).Nodup)
    (hFields : ∀ field ∈ fields, Portable field.2) : Portable (dictionary fields) := by
  refine .object ?_ (fun field hMem => ?_) fun field hMem => ?_
  · have hKeys := hDistinct.map fun _ _ h => text_inj.mp h
    rw [List.map_map] at hKeys ⊢
    exact hKeys
  · obtain ⟨inner, -, rfl⟩ := List.mem_map.mp hMem
    exact scalarText_text inner.1
  · obtain ⟨inner, hInner, rfl⟩ := List.mem_map.mp hMem
    exact hFields inner hInner

theorem Portable.texts (words : List String) : Portable (.array (words.map fun word => .string (text word))) := by
  refine .array fun item hMem => ?_
  obtain ⟨word, -, rfl⟩ := List.mem_map.mp hMem
  exact .string (scalarText_text word)

theorem Portable.item {value found : Value} {name : String} (h : Portable value) (hItem : value.item name = .ok found) :
    Portable found := by
  cases h with
  | object _ _ hFields =>
      rw [Value.item, demand_ok] at hItem
      exact hFields _ (mem_of_lookup hItem)
  | _ => cases hItem

/-! The writer's checks. -/

section Checks

variable {allowNan : Bool} {depth : Option Nat}

theorem checkItems_iff {items : List Value} :
    checkItems allowNan depth items = .ok () ↔ ∀ item ∈ items, checkWritten allowNan depth item = .ok () := by
  induction items with
  | nil => simp [checkItems, pure, Except.pure]
  | cons item rest ih => rw [checkItems_cons, ih, List.forall_mem_cons]

theorem checkFields_iff {fields : List (Text × Value)} :
    checkFields allowNan depth fields = .ok () ↔ ∀ field ∈ fields, checkWritten allowNan depth field.2 = .ok () := by
  induction fields with
  | nil => simp [checkFields, pure, Except.pure]
  | cons field rest ih =>
      obtain ⟨key, value⟩ := field
      rw [checkFields_cons, ih, List.forall_mem_cons]

/-- A value without doubles is not refused for a double. -/
theorem Portable.written {value : Value} (h : Portable value) :
    ∀ {depth : Option Nat}, checkWritten allowNan depth value = .ok () → checkWritten false depth (sortKeys value) = .ok () := by
  induction h with
  | null => exact fun _ => rfl
  | bool flag => exact fun _ => rfl
  | int number => exact id
  | string _ => exact fun _ => rfl
  | @array items _ ih =>
      intro depth hCheck
      obtain ⟨inner, hInner, hItems⟩ := checkWritten_array.mp hCheck
      rw [checkItems_iff] at hItems
      rw [sortKeys_array, checkWritten_array]
      refine ⟨inner, hInner, checkItems_iff.mpr fun item hMem => ?_⟩
      obtain ⟨before, hBefore, rfl⟩ := List.mem_map.mp hMem
      exact ih before hBefore (hItems before hBefore)
  | @object fields _ _ _ ih =>
      intro depth hCheck
      obtain ⟨inner, hInner, hFields⟩ := checkWritten_object.mp hCheck
      rw [checkFields_iff] at hFields
      obtain ⟨sorted, hSorted, hPerm⟩ := sortKeys_object fields
      rw [hSorted, checkWritten_object]
      refine ⟨inner, hInner, checkFields_iff.mpr fun field hMem => ?_⟩
      obtain ⟨before, hBefore, rfl⟩ := List.mem_map.mp (hPerm.mem_iff.mp hMem)
      exact ih before hBefore (hFields before hBefore)

end Checks

/-! The characters of a text. -/

/-- Characters that stand on one line and have numbers. -/
def Printed (c : Nat) : Prop := 32 ≤ c ∧ c < 0x110000 ∧ isSurrogate c = false

theorem printed_ascii {c : Nat} (hLow : 32 ≤ c) (hHigh : c < 128) : Printed c := by
  refine ⟨hLow, by omega, ?_⟩
  simp only [isSurrogate, Bool.and_eq_false_iff, decide_eq_false_iff_not]
  omega

theorem printed_escapeCode {c : Nat} (h : c < 0x110000 ∧ isSurrogate c = false) : ∀ d ∈ escapeCode c, Printed d := by
  have hAll : ∀ c < 128, ∀ d ∈ escapeCode c, 32 ≤ d ∧ d < 128 := by decide
  by_cases hLow : c < 128
  · exact fun d hd => printed_ascii (hAll c hLow d hd).1 (hAll c hLow d hd).2
  · intro d hd
    have hSame : escapeCode c = [c] := by
      unfold escapeCode
      repeat' split
      all_goals first | rfl | omega
    rw [hSame, List.mem_singleton] at hd
    exact hd ▸ ⟨by omega, h⟩

theorem printed_quoted {word : Text} (h : ScalarText word) : ∀ c ∈ quoted word, Printed c := by
  intro c hc
  rw [quoted, List.mem_cons, List.mem_append, List.mem_singleton, escapeText, List.mem_flatMap] at hc
  rcases hc with rfl | ⟨d, hd, hc⟩ | rfl
  · exact printed_ascii (by decide) (by decide)
  · exact printed_escapeCode (h d hd) c hc
  · exact printed_ascii (by decide) (by decide)

theorem printed_number {word : Text} (h : ∀ c ∈ word, numberCode c = true) : ∀ c ∈ word, Printed c := by
  intro c hc
  have hCode := h c hc
  simp only [numberCode, isDigit, Bool.or_eq_true, Bool.and_eq_true, decide_eq_true_eq, beq_iff_eq] at hCode
  exact printed_ascii (by omega) (by omega)

theorem printed_append {first second : Text} (hFirst : ∀ c ∈ first, Printed c) (hSecond : ∀ c ∈ second, Printed c) :
    ∀ c ∈ first ++ second, Printed c :=
  fun c hc => (List.mem_append.mp hc).elim (hFirst c) (hSecond c)

theorem printed_cons {c : Nat} {rest : Text} (hLow : 32 ≤ c) (hHigh : c < 128) (hRest : ∀ d ∈ rest, Printed d) :
    ∀ d ∈ c :: rest, Printed d :=
  List.forall_mem_cons.mpr ⟨printed_ascii hLow hHigh, hRest⟩

theorem printed_itemsText {items : List Value} (h : ∀ item ∈ items, ∀ c ∈ valueText compact item, Printed c) :
    ∀ c ∈ itemsText compact items, Printed c := by
  induction items with
  | nil => exact nofun
  | cons item rest ih =>
      obtain ⟨hItem, hRest⟩ := List.forall_mem_cons.mp h
      cases rest with
      | nil => exact hItem
      | cons next rest => exact printed_append hItem (printed_cons (by decide) (by decide) (ih hRest))

theorem printed_fieldsText {fields : List (Text × Value)} (hKeys : ∀ field ∈ fields, ScalarText field.1)
    (h : ∀ field ∈ fields, ∀ c ∈ valueText compact field.2, Printed c) : ∀ c ∈ fieldsText compact fields, Printed c := by
  induction fields with
  | nil => exact nofun
  | cons field rest ih =>
      obtain ⟨key, value⟩ := field
      obtain ⟨hKey, hKeys⟩ := List.forall_mem_cons.mp hKeys
      obtain ⟨hValue, hRest⟩ := List.forall_mem_cons.mp h
      cases rest with
      | nil => exact printed_append (printed_quoted hKey) (printed_cons (by decide) (by decide) hValue)
      | cons next rest =>
          have hShape : fieldsText compact ((key, value) :: next :: rest) =
              quoted key ++ 58 :: (valueText compact value ++ 44 :: fieldsText compact (next :: rest)) := rfl
          rw [hShape]
          exact printed_append (printed_quoted hKey) (printed_cons (by decide) (by decide)
            (printed_append hValue (printed_cons (by decide) (by decide) (ih hKeys hRest))))

theorem Portable.printed {value : Value} (h : Portable value) : ∀ c ∈ valueText compact value, Printed c := by
  induction h with
  | null => exact fun c hc => printed_ascii (by revert c; decide) (by revert c; decide)
  | bool flag =>
      cases flag with
      | true => exact fun c hc => printed_ascii (by revert c; decide) (by revert c; decide)
      | false => exact fun c hc => printed_ascii (by revert c; decide) (by revert c; decide)
  | int number => exact printed_number (numberCode_intText number)
  | string hWord => exact printed_quoted hWord
  | array _ ih =>
      exact printed_cons (by decide) (by decide)
        (printed_append (printed_itemsText ih) (printed_cons (by decide) (by decide) nofun))
  | object _ hKeys _ ih =>
      exact printed_cons (by decide) (by decide)
        (printed_append (printed_fieldsText hKeys ih) (printed_cons (by decide) (by decide) nofun))

/-! The canonical text. -/

/-- Not printable ASCII. -/
def beyondAscii (c : Nat) : Bool := 127 ≤ c

theorem beyondAscii_outside : OutsideGrammar beyondAscii := by
  intro c hc
  rw [beyondAscii, decide_eq_true_eq] at hc
  omega

/-- The text of `json.dumps` with sorted keys, without blanks, in ASCII. -/
def canonicalText (value : Value) : Text := respell beyondAscii (valueText compact (sortKeys value))

theorem numbered_ascii {unit : Nat} : ∀ c ∈ numbered unit, 32 ≤ c ∧ c < 127 := by
  have hHex : ∀ n < 16, 32 ≤ hexCode n ∧ hexCode n < 127 := by decide
  intro c hc
  simp only [numbered, List.mem_cons, List.not_mem_nil, or_false] at hc
  rcases hc with rfl | rfl | rfl | rfl | rfl | rfl
  · decide
  · decide
  · exact hHex _ (by omega)
  · exact hHex _ (by omega)
  · exact hHex _ (by omega)
  · exact hHex _ (by omega)

/-- The canonical text is one line of ASCII. -/
theorem canonicalText_ascii {value : Value} (h : Portable value) : ∀ c ∈ canonicalText value, 32 ≤ c ∧ c < 127 := by
  intro c hc
  obtain ⟨d, hd, hc⟩ := List.mem_flatMap.mp hc
  have hPrinted := h.sorted.printed d hd
  split at hc
  · unfold respelled at hc
    split at hc
    · exact numbered_ascii c hc
    · exact (List.mem_append.mp hc).elim (numbered_ascii c) (numbered_ascii c)
  · rename_i hKept
    rw [beyondAscii, decide_eq_true_eq, not_le] at hKept
    rw [List.mem_singleton.mp hc]
    exact ⟨hPrinted.1, hKept⟩

theorem loads_canonicalText {hook : List (Text × Value) → Except Refusal Value} (hHook : Keeps hook) {allowNan : Bool}
    {depth : Option Nat} {value : Value} (h : Portable value) (hCheck : checkWritten allowNan depth value = .ok ()) :
    loads hook none (canonicalText value) = .ok (sortKeys value) :=
  loads_respell beyondAscii_outside (fun c hc _ => (h.sorted.printed c hc).2)
    (loads_valueText hHook h.sorted.wellFormed (h.written hCheck))

/-- The canonical text of a dictionary with members starts like one. -/
theorem canonicalText_object {fields : List (Text × Value)} (hSome : fields ≠ []) :
    ∃ rest, canonicalText (.object fields) = 123 :: 34 :: rest := by
  obtain ⟨sorted, hSorted, hPerm⟩ := sortKeys_object fields
  obtain ⟨field, others, rfl⟩ : ∃ field others, sorted = field :: others := by
    refine List.exists_cons_of_ne_nil fun hNil => hSome ?_
    have hLength := hPerm.length_eq
    rw [hNil, List.length_nil, List.length_map] at hLength
    exact List.length_eq_zero_iff.mp hLength.symm
  obtain ⟨rest, hRest⟩ := fieldsText_starts field others
  rw [canonicalText, hSorted, valueText, hRest]
  exact ⟨_, rfl⟩

end PyJson
