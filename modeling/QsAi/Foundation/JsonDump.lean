import QsAi.Foundation.FloatText
import QsAi.Foundation.TextEncoding

/-! The JSON writer of Python. Values are written in the order they are held,
characters beyond ASCII as they are; what was written without blanks is read back
as the same value. -/
namespace PyJson

open Guarded TextEncoding

/-- Exceptions of the language itself. -/
inductive Fault
  | key
  | type
  | attribute
  | value
  | index
  | overflow
  | recursion
deriving DecidableEq, Repr

/-- What stands between two members, and between a key and its value. -/
structure Layout where
  item : Text
  key : Text

/-- `separators=(",", ":")`. -/
def compact : Layout := ⟨[44], [58]⟩

/-- The separators when none are given. -/
def spaced : Layout := ⟨[44, 32], [58, 32]⟩

/-- One character of a string literal. -/
def escapeCode (c : Nat) : Text :=
  if c = 34 ∨ c = 92 then [92, c]
  else if c = 8 then [92, 98]
  else if c = 9 then [92, 116]
  else if c = 10 then [92, 110]
  else if c = 12 then [92, 102]
  else if c = 13 then [92, 114]
  else if c < 32 then [92, 117, 48, 48, hexCode (c / 16), hexCode (c % 16)]
  else [c]

/-- The inside of a string literal. -/
def escapeText (value : Text) : Text := value.flatMap escapeCode

theorem escapeText_cons (c : Nat) (value : Text) : escapeText (c :: value) = escapeCode c ++ escapeText value := by
  rw [escapeText, List.flatMap_cons]
  rfl

theorem escapeText_append (first second : Text) : escapeText (first ++ second) = escapeText first ++ escapeText second := by
  rw [escapeText, List.flatMap_append]
  rfl

def quoted (value : Text) : Text := 34 :: (escapeText value ++ [34])

def intText (value : Int) : Text := (if value < 0 then [45] else []) ++ printNat value.natAbs

theorem numberCode_intText (value : Int) : ∀ c ∈ intText value, numberCode c = true := by
  refine numberCode_append ?_ (numberCode_printNat _)
  split
  · decide
  · exact nofun

section Write

variable (layout : Layout)

mutual

/-- The text of a value. -/
def valueText : Value → Text
  | .null => text "null"
  | .bool value => if value then text "true" else text "false"
  | .int value => intText value
  | .float value => floatText value
  | .string value => quoted value
  | .array items => 91 :: (itemsText items ++ [93])
  | .object fields => 123 :: (fieldsText fields ++ [125])
termination_by structural value => value

def itemsText : List Value → Text
  | [] => []
  | [item] => valueText item
  | item :: next :: rest => valueText item ++ (layout.item ++ itemsText (next :: rest))
termination_by structural items => items

def fieldsText : List (Text × Value) → Text
  | [] => []
  | [(key, value)] => quoted key ++ (layout.key ++ valueText value)
  | (key, value) :: next :: rest =>
      quoted key ++ (layout.key ++ (valueText value ++ (layout.item ++ fieldsText (next :: rest))))
termination_by structural fields => fields

end

end Write

section Check

variable (allowNan : Bool)

mutual

/-- What the writer refuses: integers with too many digits, numbers that are not
finite unless they are allowed, and nesting beyond the interpreter's limit. -/
def checkWritten : Option Nat → Value → Except Fault Unit
  | _, .int value => require ((printNat value.natAbs).length ≤ maxStrDigits) .value
  | _, .float (.infinite _) => require (allowNan = true) .value
  | depth, .array items => do
      let depth ← demand (deeper depth) .recursion
      checkItems depth items
  | depth, .object fields => do
      let depth ← demand (deeper depth) .recursion
      checkFields depth fields
  | _, _ => pure ()
termination_by structural _ value => value

def checkItems : Option Nat → List Value → Except Fault Unit
  | _, [] => pure ()
  | depth, item :: rest => do
      checkWritten depth item
      checkItems depth rest
termination_by structural _ items => items

def checkFields : Option Nat → List (Text × Value) → Except Fault Unit
  | _, [] => pure ()
  | depth, (_, value) :: rest => do
      checkWritten depth value
      checkFields depth rest
termination_by structural _ fields => fields

end

end Check

/-- `json.dumps` with `ensure_ascii=False`. -/
def dumps (layout : Layout) (allowNan : Bool) (depth : Option Nat) (value : Value) : Except Fault Text := do
  checkWritten allowNan depth value
  pure (valueText layout value)

section Checked

variable {allowNan : Bool} {depth : Option Nat}

theorem checkItems_cons {item : Value} {rest : List Value} : checkItems allowNan depth (item :: rest) = .ok () ↔
    checkWritten allowNan depth item = .ok () ∧ checkItems allowNan depth rest = .ok () := by
  rw [checkItems, bind_ok]
  exact ⟨fun ⟨_, hItem, hRest⟩ => ⟨hItem, hRest⟩, fun ⟨hItem, hRest⟩ => ⟨⟨⟩, hItem, hRest⟩⟩

theorem checkFields_cons {key : Text} {value : Value} {rest : List (Text × Value)} :
    checkFields allowNan depth ((key, value) :: rest) = .ok () ↔
      checkWritten allowNan depth value = .ok () ∧ checkFields allowNan depth rest = .ok () := by
  rw [checkFields, bind_ok]
  exact ⟨fun ⟨_, hValue, hRest⟩ => ⟨hValue, hRest⟩, fun ⟨hValue, hRest⟩ => ⟨⟨⟩, hValue, hRest⟩⟩

theorem checkWritten_array {items : List Value} : checkWritten allowNan depth (.array items) = .ok () ↔
    ∃ inner, deeper depth = some inner ∧ checkItems allowNan inner items = .ok () := by
  simp only [checkWritten, bind_ok, demand_ok]

theorem checkWritten_object {fields : List (Text × Value)} : checkWritten allowNan depth (.object fields) = .ok () ↔
    ∃ inner, deeper depth = some inner ∧ checkFields allowNan inner fields = .ok () := by
  simp only [checkWritten, bind_ok, demand_ok]

theorem dumps_ok {layout : Layout} {value : Value} {written : Text} : dumps layout allowNan depth value = .ok written ↔
    checkWritten allowNan depth value = .ok () ∧ written = valueText layout value := by
  rw [dumps, bind_ok]
  simp only [pure_ok]
  constructor
  · rintro ⟨_, hCheck, hText⟩
    exact ⟨hCheck, hText.symm⟩
  · rintro ⟨hCheck, hText⟩
    exact ⟨⟨⟩, hCheck, hText.symm⟩

end Checked

/-! Values that programs hold. -/

mutual

/-- Dictionaries have different keys, and every float is a double. -/
def Value.WellFormed : Value → Prop
  | .float (.finite value) => Binary64.Exact value
  | .array items => ItemsWellFormed items
  | .object fields => (fields.map (·.1)).Nodup ∧ FieldsWellFormed fields
  | _ => True
termination_by structural value => value

def ItemsWellFormed : List Value → Prop
  | [] => True
  | item :: rest => item.WellFormed ∧ ItemsWellFormed rest
termination_by structural items => items

def FieldsWellFormed : List (Text × Value) → Prop
  | [] => True
  | (_, value) :: rest => value.WellFormed ∧ FieldsWellFormed rest
termination_by structural fields => fields

end

/-! Reading back what was written. -/

theorem hexUnit_control {c : Nat} (h : c < 32) :
    hexUnit 48 48 (hexCode (c / 16)) (hexCode (c % 16)) = some c := by
  have hAll : ∀ c < 32, hexUnit 48 48 (hexCode (c / 16)) (hexCode (c % 16)) = some c := by decide
  exact hAll c h

theorem pushUnit_control {c : Nat} (h : c < 32) (units : List (Nat × Bool)) : pushUnit c units = (c, true) :: units := by
  have hHigh : isHigh c = false := by
    simp only [isHigh, Bool.and_eq_false_iff, decide_eq_false_iff_not]
    omega
  cases units with
  | nil => rfl
  | cons unit units => simp [pushUnit, hHigh]

theorem scanUnits_short {e c : Nat} {rest after : Text} {units : List (Nat × Bool)} (hOther : e ≠ 117)
    (hEscape : shortEscape e = some c) (h : scanUnits rest = .ok (units, after)) :
    scanUnits (92 :: e :: rest) = .ok ((c, false) :: units, after) := by
  unfold scanUnits
  rw [if_neg (by decide), if_neg (by decide), if_neg (by decide)]
  simp only [if_neg hOther, hEscape, h]
  rfl

/-- One written character is read as itself. -/
theorem scanUnits_escapeCode (c : Nat) {rest after : Text} {units : List (Nat × Bool)}
    (h : scanUnits rest = .ok (units, after)) :
    ∃ flag, scanUnits (escapeCode c ++ rest) = .ok ((c, flag) :: units, after) := by
  unfold escapeCode
  split
  · rename_i hMeta
    rcases hMeta with rfl | rfl
    · exact ⟨false, scanUnits_short (by decide) rfl h⟩
    · exact ⟨false, scanUnits_short (by decide) rfl h⟩
  rename_i hMeta
  split
  · exact ⟨false, scanUnits_short (by decide) (by subst c; rfl) h⟩
  split
  · exact ⟨false, scanUnits_short (by decide) (by subst c; rfl) h⟩
  split
  · exact ⟨false, scanUnits_short (by decide) (by subst c; rfl) h⟩
  split
  · exact ⟨false, scanUnits_short (by decide) (by subst c; rfl) h⟩
  split
  · exact ⟨false, scanUnits_short (by decide) (by subst c; rfl) h⟩
  split
  · rename_i hControl
    have hHex := hexUnit_control hControl
    refine ⟨true, ?_⟩
    simp only [List.cons_append, List.nil_append]
    unfold scanUnits
    rw [if_neg (by decide), if_neg (by decide), if_neg (by decide)]
    simp only [if_true, hHex, h, ok_bind, pushUnit_control hControl]
  · rename_i hPrinted
    refine ⟨false, ?_⟩
    rw [List.cons_append, List.nil_append]
    unfold scanUnits
    rw [if_neg (by tauto), if_neg hPrinted, if_pos (by tauto), h]
    rfl

theorem scanString_escapeText (value rest : Text) : scanString (escapeText value ++ 34 :: rest) = .ok (value, rest) := by
  have hUnits : ∃ units, scanUnits (escapeText value ++ 34 :: rest) = .ok (units, rest) ∧ units.map (·.1) = value := by
    induction value with
    | nil =>
        refine ⟨[], ?_, rfl⟩
        rw [escapeText, List.flatMap_nil, List.nil_append]
        unfold scanUnits
        rfl
    | cons c value ih =>
        obtain ⟨units, hScan, hValue⟩ := ih
        obtain ⟨flag, hFirst⟩ := scanUnits_escapeCode c hScan
        refine ⟨(c, flag) :: units, ?_, by rw [List.map_cons, hValue]⟩
        rw [escapeText, List.flatMap_cons, List.append_assoc]
        exact hFirst
  obtain ⟨units, hScan, hValue⟩ := hUnits
  rw [scanString, hScan, ok_bind]
  simp only [hValue]

theorem scanNumber_intText {value : Int} (hDigits : (printNat value.natAbs).length ≤ maxStrDigits) {rest : Text}
    (hRest : Stops rest) : scanNumber (intText value ++ rest) = .ok (.int value, rest) := by
  have hWhole : scanWhole (printNat value.natAbs ++ rest) = some (printNat value.natAbs, rest) :=
    scanWhole_printNat _ fun c hc => (hRest c hc).1
  have hMinus : (printNat value.natAbs).head? ≠ some 45 := by
    intro hHead
    have hBounds := printNat_digits _ 45 (List.mem_of_mem_head? hHead)
    omega
  have hScan := scanNumber_whole (decide (value < 0)) hMinus hWhole hRest hDigits
  rw [digitsValue_printNat] at hScan
  simp only [decide_eq_true_eq] at hScan
  rw [intText, List.append_assoc, hScan]
  congr 3
  split <;> omega

theorem number_head {input rest : Text} {value : Value} (h : scanNumber input = .ok (value, rest)) :
    ∃ c tail, input = c :: tail ∧ (c = 45 ∨ isDigit c = true) := by
  cases input with
  | nil => cases h
  | cons c tail =>
      refine ⟨c, tail, rfl, ?_⟩
      by_contra hOther
      rw [not_or, Bool.not_eq_true] at hOther
      have hWhole : scanWhole (c :: tail) = none := by
        rw [scanWhole, if_neg, if_neg (by simp [hOther.2])]
        rintro rfl
        exact absurd hOther.2 (by decide)
      unfold scanNumber at h
      simp only [if_neg hOther.1, hWhole] at h
      cases h

section Read

variable {hook : List (Text × Value) → Except Refusal Value} {depth : Option Nat}

/-- A number is read by the reader of numbers. -/
theorem scanValue_number {input rest : Text} {value : Value} (h : scanNumber input = .ok (value, rest)) (fuel : Nat) :
    scanValue hook (fuel + 1) depth input = .ok (value, rest) := by
  obtain ⟨c, tail, rfl, hc⟩ := number_head h
  have hBounds : c = 45 ∨ 48 ≤ c ∧ c ≤ 57 := by
    rcases hc with rfl | hc
    · exact .inl rfl
    · simp only [isDigit, Bool.and_eq_true, decide_eq_true_eq] at hc
      exact .inr hc
  have hWord : scanWord (c :: tail) = none := by
    have hLetter : c ≠ 110 ∧ c ≠ 116 ∧ c ≠ 102 := by omega
    simp [scanWord, text, hLetter]
  rw [scanValue, if_neg (by omega), if_neg (by omega), if_neg (by omega), hWord]
  exact h

/-- Values start with a character of their own. -/
def Starts (input : Text) : Prop :=
  ∃ c tail, input = c :: tail ∧ c < 125 ∧ c ≠ 32 ∧ c ≠ 9 ∧ c ≠ 10 ∧ c ≠ 13 ∧ c ≠ 93

theorem starts_of_number {input rest : Text} {value : Value} (h : scanNumber input = .ok (value, rest)) : Starts input := by
  obtain ⟨c, tail, rfl, hc⟩ := number_head h
  refine ⟨c, tail, rfl, ?_⟩
  rcases hc with rfl | hc
  · decide
  · simp only [isDigit, Bool.and_eq_true, decide_eq_true_eq] at hc
    omega

theorem Starts.append {input : Text} (h : Starts input) (rest : Text) : Starts (input ++ rest) := by
  obtain ⟨c, tail, rfl, hc⟩ := h
  exact ⟨c, tail ++ rest, rfl, hc⟩

theorem Starts.skipSpace {input : Text} (h : Starts input) : skipSpace input = input := by
  obtain ⟨c, tail, rfl, hc⟩ := h
  exact skipSpace_cons (by tauto) _

theorem Starts.head {input : Text} (h : Starts input) : input.head? ≠ some 93 ∧ input.head? ≠ some 125 := by
  obtain ⟨c, tail, rfl, hc⟩ := h
  simp only [List.head?_cons, ne_eq, Option.some.injEq]
  omega

/-- What the writer accepted starts like a value. -/
theorem valueText_starts {value : Value} (hWell : value.WellFormed) (hCheck : checkWritten false depth value = .ok ()) :
    Starts (valueText compact value) := by
  cases value with
  | null => exact ⟨110, _, rfl, by decide⟩
  | bool value => cases value <;> exact ⟨_, _, rfl, by decide⟩
  | int value =>
      simp only [checkWritten, require_ok] at hCheck
      have hScan := scanNumber_intText hCheck (show Stops [] by simp [Stops])
      rw [List.append_nil] at hScan
      exact starts_of_number hScan
  | float value =>
      cases value with
      | infinite negative =>
          simp only [checkWritten, require_ok] at hCheck
          cases hCheck
      | finite value =>
          have hScan := scanNumber_floatText hWell (show Stops [] by simp [Stops])
          rw [List.append_nil] at hScan
          exact starts_of_number hScan
  | string value => exact ⟨34, _, rfl, by decide⟩
  | array items => exact ⟨91, _, rfl, by decide⟩
  | object fields => exact ⟨123, _, rfl, by decide⟩

theorem Starts.length {input : Text} (h : Starts input) : 1 ≤ input.length := by
  obtain ⟨c, tail, rfl, -⟩ := h
  simp

theorem itemsText_starts {item : Value} {rest : List Value} (h : Starts (valueText compact item)) :
    Starts (itemsText compact (item :: rest)) := by
  cases rest with
  | nil => exact h
  | cons next rest => exact h.append _

theorem fieldsText_starts (field : Text × Value) (rest : List (Text × Value)) :
    ∃ more, fieldsText compact (field :: rest) = 34 :: more := by
  cases rest with
  | nil => exact ⟨_, rfl⟩
  | cons next rest => exact ⟨_, rfl⟩

theorem stops_of_code {c : Nat} (h : c = 44 ∨ c = 93 ∨ c = 125) (rest : Text) : Stops (c :: rest) := by
  rintro d ⟨⟩
  rcases h with rfl | rfl | rfl <;> decide

/-- A hook that keeps dictionaries whose keys differ. -/
def Keeps (hook : List (Text × Value) → Except Refusal Value) : Prop :=
  ∀ fields, (fields.map (·.1)).Nodup → hook fields = .ok (.object fields)

mutual

/-- The reader takes a written value back, whatever stops it. -/
theorem scanValue_valueText (hHook : Keeps hook) : ∀ {value : Value} {allowed : Option Nat}, value.WellFormed →
    checkWritten false allowed value = .ok () → ∀ {fuel : Nat} {rest : Text}, Stops rest →
    2 * (valueText compact value).length ≤ fuel →
    scanValue hook fuel none (valueText compact value ++ rest) = .ok (value, rest)
  | value, allowed, hWell, hCheck, fuel, rest, hRest, hFuel => by
    have hStarts := valueText_starts hWell hCheck
    have hLength := hStarts.length
    obtain ⟨fuel, rfl⟩ : ∃ less, fuel = less + 1 := ⟨fuel - 1, by omega⟩
    match value with
    | .null => simp [valueText, text, scanValue, scanWord]
    | .bool true => simp [valueText, text, scanValue, scanWord]
    | .bool false => simp [valueText, text, scanValue, scanWord]
    | .int value =>
        simp only [checkWritten, require_ok] at hCheck
        exact scanValue_number (scanNumber_intText hCheck hRest) fuel
    | .float (.finite value) => exact scanValue_number (scanNumber_floatText hWell hRest) fuel
    | .float (.infinite negative) =>
        simp only [checkWritten, require_ok] at hCheck
        cases hCheck
    | .string value =>
        have hScan := scanString_escapeText value rest
        rw [valueText, quoted, List.cons_append, List.append_assoc, List.singleton_append, scanValue, if_pos rfl, hScan]
        rfl
    | .array [] =>
        rw [valueText, itemsText, List.nil_append, List.cons_append, scanValue, if_neg (by decide), if_neg (by decide),
          if_pos rfl]
        simp [deeper, skipSpace]
    | .array (item :: items) =>
        obtain ⟨inner, -, hCheck⟩ := checkWritten_array.mp hCheck
        have hItem : Starts (itemsText compact (item :: items)) :=
          itemsText_starts (valueText_starts hWell.1 (checkItems_cons.mp hCheck).1)
        have hScan : scanItems hook fuel none (itemsText compact (item :: items) ++ 93 :: rest) = .ok (item :: items, rest) :=
          scanItems_itemsText hHook (by simp) hWell hCheck (by simp only [valueText, List.length_cons, List.length_append] at hFuel; simp; omega)
        rw [valueText, List.cons_append, List.append_assoc, List.singleton_append, scanValue, if_neg (by decide),
          if_neg (by decide), if_pos rfl]
        simp only [deeper]
        rw [(hItem.append _).skipSpace, if_neg (hItem.append _).head.1, hScan]
        rfl
    | .object [] =>
        rw [valueText, fieldsText, List.nil_append, List.cons_append, scanValue, if_neg (by decide), if_pos rfl]
        simp [deeper, skipSpace, hHook [] List.nodup_nil]
    | .object (field :: fields) =>
        obtain ⟨inner, -, hCheck⟩ := checkWritten_object.mp hCheck
        obtain ⟨more, hMore⟩ := fieldsText_starts field fields
        have hScan : scanFields hook fuel none (fieldsText compact (field :: fields) ++ 125 :: rest) =
            .ok (field :: fields, rest) :=
          scanFields_fieldsText hHook (by simp) hWell.2 hCheck (by simp only [valueText, List.length_cons, List.length_append] at hFuel; simp; omega)
        have hBlank : skipSpace (fieldsText compact (field :: fields) ++ 125 :: rest) =
            fieldsText compact (field :: fields) ++ 125 :: rest := by
          rw [hMore]
          exact skipSpace_cons (by decide) _
        rw [valueText, List.cons_append, List.append_assoc, List.singleton_append, scanValue, if_neg (by decide), if_pos rfl]
        simp only [deeper]
        rw [hBlank, if_neg (by rw [hMore]; simp), hScan, ok_bind, hHook _ hWell.1]
        rfl

theorem scanItems_itemsText (hHook : Keeps hook) : ∀ {items : List Value} {allowed : Option Nat}, items ≠ [] → ItemsWellFormed items →
    checkItems false allowed items = .ok () → ∀ {fuel : Nat} {rest : Text},
    2 * (itemsText compact items).length + 1 ≤ fuel →
    scanItems hook fuel none (itemsText compact items ++ 93 :: rest) = .ok (items, rest)
  | [], _, hSome, _, _, _, _, _ => absurd rfl hSome
  | [item], allowed, _, hWell, hCheck, fuel, rest, hFuel => by
    have hItem := (checkItems_cons.mp hCheck).1
    obtain ⟨fuel, rfl⟩ : ∃ less, fuel = less + 1 := ⟨fuel - 1, by omega⟩
    have hScan : scanValue hook fuel none (valueText compact item ++ 93 :: rest) = .ok (item, 93 :: rest) :=
      scanValue_valueText hHook hWell.1 hItem (stops_of_code (.inr (.inl rfl)) rest) (by simp only [itemsText] at hFuel; omega)
    rw [itemsText, scanItems, hScan, ok_bind]
    simp [skipSpace]
  | item :: next :: items, allowed, _, hWell, hCheck, fuel, rest, hFuel => by
    obtain ⟨hItem, hNext⟩ := checkItems_cons.mp hCheck
    obtain ⟨fuel, rfl⟩ : ∃ less, fuel = less + 1 := ⟨fuel - 1, by omega⟩
    simp only [itemsText, List.length_append, compact, List.length_singleton] at hFuel
    have hScan : scanValue hook fuel none (valueText compact item ++ 44 :: (itemsText compact (next :: items) ++ 93 :: rest)) =
        .ok (item, 44 :: (itemsText compact (next :: items) ++ 93 :: rest)) :=
      scanValue_valueText hHook hWell.1 hItem (stops_of_code (.inl rfl) _) (by simp only [compact]; omega)
    have hLater : scanItems hook fuel none (itemsText compact (next :: items) ++ 93 :: rest) = .ok (next :: items, rest) :=
      scanItems_itemsText hHook (by simp) hWell.2 hNext (by simp only [compact]; omega)
    have hFirst : Starts (itemsText compact (next :: items)) :=
      itemsText_starts (valueText_starts hWell.2.1 (checkItems_cons.mp hNext).1)
    have hStarts := hFirst.append (93 :: rest)
    have hShape : itemsText compact (item :: next :: items) ++ 93 :: rest =
        valueText compact item ++ 44 :: (itemsText compact (next :: items) ++ 93 :: rest) := by
      simp [itemsText, compact]
    rw [hShape, scanItems, hScan, ok_bind]
    simp only [skipSpace_cons (c := 44) (by decide)]
    rw [if_neg (by decide), if_pos trivial, hStarts.skipSpace, hLater]
    rfl

theorem scanFields_fieldsText (hHook : Keeps hook) : ∀ {fields : List (Text × Value)} {allowed : Option Nat}, fields ≠ [] →
    FieldsWellFormed fields → checkFields false allowed fields = .ok () → ∀ {fuel : Nat} {rest : Text},
    2 * (fieldsText compact fields).length + 1 ≤ fuel →
    scanFields hook fuel none (fieldsText compact fields ++ 125 :: rest) = .ok (fields, rest)
  | [], _, hSome, _, _, _, _, _ => absurd rfl hSome
  | [(key, value)], allowed, _, hWell, hCheck, fuel, rest, hFuel => by
    have hValue := (checkFields_cons.mp hCheck).1
    obtain ⟨fuel, rfl⟩ : ∃ less, fuel = less + 1 := ⟨fuel - 1, by omega⟩
    have hStarts := (valueText_starts hWell.1 hValue).append (125 :: rest)
    have hScan : scanValue hook fuel none (valueText compact value ++ 125 :: rest) = .ok (value, 125 :: rest) :=
      scanValue_valueText hHook hWell.1 hValue (stops_of_code (.inr (.inr rfl)) rest) (by simp only [fieldsText, List.length_append] at hFuel; omega)
    have hShape : fieldsText compact [(key, value)] ++ 125 :: rest =
        34 :: (escapeText key ++ 34 :: 58 :: (valueText compact value ++ 125 :: rest)) := by
      simp [fieldsText, quoted, compact]
    rw [hShape, scanFields]
    simp only [ne_eq, not_true_eq_false, if_false]
    rw [scanString_escapeText, ok_bind]
    simp only [skipSpace_cons (c := 58) (by decide), not_true_eq_false, if_false]
    rw [hStarts.skipSpace, hScan, ok_bind]
    simp [skipSpace]
  | (key, value) :: next :: fields, allowed, _, hWell, hCheck, fuel, rest, hFuel => by
    obtain ⟨hValue, hNext⟩ := checkFields_cons.mp hCheck
    obtain ⟨fuel, rfl⟩ : ∃ less, fuel = less + 1 := ⟨fuel - 1, by omega⟩
    simp only [fieldsText, List.length_append, compact, List.length_singleton] at hFuel
    have hStarts := (valueText_starts hWell.1 hValue).append (44 :: (fieldsText compact (next :: fields) ++ 125 :: rest))
    have hScan : scanValue hook fuel none
        (valueText compact value ++ 44 :: (fieldsText compact (next :: fields) ++ 125 :: rest)) =
        .ok (value, 44 :: (fieldsText compact (next :: fields) ++ 125 :: rest)) :=
      scanValue_valueText hHook hWell.1 hValue (stops_of_code (.inl rfl) _) (by simp only [compact]; omega)
    have hLater : scanFields hook fuel none (fieldsText compact (next :: fields) ++ 125 :: rest) = .ok (next :: fields, rest) :=
      scanFields_fieldsText hHook (by simp) hWell.2 hNext (by simp only [compact]; omega)
    obtain ⟨more, hMore⟩ := fieldsText_starts next fields
    have hBlank : skipSpace (fieldsText compact (next :: fields) ++ 125 :: rest) =
        fieldsText compact (next :: fields) ++ 125 :: rest := by
      rw [hMore]
      exact skipSpace_cons (by decide) _
    have hShape : fieldsText compact ((key, value) :: next :: fields) ++ 125 :: rest =
        34 :: (escapeText key ++ 34 :: 58 ::
          (valueText compact value ++ 44 :: (fieldsText compact (next :: fields) ++ 125 :: rest))) := by
      simp [fieldsText, quoted, compact]
    rw [hShape, scanFields]
    simp only [ne_eq, not_true_eq_false, if_false]
    rw [scanString_escapeText, ok_bind]
    simp only [skipSpace_cons (c := 58) (by decide), not_true_eq_false, if_false]
    rw [hStarts.skipSpace, hScan, ok_bind]
    simp only [skipSpace_cons (c := 44) (by decide)]
    rw [if_neg (by decide), if_pos trivial, hBlank, hLater]
    rfl

end

theorem loads_valueText (hHook : Keeps hook) {value : Value} {allowed : Option Nat} (hWell : value.WellFormed)
    (hCheck : checkWritten false allowed value = .ok ()) : loads hook none (valueText compact value) = .ok value := by
  have hStarts := valueText_starts hWell hCheck
  have hScan : scanValue hook (2 * (valueText compact value).length + 2) none (valueText compact value ++ []) = .ok (value, []) :=
    scanValue_valueText hHook hWell hCheck (by simp [Stops]) (by omega)
  have hMark : (valueText compact value).head? ≠ some 0xFEFF := by
    obtain ⟨c, tail, hText, hc⟩ := hStarts
    rw [hText, List.head?_cons, ne_eq, Option.some.injEq]
    omega
  rw [List.append_nil] at hScan
  rw [loads, if_neg hMark, decode, hStarts.skipSpace, hScan, ok_bind]
  simp [skipSpace]

end Read

theorem keeps_overwrite : Keeps overwrite := by
  intro fields hNodup
  rw [overwrite, foldl_insert (by simpa using hNodup), List.nil_append]

theorem keeps_distinct : Keeps distinct := fun fields hNodup => by rw [distinct, if_pos hNodup]

/-- What `json.loads` returns for a written text, if it returns, is the value
that was written. -/
theorem loads_of_dumps {allowed depth : Option Nat} {value found : Value} {written : Text} (hWell : value.WellFormed)
    (hDump : dumps compact false allowed value = .ok written) (hLoad : loads overwrite depth written = .ok found) :
    found = value := by
  obtain ⟨hCheck, rfl⟩ := dumps_ok.mp hDump
  have hLax : loads overwrite none (valueText compact value) = .ok found := loads_lax (fun _ _ h => h) (.inr rfl) hLoad
  rw [loads_valueText keeps_overwrite hWell hCheck] at hLax
  exact (Except.ok.inj hLax).symm

end PyJson
