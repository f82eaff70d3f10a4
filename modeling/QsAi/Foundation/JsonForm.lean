import QsAi.Foundation.JsonExtent
import QsAi.Foundation.PyObject

/-! What holds of every value that is read: what holds of its scalars and passes
from parts to lists and dictionaries. -/
namespace PyJson

open Guarded Binary64

/-- A property that lists and dictionaries inherit, under a hook for objects. -/
structure Inherited (hook : List (Text × Value) → Except Refusal Value) (P : Value → Prop) : Prop where
  string : ∀ value, P (.string value)
  null : P .null
  bool : ∀ value, P (.bool value)
  int : ∀ value, P (.int value)
  infinite : ∀ negative, P (.float (.infinite negative))
  finite : ∀ value, Exact value → P (.float (.finite value))
  array : ∀ items, (∀ item ∈ items, P item) → P (.array items)
  object : ∀ fields value, hook fields = .ok value → (∀ field ∈ fields, P field.2) → P value

section Scanned

variable {hook : List (Text × Value) → Except Refusal Value} {P : Value → Prop}

theorem Inherited.double (h : Inherited hook P) {exact : ℚ} : P (.float (Binary64.round exact)) := by
  cases hRound : Binary64.round exact with
  | finite value => exact h.finite value (exact_of_round hRound)
  | infinite negative => exact h.infinite negative

theorem Inherited.number (h : Inherited hook P) {input rest : Text} {value : Value}
    (hRead : scanNumber input = .ok (value, rest)) : P value := by
  obtain ⟨negative, whole, _, fraction, _, exponent, _, _, _, _, hValue⟩ := scanNumber_some hRead
  by_cases hWhole : fraction = [] ∧ exponent = none
  · by_cases hLong : maxStrDigits < whole.length
    · simp [spelledNumber, hWhole, hLong] at hValue
    · simp only [spelledNumber, if_pos hWhole, if_neg hLong] at hValue
      obtain rfl := Except.ok.inj hValue
      exact h.int _
  · simp only [spelledNumber, if_neg hWhole] at hValue
    obtain rfl := Except.ok.inj hValue
    exact h.double

theorem Inherited.value (h : Inherited hook P) {fuel : Nat} {depth : Option Nat} {input rest : Text} {value : Value}
    (hItems : ∀ depth input items rest, scanItems hook fuel depth input = .ok (items, rest) → ∀ item ∈ items, P item)
    (hFields : ∀ depth input fields rest, scanFields hook fuel depth input = .ok (fields, rest) →
      ∀ field ∈ fields, P field.2)
    (hRead : scanValue hook (fuel + 1) depth input = .ok (value, rest)) : P value := by
  cases input with
  | nil => simp [scanValue] at hRead
  | cons c tail =>
      by_cases hBrace : c = 123
      · subst hBrace
        obtain ⟨inner, -, ⟨-, hHook⟩ | ⟨-, fields, hSome, hHook⟩⟩ := scanValue_brace hRead
        · exact h.object [] value hHook (by simp)
        · exact h.object fields value hHook (hFields _ _ _ _ hSome)
      by_cases hBracket : c = 91
      · subst hBracket
        obtain ⟨inner, -, ⟨-, rfl⟩ | ⟨-, items, hSome, rfl⟩⟩ := scanValue_bracket hRead
        · exact h.array [] (by simp)
        · exact h.array items (hItems _ _ _ _ hSome)
      rw [scanValue] at hRead
      by_cases hQuote : c = 34
      · rw [if_pos hQuote, bind_ok] at hRead
        obtain ⟨⟨found, left⟩, -, hRead⟩ := hRead
        cases hRead
        exact h.string found
      rw [if_neg hQuote, if_neg hBrace, if_neg hBracket] at hRead
      cases hWord : scanWord (c :: tail) with
      | some found =>
          rw [hWord] at hRead
          cases hRead
          rcases scanWord_scalar hWord with rfl | ⟨flag, rfl⟩
          · exact h.null
          · exact h.bool flag
      | none =>
          rw [hWord] at hRead
          exact h.number hRead

/-- The three readers together, by induction on the fuel. -/
theorem Inherited.scan (h : Inherited hook P) (fuel : Nat) :
    (∀ depth input value rest, scanValue hook fuel depth input = .ok (value, rest) → P value) ∧
    (∀ depth input items rest, scanItems hook fuel depth input = .ok (items, rest) → ∀ item ∈ items, P item) ∧
    ∀ depth input fields rest, scanFields hook fuel depth input = .ok (fields, rest) → ∀ field ∈ fields, P field.2 := by
  induction fuel with
  | zero =>
      refine ⟨fun _ _ _ _ h => ?_, fun _ _ _ _ h => ?_, fun _ _ _ _ h => ?_⟩
      · simp [scanValue] at h
      · simp [scanItems] at h
      · simp [scanFields] at h
  | succ fuel ih =>
      obtain ⟨hValue, hItems, hFields⟩ := ih
      refine ⟨fun depth input value rest hRead => h.value hItems hFields hRead, fun depth input items rest hRead => ?_,
        fun depth input fields rest hRead => ?_⟩
      · obtain ⟨less, value, left, hLess, hFirst, hShape⟩ := scanItems_some hRead
        obtain rfl := Nat.succ.inj hLess
        rcases hShape with ⟨-, rfl⟩ | ⟨tail, others, -, hRest, rfl⟩
        · exact List.forall_mem_singleton.mpr (hValue _ _ _ _ hFirst)
        · exact List.forall_mem_cons.mpr ⟨hValue _ _ _ _ hFirst, hItems _ _ _ _ hRest⟩
      · obtain ⟨less, word, key, afterKey, afterColon, value, left, hLess, -, -, -, hFirst, hShape⟩ := scanFields_some hRead
        obtain rfl := Nat.succ.inj hLess
        rcases hShape with ⟨-, rfl⟩ | ⟨tail, others, -, hRest, rfl⟩
        · exact List.forall_mem_singleton.mpr (hValue _ _ _ _ hFirst)
        · exact List.forall_mem_cons.mpr ⟨hValue _ _ _ _ hFirst, hFields _ _ _ _ hRest⟩

theorem Inherited.loads (h : Inherited hook P) {depth : Option Nat} {input : Text} {value : Value}
    (hRead : PyJson.loads hook depth input = .ok value) : P value := by
  rw [PyJson.loads] at hRead
  split at hRead
  · cases hRead
  rw [decode, bind_ok] at hRead
  obtain ⟨⟨found, rest⟩, hFound, hRead⟩ := hRead
  simp only at hRead
  split at hRead
  · cases hRead
    exact (h.scan _).1 _ _ _ _ hFound
  · cases hRead

end Scanned

/-- Values are well formed under a hook that gives well formed dictionaries. -/
theorem inherited_wellFormed {hook : List (Text × Value) → Except Refusal Value}
    (hObject : ∀ fields value, hook fields = .ok value → (∀ field ∈ fields, field.2.WellFormed) → value.WellFormed) :
    Inherited hook Value.WellFormed where
  string _ := trivial
  null := trivial
  bool _ := trivial
  int _ := trivial
  infinite _ := trivial
  finite _ hExact := hExact
  array _ hItems := wellFormed_array.mpr hItems
  object := hObject

/-- A reader that refuses repeated keys gives well formed values. -/
theorem loads_distinct_wellFormed {depth : Option Nat} {input : Text} {value : Value}
    (h : loads distinct depth input = .ok value) : value.WellFormed := by
  refine (inherited_wellFormed fun fields value hHook hFields => ?_).loads h
  unfold distinct at hHook
  split at hHook
  · rename_i hNodup
    cases hHook
    exact wellFormed_object.mpr ⟨hNodup, hFields⟩
  · cases hHook

/-! Lists of texts. -/

def Value.asText : Value → Option Text
  | .string value => some value
  | _ => none

theorem mapM_asText {values : List Value} {texts : List Text} :
    values.mapM Value.asText = some texts ↔ values = texts.map .string := by
  induction values generalizing texts with
  | nil =>
      cases texts <;> simp
  | cons value rest ih =>
      simp only [List.mapM_cons, Option.bind_eq_bind, Option.bind_eq_some_iff, Option.pure_def, Option.some.injEq]
      constructor
      · rintro ⟨word, hWord, others, hOthers, rfl⟩
        cases value with
        | string text =>
            cases hWord
            rw [ih.mp hOthers, List.map_cons]
        | _ => cases hWord
      · intro h
        cases texts with
        | nil => cases h
        | cons word others =>
            cases h
            exact ⟨word, rfl, others, ih.mpr rfl, rfl⟩

end PyJson
