import QsAi.Foundation.JsonCanonical

/-! Strict models of JSON values. A model names its fields and what each of them
accepts; nothing is converted, no field may be missing and none may be added. What
is accepted is held with its fields in the order of the model, whatever the order
in which they were given. -/
namespace PyJson

open Guarded

/-! Values compared part by part. -/

namespace Value

mutual

def coincide : Value → Value → Bool
  | .null, .null => true
  | .bool value, .bool other => value == other
  | .int value, .int other => value == other
  | .float value, .float other => decide (value = other)
  | .string word, .string other => word == other
  | .array items, .array others => itemsCoincide items others
  | .object fields, .object others => fieldsCoincide fields others
  | _, _ => false
termination_by structural value => value

def itemsCoincide : List Value → List Value → Bool
  | [], [] => true
  | item :: items, other :: others => coincide item other && itemsCoincide items others
  | _, _ => false
termination_by structural items => items

def fieldsCoincide : List (Text × Value) → List (Text × Value) → Bool
  | [], [] => true
  | (key, item) :: fields, (name, other) :: others => key == name && coincide item other && fieldsCoincide fields others
  | _, _ => false
termination_by structural fields => fields

end

attribute [simp] coincide itemsCoincide fieldsCoincide

mutual

theorem coincide_iff : ∀ value other : Value, coincide value other = true ↔ value = other
  | .null, other => by cases other <;> simp [coincide]
  | .bool _, other => by cases other <;> simp [coincide]
  | .int _, other => by cases other <;> simp [coincide]
  | .float _, other => by cases other <;> simp [coincide]
  | .string _, other => by cases other <;> simp [coincide]
  | .array items, other => by
      cases other with
      | array others => rw [coincide, itemsCoincide_iff items others, array.injEq]
      | _ => simp [coincide]
  | .object fields, other => by
      cases other with
      | object others => rw [coincide, fieldsCoincide_iff fields others, object.injEq]
      | _ => simp [coincide]
termination_by structural value => value

theorem itemsCoincide_iff : ∀ items others : List Value, itemsCoincide items others = true ↔ items = others
  | [], others => by cases others <;> simp [itemsCoincide]
  | item :: items, others => by
      cases others with
      | nil => simp [itemsCoincide]
      | cons other others =>
          rw [itemsCoincide, Bool.and_eq_true, coincide_iff item other, itemsCoincide_iff items others, List.cons.injEq]
termination_by structural items => items

theorem fieldsCoincide_iff : ∀ fields others : List (Text × Value), fieldsCoincide fields others = true ↔ fields = others
  | [], others => by cases others <;> simp [fieldsCoincide]
  | (key, item) :: fields, others => by
      cases others with
      | nil => simp [fieldsCoincide]
      | cons other others =>
          obtain ⟨name, other⟩ := other
          rw [fieldsCoincide, Bool.and_eq_true, Bool.and_eq_true, beq_iff_eq, coincide_iff item other, fieldsCoincide_iff fields others,
            List.cons.injEq, Prod.mk.injEq]
termination_by structural fields => fields

end

instance decidableEq : DecidableEq Value := fun value other => decidable_of_iff _ (coincide_iff value other)

end Value

/-- What a field accepts. -/
inductive Field
  | string (accepts : Text → Bool)
  | optionalString (accepts : Text → Bool)
  | number (low high : Int)
  | flag
  | items (item : Field) (least : Nat) (most : Option Nat)
  | model (fields : List (String × Field)) (check : Value → Bool)

namespace Field

mutual

/-- The value as the model holds it, if the model accepts it. The check of a model
sees the value that is held. -/
def validate : Field → Value → Option Value
  | .string accepts, .string word => if accepts word then some (.string word) else none
  | .optionalString _, .null => some .null
  | .optionalString accepts, .string word => if accepts word then some (.string word) else none
  | .number low high, .int value => if low ≤ value ∧ value ≤ high then some (.int value) else none
  | .flag, .bool value => some (.bool value)
  | .items item least most, .array values =>
      if least ≤ values.length ∧ most.all (values.length ≤ ·) then (values.mapM (validate item)).map .array else none
  | .model fields check, .object given =>
      if given.map (·.1) ⊆ fields.map (text ·.1) then
        ((validateFields fields given).map .object).filter check
      else none
  | _, _ => none
termination_by structural field => field

def validateFields : List (String × Field) → List (Text × Value) → Option (List (Text × Value))
  | [], _ => some []
  | (name, field) :: rest, given =>
      (given.lookup (text name)).bind fun value => (validate field value).bind fun held =>
        (validateFields rest given).map ((text name, held) :: ·)
termination_by structural fields => fields

end

mutual

/-- Every model names each of its fields once, and the bounds of numbers are not
too long to be written. -/
def proper : Field → Bool
  | .number low high => decide (-10 ^ 18 ≤ low) && decide (high ≤ 10 ^ 18)
  | .items item _ _ => proper item
  | .model fields _ => decide (fields.map (·.1)).Nodup && properFields fields
  | _ => true
termination_by structural field => field

def properFields : List (String × Field) → Bool
  | [] => true
  | (_, field) :: rest => proper field && properFields rest
termination_by structural fields => fields

end

attribute [simp] validate validateFields proper properFields

section Parts

variable {P : Field → Prop} (hText : ∀ accepts, P (.string accepts)) (hOptional : ∀ accepts, P (.optionalString accepts))
  (hNumber : ∀ low high, P (.number low high)) (hFlag : P .flag) (hItems : ∀ item least most, P item → P (.items item least most))
  (hModel : ∀ fields check, (∀ field ∈ fields, P field.2) → P (.model fields check))

include hText hOptional hNumber hFlag hItems hModel

mutual

theorem parts : ∀ field : Field, P field
  | .string accepts => hText accepts
  | .optionalString accepts => hOptional accepts
  | .number low high => hNumber low high
  | .flag => hFlag
  | .items item least most => hItems item least most (parts item)
  | .model fields check => hModel fields check (parts_fields fields)
termination_by structural field => field

theorem parts_fields : ∀ fields : List (String × Field), ∀ field ∈ fields, P field.2
  | [] => fun _ hMem => nomatch hMem
  | (_, field) :: rest => List.forall_mem_cons.mpr ⟨parts field, parts_fields rest⟩
termination_by structural fields => fields

end

end Parts

/-! Fields one by one. -/

/-- How an accepted model holds a field. -/
def Holds (given : List (Text × Value)) (field : String × Field) (entry : Text × Value) : Prop :=
  entry.1 = text field.1 ∧ ∃ value, given.lookup entry.1 = some value ∧ validate field.2 value = some entry.2

theorem validateFields_some {fields : List (String × Field)} {given held : List (Text × Value)} :
    validateFields fields given = some held ↔ List.Forall₂ (Holds given) fields held := by
  induction fields generalizing held with
  | nil =>
      rw [validateFields]
      constructor
      · rintro ⟨⟩
        exact .nil
      · rintro ⟨⟩
        rfl
  | cons field rest ih =>
      obtain ⟨name, field⟩ := field
      rw [validateFields]
      simp only [Option.bind_eq_some_iff, Option.map_eq_some_iff]
      constructor
      · rintro ⟨value, hValue, found, hFound, others, hOthers, rfl⟩
        exact .cons ⟨rfl, value, hValue, hFound⟩ (ih.mp hOthers)
      · rintro (_ | ⟨⟨hKey, value, hValue, hFound⟩, hOthers⟩)
        rename_i entry others
        obtain ⟨key, found⟩ := entry
        obtain rfl : key = text name := hKey
        exact ⟨value, hValue, found, hFound, others, ih.mpr hOthers, rfl⟩

theorem holds_keys {fields : List (String × Field)} {given held : List (Text × Value)}
    (h : List.Forall₂ (Holds given) fields held) : held.map (·.1) = fields.map fun field => text field.1 := by
  induction h with
  | nil => rfl
  | cons hFirst _ ih => rw [List.map_cons, List.map_cons, ih, hFirst.1]

theorem holds_nodup {fields : List (String × Field)} {given held : List (Text × Value)} (hNames : (fields.map (·.1)).Nodup)
    (h : List.Forall₂ (Holds given) fields held) : (held.map (·.1)).Nodup := by
  rw [holds_keys h]
  have hTexts := hNames.map fun _ _ h => text_inj.mp h
  rwa [List.map_map] at hTexts

/-- Each field that is held was given. -/
theorem holds_field {fields : List (String × Field)} {given held : List (Text × Value)}
    (h : List.Forall₂ (Holds given) fields held) {entry : Text × Value} (hMem : entry ∈ held) :
    ∃ field ∈ fields, Holds given field entry := by
  induction h with
  | nil => cases hMem
  | cons hFirst _ ih =>
      rcases List.mem_cons.mp hMem with rfl | hMem
      · exact ⟨_, List.mem_cons_self, hFirst⟩
      · obtain ⟨field, hField, hHolds⟩ := ih hMem
        exact ⟨field, List.mem_cons_of_mem _ hField, hHolds⟩

/-- Each field of the model is held. -/
theorem holds_entry {fields : List (String × Field)} {given held : List (Text × Value)}
    (h : List.Forall₂ (Holds given) fields held) {field : String × Field} (hMem : field ∈ fields) :
    ∃ entry ∈ held, Holds given field entry := by
  induction h with
  | nil => cases hMem
  | cons hFirst _ ih =>
      rcases List.mem_cons.mp hMem with rfl | hMem
      · exact ⟨_, List.mem_cons_self, hFirst⟩
      · obtain ⟨entry, hEntry, hHolds⟩ := ih hMem
        exact ⟨entry, List.mem_cons_of_mem _ hEntry, hHolds⟩

theorem properFields_iff {fields : List (String × Field)} :
    properFields fields = true ↔ ∀ field ∈ fields, proper field.2 = true := by
  induction fields with
  | nil => simp [properFields]
  | cons field rest ih => rw [properFields, Bool.and_eq_true, ih, List.forall_mem_cons]

theorem proper_model {fields : List (String × Field)} {check : Value → Bool} :
    proper (.model fields check) = true ↔ (fields.map (·.1)).Nodup ∧ ∀ field ∈ fields, proper field.2 = true := by
  rw [proper, Bool.and_eq_true, decide_eq_true_eq, properFields_iff]

/-! What each kind of field accepts. -/

theorem validate_string {accepts : Text → Bool} {value held : Value} (h : validate (.string accepts) value = some held) :
    ∃ word, value = .string word ∧ held = .string word ∧ accepts word = true := by
  cases value with
  | string word =>
      rw [validate, Option.ite_none_right_eq_some] at h
      obtain ⟨hWord, hHeld⟩ := h
      exact ⟨word, rfl, (Option.some.inj hHeld).symm, hWord⟩
  | _ => simp [validate] at h

theorem validate_optionalString {accepts : Text → Bool} {value held : Value}
    (h : validate (.optionalString accepts) value = some held) :
    value = .null ∧ held = .null ∨ ∃ word, value = .string word ∧ held = .string word ∧ accepts word = true := by
  cases value with
  | null =>
      rw [validate] at h
      exact .inl ⟨rfl, (Option.some.inj h).symm⟩
  | string word =>
      rw [validate, Option.ite_none_right_eq_some] at h
      obtain ⟨hWord, hHeld⟩ := h
      exact .inr ⟨word, rfl, (Option.some.inj hHeld).symm, hWord⟩
  | _ => simp [validate] at h

theorem validate_number {low high : Int} {value held : Value} (h : validate (.number low high) value = some held) :
    ∃ number, value = .int number ∧ held = .int number ∧ low ≤ number ∧ number ≤ high := by
  cases value with
  | int number =>
      rw [validate, Option.ite_none_right_eq_some] at h
      obtain ⟨hBounds, hHeld⟩ := h
      exact ⟨number, rfl, (Option.some.inj hHeld).symm, hBounds⟩
  | _ => simp [validate] at h

theorem validate_flag {value held : Value} (h : validate .flag value = some held) :
    ∃ flag, value = .bool flag ∧ held = .bool flag := by
  cases value with
  | bool flag =>
      rw [validate] at h
      exact ⟨flag, rfl, (Option.some.inj h).symm⟩
  | _ => simp [validate] at h

theorem validate_items {item : Field} {least : Nat} {most : Option Nat} {value held : Value} :
    validate (.items item least most) value = some held ↔ ∃ values found, value = .array values ∧ held = .array found ∧
      (least ≤ values.length ∧ most.all (values.length ≤ ·) = true) ∧
        List.Forall₂ (fun value found => validate item value = some found) values found := by
  cases value with
  | array values =>
      rw [validate, Option.ite_none_right_eq_some, Option.map_eq_some_iff]
      constructor
      · rintro ⟨hCount, found, hFound, rfl⟩
        exact ⟨values, found, rfl, rfl, hCount, mapM_some hFound⟩
      · rintro ⟨_, found, ⟨⟩, rfl, hCount, hFound⟩
        exact ⟨hCount, found, some_mapM hFound, rfl⟩
  | _ => simp [validate]

theorem validate_model {fields : List (String × Field)} {check : Value → Bool} {value held : Value} :
    validate (.model fields check) value = some held ↔ ∃ given found, value = .object given ∧ held = .object found ∧
      given.map (·.1) ⊆ fields.map (fun field => text field.1) ∧ List.Forall₂ (Holds given) fields found ∧
        check (.object found) = true := by
  cases value with
  | object given =>
      rw [validate, Option.ite_none_right_eq_some, Option.filter_eq_some_iff, Option.map_eq_some_iff]
      constructor
      · rintro ⟨hNames, ⟨found, hFound, rfl⟩, hCheck⟩
        exact ⟨given, found, rfl, rfl, hNames, validateFields_some.mp hFound, hCheck⟩
      · rintro ⟨_, found, ⟨⟩, rfl, hNames, hFound, hCheck⟩
        exact ⟨hNames, ⟨found, validateFields_some.mpr hFound, rfl⟩, hCheck⟩
  | _ => simp [validate]

/-- A field with a value that it accepts and holds as it is. -/
def Kept (field : String × Field) (entry : String × Value) : Prop :=
  entry.1 = field.1 ∧ validate field.2 entry.2 = some entry.2

theorem kept_names {fields : List (String × Field)} {given : List (String × Value)} (h : List.Forall₂ Kept fields given) :
    given.map (·.1) = fields.map (·.1) := by
  induction h with
  | nil => rfl
  | cons hFirst _ ih => rw [List.map_cons, List.map_cons, ih, hFirst.1]

theorem kept_holds {dict : List (Text × Value)} {fields : List (String × Field)} {given : List (String × Value)}
    (h : List.Forall₂ Kept fields given) (hLookup : ∀ entry ∈ given, dict.lookup (text entry.1) = some entry.2) :
    List.Forall₂ (Holds dict) fields (given.map fun entry => (text entry.1, entry.2)) := by
  induction h with
  | nil => exact .nil
  | cons hFirst _ ih =>
      obtain ⟨hLookup, hRest⟩ := List.forall_mem_cons.mp hLookup
      exact .cons ⟨congrArg text hFirst.1, _, hLookup, hFirst.2⟩ (ih hRest)

/-- A value with the fields of the model in their order, each of them kept, is held as
it is. -/
theorem validate_dictionary {fields : List (String × Field)} {check : Value → Bool} {given : List (String × Value)}
    (hNames : (fields.map (·.1)).Nodup) (hFields : List.Forall₂ Kept fields given) (hCheck : check (dictionary given) = true) :
    validate (.model fields check) (dictionary given) = some (dictionary given) := by
  have hTexts : (given.map fun entry => (text entry.1, entry.2)).map (·.1) = fields.map fun field => text field.1 := by
    have hMapped := congrArg (List.map text) (kept_names hFields)
    rw [List.map_map, List.map_map] at hMapped
    rw [List.map_map]
    exact hMapped
  have hKeys : ((given.map fun entry => (text entry.1, entry.2)).map (·.1)).Nodup := by
    have hMapped := hNames.map fun _ _ h => text_inj.mp h
    rw [List.map_map] at hMapped
    rw [hTexts]
    exact hMapped
  have hLookup : ∀ entry ∈ given, (given.map fun entry => (text entry.1, entry.2)).lookup (text entry.1) = some entry.2 :=
    fun entry hEntry => lookup_of_mem hKeys (List.mem_map_of_mem hEntry)
  exact validate_model.mpr ⟨_, _, rfl, rfl, hTexts ▸ List.Subset.refl _, kept_holds hFields hLookup, hCheck⟩

/-! What a model holds. -/

theorem validate_wellFormed (field : Field) : field.proper = true → ∀ value held, validate field value = some held →
    held.WellFormed := by
  induction field using Field.parts with
  | hText accepts =>
      intro _ value held h
      obtain ⟨word, -, rfl, -⟩ := validate_string h
      trivial
  | hOptional accepts =>
      intro _ value held h
      rcases validate_optionalString h with ⟨-, rfl⟩ | ⟨word, -, rfl, -⟩
      · trivial
      · trivial
  | hNumber low high =>
      intro _ value held h
      obtain ⟨number, -, rfl, -⟩ := validate_number h
      trivial
  | hFlag =>
      intro _ value held h
      obtain ⟨flag, -, rfl⟩ := validate_flag h
      trivial
  | hItems item least most ih =>
      intro hProper value held h
      obtain ⟨values, found, -, rfl, -, hFound⟩ := validate_items.mp h
      refine wellFormed_array.mpr fun inner hMem => ?_
      obtain ⟨i, hi, rfl⟩ := List.getElem_of_mem hMem
      have hLength := hFound.length_eq
      exact ih hProper _ _ (hFound.get (hLength ▸ hi) hi)
  | hModel fields check ih =>
      intro hProper value held h
      obtain ⟨given, found, -, rfl, -, hFound, -⟩ := validate_model.mp h
      obtain ⟨hNames, hFields⟩ := proper_model.mp hProper
      refine wellFormed_object.mpr ⟨holds_nodup hNames hFound, fun entry hMem => ?_⟩
      obtain ⟨field, hField, -, inner, -, hInner⟩ := holds_field hFound hMem
      exact ih field hField (hFields field hField) _ _ hInner

/-- What is held is accepted again, with its keys in any order, and held as it was. -/
theorem validate_sorted (field : Field) : field.proper = true → ∀ value held, validate field value = some held →
    validate field (sortKeys held) = some held := by
  induction field using Field.parts with
  | hText accepts =>
      intro _ value held h
      obtain ⟨word, rfl, rfl, -⟩ := validate_string h
      exact h
  | hOptional accepts =>
      intro _ value held h
      rcases validate_optionalString h with ⟨rfl, rfl⟩ | ⟨word, rfl, rfl, -⟩
      · exact h
      · exact h
  | hNumber low high =>
      intro _ value held h
      obtain ⟨number, rfl, rfl, -⟩ := validate_number h
      exact h
  | hFlag =>
      intro _ value held h
      obtain ⟨flag, rfl, rfl⟩ := validate_flag h
      exact h
  | hItems item least most ih =>
      intro hProper value held h
      obtain ⟨values, found, -, rfl, hCount, hFound⟩ := validate_items.mp h
      have hLength := hFound.length_eq
      rw [sortKeys_array, validate_items]
      refine ⟨_, found, rfl, rfl, by rw [List.length_map, ← hLength]; exact hCount, ?_⟩
      rw [List.forall₂_map_left_iff, List.forall₂_same]
      intro inner hMem
      obtain ⟨i, hi, rfl⟩ := List.getElem_of_mem hMem
      exact ih hProper _ _ (hFound.get (hLength ▸ hi) hi)
  | hModel fields check ih =>
      intro hProper value held h
      obtain ⟨given, found, -, rfl, -, hFound, hCheck⟩ := validate_model.mp h
      obtain ⟨hNames, hFields⟩ := proper_model.mp hProper
      have hNodup := holds_nodup hNames hFound
      obtain ⟨sorted, hSorted, hPerm⟩ := sortKeys_object found
      rw [hSorted, validate_model]
      refine ⟨sorted, found, rfl, rfl, fun key hKey => ?_, ?_, hCheck⟩
      · rw [← holds_keys hFound]
        exact (sortKeys_keys hPerm).mem_iff.mp hKey
      · rw [List.forall₂_iff_zip] at hFound ⊢
        refine ⟨hFound.1, fun {field entry} hMem => ?_⟩
        obtain ⟨hKey, inner, -, hInner⟩ := hFound.2 hMem
        have hPlace := List.of_mem_zip hMem
        refine ⟨hKey, sortKeys entry.2, ?_, ih field hPlace.1 (hFields field hPlace.1) _ _ hInner⟩
        rw [sortKeys_lookup hNodup hPerm, lookup_of_mem hNodup hPlace.2, Option.map_some]

/-- What is accepted can be written. -/
theorem validate_written (field : Field) : field.proper = true → ∀ value held, value.WellFormed →
    validate field value = some held → checkWritten false none value = .ok () := by
  induction field using Field.parts with
  | hText accepts =>
      intro _ value held _ h
      obtain ⟨word, rfl, -⟩ := validate_string h
      rfl
  | hOptional accepts =>
      intro _ value held _ h
      rcases validate_optionalString h with ⟨rfl, -⟩ | ⟨word, rfl, -⟩
      · rfl
      · rfl
  | hNumber low high =>
      intro hProper value held _ h
      obtain ⟨number, rfl, -, hLow, hHigh⟩ := validate_number h
      rw [proper, Bool.and_eq_true, decide_eq_true_eq, decide_eq_true_eq] at hProper
      have hBound : number.natAbs < 10 ^ 19 := by omega
      have hDigits := length_printNat (by decide) hBound
      rw [checkWritten, require_ok]
      exact Nat.le_trans hDigits (by decide)
  | hFlag =>
      intro _ value held _ h
      obtain ⟨flag, rfl, -⟩ := validate_flag h
      rfl
  | hItems item least most ih =>
      intro hProper value held hWell h
      obtain ⟨values, found, rfl, -, -, hFound⟩ := validate_items.mp h
      rw [wellFormed_array] at hWell
      refine checkWritten_array.mpr ⟨none, rfl, checkItems_iff.mpr fun inner hMem => ?_⟩
      obtain ⟨i, hi, rfl⟩ := List.getElem_of_mem hMem
      have hLength := hFound.length_eq
      exact ih hProper _ _ (hWell _ hMem) (hFound.get hi (hLength ▸ hi))
  | hModel fields check ih =>
      intro hProper value held hWell h
      obtain ⟨given, found, rfl, -, hNames, hFound, -⟩ := validate_model.mp h
      obtain ⟨-, hFields⟩ := proper_model.mp hProper
      rw [wellFormed_object] at hWell
      refine checkWritten_object.mpr ⟨none, rfl, checkFields_iff.mpr fun entry hMem => ?_⟩
      -- the field of this name is the one that was looked up
      have hKey : entry.1 ∈ found.map (·.1) := by
        rw [holds_keys hFound]
        exact hNames (List.mem_map_of_mem hMem)
      obtain ⟨kept, hKept, hSame⟩ := List.mem_map.mp hKey
      obtain ⟨field, hField, -, inner, hInner, hValid⟩ := holds_field hFound hKept
      rw [hSame, lookup_of_mem hWell.1 hMem] at hInner
      obtain rfl := Option.some.inj hInner
      exact ih field hField (hFields field hField) _ _ (hWell.2 entry hMem) hValid

/-- Equal values of one model are the same. -/
theorem validate_equal (field : Field) : field.proper = true → ∀ value other held found, validate field value = some held →
    validate field other = some found → equal held found = true → held = found := by
  induction field using Field.parts with
  | hText accepts =>
      intro _ value other held found h h' hEqual
      obtain ⟨word, -, rfl, -⟩ := validate_string h'
      exact equal_string hEqual
  | hOptional accepts =>
      intro _ value other held found h h' hEqual
      rcases validate_optionalString h' with ⟨-, rfl⟩ | ⟨word, -, rfl, -⟩
      · rcases validate_optionalString h with ⟨-, rfl⟩ | ⟨word, -, rfl, -⟩
        · rfl
        · cases hEqual
      · exact equal_string hEqual
  | hNumber low high =>
      intro _ value other held found h h' hEqual
      obtain ⟨number, -, rfl, -⟩ := validate_number h
      obtain ⟨number', -, rfl, -⟩ := validate_number h'
      exact eq_of_same rfl hEqual rfl
  | hFlag =>
      intro _ value other held found h h' hEqual
      obtain ⟨flag, -, rfl⟩ := validate_flag h
      obtain ⟨flag', -, rfl⟩ := validate_flag h'
      exact eq_of_same rfl hEqual rfl
  | hItems item least most ih =>
      intro hProper value other held found h h' hEqual
      obtain ⟨values, items, -, rfl, -, hItems⟩ := validate_items.mp h
      obtain ⟨values', items', -, rfl, -, hItems'⟩ := validate_items.mp h'
      rw [equal, alike, alikeItems_iff] at hEqual
      have hLength := hItems.length_eq
      have hLength' := hItems'.length_eq
      refine congrArg Value.array (List.ext_getElem hEqual.length_eq fun i hi hi' => ?_)
      exact ih hProper _ _ _ _ (hItems.get (hLength ▸ hi) hi) (hItems'.get (hLength' ▸ hi') hi') (hEqual.get hi hi')
  | hModel fields check ih =>
      intro hProper value other held found h h' hEqual
      obtain ⟨given, entries, -, rfl, -, hEntries, -⟩ := validate_model.mp h
      obtain ⟨given', entries', -, rfl, -, hEntries', -⟩ := validate_model.mp h'
      obtain ⟨hNames, hFields⟩ := proper_model.mp hProper
      have hNodup := holds_nodup hNames hEntries'
      obtain ⟨hLengths, hBeside⟩ := alike_object.mp hEqual
      have hLength := hEntries.length_eq
      have hLength' := hEntries'.length_eq
      refine congrArg Value.object (List.ext_getElem hLengths fun i hi hi' => ?_)
      obtain ⟨hKey, inner, -, hInner⟩ := hEntries.get (hLength ▸ hi) hi
      obtain ⟨hKey', inner', -, hInner'⟩ := hEntries'.get (hLength' ▸ hi') hi'
      obtain ⟨found, hFound, hSame⟩ := hBeside _ (List.getElem_mem hi)
      simp only [List.get_eq_getElem] at hKey hKey' hInner hInner'
      have hHere : entries'.lookup entries'[i].1 = some entries'[i].2 := lookup_of_mem hNodup (List.getElem_mem hi')
      rw [hKey, ← hKey', hHere] at hFound
      obtain rfl := Option.some.inj hFound
      have hField : fields[i] ∈ fields := List.getElem_mem _
      refine Prod.ext (hKey.trans hKey'.symm) ?_
      exact ih fields[i] hField (hFields _ hField) _ _ _ _ hInner hInner' hSame

end Field

end PyJson
