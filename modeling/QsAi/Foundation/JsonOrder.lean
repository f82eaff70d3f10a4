import QsAi.Foundation.PyObject
import QsAi.Foundation.JsonForm
import QsAi.Foundation.Respelling
import Mathlib.Data.List.Sort

/-! Dictionaries do not keep the order of their keys apart: Python compares them
by what they hold, and a writer that sorts the keys gives equal dictionaries one
text. -/
namespace PyJson

open Guarded TextEncoding

/-! Dictionaries as lists. -/

section Lookup

variable {α : Type} {fields others : List (Text × α)}

/-- Different keys are found wherever they stand. -/
theorem lookup_perm (hKeys : (fields.map (·.1)).Nodup) (hPerm : fields.Perm others) (key : Text) :
    others.lookup key = fields.lookup key := by
  have hOthers : (others.map (·.1)).Nodup := (hPerm.map _).nodup_iff.mp hKeys
  refine Option.ext fun value => ⟨fun h => ?_, fun h => ?_⟩
  · exact lookup_of_mem hKeys (hPerm.mem_iff.mpr (mem_of_lookup h))
  · exact lookup_of_mem hOthers (hPerm.mem_iff.mp (mem_of_lookup h))

theorem insert_lookup (dict : List (Text × Value)) (key other : Text) (value : Value) :
    (insert dict key value).lookup other = if other = key then some value else dict.lookup other := by
  have hReplaced : ∀ dict : List (Text × Value), (dict.map fun field => if field.1 = key then (key, value) else field).lookup other =
      if other = key ∧ key ∈ dict.map (·.1) then some value else dict.lookup other := by
    intro dict
    induction dict with
    | nil => simp
    | cons field rest ih =>
        rw [List.map_cons, List.lookup_cons, List.lookup_cons, ih]
        by_cases hField : field.1 = key
        · by_cases hOther : other = key
          · simp [hField, hOther]
          · simp [hField, hOther, beq_false_of_ne hOther]
        · by_cases hOther : other = key
          · have hBeside : key ∈ (field :: rest).map (·.1) ↔ key ∈ rest.map (·.1) := by simp [Ne.symm hField]
            rw [if_neg hField, hOther, beq_false_of_ne (Ne.symm hField)]
            simp only [true_and, hBeside]
          · simp [hField, hOther]
  unfold insert
  split
  · rename_i hKnown
    rw [hReplaced]
    simp [hKnown]
  · rename_i hNew
    by_cases hOther : other = key
    · have hNone : dict.lookup key = none := by
        rw [List.lookup_eq_none_iff]
        intro field hMem
        rw [bne_iff_ne]
        rintro rfl
        exact hNew (List.mem_map_of_mem hMem)
      rw [List.lookup_append, hOther, hNone]
      simp
    · rw [List.lookup_append]
      simp [hOther, List.lookup_cons, beq_false_of_ne hOther]

theorem lookup_map {β : Type} (f : α → β) (key : Text) :
    (fields.map fun field => (field.1, f field.2)).lookup key = (fields.lookup key).map f := by
  induction fields with
  | nil => rfl
  | cons field rest ih =>
      rw [List.map_cons, List.lookup_cons, List.lookup_cons, ih]
      split <;> rfl

end Lookup

/-! Equality. -/

section Equality

variable (scalar : Value → Value → Bool)

mutual

/-- Lists are compared item by item and dictionaries key by key; what else there is
is compared as given. -/
def alike : Value → Value → Bool
  | .array items, .array others => alikeItems items others
  | .object fields, .object others => fields.length == others.length && alikeFields fields others
  | value, other => scalar value other
termination_by structural value => value

def alikeItems : List Value → List Value → Bool
  | [], [] => true
  | item :: rest, other :: others => alike item other && alikeItems rest others
  | _, _ => false
termination_by structural items => items

def alikeFields : List (Text × Value) → List (Text × Value) → Bool
  | [], _ => true
  | (key, value) :: rest, others =>
      (match others.lookup key with
      | some other => alike value other
      | none => false) && alikeFields rest others
termination_by structural fields => fields

end

variable {scalar}

theorem alikeItems_iff {items others : List Value} :
    alikeItems scalar items others = true ↔ List.Forall₂ (fun item other => alike scalar item other = true) items others := by
  induction items generalizing others with
  | nil => cases others <;> simp [alikeItems]
  | cons item rest ih =>
      cases others with
      | nil => simp [alikeItems]
      | cons other others => rw [alikeItems, Bool.and_eq_true, ih, List.forall₂_cons]

theorem alikeFields_iff {fields others : List (Text × Value)} : alikeFields scalar fields others = true ↔
    ∀ field ∈ fields, ∃ other, others.lookup field.1 = some other ∧ alike scalar field.2 other = true := by
  induction fields with
  | nil => simp [alikeFields]
  | cons field rest ih =>
      obtain ⟨key, value⟩ := field
      rw [alikeFields, Bool.and_eq_true, ih, List.forall_mem_cons]
      refine and_congr_left' ?_
      cases others.lookup key with
      | none => simp
      | some other => simp

theorem alike_object {fields others : List (Text × Value)} : alike scalar (.object fields) (.object others) = true ↔
    fields.length = others.length ∧
      ∀ field ∈ fields, ∃ other, others.lookup field.1 = some other ∧ alike scalar field.2 other = true := by
  rw [alike, Bool.and_eq_true, beq_iff_eq, alikeFields_iff]

end Equality

/-- `==`. -/
def equal (value other : Value) : Bool := alike Value.same value other

/-- Values of one type. -/
def Value.sameKind : Value → Value → Bool
  | .null, .null => true
  | .bool _, .bool _ => true
  | .int _, .int _ => true
  | .float _, .float _ => true
  | .string _, .string _ => true
  | .array _, .array _ => true
  | .object _, .object _ => true
  | _, _ => false

/-- The types agree at every level. -/
def sameKinds (value other : Value) : Bool := alike Value.sameKind value other

/-- Equal, and of one type at every level. -/
def identical (value other : Value) : Bool := alike (fun value other => value.same other && value.sameKind other) value other

theorem same_self {value : Value} (hFlat : value.hashable = true) : value.same value = true := by
  cases value with
  | null => rfl
  | bool flag => simp [Value.same, Value.number?]
  | int number => simp [Value.same, Value.number?]
  | float number => simp [Value.same, Value.number?]
  | string word => simp [Value.same, Value.number?]
  | array items => cases hFlat
  | object fields => cases hFlat

/-! Sorted keys. -/

/-- The order of two members by their names. -/
abbrev Before (first second : Text × Value) : Prop := first.1 ≤ second.1

mutual

/-- Dictionaries in the order of their keys, at every level. -/
def sortKeys : Value → Value
  | .array items => .array (sortItems items)
  | .object fields => .object ((sortFields fields).insertionSort Before)
  | value => value
termination_by structural value => value

def sortItems : List Value → List Value
  | [] => []
  | item :: rest => sortKeys item :: sortItems rest
termination_by structural items => items

def sortFields : List (Text × Value) → List (Text × Value)
  | [] => []
  | (key, value) :: rest => (key, sortKeys value) :: sortFields rest
termination_by structural fields => fields

end

theorem sortItems_eq (items : List Value) : sortItems items = items.map sortKeys := by
  induction items with
  | nil => rfl
  | cons item items ih => rw [sortItems, ih, List.map_cons]

theorem sortFields_eq (fields : List (Text × Value)) :
    sortFields fields = fields.map fun field => (field.1, sortKeys field.2) := by
  induction fields with
  | nil => rfl
  | cons field fields ih =>
      obtain ⟨key, value⟩ := field
      rw [sortFields, ih, List.map_cons]

theorem sortKeys_array (items : List Value) : sortKeys (.array items) = .array (items.map sortKeys) := by
  rw [sortKeys, sortItems_eq]

/-- Sorting rearranges the members, each sorted inside. -/
theorem sortKeys_object (fields : List (Text × Value)) : ∃ sorted, sortKeys (.object fields) = .object sorted ∧
    sorted.Perm (fields.map fun field => (field.1, sortKeys field.2)) := by
  rw [sortKeys, sortFields_eq]
  exact ⟨_, rfl, List.perm_insertionSort _ _⟩

theorem sortKeys_lookup {fields sorted : List (Text × Value)} (hKeys : (fields.map (·.1)).Nodup)
    (hPerm : sorted.Perm (fields.map fun field => (field.1, sortKeys field.2))) (key : Text) :
    sorted.lookup key = (fields.lookup key).map sortKeys := by
  have hSame : ((fields.map fun field => (field.1, sortKeys field.2)).map (·.1)) = fields.map (·.1) := by
    rw [List.map_map]
    rfl
  rw [lookup_perm (by rw [hSame]; exact hKeys) hPerm.symm, lookup_map]

theorem sortKeys_keys {fields sorted : List (Text × Value)}
    (hPerm : sorted.Perm (fields.map fun field => (field.1, sortKeys field.2))) :
    (sorted.map (·.1)).Perm (fields.map (·.1)) := by
  have h := hPerm.map (·.1)
  rwa [List.map_map] at h

section Parts

variable {P : Value → Prop} (hFlat : ∀ value : Value, value.hashable = true → P value)
  (hArray : ∀ items, (∀ item ∈ items, P item) → P (.array items))
  (hObject : ∀ fields, (∀ field ∈ fields, P field.2) → P (.object fields))

include hFlat hArray hObject

mutual

/-- To show something of all values: of those without parts, and of lists and
dictionaries from their parts. -/
theorem Value.parts : ∀ value : Value, P value
  | .null => hFlat _ rfl
  | .bool _ => hFlat _ rfl
  | .int _ => hFlat _ rfl
  | .float _ => hFlat _ rfl
  | .string _ => hFlat _ rfl
  | .array items => hArray items (Value.parts_items items)
  | .object fields => hObject fields (Value.parts_fields fields)
termination_by structural value => value

theorem Value.parts_items : ∀ items : List Value, ∀ item ∈ items, P item
  | [] => fun _ hMem => nomatch hMem
  | item :: rest => List.forall_mem_cons.mpr ⟨Value.parts item, Value.parts_items rest⟩
termination_by structural items => items

theorem Value.parts_fields : ∀ fields : List (Text × Value), ∀ field ∈ fields, P field.2
  | [] => fun _ hMem => nomatch hMem
  | (_, value) :: rest => List.forall_mem_cons.mpr ⟨Value.parts value, Value.parts_fields rest⟩
termination_by structural fields => fields

end

end Parts

theorem sortKeys_flat {value : Value} (hFlat : value.hashable = true) : sortKeys value = value := by
  cases value with
  | array items => cases hFlat
  | object fields => cases hFlat
  | _ => rfl

theorem alike_flat {scalar : Value → Value → Bool} {value : Value} (hFlat : value.hashable = true) (other : Value) :
    alike scalar value other = scalar value other := by
  cases value with
  | array items => cases hFlat
  | object fields => cases hFlat
  | _ => rfl

/-- Two comparisons at once. -/
theorem alike_both {first second : Value → Value → Bool} (value : Value) : ∀ other,
    alike (fun value other => first value other && second value other) value other = true ↔
      alike first value other = true ∧ alike second value other = true := by
  induction value using Value.parts with
  | hFlat value hFlat =>
      intro other
      rw [alike_flat hFlat, alike_flat hFlat, alike_flat hFlat, Bool.and_eq_true]
  | hArray items ih =>
      intro other
      cases other with
      | array others =>
          rw [alike, alike, alike, alikeItems_iff, alikeItems_iff, alikeItems_iff]
          induction items generalizing others with
          | nil => cases others <;> simp
          | cons item items ihItems =>
              cases others with
              | nil => simp
              | cons other others =>
                  rw [List.forall₂_cons, List.forall₂_cons, List.forall₂_cons, ih item List.mem_cons_self other,
                    ihItems fun inner hMem => ih inner (List.mem_cons_of_mem _ hMem)]
                  exact and_and_and_comm
      | _ => exact Bool.and_eq_true _ _ ▸ Iff.rfl
  | hObject fields ih =>
      intro other
      cases other with
      | object others =>
          rw [alike_object, alike_object, alike_object]
          constructor
          · rintro ⟨hLength, hBoth⟩
            refine ⟨⟨hLength, fun field hMem => ?_⟩, hLength, fun field hMem => ?_⟩
            · obtain ⟨other, hOther, hSame⟩ := hBoth field hMem
              exact ⟨other, hOther, ((ih field hMem other).mp hSame).1⟩
            · obtain ⟨other, hOther, hSame⟩ := hBoth field hMem
              exact ⟨other, hOther, ((ih field hMem other).mp hSame).2⟩
          · rintro ⟨⟨hLength, hFirst⟩, -, hSecond⟩
            refine ⟨hLength, fun field hMem => ?_⟩
            obtain ⟨other, hOther, hSame⟩ := hFirst field hMem
            obtain ⟨other', hOther', hSame'⟩ := hSecond field hMem
            rw [hOther] at hOther'
            obtain rfl := Option.some.inj hOther'
            exact ⟨other, hOther, (ih field hMem other).mpr ⟨hSame, hSame'⟩⟩
      | _ => exact Bool.and_eq_true _ _ ▸ Iff.rfl

/-- Identical values are equal values of the same types. -/
theorem identical_iff {value other : Value} : identical value other = true ↔
    equal value other = true ∧ sameKinds value other = true := alike_both value other

theorem sortKeys_wellFormed (value : Value) : value.WellFormed → (sortKeys value).WellFormed := by
  induction value using Value.parts with
  | hFlat value hFlat =>
      rw [sortKeys_flat hFlat]
      exact id
  | hArray items ih =>
      rw [sortKeys_array, wellFormed_array, wellFormed_array]
      intro hWell item hMem
      obtain ⟨inner, hInner, rfl⟩ := List.mem_map.mp hMem
      exact ih inner hInner (hWell inner hInner)
  | hObject fields ih =>
      intro hWell
      obtain ⟨sorted, hSorted, hPerm⟩ := sortKeys_object fields
      rw [wellFormed_object] at hWell
      rw [hSorted, wellFormed_object]
      refine ⟨(sortKeys_keys hPerm).nodup_iff.mpr hWell.1, fun field hMem => ?_⟩
      obtain ⟨inner, hInner, rfl⟩ := List.mem_map.mp (hPerm.mem_iff.mp hMem)
      exact ih inner hInner (hWell.2 inner hInner)

/-- A dictionary with its keys sorted is the same dictionary. -/
theorem equal_sortKeys (value : Value) : value.WellFormed → equal (sortKeys value) value = true := by
  induction value using Value.parts with
  | hFlat value hFlat =>
      intro _
      rw [sortKeys_flat hFlat, equal, alike_flat hFlat]
      exact same_self hFlat
  | hArray items ih =>
      intro hWell
      rw [wellFormed_array] at hWell
      rw [sortKeys_array, equal, alike, alikeItems_iff, List.forall₂_map_left_iff, List.forall₂_same]
      exact fun item hMem => ih item hMem (hWell item hMem)
  | hObject fields ih =>
      intro hWell
      obtain ⟨sorted, hSorted, hPerm⟩ := sortKeys_object fields
      rw [wellFormed_object] at hWell
      rw [hSorted, equal, alike_object]
      refine ⟨by rw [hPerm.length_eq, List.length_map], fun field hMem => ?_⟩
      obtain ⟨inner, hInner, rfl⟩ := List.mem_map.mp (hPerm.mem_iff.mp hMem)
      exact ⟨inner.2, lookup_of_mem hWell.1 hInner, ih inner hInner (hWell.2 inner hInner)⟩

theorem alike_self {scalar : Value → Value → Bool} (hScalar : ∀ value : Value, value.hashable = true → scalar value value = true)
    (value : Value) : value.WellFormed → alike scalar value value = true := by
  induction value using Value.parts with
  | hFlat value hFlat =>
      intro _
      rw [alike_flat hFlat]
      exact hScalar value hFlat
  | hArray items ih =>
      intro hWell
      rw [wellFormed_array] at hWell
      rw [alike, alikeItems_iff, List.forall₂_same]
      exact fun item hMem => ih item hMem (hWell item hMem)
  | hObject fields ih =>
      intro hWell
      rw [wellFormed_object] at hWell
      rw [alike_object]
      exact ⟨rfl, fun field hMem => ⟨field.2, lookup_of_mem hWell.1 hMem, ih field hMem (hWell.2 field hMem)⟩⟩

theorem equal_self (value : Value) : value.WellFormed → equal value value = true := alike_self (fun _ => same_self) value

theorem sameKind_self (value : Value) : value.sameKind value = true := by cases value <;> rfl

theorem sameKinds_self (value : Value) : value.WellFormed → sameKinds value value = true :=
  alike_self (fun value _ => sameKind_self value) value

/-- Plain values that are equal and of one type are the same. -/
theorem eq_of_same {value other : Value} (hFlat : value.hashable = true) (hSame : value.same other = true)
    (hKind : value.sameKind other = true) : value = other := by
  cases value with
  | array items => cases hFlat
  | object fields => cases hFlat
  | null => cases other with
    | null => rfl
    | _ => cases hKind
  | bool flag => cases other with
    | bool found => cases flag <;> cases found <;> simp [Value.same, Value.number?] at hSame ⊢
    | _ => cases hKind
  | int number => cases other with
    | int found => simpa [Value.same, Value.number?] using hSame
    | _ => cases hKind
  | float number => cases other with
    | float found => simpa [Value.same, Value.number?] using hSame
    | _ => cases hKind
  | string word => cases other with
    | string found => simpa [Value.same, Value.number?] using hSame
    | _ => cases hKind

/-- Equal dictionaries have the same keys. -/
theorem equal_lookup {fields others : List (Text × Value)} (hFields : (fields.map (·.1)).Nodup)
    (h : equal (.object fields) (.object others) = true) {key : Text} {value : Value} (hValue : others.lookup key = some value) :
    ∃ found, fields.lookup key = some found ∧ equal found value = true := by
  obtain ⟨hLength, hBeside⟩ := alike_object.mp h
  have hSubset : fields.map (·.1) ⊆ others.map (·.1) := by
    intro name hName
    obtain ⟨field, hField, rfl⟩ := List.mem_map.mp hName
    obtain ⟨other, hOther, -⟩ := hBeside field hField
    exact List.mem_map_of_mem (f := (·.1)) (mem_of_lookup hOther)
  have hPerm : (fields.map (·.1)).Perm (others.map (·.1)) :=
    (List.subperm_of_subset hFields hSubset).perm_of_length_le (by rw [List.length_map, List.length_map, hLength])
  obtain ⟨⟨name, found⟩, hField, rfl⟩ := List.mem_map.mp (hPerm.mem_iff.mpr (List.mem_map_of_mem (f := (·.1)) (mem_of_lookup hValue)))
  obtain ⟨other, hOther, hEqual⟩ := hBeside _ hField
  rw [hValue] at hOther
  obtain rfl := Option.some.inj hOther
  exact ⟨found, lookup_of_mem hFields hField, hEqual⟩

/-- Only a text equals a text. -/
theorem equal_string {value : Value} {word : Text} (h : equal value (.string word) = true) : value = .string word := by
  cases value with
  | string found =>
      have hWord : (found == word) = true := h
      rw [eq_of_beq hWord]
  | _ => cases h

/-- A value equals one number at most. -/
theorem equal_int {value : Value} {first second : Int} (hFirst : equal value (.int first) = true)
    (hSecond : equal value (.int second) = true) : first = second := by
  have hNumber : ∀ number : Int, equal value (.int number) = true → value.number? = some (.finite number) := by
    intro number hEqual
    cases value with
    | array items => cases hEqual
    | object fields => cases hEqual
    | null => cases hEqual
    | string word => cases hEqual
    | bool flag =>
        have hSame : ((Value.bool flag).same (.int number)) = true := hEqual
        simpa [Value.same, Value.number?] using hSame
    | int found =>
        have hSame : ((Value.int found).same (.int number)) = true := hEqual
        simpa [Value.same, Value.number?] using hSame
    | float found =>
        have hSame : ((Value.float found).same (.int number)) = true := hEqual
        simpa [Value.same, Value.number?] using hSame
  have hBoth := (hNumber first hFirst).symm.trans (hNumber second hSecond)
  simpa using hBoth

/-! What a program does with a value does not depend on the order of its keys. -/

theorem item_sortKeys {value : Value} (hWell : value.WellFormed) (name : String) :
    (sortKeys value).item name = (value.item name).map sortKeys := by
  cases value with
  | object fields =>
      obtain ⟨sorted, hSorted, hPerm⟩ := sortKeys_object fields
      rw [hSorted, Value.item, Value.item, sortKeys_lookup (wellFormed_object.mp hWell).1 hPerm]
      cases fields.lookup (text name) <;> rfl
  | array items =>
      rw [sortKeys_array]
      rfl
  | _ => rfl

/-- What looks alike at lists and dictionaries, sorted inside or not, does not see
the order of keys. -/
theorem sortKeys_blind {α : Type} (f : Value → α) (hArray : ∀ items, f (.array (items.map sortKeys)) = f (.array items))
    (hObject : ∀ fields sorted, sorted.Perm (fields.map fun field => (field.1, sortKeys field.2)) →
      f (.object sorted) = f (.object fields)) (value : Value) : f (sortKeys value) = f value := by
  cases value with
  | array items => rw [sortKeys_array, hArray]
  | object fields =>
      obtain ⟨sorted, hSorted, hPerm⟩ := sortKeys_object fields
      rw [hSorted, hObject fields sorted hPerm]
  | _ => rfl

theorem isText_sortKeys (value : Value) (word : Text) : (sortKeys value).isText word = value.isText word :=
  sortKeys_blind (·.isText word) (fun _ => rfl) (fun _ _ _ => rfl) value

theorem asText_sortKeys (value : Value) : (sortKeys value).asText = value.asText :=
  sortKeys_blind Value.asText (fun _ => rfl) (fun _ _ _ => rfl) value

theorem hashable_sortKeys (value : Value) : (sortKeys value).hashable = value.hashable :=
  sortKeys_blind Value.hashable (fun _ => rfl) (fun _ _ _ => rfl) value

theorem mapM_asText_sortKeys (items : List Value) : (items.map sortKeys).mapM Value.asText = items.mapM Value.asText := by
  rw [List.mapM_map]
  exact congrArg (List.mapM · items) (funext asText_sortKeys)

end PyJson
