import QsAi.Foundation.JsonDump

/-! Values that a program receives without knowing their form. Every access may
raise; a program that checks such values either refuses them for a reason of its
own or raises an exception of the language. -/
namespace PyJson

open Guarded Binary64

/-! Dictionaries as lists. -/

theorem mem_of_lookup {β : Type} {entries : List (Text × β)} {key : Text} {value : β} (h : entries.lookup key = some value) :
    (key, value) ∈ entries := by
  obtain ⟨first, rest, rfl, -⟩ := List.lookup_eq_some_iff.mp h
  simp

theorem lookup_of_mem {β : Type} {entries : List (Text × β)} {key : Text} {value : β}
    (hKeys : (entries.map (·.1)).Nodup) (h : (key, value) ∈ entries) : entries.lookup key = some value := by
  obtain ⟨first, rest, rfl⟩ := List.append_of_mem h
  rw [List.map_append, List.map_cons, List.nodup_append] at hKeys
  refine List.lookup_eq_some_iff.mpr ⟨first, rest, rfl, fun entry hEntry => ?_⟩
  rw [bne_iff_ne]
  exact (hKeys.2.2 entry.1 (List.mem_map_of_mem hEntry) key List.mem_cons_self).symm

/-- How a program ends that does not return. -/
inductive Failure (ε : Type)
  | refused (error : ε)
  | raised (fault : Fault)
deriving DecidableEq, Repr

variable {ε α : Type}

/-- A computation of the language inside a program with refusals. -/
def native (result : Except Fault α) : Except (Failure ε) α := result.mapError .raised

/-- Refuse for a reason of the program. -/
def refuse (error : ε) : Except (Failure ε) α := .error (.refused error)

@[simp] theorem native_ok {result : Except Fault α} {value : α} :
    (native result : Except (Failure ε) α) = .ok value ↔ result = .ok value := mapError_ok ..

@[simp] theorem refuse_ok {error : ε} {value : α} : (refuse error : Except (Failure ε) α) = .ok value ↔ False := by
  simp [refuse]

namespace Value

/-- `value[name]` with a text as the index. -/
def item (value : Value) (name : String) : Except Fault Value :=
  match value with
  | .object fields => demand (fields.lookup (text name)) .key
  | _ => .error .type

/-- `value.get(name)`, which only dictionaries have. -/
def get (value : Value) (name : String) : Except Fault (Option Value) :=
  match value with
  | .object fields => .ok (fields.lookup (text name))
  | _ => .error .attribute

/-- What a loop over the value meets. -/
def elements : Value → Except Fault (List Value)
  | .array items => .ok items
  | .object fields => .ok (fields.map fun field => .string field.1)
  | .string value => .ok (value.map fun c => .string [c])
  | _ => .error .type

/-- The value is this text. -/
def isText (value : Value) (word : Text) : Bool :=
  match value with
  | .string found => found == word
  | _ => false

/-- Dictionaries and lists are no members of sets and no keys. -/
def hashable : Value → Bool
  | .array _ => false
  | .object _ => false
  | _ => true

/-- Truth and numbers compare by what they count. -/
def number? : Value → Option Double
  | .bool value => some (.finite (if value then 1 else 0))
  | .int value => some (.finite value)
  | .float value => some value
  | _ => none

/-- Equality of values that can be members of sets. -/
def same (a b : Value) : Bool :=
  match a.number?, b.number? with
  | some x, some y => x == y
  | none, none =>
      match a, b with
      | .null, .null => true
      | .string x, .string y => x == y
      | _, _ => false
  | _, _ => false

/-- What a condition makes of the value. -/
def truthy : Value → Bool
  | .null => false
  | .bool value => value
  | .int value => value ≠ 0
  | .float value => value ≠ .finite 0
  | .string value => value ≠ []
  | .array items => !items.isEmpty
  | .object fields => !fields.isEmpty

end Value

/-! Values inside well formed values. -/

theorem itemsWellFormed_iff {items : List Value} : ItemsWellFormed items ↔ ∀ item ∈ items, item.WellFormed := by
  induction items with
  | nil => simp [ItemsWellFormed]
  | cons item items ih => rw [ItemsWellFormed, ih, List.forall_mem_cons]

theorem fieldsWellFormed_iff {fields : List (Text × Value)} :
    FieldsWellFormed fields ↔ ∀ field ∈ fields, field.2.WellFormed := by
  induction fields with
  | nil => simp [FieldsWellFormed]
  | cons field fields ih => rw [FieldsWellFormed, ih, List.forall_mem_cons]

theorem wellFormed_array {items : List Value} : (Value.array items).WellFormed ↔ ∀ item ∈ items, item.WellFormed :=
  itemsWellFormed_iff

theorem wellFormed_object {fields : List (Text × Value)} :
    (Value.object fields).WellFormed ↔ (fields.map (·.1)).Nodup ∧ ∀ field ∈ fields, field.2.WellFormed := by
  rw [Value.WellFormed, fieldsWellFormed_iff]

theorem wellFormed_strings (values : List Text) : (Value.array (values.map .string)).WellFormed := by
  rw [wellFormed_array]
  intro item hMem
  obtain ⟨value, -, rfl⟩ := List.mem_map.mp hMem
  trivial

namespace Value.WellFormed

variable {value : Value}

theorem ofLookup {fields : List (Text × Value)} {key : Text} (hWell : (Value.object fields).WellFormed)
    (h : fields.lookup key = some value) : value.WellFormed := by
  obtain ⟨first, rest, rfl, -⟩ := List.lookup_eq_some_iff.mp h
  exact (wellFormed_object.mp hWell).2 _ (List.mem_append_right _ List.mem_cons_self)

theorem item (hWell : value.WellFormed) {found : Value} {name : String} (h : value.item name = .ok found) :
    found.WellFormed := by
  cases value with
  | object fields =>
      rw [Value.item, demand_ok] at h
      exact hWell.ofLookup h
  | _ => cases h

theorem get (hWell : value.WellFormed) {found : Option Value} {name : String} (h : value.get name = .ok found) :
    ∀ inner, found = some inner → inner.WellFormed := by
  cases value with
  | object fields =>
      rintro inner rfl
      exact hWell.ofLookup (Except.ok.inj h)
  | _ => cases h

theorem elements (hWell : value.WellFormed) {items : List Value} (h : value.elements = .ok items) :
    ∀ item ∈ items, item.WellFormed := by
  cases value with
  | array found =>
      cases h
      exact wellFormed_array.mp hWell
  | object fields =>
      cases h
      intro item hMem
      obtain ⟨field, -, rfl⟩ := List.mem_map.mp hMem
      trivial
  | string found =>
      cases h
      intro item hMem
      obtain ⟨c, -, rfl⟩ := List.mem_map.mp hMem
      trivial
  | _ => cases h

end Value.WellFormed

/-! Strings inside values. -/

section Texts

variable (names : Bool)

mutual

/-- The strings in a value, with or without the names of members. -/
def texts : Value → List Text
  | .string value => [value]
  | .array items => textsOfItems items
  | .object fields => textsOfFields fields
  | _ => []
termination_by structural value => value

def textsOfItems : List Value → List Text
  | [] => []
  | item :: rest => texts item ++ textsOfItems rest
termination_by structural items => items

def textsOfFields : List (Text × Value) → List Text
  | [] => []
  | (name, value) :: rest => (if names then [name] else []) ++ (texts value ++ textsOfFields rest)
termination_by structural fields => fields

end

end Texts

mutual

/-- The names of all members in a value. -/
def memberNames : Value → List Text
  | .array items => memberNamesOfItems items
  | .object fields => memberNamesOfFields fields
  | _ => []
termination_by structural value => value

def memberNamesOfItems : List Value → List Text
  | [] => []
  | item :: rest => memberNames item ++ memberNamesOfItems rest
termination_by structural items => items

def memberNamesOfFields : List (Text × Value) → List Text
  | [] => []
  | (name, value) :: rest => name :: (memberNames value ++ memberNamesOfFields rest)
termination_by structural fields => fields

end

section MapTexts

variable (f : Text → Text)

mutual

/-- Change every string value; the names of members stay. -/
def mapTexts : Value → Value
  | .string value => .string (f value)
  | .array items => .array (mapItems items)
  | .object fields => .object (mapFields fields)
  | value => value
termination_by structural value => value

def mapItems : List Value → List Value
  | [] => []
  | item :: rest => mapTexts item :: mapItems rest
termination_by structural items => items

def mapFields : List (Text × Value) → List (Text × Value)
  | [] => []
  | (name, value) :: rest => (name, mapTexts value) :: mapFields rest
termination_by structural fields => fields

end

theorem mapItems_eq (items : List Value) : mapItems f items = items.map (mapTexts f) := by
  induction items with
  | nil => rfl
  | cons item items ih => rw [mapItems, ih, List.map_cons]

theorem mapFields_eq (fields : List (Text × Value)) :
    mapFields f fields = fields.map fun field => (field.1, mapTexts f field.2) := by
  induction fields with
  | nil => rfl
  | cons field fields ih =>
      obtain ⟨name, value⟩ := field
      rw [mapFields, ih, List.map_cons]

mutual

theorem texts_mapTexts : ∀ value : Value, texts false (mapTexts f value) = (texts false value).map f
  | .null => rfl
  | .bool _ => rfl
  | .int _ => rfl
  | .float _ => rfl
  | .string _ => rfl
  | .array items => by
      rw [mapTexts, texts, texts, textsOfItems_mapItems items]
  | .object fields => by
      rw [mapTexts, texts, texts, textsOfFields_mapFields fields]
termination_by structural value => value

theorem textsOfItems_mapItems : ∀ items : List Value, textsOfItems false (mapItems f items) = (textsOfItems false items).map f
  | [] => rfl
  | item :: rest => by
      rw [mapItems, textsOfItems, textsOfItems, texts_mapTexts item, textsOfItems_mapItems rest, List.map_append]
termination_by structural items => items

theorem textsOfFields_mapFields : ∀ fields : List (Text × Value),
    textsOfFields false (mapFields f fields) = (textsOfFields false fields).map f
  | [] => rfl
  | (name, value) :: rest => by
      rw [mapFields, textsOfFields, textsOfFields, texts_mapTexts value, textsOfFields_mapFields rest]
      simp
termination_by structural fields => fields

end

mutual

theorem memberNames_mapTexts : ∀ value : Value, memberNames (mapTexts f value) = memberNames value
  | .null => rfl
  | .bool _ => rfl
  | .int _ => rfl
  | .float _ => rfl
  | .string _ => rfl
  | .array items => by
      rw [mapTexts, memberNames, memberNames, memberNames_mapItems items]
  | .object fields => by
      rw [mapTexts, memberNames, memberNames, memberNames_mapFields fields]
termination_by structural value => value

theorem memberNames_mapItems : ∀ items : List Value, memberNamesOfItems (mapItems f items) = memberNamesOfItems items
  | [] => rfl
  | item :: rest => by
      rw [mapItems, memberNamesOfItems, memberNamesOfItems, memberNames_mapTexts item, memberNames_mapItems rest]
termination_by structural items => items

theorem memberNames_mapFields : ∀ fields : List (Text × Value),
    memberNamesOfFields (mapFields f fields) = memberNamesOfFields fields
  | [] => rfl
  | (name, value) :: rest => by
      rw [mapFields, memberNamesOfFields, memberNamesOfFields, memberNames_mapTexts value, memberNames_mapFields rest]
termination_by structural fields => fields

end

variable (g : Text → Text)

mutual

/-- Changing twice is changing once by both changes. -/
theorem mapTexts_mapTexts : ∀ value : Value, mapTexts g (mapTexts f value) = mapTexts (g ∘ f) value
  | .null => rfl
  | .bool _ => rfl
  | .int _ => rfl
  | .float _ => rfl
  | .string _ => rfl
  | .array items => by
      rw [mapTexts, mapTexts, mapTexts, mapItems_mapItems items]
  | .object fields => by
      rw [mapTexts, mapTexts, mapTexts, mapFields_mapFields fields]
termination_by structural value => value

theorem mapItems_mapItems : ∀ items : List Value, mapItems g (mapItems f items) = mapItems (g ∘ f) items
  | [] => rfl
  | item :: rest => by
      rw [mapItems, mapItems, mapItems, mapTexts_mapTexts item, mapItems_mapItems rest]
termination_by structural items => items

theorem mapFields_mapFields : ∀ fields : List (Text × Value), mapFields g (mapFields f fields) = mapFields (g ∘ f) fields
  | [] => rfl
  | (name, value) :: rest => by
      rw [mapFields, mapFields, mapFields, mapTexts_mapTexts value, mapFields_mapFields rest]
termination_by structural fields => fields

end

end MapTexts

mutual

/-- A string in a value is a string value or the name of a member. -/
theorem mem_texts {found : Text} : ∀ value : Value, found ∈ texts true value ↔ found ∈ texts false value ∨ found ∈ memberNames value
  | .null => by simp [texts, memberNames]
  | .bool _ => by simp [texts, memberNames]
  | .int _ => by simp [texts, memberNames]
  | .float _ => by simp [texts, memberNames]
  | .string _ => by simp [texts, memberNames]
  | .array items => by
      rw [texts, texts, memberNames, mem_textsOfItems items]
  | .object fields => by
      rw [texts, texts, memberNames, mem_textsOfFields fields]
termination_by structural value => value

theorem mem_textsOfItems {found : Text} : ∀ items : List Value,
    found ∈ textsOfItems true items ↔ found ∈ textsOfItems false items ∨ found ∈ memberNamesOfItems items
  | [] => by simp [textsOfItems, memberNamesOfItems]
  | item :: rest => by
      simp only [textsOfItems, memberNamesOfItems, List.mem_append, mem_texts item, mem_textsOfItems rest]
      exact or_or_or_comm
termination_by structural items => items

theorem mem_textsOfFields {found : Text} : ∀ fields : List (Text × Value),
    found ∈ textsOfFields true fields ↔ found ∈ textsOfFields false fields ∨ found ∈ memberNamesOfFields fields
  | [] => by simp [textsOfFields, memberNamesOfFields]
  | (name, value) :: rest => by
      simp only [textsOfFields, memberNamesOfFields, List.mem_append, List.mem_cons, mem_texts value, mem_textsOfFields rest]
      simp only [if_true, Bool.false_eq_true, if_false, List.mem_singleton, List.not_mem_nil, false_or]
      grind
termination_by structural fields => fields

end

end PyJson
