import QsAi.Foundation.Keyed
import QsAi.Foundation.PyJson

/-! Documents. A codec writes values of a type as JSON and reads them back; it
carries the proof that reading undoes writing. Members of an object are read by
name, so their order does not matter. -/
namespace PyJson

open Keyed

theorem text_inj {a b : String} : text a = text b ↔ a = b := by
  constructor
  · intro h
    have hList : a.toList = b.toList :=
      List.map_injective_iff.mpr (fun x y hNat => Char.ext (UInt32.toNat_inj.mp hNat)) h
    exact String.toList_injective hList
  · rintro rfl
    rfl

theorem text_ofList (characters : List Char) : text (String.ofList characters) = characters.map (·.toNat) := by
  rw [text, String.toList_ofList]

theorem text_append (first second : String) : text (first ++ second) = text first ++ text second := by
  rw [text, text, text, String.toList_append, List.map_append]

theorem isSurrogate_char (c : Char) : isSurrogate c.toNat = false := by
  have hValid : c.toNat < 0xD800 ∨ 0xDFFF < c.toNat ∧ c.toNat < 0x110000 := c.valid
  rw [isSurrogate, Bool.and_eq_false_iff, decide_eq_false_iff_not, decide_eq_false_iff_not]
  omega

/-- A string of characters can be encoded, and is what it was. -/
@[simp] theorem encode_text (value : String) : encode (text value) = some value := by
  have hClean : (text value).any isSurrogate = false := by
    rw [List.any_eq_false]
    intro c hMem
    obtain ⟨char, _, rfl⟩ := List.mem_map.mp hMem
    rw [isSurrogate_char]
    exact Bool.false_ne_true
  have hChars : (text value).map Char.ofNat = value.toList := by
    rw [text, List.map_map]
    exact (List.map_congr_left fun c _ => Char.ofNat_toNat c).trans (List.map_id _)
  rw [encode, hClean, if_neg Bool.false_ne_true, hChars, String.ofList_toList]

/-- The member of an object. -/
def member (fields : List (Text × Value)) (name : String) : Option Value :=
  (lookup (·.1) fields (text name)).map (·.2)

@[simp] theorem member_nil (name : String) : member [] name = none := rfl

@[simp] theorem member_cons (field name : String) (value : Value) (rest : List (Text × Value)) :
    member ((text field, value) :: rest) name = if field = name then some value else member rest name := by
  by_cases hName : field = name
  · rw [if_pos hName]
    simp [member, lookup, hName]
  · rw [if_neg hName]
    have hText : text field ≠ text name := fun h => hName (text_inj.mp h)
    simp [member, lookup, hText]

/-- A way to write values as JSON that can be undone. -/
structure Codec (α : Type) where
  write : α → Value
  read : Value → Option α
  read_write : ∀ value, read (write value) = some value

namespace Codec

variable {α β : Type}

attribute [simp] read_write

def string : Codec String where
  write value := .string (text value)
  read
    | .string value => encode value
    | _ => none
  read_write := encode_text

def nat : Codec Nat where
  write value := .int value
  read
    | .int value => value.toNat?
    | _ => none
  read_write _ := rfl

def bool : Codec Bool where
  write := .bool
  read
    | .bool value => some value
    | _ => none
  read_write _ := rfl

/-- Another type with the same documents. -/
def via (codec : Codec α) (parse : α → Option β) (print : β → α) (h : ∀ value, parse (print value) = some value) :
    Codec β where
  write value := codec.write (print value)
  read value := (codec.read value).bind parse
  read_write value := by rw [codec.read_write, Option.bind_some, h]

def list (codec : Codec α) : Codec (List α) where
  write values := .array (values.map codec.write)
  read
    | .array items => items.mapM codec.read
    | _ => none
  read_write values := by
    induction values with
    | nil => rfl
    | cons value rest ih =>
        simp only [List.map_cons, List.mapM_cons, codec.read_write] at ih ⊢
        rw [ih]
        rfl

/-- A pair as an array of two. -/
def pair (first : Codec α) (second : Codec β) : Codec (α × β) where
  write value := .array [first.write value.1, second.write value.2]
  read
    | .array [a, b] => do
        let x ← first.read a
        let y ← second.read b
        some (x, y)
    | _ => none
  read_write value := by simp

/-- The member of an object, read by its codec. -/
def field (codec : Codec α) (fields : List (Text × Value)) (name : String) : Option α :=
  (member fields name).bind codec.read

/-- A member that may be missing. -/
def optional (codec : Codec α) (fields : List (Text × Value)) (name : String) : Option (Option α) :=
  match member fields name with
  | none => some none
  | some value => (codec.read value).map some

/-- The members of an optional value: one or none. -/
def entry (codec : Codec α) (name : String) : Option α → List (Text × Value)
  | none => []
  | some value => [(text name, codec.write value)]

end Codec

end PyJson
