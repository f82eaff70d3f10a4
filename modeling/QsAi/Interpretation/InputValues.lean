import QsAi.Text
import QsAi.Foundation.PercentEncoding
import QsAi.Foundation.PyObject

/-! Input values and the checks that the projections of a report share. A report
is JSON of unknown form; every check either returns what it checked or refuses. -/
namespace QsAi

open Guarded PyJson PercentEncoding

/-- Why a report is not assembled: it is invalid, or it is not for the profile. -/
inductive InputRefusal
  | invalidInput (message : String)
  | notApplicable (message : String)
deriving DecidableEq, Repr

/-- A step of the assembly of a report. -/
abbrev Assembly (α : Type) := Except (Failure InputRefusal) α

def invalidInput {α : Type} (message : String) : Assembly α := refuse (.invalidInput message)

def notApplicable {α : Type} (message : String) : Assembly α := refuse (.notApplicable message)

structure InputPolicy where
  profileId : Text
  profileVersion : Text
  profileFingerprint : Text
  modelCode : Option Text
  modelVersion : Option Text
  minDimensions : Int
  maxDimensions : Int
  eligibleCodes : List Text
  excludedCodes : List Text
  allowedFocusAreas : List Text
  includeNormContext : Bool
  includeModelResult : Bool

structure AssembledInput where
  canonicalJson : Text
  fingerprint : Text
  providerPayload : Text
deriving DecidableEq

namespace ReportInput

/-- A text of bounded length without angle brackets. -/
def plain (value : Value) (limit : Nat) (required : Bool) : Assembly Text :=
  match value with
  | .string found =>
      if limit < found.length ∨ (required = true ∧ found = []) then invalidInput "Invalid report text"
      else if 60 ∈ found ∨ 62 ∈ found then invalidInput "Report text must be plain text"
      else pure found
  | _ => invalidInput "Invalid report text"

/-- The characters beyond letters and digits that stay in a reference. -/
def safeCharacters : List Nat := text "$&+.:=@_"

/-- The reference of a code; a text that cannot be encoded has none. -/
def ref (code : Text) : Assembly Text := native (demand (quote safeCharacters code) .value)

/-- A finite number. An integer that no double is near to cannot be tested. -/
def number (value : Value) (optional : Bool) : Assembly Value :=
  match value with
  | .null => if optional then pure .null else invalidInput "Invalid numeric report fact"
  | .int found =>
      match Binary64.round found with
      | .finite _ => pure (.int found)
      | .infinite _ => native (.error .overflow)
  | .float (.finite found) => pure (.float (.finite found))
  | _ => invalidInput "Invalid numeric report fact"

/-- The text of a value that has to be one. -/
def asText (value : Value) (fault : Fault) : Assembly Text :=
  match value with
  | .string found => pure found
  | _ => native (.error fault)

/-- An object written in this order. -/
def record (fields : List (String × Value)) : Value := .object (fields.map fun field => (text field.1, field.2))

/-- The inputs of the interpreter that no report decides: the nesting it reads
and writes, and the digest of a text. -/
structure Library where
  readDepth : Nat
  writeDepth : Nat
  digest : Text → Text

/-- `_json`: compact, in the order of the fields, finite numbers only. -/
def json (library : Library) (value : Value) : Assembly Text := native (dumps compact false (some library.writeDepth) value)

/-! Suggestions. -/

structure Suggestion where
  ref : Text
  category : Value
  content : Text
  dimensionRefs : List Text

def Suggestion.value (suggestion : Suggestion) : Value :=
  record [("ref", .string suggestion.ref), ("category", suggestion.category), ("content", .string suggestion.content),
    ("dimension_refs", .array (suggestion.dimensionRefs.map .string))]

/-- What the collection of suggestions has so far. -/
structure Collected where
  result : List Suggestion := []
  byDimension : List (Text × List Text) := []
  seen : List (Value × Text × Value) := []

/-- `by_dimension.get(code, [])`. -/
def Collected.refsOf (collected : Collected) (code : Text) : List Text := (collected.byDimension.lookup code).getD []

/-- `by_dimension.setdefault(code, []).append(ref)`. -/
def addReference (byDimension : List (Text × List Text)) (code ref : Text) : List (Text × List Text) :=
  if code ∈ byDimension.map (·.1) then
    byDimension.map fun entry => if entry.1 = code then (code, entry.2 ++ [ref]) else entry
  else byDimension ++ [(code, [ref])]

/-- The same category, content and code. -/
def sameKey (a b : Value × Text × Value) : Bool := a.1.same b.1 && a.2.1 == b.2.1 && a.2.2.same b.2.2

/-- Put a suggestion on the list unless it is a repetition or belongs to a
dimension that is not selected. -/
def append (refs : List (Text × Text)) (collected : Collected) (ref : Text) (category content code : Value) :
    Assembly Collected := do
  if category.truthy = false then invalidInput "Suggestion category is required"
  else do
    let content ← plain content 2000 true
    native (require (category.hashable = true ∧ code.hashable = true) .type)
    if collected.seen.any (sameKey (category, content, code)) then pure collected
    else
      let seen := collected.seen ++ [(category, content, code)]
      if code.truthy = false then
        pure { collected with seen, result := collected.result ++ [⟨ref, category, content, []⟩] }
      else
        match code with
        | .string code =>
            match refs.lookup code with
            | some dimensionRef =>
                pure
                  { seen
                    byDimension := addReference collected.byDimension code ref
                    result := collected.result ++ [⟨ref, category, content, [dimensionRef]⟩] }
            | none => pure { collected with seen }
        | _ => pure { collected with seen }

/-- `value or ""`. -/
def orEmpty (value : Value) : Value := if value.truthy then value else .string []

/-- The decimal text of an integer, which has a longest length. -/
def shownInt (value : Int) : Assembly Text := do
  native (require ((printNat value.natAbs).length ≤ maxStrDigits) .value)
  pure (intText value)

/-- A suggestion of the report as a whole, under its own index. -/
def reportSuggestion (refs : List (Text × Text)) (indices : List Int) (collected : Collected) (suggestion : Value) :
    Assembly (List Int × Collected) := do
  let index ← native (suggestion.item "source_index")
  match index with
  | .int index =>
      if index < 0 ∨ index ∈ indices then invalidInput "Invalid original suggestion index"
      else do
        let shown ← shownInt (index + 1)
        let category ← native (suggestion.item "category")
        let content ← native (suggestion.item "content")
        let code ← native (suggestion.item "dimension_code")
        let collected ← append refs collected (text "suggestion:report:" ++ shown) category content (orEmpty code)
        pure (indices ++ [index], collected)
  | _ => invalidInput "Invalid original suggestion index"

def reportSuggestions (refs : List (Text × Text)) : List Int → Collected → List Value → Assembly Collected
  | _, collected, [] => pure collected
  | indices, collected, suggestion :: rest => do
      let (indices, collected) ← reportSuggestion refs indices collected suggestion
      reportSuggestions refs indices collected rest

/-- The suggestion of one dimension, when it is not blank. -/
def dimensionSuggestion (refs : List (Text × Text)) (collected : Collected) (dimension : Value) : Assembly Collected := do
  let suggestion ← native (dimension.item "suggestion")
  let words ← asText suggestion .attribute
  if stripText words = [] then pure collected
  else do
    let code ← native (dimension.item "code")
    let name ← asText code .type
    let reference ← ref name
    append refs collected (text "suggestion:dimension:" ++ reference) (.string (text "dimension")) suggestion code

/-- `_suggestions`: those of the report first, then those of the dimensions. -/
def suggestions (snapshot : Value) (refs : List (Text × Text)) : Assembly Collected := do
  let fromReport ← native (snapshot.item "suggestions")
  let fromReport ← native fromReport.elements
  let collected ← reportSuggestions refs [] {} fromReport
  let dimensions ← native (snapshot.item "dimensions")
  let dimensions ← native dimensions.elements
  dimensions.foldlM (dimensionSuggestion refs) collected

end ReportInput

end QsAi
