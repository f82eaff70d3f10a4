import Mathlib.Data.List.Sort
import QsAi.Interpretation.InputValues

/-! Assembly of a participant's scale report: the selected dimensions, their
suggestions and the overall result, as the facts an explanation may use. -/
namespace QsAi

open Guarded PyJson PercentEncoding

namespace ReportInput

/-! Identities. -/

def isLetter (c : Nat) : Bool := (65 ≤ c && c ≤ 90) || (97 ≤ c && c ≤ 122)

def isSmall (c : Nat) : Bool := 97 ≤ c && c ≤ 122

/-- `sha256:` and 64 small hexadecimal digits. -/
def isFingerprint (value : Text) : Bool :=
  value.take 7 == text "sha256:" && (value.drop 7).length == 64 &&
    (value.drop 7).all fun c => isDigit c || (97 ≤ c && c ≤ 102)

/-- A language tag of letters and digits in parts. -/
def isLocale (value : Text) : Bool :=
  match value.splitOn 45 with
  | [] => false
  | first :: rest =>
      2 ≤ first.length && first.length ≤ 3 && first.all isLetter &&
        rest.all fun part => 2 ≤ part.length && part.length ≤ 8 && part.all fun c => isLetter c || isDigit c

/-- A small letter, then at most 63 small letters, digits and marks. -/
def isFocusArea (value : Text) : Bool :=
  match value with
  | [] => false
  | first :: rest =>
      isSmall first && rest.length ≤ 63 && rest.all fun c => isSmall c || isDigit c || c == 95 || c == 46 || c == 45

/-- A positive decimal of at most twenty digits below 2⁶⁴. -/
def isSourceId (value : Text) : Bool :=
  match value with
  | [] => false
  | first :: rest => isDigit first && first != 48 && rest.length ≤ 19 && rest.all isDigit && digitsValue value < 2 ^ 64

def checkFocus (policy : InputPolicy) (focus : List Text) : Assembly Unit :=
  if focus.Nodup ∧ ∀ area ∈ focus, isFocusArea area = true ∧ area ∈ policy.allowedFocusAreas then pure ()
  else invalidInput "Invalid or disallowed focus areas"

/-! Parts of the facts. -/

/-- `_score`. -/
def score (value : Value) : Assembly Value :=
  match value with
  | .null => pure .null
  | value => do
      let kind ← native (value.item "kind")
      let points ← native (value.item "value")
      let points ← number points false
      let label ← native (value.item "label")
      let maximum ← native (value.item "max")
      let maximum ← number maximum true
      pure (record [("kind", kind), ("value", points), ("label", label), ("max", maximum)])

/-- `_level`: a level without a label is labelled by its code. -/
def level (value : Value) : Assembly Value :=
  match value with
  | .null => pure .null
  | value => do
      let code ← native (value.item "code")
      let label ← native (value.item "label")
      let severity ← native (value.item "severity")
      if label.isText [] then do
        let label ← plain code 2000 true
        pure (record [("code", code), ("label", .string label), ("severity", severity)])
      else pure (record [("code", code), ("label", label), ("severity", severity)])

/-- `_norm`. -/
def norm (value : Value) : Assembly Value :=
  match value with
  | .null => pure .null
  | value => do
      let scoreKind ← native (value.item "score_kind")
      let benchmark ← native (value.item "benchmark")
      let tableVersion ← native (value.item "table_version")
      let formVariant ← native (value.item "form_variant")
      let minAge ← native (value.item "min_age_months")
      let maxAge ← native (value.item "max_age_months")
      let gender ← native (value.item "gender")
      let _ ← number benchmark false
      pure (record [("score_kind", scoreKind), ("benchmark", benchmark), ("table_version", tableVersion),
        ("form_variant", formVariant), ("min_age_months", minAge), ("max_age_months", maxAge), ("gender", gender)])

/-- A number of the report between nought and a hundred. -/
def isPercent (value : Value) : Bool :=
  match value with
  | .int found => 0 ≤ found && found ≤ 100
  | .float (.finite found) => 0 ≤ found && found ≤ 100
  | _ => false

/-- `_plain(extra.get(name), 2000)`. -/
def plainMember (extra : Value) (name : String) : Assembly Unit := do
  let found ← native (extra.get name)
  let _ ← plain (found.getD .null) 2000 true
  pure ()

/-- `_model_result`. -/
def modelResult (extra : Value) : Assembly Value :=
  match extra with
  | .null => pure .null
  | extra => do
      ["kind", "type_code", "type_name", "one_liner"].forM (plainMember extra)
      let percent ← native (extra.get "match_percent")
      let percent := percent.getD (.int 0)
      if isPercent percent = false then invalidInput "Invalid model match percent"
      else do
        let kind ← native (extra.item "kind")
        let typeCode ← native (extra.item "type_code")
        let typeName ← native (extra.item "type_name")
        let oneLiner ← native (extra.item "one_liner")
        let commentary ← native (extra.get "commentary")
        pure (record [("kind", kind), ("type_code", typeCode), ("type_name", typeName), ("one_liner", oneLiner),
          ("match_percent", percent), ("commentary", commentary.getD (.string []))])

/-! Dimensions. -/

structure ProjectedDimension where
  ref : Text
  code : Text
  kind : Text
  name : Text
  role : Value
  parentRef : Option Text
  hierarchyLevel : Int
  sortOrder : Int
  rawScore : Value
  maxScore : Value
  derivedScores : List Value
  level : Value
  normContext : Value
  standardDescription : Text
  standardSuggestionRefs : List Text

/-- A text or nothing. -/
def optional (value : Option Text) : Value := (value.map Value.string).getD .null

def ProjectedDimension.value (d : ProjectedDimension) : Value :=
  record [("ref", .string d.ref), ("code", .string d.code), ("kind", .string d.kind), ("name", .string d.name),
    ("role", d.role), ("parent_ref", optional d.parentRef), ("hierarchy_level", .int d.hierarchyLevel),
    ("sort_order", .int d.sortOrder),
    ("raw_score", record [("kind", .string (text "raw_score")), ("value", d.rawScore), ("label", .string []),
      ("max", d.maxScore)]),
    ("derived_scores", .array d.derivedScores), ("level", d.level), ("norm_context", d.normContext),
    ("standard_description", .string d.standardDescription),
    ("standard_suggestion_refs", .array (d.standardSuggestionRefs.map .string))]

/-- An integer that is not negative. -/
def ordinal (d : Value) (field : String) : Assembly Int := do
  let found ← native (d.item field)
  match found with
  | .int found => if found < 0 then invalidInput "Invalid dimension hierarchy or sort order" else pure found
  | _ => invalidInput "Invalid dimension hierarchy or sort order"

/-- `refs.get(value)`. -/
def refOf (refs : List (Text × Text)) (value : Value) : Assembly (Option Text) := do
  native (require (value.hashable = true) .type)
  match value with
  | .string code => pure (refs.lookup code)
  | _ => pure none

/-- The dimension as the facts show it. -/
def project (policy : InputPolicy) (refs : List (Text × Text)) (collected : Collected) (d : Value) (code ownRef : Text) :
    Assembly ProjectedDimension := do
  let hierarchyLevel ← ordinal d "hierarchy_level"
  let sortOrder ← ordinal d "sort_order"
  let kind ← native (d.item "kind")
  let kind ← plain kind 255 true
  let name ← native (d.item "name")
  let name ← plain name 2000 true
  let role ← native (d.item "role")
  let parentCode ← native (d.item "parent_code")
  let parentRef ← refOf refs parentCode
  let rawScore ← native (d.item "raw_score")
  let rawScore ← number rawScore false
  let maxScore ← native (d.item "max_score")
  let maxScore ← number maxScore true
  let derived ← native (d.item "derived_scores")
  let derived ← native derived.elements
  let derivedScores ← derived.mapM score
  let found ← native (d.item "level")
  let level ← level found
  let normContext ←
    if policy.includeNormContext then do
      let found ← native (d.item "norm_reference")
      norm found
    else pure .null
  let description ← native (d.item "description")
  let standardDescription ← plain description 4000 false
  pure
    { ref := ownRef, code, kind, name, role, parentRef, hierarchyLevel, sortOrder, rawScore, maxScore, derivedScores
      level, normContext, standardDescription, standardSuggestionRefs := collected.refsOf code }

/-- The order of the facts: by sort order, then by code. -/
def before (a b : ProjectedDimension) : Bool :=
  a.sortOrder < b.sortOrder || (a.sortOrder == b.sortOrder && decide (a.code ≤ b.code))

/-! The whole report. -/

/-- The facts of a report, as far as they refer to each other, and the rest. -/
structure ScaleFacts where
  runtime : Value
  model : Value
  overallResult : Value
  dimensions : List ProjectedDimension
  suggestions : List Suggestion
  modelResult : Value

def ScaleFacts.value (facts : ScaleFacts) : Value :=
  record [("runtime", facts.runtime), ("model", facts.model), ("overall_result", facts.overallResult),
    ("dimensions", .array (facts.dimensions.map ProjectedDimension.value)),
    ("standard_suggestions", .array (facts.suggestions.map Suggestion.value)), ("model_result", facts.modelResult)]

def checkPolicy (policy : InputPolicy) : Assembly Unit := do
  if policy.profileId = [] ∨ policy.profileVersion = [] ∨ isFingerprint policy.profileFingerprint = false then
    invalidInput "Published Profile reference is required"
  else if ¬ (2 ≤ policy.minDimensions ∧ policy.minDimensions ≤ policy.maxDimensions ∧ policy.maxDimensions ≤ 50) then
    invalidInput "Invalid eligibility bounds"
  else if ∃ code ∈ policy.eligibleCodes, code ∈ policy.excludedCodes then invalidInput "Overlapping eligibility policy"
  else pure ()

/-- The report is the kind of report the profile is for. -/
def checkModel (policy : InputPolicy) (model runtime : Value) : Assembly Unit := do
  let kind ← native (model.item "kind")
  if kind.isText (text "scale") = false then notApplicable "Input v1 requires participant scale/score_range"
  else do
    let decision ← native (runtime.item "decision_kind")
    if decision.isText (text "score_range") = false then notApplicable "Input v1 requires participant scale/score_range"
    else do
      let selects (expected : Option Text) (field : String) : Assembly Bool :=
        match expected with
        | none => pure true
        | some expected => do
            let found ← native (model.item field)
            pure (found.isText expected)
      let code ← selects policy.modelCode "code"
      if code = false then notApplicable "Profile selector does not match report"
      else do
        let version ← selects policy.modelVersion "version"
        if version = false then notApplicable "Profile selector does not match report"
        else
          ["algorithm", "code", "version", "title"].forM fun key => do
            let found ← native (model.item key)
            let _ ← plain found 2000 true
            pure ()

/-- One of the identities of the stored report. -/
def checkSourceId (source : Value) (key : String) : Assembly Unit := do
  let found ← native (source.item key)
  let found ← asText found .type
  if isSourceId found = false then invalidInput "Invalid source identity" else pure ()

def checkSource (source : Value) : Assembly Unit := do
  ["report_id", "outcome_id"].forM (checkSourceId source)
  ["report_template_version", "content_schema_version", "builder_identity", "generated_at"].forM fun key => do
    let found ← native (source.item key)
    let _ ← plain found 255 true
    pure ()
  let reportType ← native (source.item "report_type")
  if reportType.isText (text "standard") = false then notApplicable "Only standard reports are accepted" else pure ()

/-- The code of a dimension, a text that is not empty. -/
def codeOf (d : Value) : Option Text :=
  match d.item "code" with
  | .ok (.string code) => if code = [] then none else some code
  | _ => none

/-- The dimensions with their codes; codes are present and different. -/
def codedDimensions (dimensions : List Value) : Assembly (List (Text × Value)) := do
  dimensions.forM fun d => do
    let _ ← native (d.item "code")
    pure ()
  match dimensions.mapM fun d => (codeOf d).map fun code => (code, d) with
  | some coded => if (coded.map (·.1)).Nodup then pure coded else invalidInput "Missing or duplicate dimension code"
  | none => invalidInput "Missing or duplicate dimension code"

/-- The profile selects the dimension. -/
def InputPolicy.selects (policy : InputPolicy) (code : Text) : Bool :=
  (policy.eligibleCodes.isEmpty || policy.eligibleCodes.contains code) && !policy.excludedCodes.contains code

/-- The dimensions the profile selects, with their references. -/
def selectedDimensions (policy : InputPolicy) (coded : List (Text × Value)) : Assembly (List (Text × Text × Value)) := do
  let selected := coded.filter fun d => InputPolicy.selects policy d.1
  if ¬ (policy.minDimensions ≤ selected.length ∧ selected.length ≤ policy.maxDimensions) then
    notApplicable "Eligible dimension count outside Profile bounds"
  else
    selected.mapM fun d => do
      let reference ← ref d.1
      pure (d.1, text "dimension:" ++ reference, d.2)

/-- The facts of the report. -/
def scaleFacts (snapshot : Value) (policy : InputPolicy) : Assembly ScaleFacts := do
  let model ← native (snapshot.item "model")
  let runtime ← native (snapshot.item "runtime")
  checkModel policy model runtime
  let source ← native (snapshot.item "source")
  checkSource source
  let dimensions ← native (snapshot.item "dimensions")
  let dimensions ← native dimensions.elements
  let coded ← codedDimensions dimensions
  let selected ← selectedDimensions policy coded
  let refs := selected.map fun d => (d.1, d.2.1)
  let collected ← suggestions snapshot refs
  let projected ← selected.mapM fun d => project policy refs collected d.2.2 d.1 d.2.1
  let decision ← native (runtime.item "decision_kind")
  let modelFields ← ["kind", "algorithm", "code", "version", "title"].mapM fun key => do
    let found ← native (model.item key)
    pure (key, found)
  let primary ← native (snapshot.item "primary_score")
  let primary ← score primary
  let overall ← native (snapshot.item "level")
  let overall ← level overall
  let conclusion ← native (snapshot.item "conclusion")
  let result ←
    if policy.includeModelResult then do
      let extra ← native (snapshot.item "model_extra")
      modelResult extra
    else pure .null
  pure
    { runtime := record [("decision_kind", decision)]
      model := record modelFields
      overallResult := record [("primary_score", primary), ("level", overall), ("standard_conclusion", conclusion)]
      dimensions := projected.insertionSort (before · ·)
      suggestions := collected.result
      modelResult := result }

/-- What an explanation is told about its purpose. -/
def context (locale : Text) (focus : List Text) : Value :=
  record [("scope", .string (text "current_assessment_only")), ("audience", .string (text "participant")),
    ("locale", .string locale),
    ("personalization_scope", .string (text
      (if focus = [] then "assessment_result_only" else "assessment_result_and_focus_areas"))),
    ("focus_areas", .array (focus.map .string))]

def profile (policy : InputPolicy) : Value :=
  record [("profile_id", .string policy.profileId), ("profile_version", .string policy.profileVersion),
    ("profile_fingerprint", .string policy.profileFingerprint)]

/-- The input with its digest; a text that cannot be encoded has none. -/
def sealInput (library : Library) (document payload : Value) : Assembly AssembledInput := do
  let canonical ← json library document
  native (require (canonical.any isSurrogate = false) .value)
  let provider ← json library payload
  pure ⟨canonical, library.digest canonical, provider⟩

/-- `_assemble`. -/
def assembleScale (library : Library) (snapshot : Value) (policy : InputPolicy) (locale : Text) (focus : List Text) :
    Assembly AssembledInput := do
  let version ← native (snapshot.item "schema_version")
  if version.isText (text "qs-report-snapshot/v1") = false then invalidInput "Unsupported report snapshot version"
  else do
    checkPolicy policy
    if isLocale locale = false ∨ 35 < locale.length then invalidInput "Invalid locale"
    else do
      checkFocus policy focus
      let facts ← scaleFacts snapshot policy
      let source ← native (snapshot.item "source")
      let sourceFields ← ["report_id", "outcome_id", "report_type", "report_template_version", "content_schema_version",
          "builder_identity", "generated_at"].mapM fun key => do
        let found ← native (source.item key)
        pure (key, found)
      let context := context locale focus
      let document := record [("schema_version", .string (text "ai-explanation-input/v1")), ("source", record sourceFields),
        ("profile", profile policy), ("context", context), ("facts", facts.value)]
      sealInput library document (record [("context", context), ("facts", facts.value)])

end ReportInput

end QsAi
