import QsAi.Evaluation.Judgement
import QsAi.Foundation.Ancestry
import QsAi.Interpretation.InputClosure

/-! The deterministic gates of a generated explanation: its form, its evidence,
and what the policy of the release allows. -/
namespace QsAi

open Guarded Keyed PyJson

/-- A check of an output; what it refuses has a code. -/
abbrev OutputCheck (α : Type) := Except (Failure String) α

def invalidOutput {α : Type} (code : String) : OutputCheck α := refuse code

structure RenderPolicy where
  allowedInsightKinds : List Text
  insightMinItems : Int
  insightMaxItems : Int
  minDimensionRefs : Int
  maxDimensionRefs : Int
  allowParentChildInSameInsight : Bool
  allowedSuggestionOrigins : List Text
  allowedSuggestionCategories : List Text
  suggestionMinItems : Int
  suggestionMaxItems : Int
  maxActionsPerItem : Int
  maxOutputCharacters : Int

namespace ReportOutput

/-! The form of an output. -/

inductive EvidenceKind
  | dimension
  | overallResult
  | modelResult
  | standardSuggestion
deriving DecidableEq, Repr

structure EvidenceRef where
  kind : EvidenceKind
  ref : Text
deriving DecidableEq

structure Insight where
  kind : Text
  evidenceRefs : List EvidenceRef

structure Advice where
  origin : Text
  category : Text
  actions : List Text
  evidenceRefs : List EvidenceRef
  sourceSuggestionRefs : List Text

/-- What the gates read of an output in the form of the schema. -/
structure Document where
  integratedInsights : List Insight
  suggestions : List Advice
  limitations : List Text

/-- The pattern is searched, so one line break may follow the last character. -/
def withoutLineEnd (value : Text) : Text := if value.getLast? = some 10 then value.dropLast else value

/-- The marker, then at least one character and no blanks. -/
def isReference (marker : String) (value : Text) : Bool :=
  let word := withoutLineEnd value
  let body := word.drop (text marker).length
  (text marker).isPrefixOf word && !body.isEmpty && body.all fun c => !isSpaceCode c

/-- A small letter, then at most 63 small letters, digits and marks. -/
def isCategory (value : Text) : Bool :=
  match withoutLineEnd value with
  | [] => false
  | first :: rest =>
      ReportInput.isSmall first && rest.length ≤ 63 &&
        rest.all fun c => ReportInput.isSmall c || isDigit c || c == 46 || c == 95 || c == 45

/-- One of the texts. -/
def schemaEnum (choices : List String) (value : Value) : Option Text :=
  match value with
  | .string found => if found ∈ choices.map text then some found else none
  | _ => none

/-- A text that may be empty. -/
def schemaCaution : Value → Option Text
  | .string value => if value.length ≤ 1000 ∧ value.all (fun c => c != 60 && c != 62) then some value else none
  | _ => none

/-- Between so many items, each in its form. -/
def schemaItems {α : Type} (low high : Nat) (read : Value → Option α) : Value → Option (List α)
  | .array items => if low ≤ items.length ∧ items.length ≤ high then items.mapM read else none
  | _ => none

/-- The same, and no two alike. -/
def schemaUnique {α : Type} [DecidableEq α] (low high : Nat) (read : Value → Option α) (value : Value) : Option (List α) := do
  let items ← schemaItems low high read value
  if items.Nodup then some items else none

/-- A reference in the form that its kind has. -/
def formOf : EvidenceKind → Text → Bool
  | .dimension, ref => isReference "dimension:" ref
  | .standardSuggestion, ref => isReference "suggestion:" ref
  | .overallResult, ref => ref == text "overall_result"
  | .modelResult, ref => ref == text "model_result"

def schemaEvidence : Value → Option EvidenceRef
  | .object fields => do
      let kind ← (member fields "kind").bind (schemaConst [("dimension", EvidenceKind.dimension),
        ("overall_result", EvidenceKind.overallResult), ("model_result", EvidenceKind.modelResult),
        ("standard_suggestion", EvidenceKind.standardSuggestion)])
      match member fields "ref" with
      | some (.string ref) =>
          if 1 ≤ ref.length ∧ ref.length ≤ 266 ∧ formOf kind ref = true ∧ fields.length = 2 then some ⟨kind, ref⟩ else none
      | _ => none
  | _ => none

def schemaInsight : Value → Option Insight
  | .object fields => do
      let kind ← (member fields "kind").bind (schemaEnum ["reinforcing_pattern", "contrasting_pattern",
        "combined_strength", "combined_attention", "context_dependent_pattern"])
      let _ ← (member fields "title").bind (schemaText 200)
      let _ ← (member fields "content").bind (schemaText 2000)
      let _ ← (member fields "why_it_matters").bind (schemaText 1000)
      let evidenceRefs ← (member fields "evidence_refs").bind (schemaUnique 2 6 schemaEvidence)
      if fields.length = 5 then some ⟨kind, evidenceRefs⟩ else none
  | _ => none

def schemaSource : Value → Option Text
  | .string ref => if ref.length ≤ 266 ∧ isReference "suggestion:" ref = true then some ref else none
  | _ => none

def schemaCategory : Value → Option Text
  | .string value => if isCategory value then some value else none
  | _ => none

def schemaAdvice : Value → Option Advice
  | .object fields => do
      let origin ← (member fields "origin").bind (schemaEnum ["standard_derived", "generated_low_risk"])
      let category ← (member fields "category").bind schemaCategory
      let _ ← (member fields "title").bind (schemaText 200)
      let _ ← (member fields "goal").bind (schemaText 1000)
      let actions ← (member fields "actions").bind (schemaItems 1 5 (schemaText 500))
      let _ ← (member fields "rationale").bind (schemaText 1000)
      let evidenceRefs ← (member fields "evidence_refs").bind (schemaUnique 1 6 schemaEvidence)
      let sourceSuggestionRefs ← (member fields "source_suggestion_refs").bind (schemaUnique 0 6 schemaSource)
      let _ ← (member fields "caution").bind schemaCaution
      if fields.length = 9 ∧ (origin = text "standard_derived" → sourceSuggestionRefs ≠ []) then
        some ⟨origin, category, actions, evidenceRefs, sourceSuggestionRefs⟩
      else none
  | _ => none

/-- The first version of the output schema. -/
def readDocument : Value → Option Document
  | .object fields => do
      let _ ← (member fields "schema_version").bind (schemaEnum ["ai-explanation-output/v1"])
      let _ ← (member fields "summary").bind (schemaText 2000)
      let integratedInsights ← (member fields "integrated_insights").bind (schemaItems 1 8 schemaInsight)
      let suggestions ← (member fields "suggestions").bind (schemaItems 1 8 schemaAdvice)
      let limitations ← (member fields "limitations").bind (schemaUnique 1 5 (schemaText 1000))
      if fields.length = 5 then some ⟨integratedInsights, suggestions, limitations⟩ else none
  | _ => none

/-- What the reader raises: most refusals are values, deep nesting is not. -/
def faultOf : Refusal → Fault
  | .malformed => .value
  | .tooDeep => .recursion

/-- `QSOutputParser.parse`. -/
def parse (depth : Nat) (raw : Text) : OutputCheck (Value × Document) :=
  if raw.any isSurrogate then invalidOutput "invalid_json"
  else
    match loads distinct (some depth) raw with
    | .error .malformed => invalidOutput "invalid_json"
    | .error .tooDeep => native (.error .recursion)
    | .ok content =>
        match readDocument content with
        | none => invalidOutput "output_schema_invalid"
        | some document => pure (content, document)

/-! Evidence. -/

/-- The facts that an output may refer to, and the parents of its dimensions. -/
structure Facts where
  dimensions : List (Text × Value)
  suggestions : List Text
  modelResult : Value

/-- `item["ref"]`, which the assembly writes as a text. -/
def refOf (item : Value) : Except Fault Text := do
  match ← item.item "ref" with
  | .string ref => pure ref
  | _ => .error .type

/-- The facts of a payload; of dimensions with one reference the last stays. -/
def readFacts (payload : Value) : Except Fault Facts := do
  let facts ← payload.item "facts"
  let dimensions ← (← facts.item "dimensions").elements
  let refs ← dimensions.mapM refOf
  let suggestions ← (← facts.item "standard_suggestions").elements
  let names ← suggestions.mapM refOf
  let modelResult ← facts.item "model_result"
  pure ⟨(refs.zip dimensions).foldl (fun dict entry => insert dict entry.1 entry.2) [], names, modelResult⟩

/-- `allowed_refs`. -/
def Facts.allowed (facts : Facts) : EvidenceKind → List Text
  | .dimension => facts.dimensions.map (·.1)
  | .standardSuggestion => facts.suggestions
  | .overallResult => [text "overall_result"]
  | .modelResult =>
      match facts.modelResult with
      | .null => []
      | _ => [text "model_result"]

def checkEvidence (facts : Facts) (evidenceRefs : List EvidenceRef) : OutputCheck Unit :=
  if ∀ evidence ∈ evidenceRefs, evidence.ref ∈ facts.allowed evidence.kind then pure ()
  else invalidOutput "unresolved_evidence"

def checkSources (facts : Facts) (advice : Advice) : OutputCheck Unit :=
  if ∀ ref ∈ advice.sourceSuggestionRefs, ref ∈ facts.suggestions then pure ()
  else invalidOutput "unresolved_standard_suggestion"

/-! Hierarchy. -/

/-- `dimensions.get(ref, {}).get("parent_ref")`, a text or nothing. -/
def Facts.parentOf (facts : Facts) (ref : Text) : Option Text :=
  match facts.dimensions.lookup ref with
  | some d =>
      match d.item "parent_ref" with
      | .ok (.string above) => some above
      | _ => none
  | none => none

/-- The loop over the parents of a reference, for at most so many rounds. -/
def Facts.walk (facts : Facts) (refs : List Text) (rounds : Nat) (ref : Text) : Option Ancestry.Ending :=
  Ancestry.climb facts.parentOf refs rounds [ref] (facts.parentOf ref)

/-- Only dimensions have parents, so the loop ends. -/
theorem Facts.walk_ends (facts : Facts) (refs : List Text) (ref : Text) {rounds : Nat}
    (hRounds : facts.dimensions.length + 1 ≤ rounds) : ∃ ending, facts.walk refs rounds ref = some ending := by
  refine Ancestry.climb_ends (?_ : ∀ child, facts.parentOf child ≠ none → child ∈ facts.dimensions.map (·.1)) ?_
  · intro child hParent
    unfold parentOf at hParent
    split at hParent
    · rename_i d hFound
      exact List.mem_map_of_mem (f := Prod.fst) (mem_of_lookup hFound)
    · exact absurd rfl hParent
  · refine (Nat.succ_le_succ (List.length_filter_le _ _)).trans ?_
    rw [List.length_map]
    exact hRounds

theorem Facts.walk_isSome (facts : Facts) (refs : List Text) (ref : Text) :
    (facts.walk refs (facts.dimensions.length + 1) ref).isSome = true :=
  Option.isSome_iff_exists.mpr (facts.walk_ends refs ref (Nat.le_refl _))

/-- How the loop ends. -/
def Facts.lineage (facts : Facts) (refs : List Text) (ref : Text) : Ancestry.Ending :=
  (facts.walk refs (facts.dimensions.length + 1) ref).get (facts.walk_isSome refs ref)

def checkLineage (facts : Facts) (refs : List Text) (ref : Text) : OutputCheck Unit := do
  let d ← native (demand (facts.dimensions.lookup ref) .key)
  let _ ← native (d.item "parent_ref")
  match facts.lineage refs ref with
  | .top => pure ()
  | .seen => invalidOutput "invalid_input_hierarchy"
  | .met => invalidOutput "ancestor_descendant_combination"

/-- The different dimensions of an insight. -/
def Insight.dimensionRefs (insight : Insight) : List Text :=
  ((insight.evidenceRefs.filter fun evidence => evidence.kind = .dimension).map (·.ref)).dedup

def checkInsight (policy : RenderPolicy) (facts : Facts) (insight : Insight) : OutputCheck Unit :=
  if insight.kind ∉ policy.allowedInsightKinds then invalidOutput "insight_kind_not_allowed"
  else if ¬ (policy.minDimensionRefs ≤ insight.dimensionRefs.length ∧
      insight.dimensionRefs.length ≤ policy.maxDimensionRefs) then invalidOutput "dimension_count_outside_policy"
  else if policy.allowParentChildInSameInsight then pure ()
  else insight.dimensionRefs.forM (checkLineage facts insight.dimensionRefs)

def checkAdvice (policy : RenderPolicy) (advice : Advice) : OutputCheck Unit :=
  if advice.origin ∉ policy.allowedSuggestionOrigins ∨ advice.category ∉ policy.allowedSuggestionCategories then
    invalidOutput "suggestion_policy_mismatch"
  else if policy.maxActionsPerItem < advice.actions.length then invalidOutput "too_many_actions"
  else pure ()

/-! Type codes. Matching ignores case, and so it takes four letters that are not
ASCII for letters. -/

/-- `[A-Za-z]` without regard to case. -/
def isWordLetter (c : Nat) : Bool :=
  ReportInput.isLetter c || c == 0x130 || c == 0x131 || c == 0x17F || c == 0x212A

def isAttitude (c : Nat) : Bool := c == 73 || c == 105 || c == 69 || c == 101 || c == 0x130 || c == 0x131

def isPerception (c : Nat) : Bool := c == 83 || c == 115 || c == 78 || c == 110 || c == 0x17F

def isJudgement (c : Nat) : Bool := c == 70 || c == 102 || c == 84 || c == 116

def isLifestyle (c : Nat) : Bool := c == 74 || c == 106 || c == 80 || c == 112

/-- `[IE][SN][FT][JP]`. -/
def isTypeCode : Text → Bool
  | [a, b, c, d] => isAttitude a && isPerception b && isJudgement c && isLifestyle d
  | _ => false

/-- A type code starts here and stands alone. -/
def startsCode (before : Option Nat) (input : Text) : Bool :=
  !before.any isWordLetter && isTypeCode (input.take 4) && !(input.drop 4).head?.any isWordLetter

/-- `re.findall`: after a match the search goes on behind it. -/
def mentionedFrom : Option Nat → Nat → Text → List Text
  | _, _, [] => []
  | before, 0, c :: rest =>
      if startsCode before (c :: rest) then (c :: rest).take 4 :: mentionedFrom (some c) 3 rest
      else mentionedFrom (some c) 0 rest
  | _, skip + 1, c :: rest => mentionedFrom (some c) skip rest

def mentioned (narrative : Text) : List Text := mentionedFrom none 0 narrative

/-- `str.upper` on the characters of a match. -/
def upperLetter (c : Nat) : Nat :=
  if ReportInput.isSmall c then c - 32 else if c = 0x131 then 73 else if c = 0x17F then 83 else c

/-- Some type is mentioned that is not the expected one. -/
def typeConflict (expected : Value) (narrative : Text) : Bool :=
  (mentioned narrative).any fun code => !expected.isText (code.map upperLetter)

/-- The check of types on the content of an output. -/
def checkTypes (depth : Nat) (expected content : Value) : OutputCheck Unit := do
  let narrative ← native (dumps spaced true (some depth) content)
  if typeConflict expected narrative then invalidOutput "mbti_type_conflict" else pure ()

/-! The gates. -/

/-- The nesting that the interpreter reads and writes. -/
structure Limits where
  readDepth : Nat
  writeDepth : Nat

structure DeterministicOutput where
  contentJson : Text
  validatorVersion : String

/-- `validate_output` for the projections of one text; reports of a type are
also checked for the types they mention. -/
def validateOutput (limits : Limits) (policy : RenderPolicy) (ofType : Bool) (providerPayload raw : Text) :
    OutputCheck DeterministicOutput := do
  if policy.maxOutputCharacters < raw.length then invalidOutput "output_too_long"
  else do
    let (content, document) ← parse limits.readDepth raw
    let payload ← native ((loads overwrite (some limits.readDepth) providerPayload).mapError faultOf)
    let facts ← native (readFacts payload)
    (document.integratedInsights.map (·.evidenceRefs) ++ document.suggestions.map (·.evidenceRefs)).forM
      (checkEvidence facts)
    document.suggestions.forM (checkSources facts)
    if ¬ (policy.insightMinItems ≤ document.integratedInsights.length ∧
        document.integratedInsights.length ≤ policy.insightMaxItems) then
      invalidOutput "insight_count_outside_policy"
    else do
      document.integratedInsights.forM (checkInsight policy facts)
      if ¬ (policy.suggestionMinItems ≤ document.suggestions.length ∧
          document.suggestions.length ≤ policy.suggestionMaxItems) then
        invalidOutput "suggestion_count_outside_policy"
      else do
        document.suggestions.forM (checkAdvice policy)
        if ofType then do
          let expected ← native (facts.modelResult.item "type_code")
          checkTypes limits.writeDepth expected content
        else pure ()
        let contentJson ← native (dumps compact true (some limits.writeDepth) content)
        pure ⟨contentJson, if ofType then "qs-ai-output-mbti-single-assessment/v1" else "qs-ai-output-deterministic/v1"⟩

end ReportOutput

end QsAi
