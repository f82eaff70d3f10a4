import QsAi.Evaluation.Eligibility
import QsAi.Foundation.TextEncoding
import QsAi.Interpretation.Safety

/-! The assertions of a frozen case, executed on a candidate. Those that code can
decide are decided; the others stay pending for the judge. -/
namespace QsAi

open Guarded Keyed PyJson TextEncoding

namespace CandidateAssertions

/-- One assertion of a case, with its parameters as the suite writes them. -/
structure SuiteAssertion where
  identity : FrozenAssertion
  parametersJson : Text

/-- `value["type"]`, the name of an assertion. -/
def nameOf (value : Value) : Except Fault String := do
  match ← value.item "type" with
  | .string found => demand (encode found) .type
  | _ => .error .type

/-- The frozen suite, and the interpreter that reads it. -/
structure FrozenSuite where
  document : Value
  limits : ReportOutput.Limits

/-- `next((c for c in document["cases"] if c["case_id"] == case_id), None)`. -/
def findCase (caseId : Text) : List Value → Except Fault (Option Value)
  | [] => .ok none
  | c :: rest => do
      let name ← c.item "case_id"
      if name.isText caseId then pure (some c) else findCase caseId rest

namespace FrozenSuite

variable (suite : FrozenSuite)

/-- The assertions that every case has, and those of this case. -/
def assertionsOf (caseId : Text) : Except Fault (List Value × List Value) := do
  let cases ← suite.document.item "cases"
  let found ← findCase caseId (← cases.elements)
  let case ← demand found .value
  let stage ← case.item "stage"
  if stage.isText (text "generation") then do
    let defaults ← suite.document.item "default_generation_assertions"
    let expected ← case.item "expected"
    let own ← expected.item "assertions"
    pure (← defaults.elements, ← own.elements)
  else .error .value

/-- `assertion_inventory`. -/
def inventory (caseId : Text) : Except Fault (List SuiteAssertion) := do
  let (defaults, own) ← suite.assertionsOf caseId
  let names ← defaults.mapM nameOf
  let ownNames ← own.mapM nameOf
  let parameters ← (defaults ++ own).mapM (dumps compact true (some suite.limits.writeDepth))
  pure (((assertionInventory names ownNames).zip parameters).map fun entry => ⟨entry.1, entry.2⟩)

end FrozenSuite

/-! What the gates find. -/

/-- A release's output contract: the version its profile freezes, the version in
the schema of the parser and whether that schema was given, and the two gates. -/
structure OutputContract where
  version : Text
  schemaVersion : Text
  schemaGiven : Bool
  parse : Text → OutputCheck Value
  validate : Text → OutputCheck Unit

/-- The contract of the first version of the output schema. -/
def explanationContract (limits : ReportOutput.Limits) (policy : RenderPolicy) (ofType : Bool) (providerPayload : Text) :
    OutputContract where
  version := text "ai-explanation-output/v1"
  schemaVersion := text "ai-explanation-output/v1"
  schemaGiven := false
  parse := fun raw => (ReportOutput.parse limits.readDepth raw).map (·.1)
  validate := fun raw => (ReportOutput.validateOutput limits policy ofType providerPayload raw).map fun _ => ()

/-- The first gate that an output does not pass. -/
inductive Validation
  | complete
  | schema
  | reference
  | profile
deriving DecidableEq, Repr

inductive SafetyFinding
  | unavailable
  | safe
  | unsafe_ (code : String)
deriving DecidableEq, Repr

structure Findings where
  validationText : Text
  content : Option Value
  canonical : Text
  validation : Validation
  safety : SafetyFinding

/-- Unicode as the interpreter knows it: small letters, and the case folding of
the composed form. -/
structure UnicodeLibrary where
  lowering : OutputSafety.Lowering
  fold : Text → Text

/-- `raw.decode("utf-8")`. -/
def decodeStrict (raw : List Nat) : Option Text := (utf8Text raw).filter fun value => !value.any isSurrogate

/-- The characters that the canonical form spells out. -/
def spellOut (c : Nat) : Text :=
  if c = 0x26 then text "\\u0026"
  else if c = 0x3C then text "\\u003c"
  else if c = 0x3E then text "\\u003e"
  else if c = 0x2028 then text "\\u2028"
  else if c = 0x2029 then text "\\u2029"
  else [c]

/-- `_canonical`. -/
def canonical (depth : Nat) (content : Value) : Except Fault Text :=
  (dumps compact true (some depth) content).map (·.flatMap spellOut)

/-- What a refusal of the gates is called. -/
def validationOf (code : String) : Validation :=
  if code ∈ ["unresolved_evidence", "unresolved_standard_suggestion", "unresolved_topic_reference"] then .reference
  else .profile

/-- Run a check and keep the code of its refusal; other exceptions go on. -/
def caught {α : Type} (check : OutputCheck α) : Except Fault (Except String α) :=
  match check with
  | .ok value => .ok (.ok value)
  | .error (.refused code) => .ok (.error code)
  | .error (.raised fault) => .error fault

section Gates

variable (library : UnicodeLibrary) (limits : ReportOutput.Limits) (contract : OutputContract)

/-- The findings about an output that has the form of the schema. -/
def examine (validationText : Text) (content : Value) (written : Text) : Except Fault Findings := do
  let validation ←
    match ← caught (contract.validate validationText) with
    | .ok _ => .ok .complete
    | .error code => .ok (validationOf code)
  let safety ←
    match ← caught (OutputSafety.checkSafety library.lowering limits ⟨written, ""⟩) with
    | .ok _ => .ok .safe
    | .error code => .ok (.unsafe_ code)
  pure ⟨validationText, some content, written, validation, safety⟩

def findings (raw : List Nat) : Except Fault Findings :=
  match decodeStrict raw with
  | none => .ok ⟨[], none, [], .schema, .unavailable⟩
  | some validationText => do
      match ← caught (contract.parse validationText) with
      | .error _ => .ok ⟨validationText, none, [], .schema, .unavailable⟩
      | .ok content => examine library limits contract validationText content (← canonical limits.writeDepth content)

end Gates

/-! Assertions about the content of an output of the first version. -/

/-- The members of a set of the values. -/
def setOf (values : List Value) : Except Fault (List Value) :=
  if values.all (·.hashable) then .ok values else .error .type

def isIn (value : Value) (values : List Value) : Bool := values.any (value.same ·)

/-- The number of different members. -/
def countOf : List Value → Nat
  | [] => 0
  | value :: rest => if isIn value rest then countOf rest else countOf rest + 1

def includes (target group : List Value) : Bool := target.all fun value => isIn value group

/-- `low <= n`, for a number. -/
def atLeast (n : Nat) (low : Value) : Except Fault Bool :=
  match low.number? with
  | some (.finite value) => .ok (value ≤ n)
  | some (.infinite negative) => .ok negative
  | none => .error .type

/-- `n <= high`, for a number. -/
def atMost (n : Nat) (high : Value) : Except Fault Bool :=
  match high.number? with
  | some (.finite value) => .ok (n ≤ value)
  | some (.infinite negative) => .ok !negative
  | none => .error .type

/-- `0 < high and n <= high`. -/
def withinLimit (n : Nat) (high : Value) : Except Fault Bool :=
  match high.number? with
  | some (.finite value) => .ok (0 < value ∧ n ≤ value)
  | some (.infinite negative) => .ok !negative
  | none => .error .type

/-- `value in container`; in a text this asks for a part of it. -/
def holds (container value : Value) : Except Fault Bool :=
  match container with
  | .string whole =>
      match value with
      | .string part => .ok (part <:+: whole)
      | _ => .error .type
  | _ => do
      let items ← container.elements
      pure (isIn value items)

/-- The dimensions that an insight refers to. -/
def dimensionGroup (insight : Value) : Except Fault (List Value) := do
  let refs ← (← insight.item "evidence_refs").elements
  let dimensions ← refs.filterM fun r => do
    let kind ← r.item "kind"
    pure (kind.isText (text "dimension"))
  setOf (← dimensions.mapM (·.item "ref"))

/-- `all` over items, up to the first that fails. -/
def allOf {α : Type} (test : α → Except Fault Bool) : List α → Except Fault Bool
  | [] => .ok true
  | item :: rest => do
      if ← test item then allOf test rest else pure false

/-- `any` over items, up to the first that holds. -/
def anyOf {α : Type} (test : α → Except Fault Bool) : List α → Except Fault Bool
  | [] => .ok false
  | item :: rest => do
      if ← test item then pure true else anyOf test rest

/-- Some group has all the dimensions of the parameters. -/
def referencesGroup (parameters : Value) (groups : List (List Value)) : Except Fault Bool := do
  let target ← setOf (← (← parameters.item "dimension_refs").elements)
  pure (!target.isEmpty && groups.any (includes target))

/-- The assertions that only outputs of the first version have. -/
def matched (facts content : Value) (name : String) (parameters : Value) : Except Fault Bool := do
  let insights ← (← content.item "integrated_insights").elements
  let suggestions ← (← content.item "suggestions").elements
  let groups ← insights.mapM dimensionGroup
  let origins ← setOf (← suggestions.mapM (·.item "origin"))
  if name = "each_insight_has_distinct_dimension_refs" then
    allOf (fun group => do
      if ← atLeast (countOf group) (← parameters.item "minimum") then
        atMost (countOf group) (← parameters.item "maximum")
      else pure false) groups
  else if name = "insight_kind_any_of" then
    anyOf (fun insight => do
      let kind ← insight.item "kind"
      holds (← parameters.item "values") kind) insights
  else if name = "insight_references_group" then referencesGroup parameters groups
  else if name = "forbid_dimension_group" then do
    let present ← referencesGroup parameters groups
    pure !present
  else if name = "suggestion_origin_present" then do
    let value ← setOf [← parameters.item "value"]
    pure (includes value origins)
  else if name = "suggestion_origins_exact" then do
    let values ← setOf (← (← parameters.item "values").elements)
    pure (includes origins values && includes values origins)
  else if name = "no_standard_derived_without_sources" then do
    let provided ← facts.item "standard_suggestions"
    pure (provided.truthy || !isIn (.string (text "standard_derived")) origins)
  else if name = "forbid_source_suggestion_ref" then
    allOf (fun suggestion => do
      let ref ← parameters.item "ref"
      pure !(← holds (← suggestion.item "source_suggestion_refs") ref)) suggestions
  else .error .value

/-! The outcome of an assertion. -/

/-- The literals are looked for in the folded canonical form. -/
def literalsAbsent (library : UnicodeLibrary) (written : Text) (parameters : Value) : Except Fault Bool := do
  let values ← (← parameters.item "values").elements
  allOf (fun value =>
    match value with
    | .string word => .ok !decide (library.fold word <:+: library.fold written)
    | _ => .error .type) values

def passedIf (condition : Bool) : AssertionStatus := if condition then .passed else .failed

/-- The status of an assertion, in the order in which the source asks. -/
def statusOf (library : UnicodeLibrary) (version : Text) (facts : Value) (found : Findings) (name : String)
    (parameters : Value) : Except Fault AssertionStatus :=
  if name = "output_schema_valid" then .ok (if found.validation = .schema then .failed else .passed)
  else if name = "all_references_resolve" then
    .ok (if found.validation = .schema then .blocked else if found.validation = .reference then .failed else .passed)
  else if name = "profile_output_policy_satisfied" then
    .ok (if found.validation = .schema ∨ found.validation = .reference then .blocked
      else if found.validation = .profile then .failed else .passed)
  else if name = "limitations_cover" then
    .ok (if found.safety = .unsafe_ "limitations_incomplete" then .failed
      else if found.safety = .safe then .pendingSemantic else .blocked)
  else
    match found.content with
    | none => .ok .blocked
    | some content =>
        if name = "forbidden_claims_absent" then .ok (if found.safety = .safe then .pendingSemantic else .failed)
        else if semanticTypes.contains name then .ok (if found.safety = .safe then .pendingSemantic else .blocked)
        else if name = "output_character_limit" then do
          let maximum ← parameters.item "maximum"
          pure (passedIf (← withinLimit found.validationText.length maximum))
        else if name = "forbid_literal_substrings" then do
          pure (passedIf (← literalsAbsent library found.canonical parameters))
        else if version ≠ text "ai-explanation-output/v1" then .error .value
        else do
          pure (passedIf (← matched facts content name parameters))

def detailOf : AssertionStatus → String
  | .passed => ""
  | .failed => "deterministic assertion failed"
  | .blocked => "earlier validation did not pass"
  | .pendingSemantic => "independent semantic and human review required"

def evaluatorOf : AssertionStatus → String
  | .pendingSemantic => "semantic-required"
  | _ => "deterministic"

theorem evaluatorOf_named (status : AssertionStatus) : strip (evaluatorOf status) ≠ "" := by
  cases status <;> decide +kernel

/-- The receipt of an assertion with this status. -/
def receiptOf (assertion : FrozenAssertion) (status : AssertionStatus) : Except Fault AssertionReceipt :=
  if h : strip assertion.type ≠ "" ∧ 1 ≤ assertion.ordinal then
    .ok
      { type := assertion.type
        scope := assertion.scope
        ordinal := assertion.ordinal
        hard := assertion.hard
        evaluator := evaluatorOf status
        status
        detail := detailOf status
        identity := ⟨h.1, evaluatorOf_named status, h.2⟩ }
  else .error .value

/-- What is known about the input of a candidate. -/
structure PreparedExplanation where
  contract : OutputContract
  providerPayload : Text

section Evaluation

variable (library : UnicodeLibrary) (suite : FrozenSuite) (prepared : PreparedExplanation)

def evaluateAssertion (facts : Value) (found : Findings) (assertion : SuiteAssertion) : Except Fault AssertionReceipt := do
  let parameters ←
    (loads overwrite (some suite.limits.readDepth) assertion.parametersJson).mapError ReportOutput.faultOf
  receiptOf assertion.identity
    (← statusOf library prepared.contract.version facts found assertion.identity.type parameters)

/-- `evaluate_candidate_assertions`. -/
def evaluateCandidateAssertions (raw : List Nat) (caseId : Text) : Except Fault (List AssertionReceipt) := do
  let inventory ← suite.inventory caseId
  let contract := prepared.contract
  if contract.schemaGiven = false ∧ contract.version ≠ text "ai-explanation-output/v1" then .error .value
  else if contract.schemaVersion ≠ contract.version then .error .value
  else do
    let found ← findings library suite.limits contract raw
    let payload ← (loads overwrite (some suite.limits.readDepth) prepared.providerPayload).mapError ReportOutput.faultOf
    let facts ← payload.item "facts"
    inventory.mapM (evaluateAssertion library suite prepared facts found)

end Evaluation

/-! What an evaluation says of every assertion. -/

section Results

variable {library : UnicodeLibrary} {suite : FrozenSuite} {prepared : PreparedExplanation}

/-- Only assertions of a semantic type are left to the judge. -/
theorem statusOf_pending {version : Text} {facts parameters : Value} {found : Findings} {name : String}
    (h : statusOf library version facts found name parameters = .ok .pendingSemantic) : semanticTypes.contains name = true := by
  unfold statusOf at h
  split at h
  · split at h <;> cases h
  split at h
  · split at h
    · cases h
    · split at h <;> cases h
  split at h
  · split at h
    · cases h
    · split at h <;> cases h
  split at h
  · rename_i hName
    rw [hName]
    rfl
  split at h
  · cases h
  split at h
  · rename_i hName
    rw [hName]
    rfl
  split at h
  · assumption
  · have hPassed : ∀ condition : Bool, passedIf condition ≠ .pendingSemantic := by decide
    split at h
    · simp only [bind_ok, pure_ok] at h
      obtain ⟨_, _, _, _, hStatus⟩ := h
      exact absurd hStatus (hPassed _)
    split at h
    · simp only [bind_ok, pure_ok] at h
      obtain ⟨_, _, hStatus⟩ := h
      exact absurd hStatus (hPassed _)
    split at h
    · cases h
    · simp only [bind_ok, pure_ok] at h
      obtain ⟨_, _, hStatus⟩ := h
      exact absurd hStatus (hPassed _)

/-- The name and the weight of a receipt. -/
def identityOf (receipt : AssertionReceipt) : FrozenAssertion :=
  ⟨receipt.type, receipt.scope, receipt.ordinal, receipt.hard⟩

theorem receiptOf_ok {assertion : FrozenAssertion} {status : AssertionStatus} {receipt : AssertionReceipt}
    (h : receiptOf assertion status = .ok receipt) : identityOf receipt = assertion ∧ receipt.status = status := by
  unfold receiptOf at h
  split at h
  · cases h
    exact ⟨rfl, rfl⟩
  · cases h

theorem evaluateAssertion_ok {facts : Value} {found : Findings} {assertion : SuiteAssertion} {receipt : AssertionReceipt}
    (h : evaluateAssertion library suite prepared facts found assertion = .ok receipt) :
    identityOf receipt = assertion.identity ∧
      (receipt.status = .pendingSemantic → semanticTypes.contains receipt.type = true) := by
  simp only [evaluateAssertion, bind_ok] at h
  obtain ⟨parameters, _, status, hStatus, hReceipt⟩ := h
  obtain ⟨hIdentity, hSame⟩ := receiptOf_ok hReceipt
  refine ⟨hIdentity, fun hPending => ?_⟩
  rw [← hSame, hPending] at hStatus
  have hType := congrArg FrozenAssertion.type hIdentity
  rw [show receipt.type = assertion.identity.type from hType]
  exact statusOf_pending hStatus

/-- An evaluation answers the assertions of the inventory, one after the other. -/
theorem evaluateCandidateAssertions_ok {raw : List Nat} {caseId : Text} {receipts : List AssertionReceipt}
    (h : evaluateCandidateAssertions library suite prepared raw caseId = .ok receipts) :
    ∃ inventory, suite.inventory caseId = .ok inventory ∧
      receipts.map identityOf = inventory.map (·.identity) ∧
      ∀ receipt ∈ receipts, receipt.status = .pendingSemantic → semanticTypes.contains receipt.type = true := by
  simp only [evaluateCandidateAssertions, bind_ok] at h
  obtain ⟨inventory, hInventory, h⟩ := h
  refine ⟨inventory, hInventory, ?_⟩
  split at h
  · cases h
  split at h
  · cases h
  simp only [bind_ok] at h
  obtain ⟨found, _, payload, _, facts, _, hEach⟩ := h
  rw [mapM_ok] at hEach
  clear hInventory
  induction hEach with
  | nil => simp
  | cons hFirst _ ih =>
      obtain ⟨hIdentity, hPending⟩ := evaluateAssertion_ok hFirst
      exact ⟨by rw [List.map_cons, List.map_cons, hIdentity, ih.1], List.forall_mem_cons.mpr ⟨hPending, ih.2⟩⟩

end Results

end CandidateAssertions

end QsAi
