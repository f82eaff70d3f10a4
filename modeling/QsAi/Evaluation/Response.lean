import QsAi.Foundation.JsonBytes
import QsAi.Evaluation.Semantic

/-! Provider responses. What a model returned is bounded, bound to its call and
read against the schema; anything wrong with it becomes a classified failure
that is stored with the call. -/
namespace QsAi

open Guarded Keyed PyJson

/-- An exception that leaves the step: a refused value, a nesting that the
interpreter does not allow, or a failed assertion. -/
inductive Raised
  | refused (refusal : Rejection)
  | recursion
  | assertion
deriving DecidableEq, Repr

def raising {α : Type} : Except Rejection α → Except Raised α
  | .ok value => .ok value
  | .error refusal => .error (.refused refusal)

theorem raising_ok {α : Type} {result : Except Rejection α} {value : α} :
    raising result = .ok value ↔ result = .ok value := by
  cases result <;> simp [raising]

/-- The interpreter as far as responses meet it: how deep a text may nest where
it is read first, parsed and recorded, and the digest of a string. -/
structure Interpreter where
  responseDepth : Nat
  parserDepth : Nat
  completionDepth : Nat
  digest : String → String

structure ModelRoute where
  provider : String
  model : String

structure ModelResponse where
  invocationId : String
  requestId : String
  model : String
  rawOutput : Text
  validationOutput : Text
  inputTokens : Option Int
  outputTokens : Option Int
  latencyMilliseconds : Int

inductive ResponseCode
  | outputSchemaInvalid
  | outputMissingOrTooLarge
  | outputTooLong
  | receiptInvalid
deriving DecidableEq, Repr

def ResponseCode.name : ResponseCode → String
  | .outputSchemaInvalid => "output_schema_invalid"
  | .outputMissingOrTooLarge => "output_missing_or_too_large"
  | .outputTooLong => "output_too_long"
  | .receiptInvalid => "receipt_invalid"

structure ResponseEvidence where
  receipt : Option ProviderReceipt
  raw : Output
  normalized : Output
  failure : Option ClassifiedFailure

/-! The receipt. -/

/-- What the constructor of a receipt asks for. -/
def receiptValid (route : ModelRoute) (response : ModelResponse) : Prop :=
  (validId response.invocationId = true ∧ validId response.requestId = true) ∧
    (validCode route.provider = true ∧ strip response.model ≠ "" ∧ byteLength response.model ≤ 128) ∧
    (∀ count ∈ response.inputTokens.toList ++ response.outputTokens.toList, 0 ≤ count ∧ count < 2 ^ 63) ∧
    0 ≤ response.latencyMilliseconds ∧ response.latencyMilliseconds * 1000000 < 2 ^ 63

instance (route : ModelRoute) (response : ModelResponse) : Decidable (receiptValid route response) :=
  inferInstanceAs (Decidable (_ ∧ _))

/-- The receipt of a response to this call on this route. -/
def responseReceipt (invocationId : String) (route : ModelRoute) (response : ModelResponse) : Option ProviderReceipt :=
  if h : (response.invocationId = invocationId ∧ response.model = route.model) ∧ receiptValid route response then
    some
      { invocationId := response.invocationId
        requestId := response.requestId
        provider := route.provider
        model := response.model
        inputTokens := response.inputTokens.map (·.toNat)
        outputTokens := response.outputTokens.map (·.toNat)
        latencyNs := (response.latencyMilliseconds * 1000000).toNat
        identity := h.2.1
        route := h.2.2.1
        usage := by
          obtain ⟨_, _, _, hUsage, _⟩ := h
          intro count hMem
          have hMap : count ∈ (response.inputTokens.toList ++ response.outputTokens.toList).map (·.toNat) := by
            rw [List.map_append, ← Option.toList_map, ← Option.toList_map]
            exact hMem
          obtain ⟨value, hValue, rfl⟩ := List.mem_map.mp hMap
          have hRange := hUsage value hValue
          omega
        latency := by
          obtain ⟨_, _, _, _, hLatency⟩ := h
          omega }
  else none

/-- The encoded texts of a response with the first thing that is wrong with
them. Texts that cannot be encoded or are too large are not kept. -/
def responseContents (stage : ExecutionKind) (response : ModelResponse) (maxOutputCharacters : Nat) :
    (String × String) × Option ResponseCode :=
  match encode response.rawOutput, encode response.validationOutput with
  | some raw, some normalized =>
      if 256 * 1024 < byteLength raw ∨ 256 * 1024 < byteLength normalized then
        (("", ""), some .outputMissingOrTooLarge)
      else if raw = "" ∨ normalized = "" then ((raw, normalized), some .outputMissingOrTooLarge)
      else if stage = .generation ∧ maxOutputCharacters < response.validationOutput.length then
        ((raw, normalized), some .outputTooLong)
      else ((raw, normalized), none)
  | _, _ => (("", ""), some .outputSchemaInvalid)

/-- The first reading of the normalized bytes: the value, if they are JSON with
distinct names. -/
def firstReading (interpreter : Interpreter) (normalized : String) : Except Raised (Option Value) :=
  if normalized = "" then pure none
  else
    match loadsBytes distinct (some interpreter.responseDepth) normalized with
    | .ok value => pure (some value)
    | .error .malformed => pure none
    | .error .tooDeep => throw .recursion

def responseOutput (interpreter : Interpreter) (content : String) : Output :=
  if content = "" then .empty else .ofString content (interpreter.digest content)

/-- The failure that a code stands for. -/
def responseFailureFields (stage : ExecutionKind) (code : ResponseCode) (executionId : String) : FailureFields :=
  match stage, code with
  | .semantic, code =>
      { stage := .semanticEvaluation
        kind := .semanticExecution
        code := "semantic_" ++ code.name
        retryable := code != .receiptInvalid
        resultUnknown := false
        disposition := .retrySemantic
        safeMessage := "Semantic response evidence invalid"
        evidenceRefs := [executionId] }
  | .generation, .receiptInvalid =>
      { stage := .generationExecution
        kind := .providerProtocol
        code := "provider_receipt_invalid"
        retryable := false
        resultUnknown := false
        disposition := .noAction
        safeMessage := "Provider receipt invalid"
        evidenceRefs := [executionId] }
  | .generation, code =>
      { stage := .outputValidation
        kind := .outputContractConformance
        code := code.name
        retryable := false
        resultUnknown := false
        disposition := .replaceGeneration
        safeMessage := "Generated output violates contract"
        evidenceRefs := [executionId] }

def responseFailure (stage : ExecutionKind) (code : ResponseCode) (executionId : String) :
    Except Rejection ClassifiedFailure :=
  ClassifiedFailure.make (responseFailureFields stage code executionId)

/-- The code of a response: a bad receipt first, then its contents, then what
the schema says about the value that was read. -/
def responseCode (contents : Option ResponseCode) (receipt : Option ProviderReceipt) (empty : Bool)
    (value : Option Value) (schema : Value → Bool) : Option ResponseCode :=
  if receipt = none then some .receiptInvalid
  else contents.or (if empty = false ∧ value.any schema = false then some .outputSchemaInvalid else none)

def responseEvidence (interpreter : Interpreter) (stage : ExecutionKind) (executionId invocationId : String)
    (route : ModelRoute) (schema : Value → Bool) (response : ModelResponse) (maxOutputCharacters : Nat) :
    Except Raised ResponseEvidence := do
  let ((raw, normalized), contents) := responseContents stage response maxOutputCharacters
  let receipt := responseReceipt invocationId route response
  let value ← firstReading interpreter normalized
  -- Generation evidence is JSON even when the call failed; a judge may leave anything behind.
  let kept := if stage = .generation ∧ value = none then "" else normalized
  let failure ← (responseCode contents receipt (normalized == "") value schema).mapM fun code =>
    raising (responseFailure stage code executionId)
  pure ⟨receipt, responseOutput interpreter raw, responseOutput interpreter kept, failure⟩

/-! What the evidence of a response promises. -/

/-- A response failure of the stage: definite, and kept where the stage keeps
its failures. -/
structure FailureOf (stage : ExecutionKind) (failure : ClassifiedFailure) : Prop where
  definite : failure.resultUnknown = false
  generation : stage = .generation → failure.candidateExists = false
  semantic : stage = .semantic → failure.kind = .semanticExecution

end QsAi
