import QsAi.Evaluation.Response

/-! One paid call from its response to its completion. The response becomes
evidence, a judge's response is parsed as well, and both are recorded; only an
invalid decision of the judge is expected there, everything else that the
parser raises leaves the step. -/
namespace QsAi

open Guarded Keyed PyJson

/-- What a dispatched call was prepared with. A judge call knows its contract,
its route and the obligations it was asked about. -/
structure PreparedStep where
  cp : ExecutionCheckpoint
  startedAt : DateTime
  candidateFingerprint : String
  assertions : List AssertionReceipt
  inventory : List FrozenAssertion
  route : ModelRoute
  schema : Value → Bool
  maxOutputCharacters : Nat
  semantic : Option JudgeContract
  judge : cp.kind = .semantic → ∃ contract obligations, semantic = some contract ∧
    contract.provider = route.provider ∧ contract.model = route.model ∧
    semanticObligations inventory assertions = .ok obligations ∧ obligations ≠ [] ∧
    UniqueOn (·.key) obligations ∧ validFingerprint candidateFingerprint = true ∧
    schema = fun value => (readJudgement value).isSome

structure StepCompletion where
  completion : Completion
  candidateId : String

/-- A further reading of bytes that were read before. -/
def reread (depth : Nat) (output : Output) : Except Raised Unit :=
  match String.fromUTF8? ⟨output.bytes.toArray⟩ with
  | none => pure ()
  | some content =>
      match loads overwrite (some depth) (text content) with
      | .error .tooDeep => throw .recursion
      | _ => pure ()

/-- The diagnosis that the message of an invalid decision stands for. -/
def decisionDiagnostics (message : String) : ProviderDiagnostics :=
  if message = "Semantic decisions do not cover obligations" then
    { code := "decision_count_mismatch", responseShape := "semantic_decision", valid := by decide +kernel }
  else if message = "Unknown or duplicate semantic decision" then
    { code := "decision_identity_mismatch", responseShape := "semantic_decision", valid := by decide +kernel }
  else if message = "Invalid semantic decision rationale" then
    { code := "decision_rationale_invalid", responseShape := "semantic_decision", valid := by decide +kernel }
  else if message = "Invalid semantic rationale" then
    { code := "rationale_invalid", responseShape := "semantic_decision", valid := by decide +kernel }
  else { code := "decision_contract_invalid", responseShape := "semantic_decision", valid := by decide +kernel }

/-- The failure of a judge call whose decisions are invalid. -/
def decisionFailure (message executionId : String) : Except Rejection ClassifiedFailure :=
  ClassifiedFailure.make
    { stage := .semanticEvaluation
      kind := .semanticExecution
      code := "semantic_decision_contract_invalid"
      retryable := true
      resultUnknown := false
      disposition := .retrySemantic
      safeMessage := "Semantic decision evidence invalid"
      evidenceRefs := [executionId]
      providerDiagnostics := some (decisionDiagnostics message) }

namespace PreparedStep

variable (interpreter : Interpreter) (step : PreparedStep)

/-- What parsing adds to the evidence of a judge call without a failure. -/
def judgeFailure (evidence : ResponseEvidence) : Except Raised (Option ClassifiedFailure) := do
  let contract ← demand step.semantic .assertion
  let receipt ← demand evidence.receipt .assertion
  let obligations ← raising (semanticObligations step.inventory step.assertions)
  reread interpreter.parserDepth evidence.normalized
  match parseSemanticOutput evidence.normalized contract receipt step.cp.invocationId obligations with
  | .ok _ => pure none
  | .error (.decisionInvalid message) => do
      let failure ← raising (decisionFailure message step.cp.executionId)
      pure (some failure)
  | .error refusal => throw (.refused refusal)

def completionStatus (failure : Option ClassifiedFailure) : CompletionStatus :=
  match failure with
  | none => .succeeded
  | some failure => if failure.resultUnknown then .resultUnknown else .failed

/-- A candidate name that the caller brings must fit the outcome. -/
def checkCandidateId (candidateId : Option String) (status : CompletionStatus) : Except Rejection Unit :=
  match candidateId with
  | none => pure ()
  | some id => do
      require (step.cp.kind = .generation)
        (.invalid "Semantic completion cannot bind a generation candidate identity")
      require ((status = .succeeded → validId id = true) ∧ (status ≠ .succeeded → id = ""))
        (.invalid "Exact first generation candidate identity required")

def generationFields (evidence : ResponseEvidence) (failure : Option ClassifiedFailure) (finishedAt : DateTime) :
    GenerationFields where
  executionId := step.cp.executionId
  caseId := step.cp.caseId
  slotOrdinal := step.cp.slotOrdinal
  executionOrdinal := step.cp.executionOrdinal
  invocationId := step.cp.invocationId
  status := completionStatus failure
  startedAt := step.startedAt
  finishedAt
  providerCallCount := 1
  receipt := evidence.receipt
  rawOutput := evidence.raw
  normalizedOutput := evidence.normalized
  normalizedFingerprint := if evidence.normalized.isEmpty then "" else evidence.normalized.fingerprint
  failure

def semanticFields (evidence : ResponseEvidence) (failure : Option ClassifiedFailure) (finishedAt : DateTime) :
    SemanticFields where
  executionId := step.cp.executionId
  candidateId := step.cp.candidateId
  candidateOutputFingerprint := step.candidateFingerprint
  executionOrdinal := step.cp.executionOrdinal
  invocationId := step.cp.invocationId
  status := completionStatus failure
  startedAt := step.startedAt
  finishedAt
  providerCallCount := 1
  receipt := evidence.receipt
  rawOutput := evidence.raw
  normalizedOutput := evidence.normalized
  failure

/-- Record the evidence of the call under its status. The record reads the
normalized bytes of a generation that kept some and of an accepted judge call. -/
def recordCompletion (evidence : ResponseEvidence) (failure : Option ClassifiedFailure) (finishedAt : DateTime)
    (candidateId : Option String) (fresh : String) : Except Raised StepCompletion :=
  match step.cp.kind with
  | .generation => do
      if evidence.normalized.isEmpty = false then
        reread interpreter.completionDepth evidence.normalized
      let completion ← raising (GenerationCompletion.make (step.generationFields evidence failure finishedAt))
      pure ⟨.generation completion,
        candidateId.getD (if completionStatus failure = .succeeded then fresh else "")⟩
  | .semantic => do
      if completionStatus failure = .succeeded then
        reread interpreter.completionDepth evidence.normalized
      let completion ← raising (SemanticCompletion.make (step.semanticFields evidence failure finishedAt))
      pure ⟨.semantic completion, ""⟩

/-- The completion of a call from its response, or from the failure of the call
itself. -/
def prepareStepCompletion (response : Option ModelResponse) (failure : Option ClassifiedFailure) (now : DateTime)
    (candidateId : Option String) (fresh : String) : Except Raised StepCompletion := do
  let finishedAt := if now < step.startedAt then step.startedAt else now
  let evidence ← match response with
    | none => pure ⟨none, .empty, .empty, failure⟩
    | some response =>
        responseEvidence interpreter step.cp.kind step.cp.executionId step.cp.invocationId step.route step.schema
          response step.maxOutputCharacters
  let failure ← if step.cp.kind = .semantic ∧ evidence.failure = none then step.judgeFailure interpreter evidence
    else pure evidence.failure
  raising (step.checkCandidateId candidateId (completionStatus failure))
  step.recordCompletion interpreter evidence failure finishedAt candidateId fresh

end PreparedStep

end QsAi
