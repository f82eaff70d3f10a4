import QsAi.Evaluation.StepOutcome

/-! Calls that the gateway could not complete, and how their failures differ from
the failure that is recorded when nobody reports any more: a worker names its
execution only, an expiry names the interrupted invocation with it. -/
namespace QsAi

open Guarded

/-- What the gateway raises. -/
structure ProviderFailure where
  code : String
  retryable : Bool
  resultUnknown : Bool

/-- The code of a transport failure, if it can be recorded. -/
def providerCode (error : ProviderFailure) : String :=
  if validCode (strip error.code) = true then strip error.code else "provider_execution_failed"

def providerFailureFields (stage : ExecutionKind) (executionId : String) (error : ProviderFailure)
    (diagnostics : ProviderDiagnostics) : FailureFields :=
  let code := providerCode error
  let retryable := error.retryable && !error.resultUnknown
  match stage with
  | .generation =>
      { stage := .generationExecution
        kind := if error.resultUnknown then .resultUnknown else .infrastructureExecution
        code
        retryable
        resultUnknown := error.resultUnknown
        disposition := if error.resultUnknown then .manualAcknowledgement
          else if retryable then .retryGeneration else .noAction
        safeMessage := "Provider execution did not complete"
        evidenceRefs := [executionId]
        providerDiagnostics := some diagnostics }
  | .semantic =>
      { stage := .semanticEvaluation
        kind := if error.resultUnknown then .resultUnknown else .semanticExecution
        code := if error.resultUnknown then "semantic_result_unknown"
          else if code = "provider_rate_limited" then "semantic_provider_rate_limited" else "semantic_provider_failed"
        retryable
        resultUnknown := error.resultUnknown
        disposition := if error.resultUnknown then .manualAcknowledgement else .retrySemantic
        safeMessage := "Semantic provider execution did not complete"
        evidenceRefs := [executionId]
        providerDiagnostics := some diagnostics }

/-- The transport failure in the words of the recovery policy. -/
def classifyProviderFailure (stage : ExecutionKind) (executionId : String) (error : ProviderFailure) :
    Except Rejection ClassifiedFailure := do
  let diagnostics ← ProviderDiagnostics.make (providerCode error)
  ClassifiedFailure.make (providerFailureFields stage executionId error diagnostics)

/-! What a worker names as evidence. -/

theorem classifyProviderFailure_refs {stage : ExecutionKind} {executionId : String} {error : ProviderFailure}
    {failure : ClassifiedFailure} (h : classifyProviderFailure stage executionId error = .ok failure) :
    failure.evidenceRefs = [executionId] := by
  simp only [classifyProviderFailure, ClassifiedFailure.make, bind_ok, certify_ok] at h
  obtain ⟨diagnostics, _, _, rfl⟩ := h
  cases stage with
  | generation => rfl
  | semantic => rfl

theorem responseFailure_refs {stage : ExecutionKind} {code : ResponseCode} {executionId : String}
    {failure : ClassifiedFailure} (h : responseFailure stage code executionId = .ok failure) :
    failure.evidenceRefs = [executionId] := by
  simp only [responseFailure, ClassifiedFailure.make, certify_ok] at h
  obtain ⟨_, rfl⟩ := h
  cases stage <;> cases code <;> rfl

theorem decisionFailure_refs {message executionId : String} {failure : ClassifiedFailure}
    (h : decisionFailure message executionId = .ok failure) : failure.evidenceRefs = [executionId] := by
  simp only [decisionFailure, ClassifiedFailure.make, certify_ok] at h
  obtain ⟨_, rfl⟩ := h
  rfl

theorem responseEvidence_refs {interpreter : Interpreter} {stage : ExecutionKind} {executionId invocationId : String}
    {route : ModelRoute} {schema : PyJson.Value → Bool} {response : ModelResponse} {maximum : Nat}
    {evidence : ResponseEvidence}
    (h : responseEvidence interpreter stage executionId invocationId route schema response maximum = .ok evidence) :
    ∀ failure ∈ evidence.failure, failure.evidenceRefs = [executionId] := by
  simp only [responseEvidence, bind_ok] at h
  obtain ⟨value, _, failure, hFailure, h⟩ := h
  rw [pure_ok] at h
  subst h
  intro found hFound
  cases hCode : responseCode (responseContents stage response maximum).2 (responseReceipt invocationId route response)
    ((responseContents stage response maximum).1.2 == "") value schema with
  | none =>
      rw [hCode] at hFailure
      cases hFailure
      cases hFound
  | some code =>
      rw [hCode] at hFailure
      cases hMade : responseFailure stage code executionId with
      | error refusal =>
          rw [Option.mapM_some, hMade] at hFailure
          cases hFailure
      | ok made =>
          rw [Option.mapM_some, hMade] at hFailure
          cases hFailure
          cases hFound
          exact responseFailure_refs hMade

namespace PreparedStep

variable {interpreter : Interpreter} {step : PreparedStep}

theorem judgeFailure_refs {evidence : ResponseEvidence} {failure : Option ClassifiedFailure}
    (h : step.judgeFailure interpreter evidence = .ok failure) :
    ∀ value ∈ failure, value.evidenceRefs = [step.cp.executionId] := by
  simp only [judgeFailure, bind_ok] at h
  obtain ⟨contract, _, receipt, _, obligations, _, _, _, h⟩ := h
  split at h
  · rw [pure_ok] at h
    subst h
    exact fun value hValue => by simp at hValue
  · simp only [bind_ok, raising_ok, pure_ok] at h
    obtain ⟨made, hMade, rfl⟩ := h
    intro value hValue
    cases hValue
    exact decisionFailure_refs hMade
  · cases h

theorem recordCompletion_refs {evidence : ResponseEvidence} {failure : Option ClassifiedFailure}
    {finishedAt : DateTime} {candidateId : Option String} {fresh : String} {result : StepCompletion}
    (hFailure : ∀ value ∈ failure, value.evidenceRefs = [step.cp.executionId])
    (h : step.recordCompletion interpreter evidence failure finishedAt candidateId fresh = .ok result) :
    ∀ value ∈ result.completion.failure, value.evidenceRefs = [result.completion.executionId] := by
  have hGeneration : ∀ completion, GenerationCompletion.make (step.generationFields evidence failure finishedAt) =
      .ok completion → ∀ value ∈ completion.failure, value.evidenceRefs = [completion.executionId] := by
    intro completion hMake
    have hFields := GenerationCompletion.make_ok hMake
    have hExecution : completion.executionId = step.cp.executionId := congrArg GenerationFields.executionId hFields
    have hSame : completion.failure = failure := congrArg GenerationFields.failure hFields
    rw [hExecution]
    exact hSame ▸ hFailure
  have hSemantic : ∀ completion, SemanticCompletion.make (step.semanticFields evidence failure finishedAt) =
      .ok completion → ∀ value ∈ completion.failure, value.evidenceRefs = [completion.executionId] := by
    intro completion hMake
    have hFields := SemanticCompletion.make_ok hMake
    have hExecution : completion.executionId = step.cp.executionId := congrArg SemanticFields.executionId hFields
    have hSame : completion.failure = failure := congrArg SemanticFields.failure hFields
    rw [hExecution]
    exact hSame ▸ hFailure
  -- the further reading of the bytes may refuse, but records nothing
  unfold recordCompletion at h
  split at h
  · by_cases hRead : evidence.normalized.isEmpty = false
    · rw [if_pos hRead] at h
      simp only [bind_ok, raising_ok, pure_ok] at h
      obtain ⟨_, _, completion, hMake, rfl⟩ := h
      exact hGeneration completion hMake
    · rw [if_neg hRead] at h
      simp only [bind_ok, raising_ok, pure_ok] at h
      obtain ⟨completion, hMake, rfl⟩ := h
      exact hGeneration completion hMake
  · by_cases hRead : completionStatus failure = .succeeded
    · rw [if_pos hRead] at h
      simp only [bind_ok, raising_ok, pure_ok] at h
      obtain ⟨_, _, completion, hMake, rfl⟩ := h
      exact hSemantic completion hMake
    · rw [if_neg hRead] at h
      simp only [bind_ok, raising_ok, pure_ok] at h
      obtain ⟨completion, hMake, rfl⟩ := h
      exact hSemantic completion hMake

/-- Whatever a worker reports names nothing but its execution as evidence of a
failure. -/
theorem prepareStepCompletion_refs {response : Option ModelResponse} {failure : Option ClassifiedFailure}
    {now : DateTime} {candidateId : Option String} {fresh : String} {result : StepCompletion}
    (hFailure : ∀ value ∈ failure, value.evidenceRefs = [step.cp.executionId])
    (h : step.prepareStepCompletion interpreter response failure now candidateId fresh = .ok result) :
    ∀ value ∈ result.completion.failure, value.evidenceRefs = [result.completion.executionId] := by
  have hEnd : ∀ evidence : ResponseEvidence, (∀ value ∈ evidence.failure, value.evidenceRefs = [step.cp.executionId]) →
      ((if step.cp.kind = ExecutionKind.semantic ∧ evidence.failure = none then step.judgeFailure interpreter evidence
        else pure evidence.failure : Except Raised (Option ClassifiedFailure)) >>= fun failure =>
          raising (step.checkCandidateId candidateId (completionStatus failure)) >>= fun _ =>
            step.recordCompletion interpreter evidence failure (if now < step.startedAt then step.startedAt else now)
              candidateId fresh) = .ok result →
      ∀ value ∈ result.completion.failure, value.evidenceRefs = [result.completion.executionId] := by
    intro evidence hEvidence hOk
    simp only [bind_ok] at hOk
    obtain ⟨found, hFound, _, _, hRecord⟩ := hOk
    refine recordCompletion_refs ?_ hRecord
    split at hFound
    · exact judgeFailure_refs hFound
    · rw [pure_ok] at hFound
      exact hFound ▸ hEvidence
  cases response with
  | none =>
      refine hEnd ⟨none, .empty, .empty, failure⟩ hFailure ?_
      rw [ite_bind]
      exact h
  | some response =>
      simp only [prepareStepCompletion] at h
      rw [bind_ok] at h
      obtain ⟨evidence, hEvidence, hOk⟩ := h
      refine hEnd evidence (responseEvidence_refs hEvidence) ?_
      rw [ite_bind]
      exact hOk

end PreparedStep

end QsAi
