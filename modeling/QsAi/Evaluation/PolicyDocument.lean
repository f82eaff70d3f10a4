import QsAi.Evaluation.Policy

/-! The execution policy document. A release freezes it by its fingerprint; the
service reads the limits and selectors back and refuses a document that gives up
a mandatory obligation. -/
namespace QsAi

open Guarded

/-- The definition in a policy document whose fingerprint matched, as far as it
is read: every limit is a whole number. -/
structure PolicyDefinition where
  requiredGenerationCases : Int
  requiredCandidatesPerCase : Int
  requiredPreflightCases : Int
  maxGenerationsPerSlot : Int
  maxGenerationsPerRun : Int
  maxSemanticsPerCandidate : Int
  maxSemanticsPerRun : Int
  autoRetryableStageCodes : List (Stage × String)
  resultUnknownRequiresManualAcknowledgement : Bool
  qualityFailureReplacementAllowed : Bool
  semanticFailureRegeneratesCandidate : Bool
deriving DecidableEq

def executionPolicy (definition : PolicyDefinition) : Except Rejection ExecutionPolicy := do
  require ((definition.requiredGenerationCases, definition.requiredCandidatesPerCase,
        definition.requiredPreflightCases) = ((7 : Int), (5 : Int), (1 : Int)) ∧
      definition.resultUnknownRequiresManualAcknowledgement = true ∧
      definition.qualityFailureReplacementAllowed = false ∧
      definition.semanticFailureRegeneratesCandidate = false)
    (.invalid "Evaluation policy violates mandatory safety obligations")
  require (∀ value ∈ [definition.maxGenerationsPerSlot, definition.maxGenerationsPerRun,
      definition.maxSemanticsPerCandidate, definition.maxSemanticsPerRun], 0 < value)
    (.invalid "Invalid execution policy limits")
  pure
    { generationCases := definition.requiredGenerationCases.toNat
      candidatesPerCase := definition.requiredCandidatesPerCase.toNat
      preflightCases := definition.requiredPreflightCases.toNat
      generationPerSlot := definition.maxGenerationsPerSlot.toNat
      generationPerRun := definition.maxGenerationsPerRun.toNat
      semanticPerCandidate := definition.maxSemanticsPerCandidate.toNat
      semanticPerRun := definition.maxSemanticsPerRun.toNat
      automaticSelectors := definition.autoRetryableStageCodes.toFinset }

/-- The policies that documents define are exactly those of the mandatory shape:
no document bounds a limit from above or ties one limit to another. -/
theorem executionPolicy_iff {policy : ExecutionPolicy} :
    (∃ definition, executionPolicy definition = .ok policy) ↔ policy.Frozen := by
  constructor
  · rintro ⟨definition, h⟩
    simp only [executionPolicy, bind_ok, require_ok, exists_const, pure_ok, Prod.mk.injEq, List.forall_mem_cons] at h
    obtain ⟨⟨⟨hCases, hCandidates, hPreflight⟩, _⟩, ⟨hSlot, hRun, hCandidate, hJudged, _⟩, rfl⟩ := h
    constructor <;> simp only <;> omega
  · intro h
    refine ⟨⟨policy.generationCases, policy.candidatesPerCase, policy.preflightCases, policy.generationPerSlot,
      policy.generationPerRun, policy.semanticPerCandidate, policy.semanticPerRun, policy.automaticSelectors.toList,
      true, false, false⟩, ?_⟩
    have hSlot := h.generationPerSlot
    have hRun := h.generationPerRun
    have hCandidate := h.semanticPerCandidate
    have hJudged := h.semanticPerRun
    simp only [executionPolicy, bind_ok, require_ok, exists_const, pure_ok, Prod.mk.injEq, List.forall_mem_cons]
    refine ⟨⟨⟨?_, ?_, ?_⟩, by simp⟩, ⟨?_, ?_, ?_, ?_, by simp⟩, ?_⟩
    · rw [h.generationCases]
      rfl
    · rw [h.candidatesPerCase]
      rfl
    · rw [h.preflightCases]
      rfl
    · omega
    · omega
    · omega
    · omega
    · simp

end QsAi
