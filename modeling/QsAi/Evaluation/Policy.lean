import Mathlib.Data.Finset.Basic
import QsAi.Foundation.Guarded
import QsAi.Text

/-! Failure classification and the frozen execution policy. A failure is a
closed record: a value exists only when its classification is consistent. -/
namespace QsAi

open Guarded

inductive Stage
  | generationExecution
  | outputValidation
  | deterministicValidation
  | semanticEvaluation
  | humanReview
  | runGovernance
deriving DecidableEq, Repr

inductive FailureKind
  | infrastructureExecution
  | resultUnknown
  | providerProtocol
  | outputContractConformance
  | semanticExecution
  | qualityFailure
deriving DecidableEq, Repr

inductive Disposition
  | retryGeneration
  | replaceGeneration
  | retrySemantic
  | manualAcknowledgement
  | retainCandidate
  | rejectRelease
  | cancelRun
  | noAction
deriving DecidableEq, Repr

private def diagnosticText (value : String) : Bool :=
  1 ≤ value.length && value.length ≤ 256 && value.toList.all fun c =>
    c.isAlphanum || c == '_' || c == '.' || c == ':' || c == '-'

/-- Provider metadata kept with a failure. -/
structure ProviderDiagnostics where
  code : String
  requestId : String := ""
  responseStatus : String := ""
  responseShape : String := ""
  valid : diagnosticText code = true ∧
    ∀ value ∈ [requestId, responseStatus, responseShape], value = "" ∨ diagnosticText value = true
deriving DecidableEq

/-- The diagnostics that name nothing but the code. -/
def ProviderDiagnostics.make (code : String) : Except Rejection ProviderDiagnostics :=
  if h : diagnosticText code = true then pure { code, valid := ⟨h, fun value hMem => .inl (by simpa using hMem)⟩ }
  else throw (.invalid "Invalid provider diagnostic code")

/-- References are stripped before they are compared, and listed once. -/
def validEvidenceRefs (refs : List String) : Prop :=
  (refs.map strip).Nodup ∧ ∀ ref ∈ refs, strip ref ≠ "" ∧ byteLength (strip ref) ≤ 256 ∧
    containsAny (strip ref) ['<', '>', '\t', '\r', '\n', ' '] = false

instance (refs : List String) : Decidable (validEvidenceRefs refs) :=
  inferInstanceAs (Decidable (_ ∧ _))

/-- The fields of a classified failure before they are checked together. -/
structure FailureFields where
  stage : Stage
  kind : FailureKind
  code : String
  retryable : Bool
  resultUnknown : Bool
  disposition : Disposition
  safeMessage : String
  evidenceRefs : List String
  providerDiagnostics : Option ProviderDiagnostics := none
deriving DecidableEq

/-- What the failure taxonomy demands of one record, in the order it is checked. -/
def FailureFields.check (f : FailureFields) : Except Rejection Unit := do
  require (validCode f.code = true) (.invalid "Invalid failure classification")
  let message := strip f.safeMessage
  require (message ≠ "" ∧ byteLength message ≤ 1000 ∧ containsAny message ['<', '>'] = false)
    (.invalid "Invalid safe failure message")
  require (1 ≤ f.evidenceRefs.length ∧ f.evidenceRefs.length ≤ 16) (.invalid "Invalid evidence references")
  require (validEvidenceRefs f.evidenceRefs) (.invalid "Invalid or duplicated evidence reference")
  require (f.resultUnknown = true ↔ f.kind = .resultUnknown) (.invalid "Inconsistent unknown result")
  require (f.kind = .resultUnknown → f.retryable = false ∧ f.disposition = .manualAcknowledgement)
    (.invalid "Unknown results require manual acknowledgement")
  require (f.kind = .outputContractConformance →
      f.stage = .outputValidation ∧ f.retryable = false ∧ f.disposition = .replaceGeneration)
    (.invalid "Invalid output-contract disposition")
  require (f.kind = .semanticExecution → f.stage = .semanticEvaluation ∧ f.disposition = .retrySemantic)
    (.invalid "Invalid semantic-execution disposition")
  require (f.kind = .qualityFailure →
      f.retryable = false ∧ (f.disposition = .retainCandidate ∨ f.disposition = .rejectRelease))
    (.invalid "Quality failures must retain candidate or reject release")

structure ClassifiedFailure extends FailureFields where
  checked : toFailureFields.check = .ok ⟨⟩
deriving DecidableEq

namespace ClassifiedFailure

def candidateExists (failure : ClassifiedFailure) : Bool :=
  failure.kind == .semanticExecution || failure.kind == .qualityFailure

def allowsGenerationReplacement (failure : ClassifiedFailure) : Bool :=
  failure.disposition == .replaceGeneration

def allowsSemanticRetry (failure : ClassifiedFailure) : Bool :=
  failure.disposition == .retrySemantic

def make (fields : FailureFields) : Except Rejection ClassifiedFailure :=
  certify fields.check fun h => ⟨fields, h⟩

theorem unknown_iff (failure : ClassifiedFailure) :
    failure.resultUnknown = true ↔ failure.kind = .resultUnknown := by
  have h := failure.checked
  simp only [FailureFields.check, require_bind_ok] at h
  exact h.2.2.2.2.1

theorem disposition_of_unknown {failure : ClassifiedFailure} (h : failure.resultUnknown = true) :
    failure.disposition = .manualAcknowledgement := by
  have hChecked := failure.checked
  simp only [FailureFields.check, require_bind_ok] at hChecked
  exact (hChecked.2.2.2.2.2.1 (failure.unknown_iff.mp h)).2

end ClassifiedFailure

/-- The failure recorded for a call whose outcome cannot be confirmed. -/
def interruptedFailure (stage : Stage) (executionId invocationId : String) :
    Except Rejection ClassifiedFailure :=
  ClassifiedFailure.make
    { stage := stage
      kind := .resultUnknown
      code := "execution_interrupted"
      retryable := false
      resultUnknown := true
      disposition := .manualAcknowledgement
      safeMessage := "发送中断，无法确认供应商执行结果"
      evidenceRefs := [executionId, invocationId] }

/-- The limits and selectors a Run freezes at creation. The policy document's
identity and its obligations outside automatic recovery are not read here. -/
structure ExecutionPolicy where
  generationCases : Nat
  candidatesPerCase : Nat
  preflightCases : Nat
  generationPerSlot : Nat
  generationPerRun : Nat
  semanticPerCandidate : Nat
  semanticPerRun : Nat
  automaticSelectors : Finset (Stage × String)
deriving DecidableEq

namespace ExecutionPolicy

/-- Policy whitelist only; disposition and budget are checked by the callers. -/
def selectsAutomaticRetry (policy : ExecutionPolicy) (stage : Stage) (code : String) (retryable : Bool) : Bool :=
  retryable && decide ((stage, code) ∈ policy.automaticSelectors)

def allowsAutomaticGenerationRecovery (policy : ExecutionPolicy) (failure : ClassifiedFailure) : Bool :=
  failure.allowsGenerationReplacement ||
    (failure.disposition == .retryGeneration &&
      policy.selectsAutomaticRetry failure.stage failure.code failure.retryable)

def allowsAutomaticSemanticRecovery (policy : ExecutionPolicy) (failure : ClassifiedFailure) : Bool :=
  failure.allowsSemanticRetry && policy.selectsAutomaticRetry failure.stage failure.code failure.retryable

/-- The shape every accepted policy document has: seven generation cases, five
candidates for each, one preflight case, and positive limits. -/
structure Frozen (policy : ExecutionPolicy) : Prop where
  generationCases : policy.generationCases = 7
  candidatesPerCase : policy.candidatesPerCase = 5
  preflightCases : policy.preflightCases = 1
  generationPerSlot : 0 < policy.generationPerSlot
  generationPerRun : 0 < policy.generationPerRun
  semanticPerCandidate : 0 < policy.semanticPerCandidate
  semanticPerRun : 0 < policy.semanticPerRun

end ExecutionPolicy

end QsAi
