import QsAi.Evaluation.Closure
import QsAi.Evaluation.ParallelPlan
import QsAi.Evaluation.Rounds

/-! The records of one evaluation Run: what it froze at creation, its progress
document, and its rows in the dispatch, completion and claim tables. All
functions take the rows in the order storage returned them. -/
namespace QsAi

open Guarded Keyed

inductive ExecutionMode
  | serialV1
  | candidateV2
deriving DecidableEq, Repr

/-- The assets a Run freezes, as far as completions and reviews are checked
against them. The rejection case of the suite is evaluated without a provider. -/
structure FrozenAssets where
  generationProvider : String
  generationModel : String
  outputSchema : PyJson.Value → Bool
  judge : JudgeContract
  inventory : String → Option (List FrozenAssertion)
  runPreflight : DateTime → Option PreflightEvidence
  gateVersion : String
  thresholds : QualityThresholds
  completionRule : Bool
  encoding : ReviewEncoding

/-- The frozen definition of a Run. The suite names seven generation cases and
one preflight case apart from them, and the policy has the mandatory shape. -/
structure Creation where
  mode : ExecutionMode
  createdAt : DateTime
  requestedBy : String
  releaseFingerprint : String
  generationCaseIds : List String
  preflightCaseId : String
  policy : ExecutionPolicy
  assets : FrozenAssets
  frozen : policy.Frozen
  cases : generationCaseIds.length = policy.generationCases ∧ generationCaseIds.Nodup
  identities : validId requestedBy = true ∧ validId preflightCaseId = true ∧
    ∀ id ∈ generationCaseIds, validId id = true
  apart : preflightCaseId ∉ generationCaseIds

instance slot_lawfulBEq : LawfulBEq (String × Nat) := inferInstance

/-- The frozen slots: each case repeated for every candidate. -/
def Creation.slots (creation : Creation) : List (String × Nat) :=
  creation.generationCaseIds.flatMap fun caseId =>
    (List.range' 1 creation.policy.candidatesPerCase).map fun ordinal => (caseId, ordinal)

/-- A recorded transition; only what a person decided carries a reason. -/
structure Transition extends ClosureTransition where
  reason : Option String := none
deriving DecidableEq

structure CancelRequest where
  sourceVersion : Nat
  version : Nat
  actor : String
  reason : String
  requestedAt : DateTime
deriving DecidableEq

/-- The audited terminal cancellation. -/
structure CancellationRecord where
  sourceVersion : Nat
  version : Nat
  sourceStatus : RunStatus
  releaseFingerprint : String
  actor : String
  reason : String
  discard : Bool
  canceledAt : DateTime
  executionId : String
  invocationId : String
deriving DecidableEq

/-- An expired serial checkpoint and what became of it. -/
structure RecoveryEvent where
  actor : String
  phase : Phase
  invocationId : String
  executionId : String
  previousOwner : String
  observedExpiry : DateTime
  time : DateTime
  fromVersion : Nat
  toVersion : Nat
deriving DecidableEq

/-- The progress document of a Run. -/
structure Progress where
  status : RunStatus
  transitions : List Transition
  preflight : Option PreflightEvidence := none
  unresolvedResultUnknownCount : Nat := 0
  resultUnknownResolutions : List ResultUnknownResolution := []
  semanticContractRecoveries : List ContractRecovery := []
  cancelRequested : Option CancelRequest := none
  recoveries : List RecoveryEvent := []
  humanReviews : List CandidateHumanReview := []
  reviewCorrections : List ReviewCorrection := []
  reviewReopenings : List RoundEntry := []
  gateResult : Option FinalRecord := none
  finalizedAt : Option DateTime := none
  canceledAt : Option DateTime := none
  cancellation : Option CancellationRecord := none
  canceledCheckpoint : Option ExecutionCheckpoint := none
deriving DecidableEq

structure DispatchRow where
  invocationId : String
  executionId : String
  kind : ExecutionKind
  caseId : String
  slotOrdinal : Nat
  candidateId : String
  checkpoint : ExecutionCheckpoint
deriving DecidableEq

/-- The accepted candidate of a slot, updated once by the accepted judge call. -/
structure Candidate where
  id : String
  generationExecutionId : String
  normalizedOutputFingerprint : String
  acceptedAt : String
  assertions : List AssertionReceipt
  reviewReady : Bool
  semanticAssertions : Option (List AssertionReceipt) := none
  acceptedSemanticExecutionId : Option String := none
deriving DecidableEq

structure GenerationRow where
  executionId : String
  invocationId : String
  caseId : String
  slotOrdinal : Nat
  executionOrdinal : Nat
  candidateId : Option String
  candidate : Option Candidate
  evidence : GenerationCompletion
deriving DecidableEq

structure SemanticRow where
  executionId : String
  invocationId : String
  candidateId : String
  executionOrdinal : Nat
  evidence : SemanticCompletion
  outputFingerprint : String
  result : Option SemanticResult
deriving DecidableEq

/-- Candidate ownership: the coordinator version at the claim and the call. -/
structure SlotClaim where
  version : Nat
  checkpoint : ExecutionCheckpoint
deriving DecidableEq

structure ClaimRow where
  caseId : String
  slotOrdinal : Nat
  claim : SlotClaim
deriving DecidableEq

def GenerationRow.slot (row : GenerationRow) : String × Nat := (row.caseId, row.slotOrdinal)

def ClaimRow.slot (row : ClaimRow) : String × Nat := (row.caseId, row.slotOrdinal)

def DispatchRow.slot (row : DispatchRow) : String × Nat := (row.caseId, row.slotOrdinal)

/-- The stored state of one Run: coordinator, progress and tables. -/
structure Store where
  creation : Creation
  version : Nat
  checkpoint : Option ExecutionCheckpoint
  progress : Progress
  dispatches : List DispatchRow
  generations : List GenerationRow
  semantics : List SemanticRow
  claims : List ClaimRow

/-- A new Run: requested, with one transition and no work. -/
def createRun (creation : Creation) : Store where
  creation := creation
  version := 1
  checkpoint := none
  progress :=
    { status := .requested
      transitions :=
        [{ source := none, target := .requested, actor := creation.requestedBy
           cause := .evaluationRequested, time := creation.createdAt }] }
  dispatches := []
  generations := []
  semantics := []
  claims := []

namespace Store

variable (store : Store)

def insertDispatch (row : DispatchRow) : Except Rejection Store := do
  require (row.invocationId ∉ store.dispatches.map (·.invocationId)) (.integrity "PRIMARY")
  require (row.executionId ∉ store.dispatches.map (·.executionId)) (.integrity "uq_evaluation_dispatch_execution")
  pure { store with dispatches := store.dispatches ++ [row] }

def insertGeneration (row : GenerationRow) : Except Rejection Store := do
  require (row.executionId ∉ store.generations.map (·.executionId)) (.integrity "PRIMARY")
  require (row.invocationId ∉ store.generations.map (·.invocationId)) (.integrity "kind_run_id_invocation_id")
  require (row.candidateId = none ∨ row.candidateId ∉ store.generations.map (·.candidateId))
    (.integrity "run_id_gen_candidate_key")
  require ((row.slot, row.executionOrdinal) ∉ store.generations.map fun r => (r.slot, r.executionOrdinal))
    (.integrity "run_id_gen_case_key_gen_slot_key_execution_ordinal")
  pure { store with generations := store.generations ++ [row] }

def insertSemantic (row : SemanticRow) : Except Rejection Store := do
  require (row.executionId ∉ store.semantics.map (·.executionId)) (.integrity "PRIMARY")
  require (row.invocationId ∉ store.semantics.map (·.invocationId)) (.integrity "kind_run_id_invocation_id")
  require ((row.candidateId, row.executionOrdinal) ∉
      store.semantics.map fun r => (r.candidateId, r.executionOrdinal))
    (.integrity "run_id_sem_candidate_key_execution_ordinal")
  pure { store with semantics := store.semantics ++ [row] }

/-- Replace the candidate of one accepted generation. -/
def updateCandidate (executionId : String) (candidate : Candidate) : Store :=
  { store with generations := store.generations.map fun row =>
      if row.executionId = executionId then { row with candidate := some candidate } else row }

def insertClaim (row : ClaimRow) : Except Rejection Store := do
  require (row.slot ∉ store.claims.map (·.slot)) (.integrity "PRIMARY")
  pure { store with claims := store.claims ++ [row] }

/-- Replace the checkpoint of the claim on one slot. -/
def updateClaim (slot : String × Nat) (checkpoint : ExecutionCheckpoint) : Store :=
  { store with claims := store.claims.map fun row =>
      if row.slot = slot then { row with claim := { row.claim with checkpoint } } else row }

def deleteClaim (slot : String × Nat) : Store :=
  { store with claims := store.claims.filter (·.slot ≠ slot) }

/-- Compare and swap of the coordinator row: one version forward. -/
def saveCheckpoint (expected : Nat) (checkpoint : Option ExecutionCheckpoint) : Except Rejection Store := do
  require (store.version = expected) (.conflict "Checkpoint state changed concurrently")
  pure { store with version := expected + 1, checkpoint }

end Store

end QsAi
