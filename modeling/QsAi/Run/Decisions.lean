import QsAi.Run.Reviews

/-! Transitions of a Run that no model call causes: start and preflight, manual
decisions, cancellation, and the recovery of expired ownership. -/
namespace QsAi

open Guarded Keyed Numbered

/-! Start and preflight. -/

namespace Store

variable (store : Store)

def requireIdle (expectedVersion : Nat) : Except Rejection Unit :=
  require (store.version = expectedVersion ∧ store.checkpoint = none)
    (.conflict "Run version changed or execution is active")

/-- The initial transition: start collecting, or cancel. -/
def transitionRequested (expectedVersion : Nat) (target : RunStatus) (actor reason : String) (time : DateTime) :
    Except Rejection Store := do
  require (target = .collecting ∨ target = .canceled) (.invalid "Unsupported initial Run transition")
  require (validId actor = true) (.invalid "Invalid transition actor")
  require (validReason reason = true) (.invalid "Invalid transition reason")
  store.requireIdle expectedVersion
  require (store.progress.status = .requested) (.conflict "Run is no longer requested")
  require (store.creation.createdAt ≤ time) (.invalid "Transition cannot precede creation")
  let saved ← store.saveCheckpoint expectedVersion none
  pure { saved with
    progress := { store.progress with
      status := target
      transitions := store.progress.transitions ++
        [{ source := some .requested, target, actor, time
           cause := if target = .collecting then .evaluationStarted else .evaluationCanceled
           reason := some reason }]
      canceledAt := if target = .canceled then some time else store.progress.canceledAt } }

/-- Accept the preflight evidence of a collecting Run; a failure blocks it. -/
def completePreflight (expectedVersion : Nat) (evidence : PreflightEvidence) : Except Rejection Store := do
  store.requireIdle expectedVersion
  require (store.progress.status = .collecting ∧ store.progress.preflight = none)
    (.conflict "Pending preflight in collecting Run required")
  require (evidence.caseId = store.creation.preflightCaseId ∧ store.creation.createdAt ≤ evidence.evaluatedAt)
    (.invalid "Preflight source or time mismatch")
  let saved ← store.saveCheckpoint expectedVersion none
  let progress := { store.progress with preflight := some evidence }
  pure { saved with
    progress := if evidence.status = .failed then
        { progress with
          status := .blocked
          transitions := progress.transitions ++
            [{ source := some .collecting, target := .blocked, cause := .preflightFailed
               actor := "system:runner", time := evidence.evaluatedAt, evidenceRefs := [evidence.caseId] }] }
      else progress }

/-! Manual decisions. -/

/-- The unknown executions of the Run, after the whole evidence and all prior
decisions were checked again. -/
def loadResolutionEvidence : Except Rejection (List UnknownExecution) := do
  require (store.generations.length ≤ store.creation.policy.generationPerRun ∧
      store.semantics.length ≤ store.creation.policy.semanticPerRun ∧
      store.dispatches.length ≤ store.creation.policy.generationPerRun + store.creation.policy.semanticPerRun)
    (.conflict "Execution ledger exceeds frozen Run budget")
  let _ ← projectSlots store.creation.slots store.generations store.dispatches store.semantics
    store.progress.resultUnknownResolutions store.progress.semanticContractRecoveries store.creation.policy
  let unknowns := unknownExecutions store.generations store.semantics
  require (store.progress.unresolvedResultUnknownCount + store.progress.resultUnknownResolutions.length =
      unknowns.length)
    (.invalid "Unknown execution count differs from persisted evidence")
  require ((∃ r ∈ store.progress.resultUnknownResolutions, r.decision = .cancelRun) →
      store.progress.status = .canceled)
    (.conflict "Canceled resolution differs from Run state")
  pure unknowns

/-- Accept a decision about one unknown execution. -/
def acceptResolution (expectedVersion : Nat) (value : ResultUnknownResolution) (confirm : Bool) :
    Except Rejection Store := do
  require (confirm = true) (.invalid "Explicit confirmation required")
  store.requireIdle expectedVersion
  require (store.creation.mode = .candidateV2 → store.claims = [])
    (.conflict "Drain candidate executions before resolving unknown calls")
  let unknowns ← store.loadResolutionEvidence
  let result ← resolveUnknown store.progress.status unknowns store.progress.resultUnknownResolutions value
    store.creation.policy
  require (store.progress.cancelRequested ≠ none → result.status = .canceled → result.unresolvedCount = 0)
    (.conflict "Resolve remaining unknown calls before cancellation completes")
  require (store.creation.createdAt ≤ value.resolvedAt) (.invalid "Resolution precedes Run creation")
  let saved ← store.saveCheckpoint expectedVersion none
  pure { saved with
    progress := { store.progress with
      status := result.status
      unresolvedResultUnknownCount := result.unresolvedCount
      resultUnknownResolutions := result.resolutions
      transitions := if result.status = store.progress.status then store.progress.transitions
        else store.progress.transitions ++
          [{ source := some store.progress.status, target := result.status
             cause := if result.status = .canceled then .resultUnknownRunCanceled else .manualRecoveryApproved
             actor := value.actor, time := value.resolvedAt, evidenceRefs := [value.executionId] }]
      canceledAt := if result.status = .canceled then some value.resolvedAt else store.progress.canceledAt } }

/-- The block that a contract recovery lifts: the last transition of the Run. -/
def contractBlock (value : ContractRecovery) : Except Rejection Transition := do
  let block ← demand store.progress.transitions.getLast?
    (.invalid "Only the current semantic contract block can be recovered")
  require (store.progress.status = .blocked ∧ block.cause = .semanticRecoveryNotAllowed ∧
      block.evidenceRefs = [value.executionId] ∧ block.time ≤ value.resolvedAt)
    (.invalid "Only the current semantic contract block can be recovered")
  pure block

/-- Authorize one repetition of a judge call with a broken contract. -/
def authorizeContractRecovery (expectedVersion : Nat) (expectedReleaseFingerprint : String)
    (value : ContractRecovery) (confirm : Bool) : Except Rejection Store := do
  require (confirm = true) (.invalid "Explicit policy exception confirmation required")
  store.requireIdle expectedVersion
  require (store.creation.releaseFingerprint = expectedReleaseFingerprint)
    (.conflict "Frozen release differs from operator plan")
  let block ← store.contractBlock value
  let unknowns ← store.loadResolutionEvidence
  require (unknowns = [] ∨ unknowns.length = store.progress.resultUnknownResolutions.length)
    (.invalid "Unresolved calls cannot be retried as contract failures")
  let values := store.progress.semanticContractRecoveries ++ [value]
  let semantics ← store.semantics.mapM decodeSemanticCompletion
  let _ ← validateRecoveries values semantics store.creation.policy
  let target ← demand (lookup (·.executionId) semantics value.executionId) (.invalid "StopIteration")
  let evidenceAt := block.evidenceAt.getD block.time
  require (target.finishedAt.same evidenceAt ∧ evidenceAt ≤ block.time)
    (.invalid "Block transition differs from failed execution")
  require ((∀ s ∈ semantics, ¬ (s.candidateId = target.candidateId ∧ target.executionOrdinal < s.executionOrdinal)) ∧
      semantics.length < store.creation.policy.semanticPerRun)
    (.invalid "Already retried execution or exhausted Run budget")
  let slots ← projectSlots store.creation.slots store.generations store.dispatches store.semantics
    store.progress.resultUnknownResolutions values store.creation.policy
  let preflight ← demand store.progress.preflight (.invalid "preflight")
  let action ← nextAction .collecting preflight.status preflight.caseId slots store.creation.policy none 0
  require (action.kind = .semantic ∧ action.candidateId = value.candidateId ∧
      action.executionOrdinal = target.executionOrdinal + 1 ∧ action.cause = .semanticContractRecoveryApproved)
    (.invalid "Recovery would not resume the exact failed semantic execution")
  let saved ← store.saveCheckpoint expectedVersion none
  pure { saved with
    progress := { store.progress with
      status := .collecting
      semanticContractRecoveries := values
      transitions := store.progress.transitions ++
        [{ source := some .blocked, target := .collecting, cause := .semanticContractRecoveryApproved
           actor := value.actor, time := value.resolvedAt, evidenceRefs := [value.executionId] }] } }

end Store

/-! Cancellation. -/

private def operatorActor (actor : String) : Bool :=
  match actor.toList.take 5, actor.toList.drop 5 with
  | start, first :: rest =>
      start == "user:".toList && '1' ≤ first && first ≤ '9' && rest.all Char.isDigit
  | _, [] => false

structure CancellationDecision where
  actor : String
  reason : String
  discard : Bool
  canceledAt : DateTime
  valid : operatorActor actor = true ∧ validReason reason = true ∧ strip reason = reason
deriving DecidableEq

def CancellationDecision.make (actor reason : String) (discard : Bool) (canceledAt : DateTime) :
    Except Rejection CancellationDecision :=
  if h : operatorActor actor = true ∧ validReason reason = true ∧ strip reason = reason then
    pure ⟨actor, reason, discard, canceledAt, h⟩
  else throw (.invalid "Cancellation requires an operator, reason, decision and time")

theorem CancellationDecision.make_ok {actor reason : String} {discard : Bool} {canceledAt : DateTime}
    {decision : CancellationDecision} (h : make actor reason discard canceledAt = .ok decision) :
    decision.actor = actor ∧ decision.reason = reason ∧ decision.discard = discard ∧
    decision.canceledAt = canceledAt := by
  unfold make at h
  split at h
  · rw [pure_ok] at h
    subst h
    exact ⟨rfl, rfl, rfl, rfl⟩
  · cases h

/-- Whether the Run can be canceled now, and under which cause. -/
def CancellationDecision.cause (decision : CancellationDecision) (status : RunStatus) (unresolved : Nat)
    (checkpoint : Option ExecutionCheckpoint) : Except Rejection Cause := do
  require ((status = .requested ∨ status = .collecting ∨ status = .blocked ∨ status = .awaitingReview) ∧
      unresolved = 0 ∧ (decision.discard = true ↔ status = .awaitingReview))
    (.conflict "Run cannot be canceled; resolve unknown calls first")
  require (∀ cp ∈ checkpoint, cp.phase = .prepared ∧ status = .collecting ∧ cp.claimedAt ≤ decision.canceledAt)
    (.conflict "Dispatched execution must finish or recover before cancellation")
  pure (if decision.discard then .operatorDiscarded else .operatorCanceled)

/-- The prepared checkpoint is still the planned action. -/
def checkpointPlanned (cp : ExecutionCheckpoint) (planned : NextAction) : Prop :=
  planned.kind = cp.kind.action ∧ cp.caseId = planned.caseId ∧ cp.slotOrdinal = planned.slotOrdinal ∧
    cp.candidateId = planned.candidateId ∧ cp.executionOrdinal = planned.executionOrdinal

instance (cp : ExecutionCheckpoint) (planned : NextAction) : Decidable (checkpointPlanned cp planned) :=
  inferInstanceAs (Decidable (_ ∧ _))

/-- The transition of a terminal cancellation. -/
def cancellationTransition (record : CancellationRecord) : Transition where
  source := some record.sourceStatus
  target := .canceled
  cause := if record.discard then .operatorDiscarded else .operatorCanceled
  actor := record.actor
  reason := some record.reason
  time := record.canceledAt
  evidenceRefs := if record.executionId = "" then [] else [record.executionId]

/-- What is known about the cancellation of a Run. -/
inductive CancellationAudit
  | unrequested
  | requested (intent : CancelRequest)
  | canceled (record : CancellationRecord)
deriving DecidableEq

namespace Store

variable (store : Store)

def checkPreparedPlan (cp : ExecutionCheckpoint) : Except Rejection Unit := do
  let slots ← projectSlots store.creation.slots store.generations store.dispatches store.semantics
    store.progress.resultUnknownResolutions store.progress.semanticContractRecoveries store.creation.policy
  let planned ← nextAction store.progress.status ((store.progress.preflight.map (·.status)).getD .pending)
    ((store.progress.preflight.map (·.caseId)).getD store.creation.preflightCaseId) slots store.creation.policy
    none 0
  require (checkpointPlanned cp planned) (.conflict "Prepared checkpoint differs from frozen execution plan")

/-- The audited record of a terminal cancellation, derived from the Run and the
checkpoint it gives up. -/
def cancellationRecord (checkpoint : Option ExecutionCheckpoint) (decision : CancellationDecision) (now : DateTime) :
    Except Rejection CancellationRecord := do
  require (store.progress.cancellation = none ∧ store.progress.canceledAt = none)
    (.conflict "Cancellation requires current uncanceled progress")
  let _ ← decision.cause store.progress.status store.progress.unresolvedResultUnknownCount checkpoint
  let _ ← store.loadResolutionEvidence
  require (∀ time ∈ store.creation.createdAt :: store.progress.transitions.map (fun t => t.time) ++
      store.generations.map (fun r => r.evidence.finishedAt) ++ store.semantics.map (fun r => r.evidence.finishedAt) ++
      store.progress.humanReviews.map (fun r => r.reviewedAt) ++
      store.progress.reviewCorrections.map (fun c => c.review.reviewedAt),
      time ≤ decision.canceledAt)
    (.invalid "Cancellation cannot precede existing evidence")
  require (store.progress.status = .requested → store.dispatches = [])
    (.conflict "Requested Run cannot own dispatched work")
  checkpoint.forM store.checkPreparedPlan
  let _ ← store.readFinalization now
  pure ⟨store.version, store.version + 1, store.progress.status, store.creation.releaseFingerprint, decision.actor,
    decision.reason, decision.discard, decision.canceledAt, (checkpoint.map (·.executionId)).getD "",
    (checkpoint.map (·.invocationId)).getD ""⟩

/-- The claims that keep a candidate Run working. -/
def cancelClaims : Except Rejection (List SlotClaim) :=
  if store.creation.mode = .candidateV2 then store.activeClaims else pure []

/-- Ask running work to drain; no new call is dispatched from now on. -/
def requestCancellation (active : List SlotClaim) (expectedVersion : Nat) (decision : CancellationDecision) :
    Except Rejection Store := do
  require ((store.progress.status = .collecting ∨ store.progress.status = .blocked) ∧ decision.discard = false)
    (.conflict "Only running work can request cancellation drain")
  require (store.progress.cancelRequested = none) (.conflict "Cancellation already requested")
  require (∀ time ∈ store.progress.transitions.map (fun t => t.time) ++
      active.map (fun c => c.checkpoint.claimedAt) ++ store.checkpoint.toList.map (fun cp => cp.claimedAt),
      time ≤ decision.canceledAt)
    (.invalid "Cancellation cannot precede existing work")
  let saved ← store.saveCheckpoint expectedVersion store.checkpoint
  pure { saved with
    progress := { store.progress with
      cancelRequested := some ⟨expectedVersion, expectedVersion + 1, decision.actor, decision.reason,
        decision.canceledAt⟩ } }

/-- End an idle Run at once. -/
def endCanceled (expectedVersion : Nat) (decision : CancellationDecision) (now : DateTime) : Except Rejection Store := do
  let record ← store.cancellationRecord store.checkpoint decision now
  let saved ← store.saveCheckpoint expectedVersion none
  pure { saved with
    progress := { store.progress with
      status := .canceled
      canceledAt := some record.canceledAt
      cancellation := some record
      canceledCheckpoint := store.checkpoint
      transitions := store.progress.transitions ++ [cancellationTransition record] } }

/-- Request the drain of running work, or end the Run at once. -/
def cancel (expectedVersion : Nat) (decision : CancellationDecision) (confirm : Bool) (now : DateTime) :
    Except Rejection Store := do
  require (confirm = true ∧ 0 < expectedVersion ∧ expectedVersion < 2 ^ 63 - 1)
    (.invalid "Explicit version and confirmation required")
  require (store.version = expectedVersion) (.conflict "Cancellation version changed")
  let active ← store.cancelClaims
  if active ≠ [] ∨ (∃ cp ∈ store.checkpoint, cp.phase = .dispatching) ∨
      store.progress.unresolvedResultUnknownCount ≠ 0 then
    store.requestCancellation active expectedVersion decision
  else store.endCanceled expectedVersion decision now

/-- Finish a requested cancellation once nothing works any more and every unknown
call is resolved; before that there is nothing to do. -/
def finishCancellation (time now : DateTime) : Except Rejection Store := do
  match store.progress.cancelRequested with
  | none => pure store
  | some intent => do
      if store.progress.status = .canceled ∨ store.checkpoint ≠ none then pure store
      else
      let active ← store.activeClaims
      if active ≠ [] ∨ store.progress.unresolvedResultUnknownCount ≠ 0 then pure store
      else
        let decision ← CancellationDecision.make intent.actor intent.reason false
          (DateTime.latest time [intent.requestedAt])
        store.cancel store.version decision true now

/-! The audit of a cancellation. -/

/-- The Run as it was before its cancellation. -/
def uncanceled (record : CancellationRecord) : Store :=
  { store with
    version := record.sourceVersion
    progress := { store.progress with
      status := record.sourceStatus
      transitions := store.progress.transitions.dropLast
      cancellation := none
      canceledCheckpoint := none
      canceledAt := none } }

def checkCancelRequest (intent : CancelRequest) : Except Rejection Unit := do
  require (1 ≤ intent.sourceVersion ∧ intent.version = intent.sourceVersion + 1 ∧ intent.version ≤ store.version)
    (.invalid "Cancellation request audit requires reconciliation")
  let _ ← CancellationDecision.make intent.actor intent.reason false intent.requestedAt
  pure ()

/-- The audited cancellation of a Run, with the Run it was decided about. -/
def readCancellation (now : DateTime) : Except Rejection (CancellationAudit × Store) := do
  store.progress.cancelRequested.forM store.checkCancelRequest
  match store.progress.cancellation with
  | none => do
      require (store.progress.canceledCheckpoint = none) (.invalid "Canceled preparation requires its original audit")
      pure ((store.progress.cancelRequested.map .requested).getD .unrequested, store)
  | some record => do
      require (store.progress.status = .canceled ∧ store.checkpoint = none ∧ record.sourceVersion + 1 = store.version ∧
          1 ≤ record.sourceVersion ∧ record.version = store.version ∧
          store.progress.canceledAt = some record.canceledAt ∧
          store.progress.transitions.getLast? = some (cancellationTransition record))
        (.invalid "Cancellation audit requires reconciliation")
      let decision ← CancellationDecision.make record.actor record.reason record.discard record.canceledAt
      let expected ← (store.uncanceled record).cancellationRecord store.progress.canceledCheckpoint decision now
      require (record = expected) (.invalid "Cancellation differs from its source evidence")
      pure (.canceled record, store.uncanceled record)

/-! Expired ownership. -/

end Store

/-- The stage under which a call of the given kind fails. -/
def ExecutionKind.stage : ExecutionKind → Stage
  | .generation => .generationExecution
  | .semantic => .semanticEvaluation

/-- The interrupted outcome of a dispatched generation. -/
def interruptedGeneration (cp : ExecutionCheckpoint) (time : DateTime) : Except Rejection GenerationCompletion := do
  let started ← demand cp.dispatchStartedAt (.invalid "Original dispatched checkpoint required")
  let failure ← interruptedFailure cp.kind.stage cp.executionId cp.invocationId
  GenerationCompletion.make
    { executionId := cp.executionId, caseId := cp.caseId, slotOrdinal := cp.slotOrdinal
      executionOrdinal := cp.executionOrdinal, invocationId := cp.invocationId, status := .resultUnknown
      startedAt := started, finishedAt := time, providerCallCount := 1, failure := some failure }

/-- The interrupted outcome of a dispatched judge call. -/
def interruptedSemantic (cp : ExecutionCheckpoint) (time : DateTime) (candidateFingerprint : String) :
    Except Rejection SemanticCompletion := do
  let started ← demand cp.dispatchStartedAt (.invalid "Original dispatched checkpoint required")
  let failure ← interruptedFailure cp.kind.stage cp.executionId cp.invocationId
  SemanticCompletion.make
    { executionId := cp.executionId, candidateId := cp.candidateId
      candidateOutputFingerprint := candidateFingerprint, executionOrdinal := cp.executionOrdinal
      invocationId := cp.invocationId, status := .resultUnknown, startedAt := started, finishedAt := time
      providerCallCount := 1, failure := some failure }

namespace Store

variable (store : Store)

/-- The output fingerprint of the candidate a judge call belongs to. -/
def candidateFingerprint (candidateId : String) : Except Rejection String := do
  let row ← demand (lookup (·.candidateId) store.generations (some candidateId)) (.integrity "NoResultFound")
  let generated ← decodeCompletion row
  pure generated.normalizedFingerprint

/-- Settle the exact expired serial checkpoint: release what was only prepared,
record what was dispatched as unknown. -/
def recoverExpired (expectedVersion : Nat) (invocationId : String) (observedExpiry time : DateTime)
    (actor : String) : Except Rejection Store := do
  require (validId actor = true) (.invalid "Recovery actor required")
  require (store.version = expectedVersion) (.conflict "Recovery version changed")
  let cp ← demand store.checkpoint (.conflict "Exact expired checkpoint required")
  require (cp.invocationId = invocationId ∧ cp.leaseExpiresAt.same observedExpiry ∧ observedExpiry ≤ time)
    (.conflict "Exact expired checkpoint required")
  require (store.progress.status = .collecting) (.conflict "Collecting Run in organization required")
  let settled ← match cp.phase, cp.kind with
    | .prepared, _ => do
        require (cp.executionId ∉ store.dispatches.map (·.executionId))
          (.invalid "Prepared checkpoint has dispatch evidence")
        store.saveCheckpoint expectedVersion none
    | .dispatching, .generation => do
        let completion ← interruptedGeneration cp time
        store.completeSerialGeneration expectedVersion cp.owner completion "" []
    | .dispatching, .semantic => do
        let fingerprint ← store.candidateFingerprint cp.candidateId
        let completion ← interruptedSemantic cp time fingerprint
        store.completeSerialSemantic expectedVersion cp.owner completion
  pure { settled with
    progress := { settled.progress with
      recoveries := settled.progress.recoveries ++
        [⟨actor, cp.phase, cp.invocationId, cp.executionId, cp.owner, observedExpiry, time, expectedVersion,
          expectedVersion + 1⟩] } }

/-- Settle an exact expired claim that left no response. -/
def expireCandidate (claim : SlotClaim) (time : DateTime) : Except Rejection Store := do
  let version ← store.lockRun
  let _ ← store.activeClaims
  let current ← store.requireClaim claim
  let cp := current.checkpoint
  require (cp.leaseExpiresAt.same claim.checkpoint.leaseExpiresAt ∧ cp.leaseExpiresAt ≤ time)
    (.conflict "Exact expired candidate required")
  match cp.phase, cp.kind with
  | .prepared, _ => do
      require (cp.executionId ∉ store.dispatches.map (·.executionId))
        (.conflict "Prepared candidate has dispatch evidence")
      let released ← store.releaseClaim current
      released.saveCheckpoint version none
  | .dispatching, .generation => do
      let completion ← interruptedGeneration cp time
      store.completeClaimedGeneration current cp.owner completion "" []
  | .dispatching, .semantic => do
      let fingerprint ← store.candidateFingerprint cp.candidateId
      let completion ← interruptedSemantic cp time fingerprint
      store.completeClaimedSemantic current cp.owner completion

end Store

end QsAi
