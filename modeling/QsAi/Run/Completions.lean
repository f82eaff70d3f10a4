import QsAi.Run.Claims

/-! Acceptance of terminal evidence. A completion is checked against its
ownership, its dispatch and the earlier evidence of its target, then stored;
serial Runs move their status with it, candidate Runs when the last claim
drains. -/
namespace QsAi

open Guarded Keyed Numbered

/-! Progress after one completion. -/

/-- The cause that a failed call leaves behind, if no automatic retry is left. -/
def failureCause (kind : ExecutionKind) (policy : ExecutionPolicy) (ordinal : Nat)
    (failure : Option ClassifiedFailure) : Option Cause :=
  if policy.limit kind ≤ ordinal then some kind.budgetExhausted
  else if failure.any (policy.allowsRecovery kind) then none
  else some kind.recoveryNotAllowed

def completionCause (policy : ExecutionPolicy) (completion : Completion) : Option Cause :=
  match completion.status with
  | .resultUnknown => some .resultUnknownRequiresReview
  | .failed => failureCause completion.kind policy completion.executionOrdinal completion.failure
  | .succeeded => none

/-- Terminal counters, and the block of a serial Run. Both stages share it. -/
def completionProgress (progress : Progress) (completion : Completion) (policy : ExecutionPolicy) (owner : String)
    (candidateClaim : Bool) : Progress :=
  let counted := if completion.status = .resultUnknown then
      { progress with unresolvedResultUnknownCount := progress.unresolvedResultUnknownCount + 1 }
    else progress
  match completionCause policy completion with
  | none => counted
  | some cause =>
      if candidateClaim then counted
      else
        { counted with
          status := .blocked
          transitions := counted.transitions ++
            [{ source := some .collecting, target := .blocked, cause, actor := strip owner
               time := completion.finishedAt, evidenceRefs := [completion.executionId] }] }

def generationCompletionProgress (progress : Progress) (completion : GenerationCompletion)
    (policy : ExecutionPolicy) (owner : String) (candidateClaim : Bool) : Progress :=
  completionProgress progress (.generation completion) policy owner candidateClaim

def semanticCompletionProgress (progress : Progress) (completion : SemanticCompletion)
    (policy : ExecutionPolicy) (owner : String) (candidateClaim : Bool) : Progress :=
  completionProgress progress (.semantic completion) policy owner candidateClaim

/-! Candidate aggregation. -/

/-- The target status of a drained Run and its cause. -/
def candidateCompletionTarget (progress : Progress) (active : List SlotClaim) (plan : ParallelPlan) :
    Option (RunStatus × Cause) :=
  if active ≠ [] then none
  else if progress.unresolvedResultUnknownCount ≠ 0 then some (.blocked, .resultUnknownRequiresReview)
  else if progress.cancelRequested ≠ none then none
  else if plan.complete then some (.awaitingReview, .candidateEvidenceComplete)
  else
    match plan.blocked, plan.ready with
    | action :: _, [] => some (.blocked, action.cause)
    | _, _ => none

/-- One terminal row of either stage, as block evidence is selected from it. -/
structure Evidence where
  executionId : String
  status : CompletionStatus
  finishedAt : DateTime
deriving DecidableEq

def GenerationRow.asEvidence (row : GenerationRow) : Evidence :=
  ⟨row.executionId, row.evidence.status, row.evidence.finishedAt⟩

def SemanticRow.asEvidence (row : SemanticRow) : Evidence :=
  ⟨row.executionId, row.evidence.status, row.evidence.finishedAt⟩

/-- The first row whose stored finish text is smallest. -/
def earliest : List Evidence → Option Evidence
  | [] => none
  | row :: rest =>
      match earliest rest with
      | none => some row
      | some other => if other.finishedAt.isoformat < row.finishedAt.isoformat then some other else some row

/-- The unknown executions that no resolution names. -/
def unresolvedEvidence (generations : List GenerationRow) (semantics : List SemanticRow) (progress : Progress) :
    List Evidence :=
  (generations.map (·.asEvidence) ++ semantics.map (·.asEvidence)).filter fun row =>
    row.executionId ∉ progress.resultUnknownResolutions.map (·.executionId) ∧ row.status = .resultUnknown

/-- The rows of the execution that a blocked slot stopped at. -/
def stoppedEvidence (generations : List GenerationRow) (semantics : List SemanticRow) (action : NextAction)
    (semantic : Bool) : List Evidence :=
  if semantic then
    (semantics.filter fun row =>
      row.executionOrdinal + 1 = action.executionOrdinal ∧ row.candidateId = action.candidateId).map (·.asEvidence)
  else
    (generations.filter fun row =>
      row.executionOrdinal + 1 = action.executionOrdinal ∧ row.slot = action.slot).map (·.asEvidence)

/-- The first blocked action, when the cause is its cause. -/
def blockedAction (cause : Cause) (blocked : List NextAction) : Except Rejection NextAction := do
  let action ← demand blocked.head? (.conflict "Blocked candidate differs from projected cause")
  require (action.cause = cause) (.conflict "Blocked candidate differs from projected cause")
  require (cause.startsWith "semantic_" = true ∨ cause.startsWith "generation_" = true)
    (.conflict "Unsupported candidate block cause")
  pure action

/-- `one_or_none`: no row, the only row, or a refusal. -/
def oneOrNone (rows : List Evidence) : Except Rejection (Option Evidence) :=
  match rows with
  | [] => pure none
  | [row] => pure (some row)
  | _ => throw (.integrity "MultipleResultsFound")

/-- Bind a block to the terminal evidence that caused it, from the stored rows. -/
def blockedExecution (generations : List GenerationRow) (semantics : List SemanticRow) (progress : Progress)
    (cause : Cause) (blocked : List NextAction) : Except Rejection (String × DateTime) :=
  if cause = .resultUnknownRequiresReview then do
    let row ← demand (earliest (unresolvedEvidence generations semantics progress))
      (.conflict "Unresolved unknown result lacks terminal evidence")
    pure (row.executionId, row.finishedAt)
  else do
    let action ← blockedAction cause blocked
    let found ← oneOrNone (stoppedEvidence generations semantics action (cause.startsWith "semantic_"))
    let row ← demand found (.conflict "Candidate block lacks failed terminal evidence")
    require (row.status ≠ .succeeded) (.conflict "Candidate block lacks failed terminal evidence")
    pure (row.executionId, row.finishedAt)

/-- The time of the latest recorded transition. -/
def Progress.lastTransition (progress : Progress) : Option DateTime :=
  progress.transitions.getLast?.map (·.time)

/-- Record the new status of a drained Run, or keep the progress. -/
def appendTransition (progress : Progress) (target : RunStatus) (cause : Cause) (actor : String) (time : DateTime)
    (reference : String) (evidenceAt : Option DateTime) : Progress :=
  if target = progress.status then progress
  else
    { progress with
      status := target
      transitions := progress.transitions ++
        [{ source := some progress.status, target, cause, actor, time, evidenceRefs := [reference], evidenceAt }] }

/-- Aggregate rules after a completion, over the block evidence already chosen. -/
def candidateCompletionProgress (claim : SlotClaim) (progress : Progress) (actor : String) (time : DateTime)
    (active : List SlotClaim) (plan : ParallelPlan)
    (blockedEvidence : Cause → Except Rejection (String × DateTime)) : Except Rejection Progress :=
  match candidateCompletionTarget progress active plan with
  | none => pure progress
  | some (target, cause) =>
      if target = .blocked then do
        let (reference, failedAt) ← blockedEvidence cause
        let last ← demand progress.lastTransition (.invalid "list index out of range")
        if cause = .semanticRecoveryNotAllowed then
          pure (appendTransition progress target cause actor (DateTime.latest time [failedAt, last]) reference
            (some failedAt))
        else do
          require (last ≤ failedAt) (.conflict "Blocked evidence predates the current Run transition")
          pure (appendTransition progress target cause actor failedAt reference none)
      else
        pure (appendTransition progress target cause actor
          (DateTime.latest time (progress.transitions.map (·.time))) claim.checkpoint.executionId none)

/-! Acceptance. -/

/-- The candidate a successful generation proposes. -/
def generationCandidate (completion : GenerationCompletion) (candidateId : String)
    (assertions : List AssertionReceipt) : Except Rejection (Option Candidate) :=
  if completion.status = .succeeded then do
    require (validId candidateId = true ∧ assertions ≠ [])
      (.invalid "Successful generation requires candidate assertions")
    pure (some
      { id := candidateId
        generationExecutionId := completion.executionId
        normalizedOutputFingerprint := completion.normalizedFingerprint
        acceptedAt := completion.finishedAt.isoformat
        assertions
        reviewReady := false })
  else do
    require (candidateId = "" ∧ assertions = []) (.invalid "Failed generation cannot create candidate evidence")
    pure none

/-- Check the evidence against the frozen route and output schema. -/
def validateGenerationCompletion (assets : FrozenAssets) (completion : GenerationCompletion) :
    Except Rejection Unit := do
  require (∀ receipt ∈ completion.receipt, receipt.provider = assets.generationProvider ∧
    receipt.model = assets.generationModel) (.invalid "Provider receipt does not match frozen generation route")
  require (completion.status = .succeeded →
      ∃ json ∈ completion.normalizedOutput.document, assets.outputSchema json = true)
    (.invalid "Successful generation output violates frozen schema")

def generationTerminalValues (completion : GenerationCompletion) (candidate : Option Candidate) : GenerationRow :=
  ⟨completion.executionId, completion.invocationId, completion.caseId, completion.slotOrdinal,
    completion.executionOrdinal, candidate.map (·.id), candidate, completion⟩

structure SemanticAcceptance where
  generated : GenerationCompletion
  candidate : Candidate
  result : Option SemanticResult

def semanticTerminalValues (completion : SemanticCompletion) (accepted : SemanticAcceptance) : SemanticRow :=
  ⟨completion.executionId, completion.invocationId, completion.candidateId, completion.executionOrdinal,
    completion, completion.outputFingerprint, accepted.result⟩

/-- Put the decisions of the judge in the place of the pending assertions. -/
def resolveAssertions (decisions assertions : List AssertionReceipt) : Except Rejection (List AssertionReceipt) :=
  assertions.mapM fun assertion =>
    if assertion.status = .pendingSemantic then
      demand (dict (·.key) decisions assertion.key) (.invalid "KeyError")
    else pure assertion

/-- The reading of a successful judge call and the candidate it makes reviewable. -/
def acceptJudgement (assets : FrozenAssets) (completion : SemanticCompletion) (receipt : ProviderReceipt)
    (generated : GenerationCompletion) (candidate : Candidate) : Except Rejection SemanticAcceptance := do
  let inventory ← demand (assets.inventory generated.caseId) (.invalid "Generation case in frozen suite required")
  let obligations ← semanticObligations inventory candidate.assertions
  let result ← parseSemanticOutput completion.normalizedOutput assets.judge receipt completion.invocationId
    obligations
  let assertions ← resolveAssertions result.decisions candidate.assertions
  pure ⟨generated,
    { candidate with
      assertions
      semanticAssertions := some result.decisions
      reviewReady := true
      acceptedSemanticExecutionId := some completion.executionId },
    some result⟩

namespace Store

variable (store : Store)

/-- Slot, ledger, prior evidence and frozen assets of a generation. -/
def readGenerationAcceptance (cp : ExecutionCheckpoint) (owner : String) (completion : GenerationCompletion) :
    Except Rejection Unit := do
  require (completion.matchesCheckpoint cp owner) (.conflict "Completion differs from candidate ownership")
  require ((completion.caseId, completion.slotOrdinal) ∈ store.creation.slots)
    (.conflict "Completion target is not a frozen slot")
  let entry ← demand (lookup (·.invocationId) store.dispatches completion.invocationId)
    (.conflict "Matching dispatch reservation required")
  require (completion.matchesCheckpoint entry.checkpoint owner) (.conflict "Matching dispatch reservation required")
  let previous := sorted (·.executionOrdinal)
    (store.generations.filter (·.slot = (completion.caseId, completion.slotOrdinal)))
  require ((∀ row ∈ previous, row.candidateId = none) ∧
      previous.map (·.executionOrdinal) = List.range' 1 (completion.executionOrdinal - 1))
    (.conflict "Slot already accepted or earlier terminal evidence missing")
  validateGenerationCompletion store.creation.assets completion

/-- Accepted candidate, ledger, judge history and frozen assets of a judge call. -/
def readSemanticAcceptance (cp : ExecutionCheckpoint) (owner : String) (completion : SemanticCompletion) :
    Except Rejection SemanticAcceptance := do
  let row ← demand (lookup (·.candidateId) store.generations (some completion.candidateId))
    (.conflict "Accepted candidate required")
  let candidate ← demand row.candidate (.conflict "Accepted candidate required")
  let generated ← decodeCompletion row
  require (generated.status = .succeeded ∧ candidate.reviewReady = false ∧
      completion.matchesCheckpoint cp owner generated.normalizedFingerprint ∧
      cp.slot = (generated.caseId, generated.slotOrdinal))
    (.conflict "Semantic completion does not match current candidate")
  require (candidate.id = completion.candidateId ∧ candidate.generationExecutionId = generated.executionId ∧
      candidate.normalizedOutputFingerprint = generated.normalizedFingerprint)
    (.conflict "Candidate identity or output evidence mismatch")
  let entry ← demand (lookup (·.invocationId) store.dispatches completion.invocationId)
    (.conflict "Matching semantic dispatch reservation required")
  require (completion.matchesCheckpoint entry.checkpoint owner generated.normalizedFingerprint ∧
      entry.checkpoint.slot = cp.slot)
    (.conflict "Matching semantic dispatch reservation required")
  let previous := sorted (·.executionOrdinal) (store.semantics.filter (·.candidateId = completion.candidateId))
  require (previous.map (·.executionOrdinal) = List.range' 1 (completion.executionOrdinal - 1) ∧
      ∀ row ∈ previous, row.result = none)
    (.conflict "Semantic sequence already accepted or incomplete")
  require (∀ receipt ∈ completion.receipt, receipt.provider = store.creation.assets.judge.provider ∧
      receipt.model = store.creation.assets.judge.model)
    (.invalid "Semantic receipt does not match frozen route")
  if completion.status = .succeeded then do
    let receipt ← demand completion.receipt (.invalid "AssertionError")
    acceptJudgement store.creation.assets completion receipt generated candidate
  else pure ⟨generated, candidate, none⟩

/-- Ownership of a candidate completion: the exact claim in a running Run. -/
def completionOwner (claim : SlotClaim) : Except Rejection (Nat × SlotClaim) := do
  let version ← store.lockRun
  let _ ← store.activeClaims
  let current ← store.requireClaim claim
  require (store.progress.status = .collecting ∨ store.progress.status = .blocked)
    (.conflict "Run no longer accepts candidate results")
  pure (version, current)

/-- Release the claim and aggregate the Run over what is left. -/
def completeClaim (version : Nat) (claim : SlotClaim) (progress : Progress) (actor : String) (time : DateTime) :
    Except Rejection Store := do
  let released ← store.releaseClaim claim
  let active ← released.activeClaims
  let plan ← released.candidatePlan progress active 32
  let progress ← candidateCompletionProgress claim progress actor time active plan fun cause =>
    blockedExecution released.generations released.semantics progress cause plan.blocked
  let saved ← released.saveCheckpoint version none
  pure { saved with progress }

/-- The serial owner of a completion. A cancellation request may have moved the
version since the caller read it. -/
def serialVersion (expectedVersion : Nat) : Except Rejection Nat := do
  require (store.progress.status = .collecting) (.conflict "Collecting Run in organization required")
  require (store.version = expectedVersion ∨ ∃ intent ∈ store.progress.cancelRequested,
      intent.sourceVersion = expectedVersion ∧ intent.version = store.version)
    (.conflict "Run version changed outside cancellation")
  pure store.version

def loadSerialGenerationSource (expectedVersion : Nat) (owner : String) (completion : GenerationCompletion) :
    Except Rejection (Nat × ExecutionCheckpoint) := do
  let cp ← demand store.checkpoint (.conflict "Terminal evidence does not match active Run checkpoint")
  require (completion.matchesCheckpoint cp owner)
    (.conflict "Terminal evidence does not match active Run checkpoint")
  let version ← store.serialVersion expectedVersion
  pure (version, cp)

def loadSerialSemanticState (expectedVersion : Nat) : Except Rejection (Nat × ExecutionCheckpoint) := do
  let version ← store.serialVersion expectedVersion
  let cp ← demand store.checkpoint (.conflict "Semantic completion does not match current candidate")
  pure (version, cp)

/-- Accept terminal generation evidence of a claim. -/
def completeClaimedGeneration (claim : SlotClaim) (owner : String) (completion : GenerationCompletion)
    (candidateId : String) (assertions : List AssertionReceipt) : Except Rejection Store := do
  let candidate ← generationCandidate completion candidateId assertions
  let (version, current) ← store.completionOwner claim
  require (completion.matchesCheckpoint current.checkpoint owner)
    (.conflict "Completion differs from candidate ownership")
  store.readGenerationAcceptance current.checkpoint owner completion
  let inserted ← store.insertGeneration (generationTerminalValues completion candidate)
  let progress := generationCompletionProgress store.progress completion store.creation.policy owner true
  inserted.completeClaim version current progress owner completion.finishedAt

/-- Accept terminal generation evidence of the serial checkpoint. -/
def completeSerialGeneration (expectedVersion : Nat) (owner : String) (completion : GenerationCompletion)
    (candidateId : String) (assertions : List AssertionReceipt) : Except Rejection Store := do
  let candidate ← generationCandidate completion candidateId assertions
  let (version, cp) ← store.loadSerialGenerationSource expectedVersion owner completion
  store.readGenerationAcceptance cp owner completion
  let inserted ← store.insertGeneration (generationTerminalValues completion candidate)
  let saved ← inserted.saveCheckpoint version none
  pure { saved with
    progress := generationCompletionProgress store.progress completion store.creation.policy owner false }

/-- Store a judge call and, when it was accepted, the candidate it updates. -/
def storeSemantic (completion : SemanticCompletion) (accepted : SemanticAcceptance) : Except Rejection Store := do
  let inserted ← store.insertSemantic (semanticTerminalValues completion accepted)
  pure (if accepted.result.isSome then
      inserted.updateCandidate accepted.generated.executionId accepted.candidate
    else inserted)

/-- Accept terminal judge evidence of a claim. -/
def completeClaimedSemantic (claim : SlotClaim) (owner : String) (completion : SemanticCompletion) :
    Except Rejection Store := do
  let (version, current) ← store.completionOwner claim
  let accepted ← store.readSemanticAcceptance current.checkpoint owner completion
  let stored ← store.storeSemantic completion accepted
  let progress := semanticCompletionProgress store.progress completion store.creation.policy owner true
  stored.completeClaim version current progress owner completion.finishedAt

/-- The serial progress after an accepted judge call: review when it was the last. -/
def projectSemanticProgress (completion : SemanticCompletion) (accepted : SemanticAcceptance) (owner : String)
    (progress : Progress) : Except Rejection Progress :=
  if accepted.result = none ∨ progress.cancelRequested ≠ none then pure progress
  else do
    let slots ← projectSlots store.creation.slots store.generations store.dispatches store.semantics
      progress.resultUnknownResolutions progress.semanticContractRecoveries store.creation.policy
    let preflight ← demand progress.preflight (.invalid "preflight")
    let action ← nextAction progress.status preflight.status preflight.caseId slots store.creation.policy none
      progress.unresolvedResultUnknownCount
    pure (if action.kind = .awaitReview then
        { progress with
          status := .awaitingReview
          transitions := progress.transitions ++
            [{ source := some .collecting, target := .awaitingReview, actor := strip owner
               cause := .candidateEvidenceComplete, time := completion.finishedAt
               evidenceRefs := [completion.executionId] }] }
      else progress)

/-- Accept terminal judge evidence of the serial checkpoint. -/
def completeSerialSemantic (expectedVersion : Nat) (owner : String) (completion : SemanticCompletion) :
    Except Rejection Store := do
  let (version, cp) ← store.loadSerialSemanticState expectedVersion
  let accepted ← store.readSemanticAcceptance cp owner completion
  let stored ← store.storeSemantic completion accepted
  let progress ← stored.projectSemanticProgress completion accepted owner
    (semanticCompletionProgress store.progress completion store.creation.policy owner false)
  let saved ← stored.saveCheckpoint version none
  pure { saved with progress }

end Store

end QsAi
