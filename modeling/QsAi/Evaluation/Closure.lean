import Mathlib.Data.List.Sort
import QsAi.Evaluation.Recovery
import QsAi.Evaluation.Semantic

/-! The closed inventory. Before any release gate is computed, the whole history
of a Run is derived again from its records: the chain of transitions and the
evidence each refers to, the audit of every manual decision, the budgets and
the legality of every replacement. -/
namespace QsAi

open Guarded Keyed

/-- Frozen preflight evidence; passing means the rejection was proven without a
provider call. -/
structure PreflightEvidence where
  caseId : String
  status : PreflightStatus
  evaluatedAt : DateTime
  rejectionReason : String
  assertions : List AssertionReceipt
  identity : validId caseId = true ∧ validCode rejectionReason = true
  terminal : status ≠ .pending
  inventory : 1 ≤ assertions.length ∧ assertions.length ≤ 16
  passed : status = .passed → ∀ type ∈ ["provider_call_count", "rejection_reason"],
    ∃ a ∈ assertions, a.type = type ∧ a.status = .passed
deriving DecidableEq

structure ClosureTransition where
  source : Option RunStatus
  target : RunStatus
  actor : String
  cause : Cause
  time : DateTime
  evidenceRefs : List String := []
  evidenceAt : Option DateTime := none
deriving DecidableEq

/-- The closing evidence of a Run as the gates read it. -/
structure ClosedInventory where
  createdAt : DateTime
  requestedBy : String
  transitions : List ClosureTransition
  preflight : PreflightEvidence
  slots : List SlotProgress
  generations : List GenerationCompletion
  semantics : List SemanticCompletion
  resolutions : List ResultUnknownResolution
  policy : ExecutionPolicy
  contractRecoveries : List ContractRecovery

namespace ClosedInventory

variable (inventory : ClosedInventory)

def executions : List Completion :=
  inventory.generations.map .generation ++ inventory.semantics.map .semantic

def unknowns : List UnknownExecution :=
  (inventory.executions.filter (·.status = .resultUnknown)).map fun e =>
    ⟨e.executionId, e.kind, e.executionOrdinal, e.finishedAt⟩

/-- The Run starts with the audited request. -/
def checkCreation : Except Rejection Unit := do
  require (validId inventory.requestedBy = true) (.invalid "Valid creator and creation time required")
  require (3 ≤ inventory.transitions.length ∧ ∃ first ∈ inventory.transitions.head?,
      first.source = none ∧ first.target = .requested ∧ first.actor = inventory.requestedBy ∧
      first.cause = .evaluationRequested ∧ first.time.same inventory.createdAt ∧
      first.evidenceRefs = [] ∧ first.evidenceAt = none)
    (.invalid "Creation audit differs from initial transition")

/-- The transitions a closed Run may have taken, with their cause. -/
def allowedTransition (source target : RunStatus) (cause : Cause) : Bool :=
  [(RunStatus.requested, RunStatus.collecting, Cause.evaluationStarted),
    (.collecting, .blocked, .resultUnknownRequiresReview),
    (.blocked, .collecting, .manualRecoveryApproved),
    (.collecting, .awaitingReview, .candidateEvidenceComplete),
    (.collecting, .blocked, .semanticRecoveryNotAllowed),
    (.blocked, .collecting, .semanticContractRecoveryApproved)].contains (source, target, cause)

/-- A block refers to the execution that caused it. -/
def BlockedBy (t : ClosureTransition) (value : Completion) : Prop :=
  (if t.cause = .resultUnknownRequiresReview then value.status = .resultUnknown
    else value.kind = .semantic ∧ value.executionId ∈ inventory.contractRecoveries.map (·.executionId)) ∧
  value.finishedAt.same (t.evidenceAt.getD t.time)

instance (t : ClosureTransition) (value : Completion) : Decidable (inventory.BlockedBy t value) :=
  inferInstanceAs (Decidable (_ ∧ _))

def checkBlock (t : ClosureTransition) : Except Rejection Unit := do
  require (t.evidenceRefs.length = 1) (.invalid "Unknown transition requires its execution reference")
  let value ← demand (t.evidenceRefs.head?.bind (lookup (·.executionId) inventory.executions))
    (.invalid "Unknown transition differs from execution")
  require (inventory.BlockedBy t value) (.invalid "Unknown transition differs from execution")

/-- A resumption refers to the manual decision that allowed it. -/
def checkResume (t : ClosureTransition) : Except Rejection Unit := do
  require (t.evidenceRefs.length = 1) (.invalid "Recovery transition requires its resolution reference")
  if t.cause = .semanticContractRecoveryApproved then do
    let decision ← demand (t.evidenceRefs.head?.bind (lookup (·.executionId) inventory.contractRecoveries))
      (.invalid "Recovery transition differs from contract authorization")
    require (decision.actor = t.actor ∧ decision.resolvedAt.same t.time)
      (.invalid "Recovery transition differs from contract authorization")
  else do
    let decision ← demand (t.evidenceRefs.head?.bind (dict (·.executionId) inventory.resolutions))
      (.invalid "Recovery transition differs from manual authorization")
    require (decision.actor = t.actor ∧ decision.resolvedAt.same t.time ∧
        decision.decision = .authorizeReplacement)
      (.invalid "Recovery transition differs from manual authorization")

/-- The closure refers to the accepted judge call that completed the evidence. -/
def checkClosure (t : ClosureTransition) : Except Rejection Unit := do
  require (t.evidenceRefs.length = 1) (.invalid "Closure requires its final semantic execution")
  let value ← demand (t.evidenceRefs.head?.bind (lookup (·.executionId) inventory.executions))
    (.invalid "Closure differs from accepted semantic evidence")
  require (value.kind = .semantic ∧ value.status = .succeeded ∧ value.finishedAt.same t.time)
    (.invalid "Closure differs from accepted semantic evidence")

def checkReference (t : ClosureTransition) : Except Rejection Unit :=
  if t.target = .blocked then inventory.checkBlock t
  else if t.source = some .blocked then inventory.checkResume t
  else if t.target = .awaitingReview then inventory.checkClosure t
  else pure ()

/-- One transition after another: contiguous, in time, allowed and referenced.
The result is the last state and its time. -/
def checkChain : List ClosureTransition → RunStatus → DateTime → Except Rejection (RunStatus × DateTime)
  | [], state, previous => pure (state, previous)
  | t :: rest, state, previous => do
      require (∀ time ∈ t.evidenceAt, t.cause = .semanticRecoveryNotAllowed ∧ time ≤ t.time)
        (.invalid "Invalid original block evidence time")
      require (previous ≤ t.time ∧ t.source = some state ∧ allowedTransition state t.target t.cause = true ∧
          validId t.actor = true)
        (.invalid "Invalid closed Run transition chain")
      inventory.checkReference t
      checkChain rest t.target t.time

/-- Every execution lies between the preflight and the closure. -/
def checkInterval (closedAt : DateTime) : Except Rejection Unit :=
  require (∀ e ∈ inventory.executions,
      inventory.preflight.evaluatedAt ≤ e.startedAt ∧ e.startedAt ≤ e.finishedAt ∧ e.finishedAt ≤ closedAt)
    (.invalid "Execution is outside the preflight and closure interval")

/-- The references of all transitions with the given cause. -/
def references (cause : Cause) : List String :=
  (inventory.transitions.filter (·.cause = cause)).flatMap (·.evidenceRefs)

/-- Each of the ids is referenced once, and nothing else is. -/
def audited (cause : Cause) (ids : List String) : Prop :=
  (inventory.references cause).length = ids.dedup.length ∧
    (inventory.references cause).toFinset = ids.toFinset

instance (cause : Cause) (ids : List String) : Decidable (inventory.audited cause ids) :=
  inferInstanceAs (Decidable (_ ∧ _))

/-- Every unknown execution has its block and its recovery in the audit. -/
def checkUnknownAudit : Except Rejection Unit :=
  require (∀ cause ∈ [Cause.resultUnknownRequiresReview, .manualRecoveryApproved],
      inventory.audited cause (inventory.unknowns.map (·.executionId)))
    (.invalid "Unknown execution history differs from audited transitions")

/-- Every contract exception has its block and its recovery in the audit. -/
def checkContractAudit : Except Rejection Unit :=
  require (∀ cause ∈ [Cause.semanticRecoveryNotAllowed, .semanticContractRecoveryApproved],
      inventory.audited cause (inventory.contractRecoveries.map (·.executionId)))
    (.invalid "Contract recovery differs from audited transitions")

/-- Every unknown execution was authorized for replacement before the closure. -/
def checkResolutions (closedAt : DateTime) :
    List ResultUnknownResolution → List ResultUnknownResolution → Except Rejection Unit
  | prior, [] => require (prior.length = inventory.unknowns.length)
      (.invalid "Closed Run still contains unresolved calls")
  | prior, value :: rest => do
      let result ← resolveUnknown .blocked inventory.unknowns prior value inventory.policy
      require (value.decision = .authorizeReplacement ∧ value.resolvedAt ≤ closedAt)
        (.invalid "Closed Run has invalid unknown resolution")
      checkResolutions closedAt result.resolutions rest

/-- A closed history ends in success within its budget, and every earlier
execution was replaced by permission. -/
def checkHistory (history : List ExecutionResult) (limit : Nat) (recovery : ClassifiedFailure → Bool) :
    Except Rejection Unit := do
  require (1 ≤ history.length ∧ history.length ≤ limit ∧
      ∃ last ∈ history.getLast?, last.status = .succeeded)
    (.invalid "Closed execution history or budget is invalid")
  require (∀ item ∈ history.dropLast, item.replacementAuthorized = true ∨
      item.contractRecoveryAuthorized = true ∨ (item.status = .failed ∧ item.failure.any recovery = true))
    (.invalid "Execution recovery was not allowed by frozen policy")

/-- A replacement starts after the execution and the decision it follows. -/
def checkReplacement (first second : Completion) : Except Rejection Unit := do
  require (first.finishedAt ≤ second.startedAt) (.invalid "Replacement overlaps its previous execution")
  require (∀ decision ∈ lookup ContractRecovery.executionId inventory.contractRecoveries first.executionId,
      decision.resolvedAt ≤ second.startedAt)
    (.invalid "Retry precedes contract recovery authorization")
  if first.status = .resultUnknown then do
    let decision ← demand (dict (·.executionId) inventory.resolutions first.executionId)
      (.invalid "Replacement precedes manual authorization")
    require (decision.resolvedAt ≤ second.startedAt) (.invalid "Replacement precedes manual authorization")
  else pure ()

def checkReplacements : List Completion → Except Rejection Unit
  | first :: second :: rest => do
      inventory.checkReplacement first second
      checkReplacements (second :: rest)
  | _ => pure ()

def byOrdinal (executions : List Completion) : List Completion :=
  executions.insertionSort fun a b => a.executionOrdinal ≤ b.executionOrdinal

def generationsOf (slot : SlotProgress) : List Completion :=
  (inventory.generations.filter fun g => (g.caseId, g.slotOrdinal) = slot.identity).map .generation

def semanticsOf (candidate : CandidateProgress) : List Completion :=
  (inventory.semantics.filter fun s => s.candidateId = candidate.candidateId).map .semantic

def checkSlot (slot : SlotProgress) : Except Rejection Unit := do
  let candidate ← demand slot.candidate (.invalid "Closed slot requires a candidate")
  checkHistory slot.generation inventory.policy.generationPerSlot
    inventory.policy.allowsAutomaticGenerationRecovery
  checkHistory candidate.semantic inventory.policy.semanticPerCandidate
    inventory.policy.allowsAutomaticSemanticRecovery
  inventory.checkReplacements (byOrdinal (inventory.generationsOf slot))
  inventory.checkReplacements (byOrdinal (inventory.semanticsOf candidate))

def checkComplete : Except Rejection Unit := do
  let action ← nextAction .collecting inventory.preflight.status inventory.preflight.caseId inventory.slots
    inventory.policy none 0
  require (action.kind = .awaitReview) (.invalid "Candidate evidence is not complete")

/-- The proven closure time of the inventory. -/
def validateClosedInventory : Except Rejection DateTime := do
  inventory.checkCreation
  require (UniqueOn (·.executionId) inventory.executions)
    (.invalid "Execution identities must be unique across stages")
  let _ ← validateRecoveries inventory.contractRecoveries inventory.semantics inventory.policy
  let (state, previous) ← inventory.checkChain inventory.transitions.tail .requested inventory.createdAt
  require (state = .awaitingReview ∧
      (∃ started ∈ inventory.transitions[1]?, started.time ≤ inventory.preflight.evaluatedAt) ∧
      inventory.preflight.evaluatedAt ≤ previous)
    (.invalid "Complete preflight and unique closure required")
  require (∀ slot ∈ inventory.slots, slot.caseId ≠ inventory.preflight.caseId)
    (.invalid "Preflight overlaps a generation case")
  inventory.checkInterval previous
  inventory.checkUnknownAudit
  inventory.checkContractAudit
  inventory.checkResolutions previous [] inventory.resolutions
  require (inventory.generations.length ≤ inventory.policy.generationPerRun ∧
      inventory.semantics.length ≤ inventory.policy.semanticPerRun)
    (.invalid "Closed Run exceeded its execution budget")
  inventory.slots.forM inventory.checkSlot
  inventory.checkComplete
  pure previous

end ClosedInventory

end QsAi
