import QsAi.Run.Projection

/-! Candidate ownership and dispatch. A claim holds one slot under the Run
coordinator; a dispatch is recorded once, inside the frozen budgets, before the
provider is called. -/
namespace QsAi

open Guarded Keyed Numbered

namespace Store

variable (store : Store)

/-- The coordinator version of a candidate Run. -/
def lockRun : Except Rejection Nat := do
  require (store.creation.mode = .candidateV2) (.conflict "Candidate Run unavailable in organization")
  require (store.checkpoint = none) (.conflict "Candidate Run cannot own a serial checkpoint")
  pure store.version

/-- All claims of the Run. Their order is not read by any caller. -/
def activeClaims : Except Rejection (List SlotClaim) := do
  require (∀ row ∈ store.claims, row.claim.checkpoint.slot = row.slot)
    (.conflict "Candidate claim index differs from evidence")
  pure (store.claims.map (·.claim))

/-- The stored claim, when it is still the one the caller holds. -/
def requireClaim (claim : SlotClaim) : Except Rejection SlotClaim := do
  let row ← demand (lookup (·.slot) store.claims claim.checkpoint.slot)
    (.conflict "Candidate execution ownership changed")
  require (row.claim.checkpoint.slot = claim.checkpoint.slot ∧ row.claim.version = claim.version ∧
      row.claim.checkpoint.executionId = claim.checkpoint.executionId ∧
      row.claim.checkpoint.invocationId = claim.checkpoint.invocationId ∧
      row.claim.checkpoint.owner = claim.checkpoint.owner ∧
      row.claim.checkpoint.phase = claim.checkpoint.phase)
    (.conflict "Candidate execution ownership changed")
  pure row.claim

def createClaim (cp : ExecutionCheckpoint) (version : Nat) : Except Rejection Store :=
  store.insertClaim ⟨cp.caseId, cp.slotOrdinal, ⟨version, cp⟩⟩

def renewClaim (claim : SlotClaim) (time expiresAt : DateTime) : Except Rejection Store := do
  let current ← store.requireClaim claim
  require (current.checkpoint.claimedAt ≤ time ∧ time < current.checkpoint.leaseExpiresAt ∧
    current.checkpoint.leaseExpiresAt < expiresAt) (.conflict "Candidate lease already expired")
  let renewed ← current.checkpoint.renew expiresAt
  pure (store.updateClaim claim.checkpoint.slot renewed)

def releaseClaim (claim : SlotClaim) : Except Rejection Store := do
  let _ ← store.requireClaim claim
  pure (store.deleteClaim claim.checkpoint.slot)

end Store

/-- A live claim that owns exactly the recorded dispatch. -/
def ownsDispatch (cp : ExecutionCheckpoint) (row : DispatchRow) : Prop :=
  cp.phase = .dispatching ∧ row.checkpoint.phase = .dispatching ∧
    row.checkpoint.invocationId = row.invocationId ∧ row.executionId = row.checkpoint.executionId ∧
    row.kind = row.checkpoint.kind ∧ row.caseId = row.checkpoint.caseId ∧
    row.slotOrdinal = row.checkpoint.slotOrdinal ∧ row.candidateId = row.checkpoint.candidateId ∧
    cp.executionId = row.checkpoint.executionId ∧ cp.owner = row.checkpoint.owner ∧
    cp.kind = row.checkpoint.kind ∧ cp.caseId = row.checkpoint.caseId ∧
    cp.slotOrdinal = row.checkpoint.slotOrdinal ∧ cp.candidateId = row.checkpoint.candidateId ∧
    cp.executionOrdinal = row.checkpoint.executionOrdinal ∧
    cp.dispatchStartedAt = row.checkpoint.dispatchStartedAt

instance (cp : ExecutionCheckpoint) (row : DispatchRow) : Decidable (ownsDispatch cp row) :=
  inferInstanceAs (Decidable (_ ∧ _))

/-- Keep the dispatches with terminal evidence; each other one must be owned by
an exact live claim. -/
def filterDispatches (terminal : List String) (active : List SlotClaim) :
    List String → List DispatchRow → Except Rejection (List DispatchRow × List String)
  | seen, [] => pure ([], seen)
  | seen, row :: rest =>
      if row.invocationId ∈ terminal then do
        let (filtered, seen) ← filterDispatches terminal active seen rest
        pure (row :: filtered, seen)
      else do
        let claim ← demand (dict (·.checkpoint.invocationId) active row.invocationId)
          (.conflict "Unmatched dispatch requires recovery")
        require (ownsDispatch claim.checkpoint row) (.conflict "Unmatched dispatch requires recovery")
        require (row.invocationId ∉ seen) (.conflict "Duplicate active dispatch")
        filterDispatches terminal active (row.invocationId :: seen) rest

/-- Only hide live dispatches proven by exact claims, never missing evidence. -/
def terminalDispatches (dispatches : List DispatchRow) (terminal : List String) (active : List SlotClaim) :
    Except Rejection (List DispatchRow) := do
  let (filtered, seen) ← filterDispatches terminal active [] dispatches
  require (∀ claim ∈ active, claim.checkpoint.phase = .dispatching →
      claim.checkpoint.invocationId ∈ terminal ∨ claim.checkpoint.invocationId ∈ seen)
    (.conflict "Dispatched claim has no ledger")
  pure filtered

/-- The invocations that have terminal evidence. -/
def terminalInvocations (generations : List GenerationRow) (semantics : List SemanticRow) : List String :=
  generations.map (·.invocationId) ++ semantics.map (·.invocationId)

/-- The parallel plan of the given records and live claims. -/
def projectCandidateRecords (creation : Creation) (progress : Progress) (active : List SlotClaim) (limit : Nat)
    (dispatches : List DispatchRow) (generations : List GenerationRow) (semantics : List SemanticRow) :
    Except Rejection ParallelPlan := do
  let terminal ← terminalDispatches dispatches (terminalInvocations generations semantics) active
  let slots ← projectSlots creation.slots generations terminal semantics progress.resultUnknownResolutions
    progress.semanticContractRecoveries creation.policy
  planParallel progress.status ((progress.preflight.map (·.status)).getD .pending)
    ((progress.preflight.map (·.caseId)).getD creation.preflightCaseId) slots creation.policy
    (active.map (·.checkpoint.slot)).toFinset limit progress.unresolvedResultUnknownCount

/-- The stage an action runs, if it runs one. -/
def ActionKind.execution : ActionKind → Option ExecutionKind
  | .generation => some .generation
  | .semantic => some .semantic
  | _ => Option.none

def DispatchRow.record (cp : ExecutionCheckpoint) : DispatchRow :=
  ⟨cp.invocationId, cp.executionId, cp.kind, cp.caseId, cp.slotOrdinal, cp.candidateId, cp⟩

/-- The dispatches that count against the target of a call: its slot, and for a
judge call also its candidate. -/
def DispatchRow.sameTarget (cp : ExecutionCheckpoint) (row : DispatchRow) : Bool :=
  row.kind == cp.kind && row.caseId == cp.caseId && row.slotOrdinal == cp.slotOrdinal &&
    (cp.kind == .generation || row.candidateId == cp.candidateId)

def ExecutionPolicy.runLimit (policy : ExecutionPolicy) : ExecutionKind → Nat
  | .generation => policy.generationPerRun
  | .semantic => policy.semanticPerRun

namespace Store

variable (store : Store)

def candidatePlan (progress : Progress) (active : List SlotClaim) (limit : Nat) : Except Rejection ParallelPlan :=
  projectCandidateRecords store.creation progress active limit store.dispatches store.generations store.semantics

/-- The frozen budgets of the stage and the target, and the next ordinal. -/
def planDispatchRecord (cp : ExecutionCheckpoint) : Except Rejection DispatchRow := do
  let entries := store.dispatches.filter (·.kind = cp.kind)
  let used := (entries.filter (DispatchRow.sameTarget cp)).length
  require (used < store.creation.policy.limit cp.kind ∧
    entries.length < store.creation.policy.runLimit cp.kind) (.conflict "Evaluation execution budget exhausted")
  require (cp.executionOrdinal = used + 1) (.conflict "Evaluation execution ordinal is not next")
  pure (DispatchRow.record cp)

def recordDispatch (cp : ExecutionCheckpoint) : Except Rejection Store := do
  let row ← store.planDispatchRecord cp
  store.insertDispatch row

def dispatchClaim (claim : SlotClaim) (time : DateTime) : Except Rejection Store := do
  let _ ← store.lockRun
  let _ ← store.activeClaims
  let current ← store.requireClaim claim
  require (store.progress.status = .collecting ∧ store.progress.cancelRequested = none ∧
      store.progress.unresolvedResultUnknownCount = 0 ∧
      (∃ preflight ∈ store.progress.preflight, preflight.status = .passed) ∧
      time < current.checkpoint.leaseExpiresAt)
    (.conflict "Run cannot dispatch new work")
  let cp ← current.checkpoint.markDispatching current.checkpoint.owner time
  let recorded ← store.recordDispatch cp
  pure (recorded.updateClaim claim.checkpoint.slot cp)

/-- The next action of the plan as a prepared checkpoint. -/
def candidateCheckpoint (plan : ParallelPlan) (owner executionId invocationId : String)
    (time expiresAt : DateTime) : Except Rejection ExecutionCheckpoint := do
  require (store.progress.cancelRequested = none) (.conflict "Run is stopping or has no progress")
  let action ← demand plan.ready.head? (.conflict "No candidate capacity or ready work")
  require (∀ earliest ∈ store.creation.createdAt ::
      store.progress.semanticContractRecoveries.map ContractRecovery.resolvedAt, earliest ≤ time)
    (.invalid "Preparation cannot precede source evidence")
  let kind ← demand action.kind.execution (.invalid "Semantic checkpoint requires a candidate")
  ExecutionCheckpoint.make
    { executionId, kind, caseId := action.caseId, slotOrdinal := action.slotOrdinal
      candidateId := action.candidateId, executionOrdinal := action.executionOrdinal, owner, invocationId
      phase := .prepared, claimedAt := time, leaseExpiresAt := expiresAt }

def prepareCandidate (owner executionId invocationId : String) (time expiresAt : DateTime) (limit : Nat) :
    Except Rejection (SlotClaim × Store) := do
  let version ← store.lockRun
  require (store.progress.cancelRequested = none) (.conflict "Run is stopping or has no progress")
  let active ← store.activeClaims
  let plan ← store.candidatePlan store.progress active limit
  let cp ← store.candidateCheckpoint plan owner executionId invocationId time expiresAt
  let claimed ← store.createClaim cp (version + 1)
  let saved ← claimed.saveCheckpoint version none
  pure (⟨version + 1, cp⟩, saved)

/-- Claim the next ready slot and dispatch it in one transaction. -/
def claimAndDispatch (owner executionId invocationId : String) (claimedAt expiresAt : DateTime) (limit : Nat)
    (time : DateTime) : Except Rejection Store := do
  let (claim, claimed) ← store.prepareCandidate owner executionId invocationId claimedAt expiresAt limit
  claimed.dispatchClaim claim time

/-- The next serial action as a prepared checkpoint of the coordinator. -/
def prepareExecution (expectedVersion : Nat) (owner executionId invocationId : String)
    (time leaseExpiresAt : DateTime) : Except Rejection Store := do
  require (store.version = expectedVersion ∧ store.checkpoint = none)
    (.conflict "Run version changed or execution is active")
  require (store.creation.mode = .serialV1) (.conflict "Run progress unavailable")
  require (store.progress.cancelRequested = none) (.conflict "Cancellation requested; no new dispatch")
  let slots ← projectSlots store.creation.slots store.generations store.dispatches store.semantics
    store.progress.resultUnknownResolutions store.progress.semanticContractRecoveries store.creation.policy
  let action ← nextAction store.progress.status ((store.progress.preflight.map (·.status)).getD .pending)
    ((store.progress.preflight.map (·.caseId)).getD store.creation.preflightCaseId) slots store.creation.policy
    none store.progress.unresolvedResultUnknownCount
  let kind ← demand action.kind.execution (.conflict "Next action is not a new model execution")
  require (action.resume = false) (.conflict "Next action is not a new model execution")
  require (store.creation.createdAt ≤ time) (.invalid "Preparation cannot precede Run creation")
  require (∀ r ∈ store.progress.semanticContractRecoveries, r.resolvedAt ≤ time)
    (.invalid "Preparation cannot precede recovery authorization")
  let prepared ← ExecutionCheckpoint.make
    { executionId, kind, caseId := action.caseId, slotOrdinal := action.slotOrdinal
      candidateId := action.candidateId, executionOrdinal := action.executionOrdinal, owner, invocationId
      phase := .prepared, claimedAt := time, leaseExpiresAt }
  store.saveCheckpoint expectedVersion (some prepared)

/-- Reserve the provider call of the prepared serial checkpoint. -/
def reserveDispatch (expectedVersion : Nat) (owner : String) (time : DateTime) : Except Rejection Store := do
  require (store.version = expectedVersion) (.conflict "Checkpoint version changed")
  let checkpoint ← demand store.checkpoint (.conflict "Prepared checkpoint required")
  require (store.creation.mode = .serialV1) (.conflict "Frozen evaluation Run required")
  require (store.progress.status = .collecting ∧ ∃ preflight ∈ store.progress.preflight, preflight.status = .passed)
    (.conflict "Collecting Run with passed preflight required")
  require (store.progress.cancelRequested = none) (.conflict "Cancellation requested; no new dispatch")
  require (checkpoint.slot ∈ store.creation.slots) (.conflict "Checkpoint target is outside frozen Run slots")
  let dispatched ← checkpoint.markDispatching owner time
  let recorded ← store.recordDispatch dispatched
  recorded.saveCheckpoint expectedVersion (some dispatched)

end Store

end QsAi
