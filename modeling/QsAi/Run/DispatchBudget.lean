import Mathlib.Data.Prod.Lex
import Mathlib.Data.String.Basic
import QsAi.Evaluation.PolicyDocument
import QsAi.Run.Liveness

/-! The dispatch budget. The planner and the manual decisions look at the budget
of one slot or candidate, the checkpoint bounds the ordinal of an execution, and
the dispatch record also looks at the budget of the whole Run. -/
namespace QsAi

open Guarded Keyed Numbered

/-- Check before reservation; the counts include failed and unknown calls. -/
def ExecutionPolicy.withinBudget (policy : ExecutionPolicy) (kind : ExecutionKind)
    (targetExecutions runExecutions : Nat) : Except Rejection Bool := do
  require (targetExecutions ≤ runExecutions) (.invalid "Target count exceeds run count")
  pure (decide (targetExecutions < policy.limit kind ∧ runExecutions < policy.runLimit kind))

/-- Snapshot eligibility only; resolution and reservation look again. -/
def ExecutionPolicy.replacementAllowed (policy : ExecutionPolicy) (canResolve : Bool) (kind : ExecutionKind)
    (targetExecutions runExecutions : Nat) : Except Rejection Bool :=
  if canResolve = true then policy.withinBudget kind targetExecutions runExecutions else pure false

/-! The list of unknown executions. -/

/-- A terminal row of either stage. -/
structure EvidenceRow where
  executionId : String
  invocationId : String
  executionOrdinal : Nat
  evidence : Completion

def Completion.providerCallCount : Completion → Nat
  | .generation value => value.providerCallCount
  | .semantic value => value.providerCallCount

structure UnknownExecutionSummary where
  executionId : String
  invocationId : String
  kind : ExecutionKind
  caseId : String
  slotOrdinal : Nat
  candidateId : String
  executionOrdinal : Nat
  startedAt : DateTime
  finishedAt : DateTime
  providerCallCount : Nat
  failureStage : Stage
  failureCode : String
  targetExecutionCount : Nat
  targetExecutionLimit : Nat
  stageExecutionCount : Nat
  stageExecutionLimit : Nat
  replacementAllowed : Bool

structure UnknownExecutionIndex where
  version : Nat
  releaseFingerprint : String
  status : RunStatus
  unresolvedResultUnknownCount : Nat
  canResolve : Bool
  executions : List UnknownExecutionSummary

/-- Generations first, then by slot, ordinal and identity. -/
def UnknownExecutionSummary.key (summary : UnknownExecutionSummary) : ℕ ×ₗ String ×ₗ ℕ ×ₗ ℕ ×ₗ String :=
  toLex (match summary.kind with | .generation => 0 | .semantic => 1,
    toLex (summary.caseId, toLex (summary.slotOrdinal, toLex (summary.executionOrdinal, summary.executionId))))

namespace Store

variable (store : Store)

def evidenceRows : List EvidenceRow :=
  store.generations.map (fun row => ⟨row.executionId, row.invocationId, row.executionOrdinal, .generation row.evidence⟩) ++
    store.semantics.map fun row => ⟨row.executionId, row.invocationId, row.executionOrdinal, .semantic row.evidence⟩

/-- The unknown executions that nobody decided about. -/
def unresolvedExecutions (unknowns : List UnknownExecution) : Finset String :=
  (unknowns.map (·.executionId)).toFinset \
    (store.progress.resultUnknownResolutions.map (·.executionId)).toFinset

def unknownSummary (canResolve : Bool) (row : EvidenceRow) : Except Rejection UnknownExecutionSummary := do
  let dispatch ← demand (dict (·.executionId) store.dispatches row.executionId) (.invalid "KeyError")
  let stage := store.dispatches.filter (·.kind = dispatch.kind)
  let target := stage.filter fun d =>
    (d.caseId, d.slotOrdinal, d.candidateId) = (dispatch.caseId, dispatch.slotOrdinal, dispatch.candidateId)
  let failure ← demand row.evidence.failure (.invalid "TypeError")
  let allowed ← store.creation.policy.replacementAllowed canResolve dispatch.kind target.length stage.length
  pure
    { executionId := row.executionId
      invocationId := row.invocationId
      kind := dispatch.kind
      caseId := dispatch.caseId
      slotOrdinal := dispatch.slotOrdinal
      candidateId := dispatch.candidateId
      executionOrdinal := row.executionOrdinal
      startedAt := row.evidence.startedAt
      finishedAt := row.evidence.finishedAt
      providerCallCount := row.evidence.providerCallCount
      failureStage := failure.stage
      failureCode := failure.code
      targetExecutionCount := target.length
      targetExecutionLimit := store.creation.policy.limit dispatch.kind
      stageExecutionCount := stage.length
      stageExecutionLimit := store.creation.policy.runLimit dispatch.kind
      replacementAllowed := allowed }

/-- The unresolved calls of a Run that nobody works on. -/
def listUnknowns (expectedVersion : Nat) : Except Rejection UnknownExecutionIndex := do
  require (store.version = expectedVersion) (.conflict "Unknown-call view version changed")
  require (store.checkpoint = none ∧ store.claims = [])
    (.conflict "Execution remains active; read after recovery")
  let unknowns ← store.loadResolutionEvidence
  let unresolved := store.unresolvedExecutions unknowns
  let status := store.progress.status
  require (unresolved = ∅ ∨ status = .blocked ∨ status = .canceled)
    (.conflict "Unresolved calls require blocked or canceled Run")
  let canResolve := decide (status = .blocked ∧ unresolved ≠ ∅)
  let summaries ← (store.evidenceRows.filter (·.executionId ∈ unresolved)).mapM (store.unknownSummary canResolve)
  pure ⟨store.version, store.creation.releaseFingerprint, status, unresolved.card, canResolve,
    summaries.insertionSort fun a b => a.key ≤ b.key⟩

end Store

/-! What it takes to dispatch a planned execution. -/

/-- Who takes an execution, under which identities and with which lease. -/
structure Worker where
  owner : String
  executionId : String
  invocationId : String
  claimedAt : DateTime
  leaseExpiresAt : DateTime
  time : DateTime
  identity : validId owner = true ∧ validId executionId = true ∧ validId invocationId = true
  lease : claimedAt < leaseExpiresAt
  dispatch : claimedAt ≤ time ∧ time ≤ leaseExpiresAt

/-- The prepared call of a planned execution. -/
def NextAction.prepared (action : NextAction) (kind : ExecutionKind) (worker : Worker) : CheckpointFields where
  executionId := worker.executionId
  kind
  caseId := action.caseId
  slotOrdinal := action.slotOrdinal
  candidateId := action.candidateId
  executionOrdinal := action.executionOrdinal
  owner := worker.owner
  invocationId := worker.invocationId
  phase := .prepared
  claimedAt := worker.claimedAt
  leaseExpiresAt := worker.leaseExpiresAt

/-- The repetition of a recorded call. -/
def DispatchRow.replacement (row : DispatchRow) : NextAction :=
  ⟨row.kind.action, .manualRecoveryApproved, row.caseId, row.slotOrdinal, row.candidateId,
    row.checkpoint.executionOrdinal + 1, false⟩

namespace Store

variable (store : Store)

/-- Prepare the execution, dispatch it and plan its record. -/
def planAction (action : NextAction) (worker : Worker) : Except Rejection DispatchRow := do
  let kind ← demand action.kind.execution (.conflict "Next action is not a new model execution")
  let prepared ← ExecutionCheckpoint.make (action.prepared kind worker)
  let dispatched ← prepared.markDispatching worker.owner worker.time
  store.planDispatchRecord dispatched

/-- Every worker can dispatch the execution. -/
def Dispatchable (action : NextAction) : Prop := ∀ worker, ∃ row, store.planAction action worker = .ok row

/-- The next action of a Run without a live execution. -/
def serialAction : Except Rejection NextAction := do
  let slots ← projectSlots store.creation.slots store.generations store.dispatches store.semantics
    store.progress.resultUnknownResolutions store.progress.semanticContractRecoveries store.creation.policy
  nextAction store.progress.status ((store.progress.preflight.map (·.status)).getD .pending)
    ((store.progress.preflight.map (·.caseId)).getD store.creation.preflightCaseId) slots store.creation.policy
    none store.progress.unresolvedResultUnknownCount

/-- The recorded calls of a stage. -/
def stageCalls (kind : ExecutionKind) : Nat := (store.dispatches.filter (·.kind = kind)).length

/-- The recorded calls of one slot, or of one candidate of it. -/
def targetCalls (kind : ExecutionKind) (slot : String × Nat) (candidateId : String) : Nat :=
  (store.dispatches.filter fun row => row.kind = kind ∧ row.slot = slot ∧ row.candidateId = candidateId).length

/-- At most one call was recorded for the target of the action, and the budget
of the Run for the stage is open. -/
def HasRoom (action : NextAction) : Prop :=
  ∀ kind, action.kind.execution = some kind →
    store.targetCalls kind action.slot action.candidateId < 2 ∧
    store.stageCalls kind < store.creation.policy.runLimit kind

end Store

/-! Every call of an unowned target ended. -/

namespace Book

variable {b : Book} {target : Target}

/-- The open call of a row is owned by a checkpoint of the same target. -/
theorem Sound.owner_target (h : b.Sound) {row : DispatchRow} (hRow : row ∈ b.dispatches)
    (hOpen : row.invocationId ∈ b.openInvocations) : ∃ cp ∈ b.live, cp.target = row.checkpoint.target := by
  obtain ⟨cp, hMem, hInvocation⟩ := List.mem_map.mp hOpen
  obtain ⟨hLive, hPhase⟩ := List.mem_filter.mp hMem
  obtain ⟨other, hOther, hCall⟩ := (h.live cp hLive).owned (of_decide_eq_true hPhase)
  have hKey : other.invocationId = row.invocationId := by
    rw [congrArg DispatchRow.invocationId (h.calls.recorded other hOther).1, ← hInvocation]
    exact (ExecutionCheckpoint.same_of_call hCall).1
  rw [h.calls.invocations.eq_of_key hOther hRow hKey] at hCall
  exact ⟨cp, hLive, (ExecutionCheckpoint.target_of_call hCall).symm⟩

theorem Sound.issued_length (h : b.Sound) (hFree : ∀ cp ∈ b.live, cp.target ≠ target) :
    (b.issued target).length = (b.history target).length := by
  have hPerm : ((b.issued target).map (·.invocationId)).Perm ((b.history target).map (·.invocationId)) := by
    refine (List.perm_ext_iff_of_nodup (h.calls.invocations.sublist List.filter_sublist)
      (h.calls.completions_unique.sublist List.filter_sublist)).mpr fun invocationId => ?_
    constructor
    · intro hMem
      obtain ⟨row, hIssued, rfl⟩ := List.mem_map.mp hMem
      obtain ⟨hRow, hTarget⟩ := List.mem_filter.mp hIssued
      have hSettled : row.invocationId ∈ b.settledInvocations := by
        refine h.calls.balanced.settled_of_not_live (List.mem_map_of_mem hRow) fun hOpen => ?_
        obtain ⟨cp, hLive, hSame⟩ := h.owner_target hRow hOpen
        exact hFree cp hLive (hSame.trans (of_decide_eq_true hTarget))
      obtain ⟨completion, hCompletion, hInvocation⟩ := List.mem_map.mp hSettled
      obtain ⟨entry, hEntry, hKey, hEnds⟩ := h.calls.entry hCompletion
      rw [h.calls.invocations.eq_of_key hEntry hRow (hKey.trans hInvocation)] at hEnds
      refine List.mem_map.mpr ⟨completion, mem_history.mpr ⟨hCompletion, ?_⟩, hInvocation⟩
      rw [hEnds.target, of_decide_eq_true hTarget]
    · intro hMem
      obtain ⟨completion, hHistory, rfl⟩ := List.mem_map.mp hMem
      obtain ⟨hCompletion, hTarget⟩ := mem_history.mp hHistory
      obtain ⟨row, hRow, hKey, hEnds⟩ := h.calls.entry hCompletion
      refine List.mem_map.mpr ⟨row, List.mem_filter.mpr ⟨hRow, decide_eq_true ?_⟩, hKey⟩
      rw [← hEnds.target, hTarget]
  simpa using hPerm.length_eq

/-- A checkpoint on the target of a slot works on that slot. -/
theorem Sound.slot_of_target (h : b.Sound) {id : String × Nat} {slot : SlotProgress} (hSlot : b.Projects id slot)
    {cp : ExecutionCheckpoint} (hLive : cp ∈ b.live) (hTarget : cp.target = slot.target) : cp.slot = id := by
  have hKind : cp.kind = slot.kind := by
    rw [← ExecutionCheckpoint.kind_target, hTarget, SlotProgress.kind_target]
  cases hCandidate : slot.candidate with
  | none =>
      have hStage : cp.kind = .generation := by simp [hKind, SlotProgress.kind, hCandidate]
      simp only [ExecutionCheckpoint.target, hStage, SlotProgress.target, hCandidate, Target.slot.injEq] at hTarget
      exact hTarget.trans hSlot.identity
  | some candidate =>
      have hStage : cp.kind = .semantic := by simp [hKind, SlotProgress.kind, hCandidate]
      simp only [ExecutionCheckpoint.target, hStage, SlotProgress.target, hCandidate, Target.candidate.injEq] at hTarget
      obtain ⟨row, hRow, hOf, hId, _⟩ := h.projected_source hSlot hCandidate
      obtain ⟨own, hOwn, hOwnId, hOwnSlot⟩ := (h.live cp hLive).accepted hStage
      rw [← hOwnSlot, h.source_unique hOwn hRow hOwnId (by rw [hTarget, hId]), hOf]

end Book

theorem Creation.slots_length (creation : Creation) : creation.slots.length = 35 := by
  rw [Creation.slots, List.length_flatMap]
  simp [creation.cases.1, creation.frozen.generationCases, creation.frozen.candidatesPerCase]

/-- A frozen slot names a valid case and one of its five places. -/
theorem Creation.slot_valid (creation : Creation) {slot : String × Nat} (h : slot ∈ creation.slots) :
    validId slot.1 = true ∧ 1 ≤ slot.2 ∧ slot.2 ≤ 5 := by
  obtain ⟨caseId, hCase, hMem⟩ := List.mem_flatMap.mp h
  obtain ⟨ordinal, hOrdinal, rfl⟩ := List.mem_map.mp hMem
  rw [List.mem_range'_1, creation.frozen.candidatesPerCase] at hOrdinal
  exact ⟨creation.identities.2.2 caseId hCase, by omega⟩

namespace Store

variable {store : Store} {kind : ExecutionKind} {action : NextAction}

/-- The candidate of a judge call belongs to its slot, a generation names none. -/
inductive Aims (store : Store) (action : NextAction) : ExecutionKind → Prop
  | generation (hCandidate : action.candidateId = "") : Aims store action .generation
  | semantic (hCandidate : validId action.candidateId = true)
      (hAccepts : store.book.Accepts action.slot action.candidateId) : Aims store action .semantic

/-- The action continues the recorded calls of its target, whose own budget is
open. -/
structure Resumable (store : Store) (kind : ExecutionKind) (action : NextAction) : Prop where
  runs : action.kind.execution = some kind
  planned : action.slot ∈ store.creation.slots
  aims : store.Aims action kind
  next : action.executionOrdinal = (store.book.issued (action.target kind)).length + 1
  room : (store.book.issued (action.target kind)).length < store.creation.policy.limit kind

/-- The calls counted by slot and candidate are those of the target. -/
theorem Aims.targetCalls (hAims : store.Aims action kind) (h : store.Valid) :
    store.targetCalls kind action.slot action.candidateId = (store.book.issued (action.target kind)).length := by
  rw [Store.targetCalls, Book.issued]
  congr 1
  refine List.filter_congr fun row hRow => ?_
  have hRecorded := (h.sound.calls.recorded row hRow).1
  have hFacts := row.checkpoint.facts
  rw [decide_eq_decide, DispatchRow.slot, hRecorded]
  cases hAims with
  | generation hCandidate =>
      cases hKind : row.checkpoint.kind with
      | generation =>
          simp [DispatchRow.record, ExecutionCheckpoint.target, ExecutionCheckpoint.slot, NextAction.target, hKind,
            hCandidate, hFacts.generation hKind]
      | semantic => simp [DispatchRow.record, ExecutionCheckpoint.target, NextAction.target, hKind]
  | semantic _ hAccepts =>
      cases hKind : row.checkpoint.kind with
      | generation => simp [DispatchRow.record, ExecutionCheckpoint.target, NextAction.target, hKind]
      | semantic =>
          simp only [DispatchRow.record, ExecutionCheckpoint.target, NextAction.target, hKind, true_and, Target.candidate.injEq,
            and_iff_right_iff_imp]
          intro hSame
          -- a candidate belongs to one slot
          obtain ⟨source, hSource, hId, hSlot⟩ := h.sound.candidates.issued row hRow hKind
          obtain ⟨own, hOwn, hOwnId, hOwnSlot⟩ := hAccepts
          rw [← hOwnSlot, ← h.sound.source_unique hSource hOwn hId (by rw [hOwnId, hSame]), hSlot]
          rfl

/-- A call with an ordinal that checkpoints know can be prepared and dispatched
by every worker. -/
theorem Resumable.checked (h : store.Resumable kind action) (hOrdinal : action.executionOrdinal ≤ 2)
    (worker : Worker) : (action.prepared kind worker).check = .ok () ∧
    { action.prepared kind worker with phase := .dispatching, dispatchStartedAt := some worker.time }.check = .ok () := by
  obtain ⟨hOwner, hExecution, hInvocation⟩ := worker.identity
  obtain ⟨hCase, hFirst, hLast⟩ := store.creation.slot_valid h.planned
  have hIds : ∀ value ∈ [worker.executionId, action.caseId, worker.owner, worker.invocationId],
      validId value = true := by
    simp only [List.forall_mem_cons]
    exact ⟨hExecution, hCase, hOwner, hInvocation, by simp⟩
  have hOrdinals : (1 ≤ action.slotOrdinal ∧ action.slotOrdinal ≤ 5) ∧ 1 ≤ action.executionOrdinal ∧
      action.executionOrdinal ≤ 2 := by
    refine ⟨⟨hFirst, hLast⟩, ?_, hOrdinal⟩
    rw [h.next]
    omega
  have hCandidate : (action.prepared kind worker).checkCandidate = .ok () := by
    cases h.aims with
    | generation hNone => simp [CheckpointFields.checkCandidate, NextAction.prepared, hNone]
    | semantic hSome _ => simp [CheckpointFields.checkCandidate, NextAction.prepared, hSome]
  constructor
  · simp only [CheckpointFields.check, bind_ok, require_ok, exists_const]
    exact ⟨hIds, hOrdinals, ⟨_, hCandidate, worker.lease, rfl⟩⟩
  · simp only [CheckpointFields.check, bind_ok, require_ok, exists_const]
    refine ⟨hIds, hOrdinals, ⟨_, hCandidate, worker.lease, ?_⟩⟩
    simp only [CheckpointFields.checkDispatch, require_ok]
    exact worker.dispatch

/-- A checkpoint of the action works on its target. -/
theorem Aims.of_checkpoint (hAims : store.Aims action kind) {cp : ExecutionCheckpoint} (hKind : cp.kind = kind)
    (hSlot : cp.slot = action.slot) (hCandidate : cp.candidateId = action.candidateId) :
    cp.target = action.target kind ∧ (cp.kind = .semantic → store.book.Accepts cp.slot cp.candidateId) := by
  cases hAims with
  | generation _ =>
      refine ⟨by simp only [ExecutionCheckpoint.target, hKind, NextAction.target, hSlot], fun hSemantic => ?_⟩
      rw [hKind] at hSemantic
      cases hSemantic
  | semantic _ hAccepts =>
      refine ⟨by simp only [ExecutionCheckpoint.target, hKind, NextAction.target, hCandidate], fun _ => ?_⟩
      rw [hSlot, hCandidate]
      exact hAccepts

/-- The record of the dispatched call is refused only by the budget of the Run. -/
theorem Resumable.record_ok (hAction : store.Resumable kind action) (h : store.Valid) {worker : Worker}
    {dispatched : ExecutionCheckpoint}
    (hFields : dispatched.toCheckpointFields =
      { action.prepared kind worker with phase := .dispatching, dispatchStartedAt := some worker.time }) :
    (∃ row, store.planDispatchRecord dispatched = .ok row) ↔
      store.stageCalls kind < store.creation.policy.runLimit kind := by
  have hKind : dispatched.kind = kind := congrArg CheckpointFields.kind hFields
  have hSlot : dispatched.slot = action.slot := by
    rw [ExecutionCheckpoint.slot, hFields]
    rfl
  have hCandidate : dispatched.candidateId = action.candidateId := congrArg CheckpointFields.candidateId hFields
  have hOrdinal : dispatched.executionOrdinal = action.executionOrdinal :=
    congrArg CheckpointFields.executionOrdinal hFields
  obtain ⟨hTarget, hAccepted⟩ := hAction.aims.of_checkpoint hKind hSlot hCandidate
  simp only [planDispatchRecord_ok h hAccepted, hTarget, hKind, hOrdinal, hAction.next, hAction.room, true_and,
    stageCalls]
  constructor
  · rintro ⟨_, hTotal, _⟩
    exact hTotal
  · intro hTotal
    exact ⟨_, hTotal, rfl⟩

/-- A worker with a lease of one second. -/
def someWorker : Worker where
  owner := "worker"
  executionId := "execution"
  invocationId := "invocation"
  claimedAt := Pilot.clock 0
  leaseExpiresAt := Pilot.clock 1
  time := Pilot.clock 0
  identity := by decide
  lease := by decide
  dispatch := by decide

/-- An action that the planner or a manual decision offers can be dispatched
exactly when the checkpoint knows its ordinal and the Run has budget left. -/
theorem Resumable.dispatchable_iff (hAction : store.Resumable kind action) (h : store.Valid) :
    store.Dispatchable action ↔ store.HasRoom action := by
  have hCalls := hAction.aims.targetCalls h
  have hRoom : store.HasRoom action ↔
      action.executionOrdinal ≤ 2 ∧ store.stageCalls kind < store.creation.policy.runLimit kind := by
    simp only [HasRoom, hAction.runs, Option.some.injEq, forall_eq', hCalls, hAction.next]
    omega
  rw [hRoom]
  constructor
  · intro hDispatch
    obtain ⟨row, hRow⟩ := hDispatch someWorker
    simp only [planAction, bind_ok, demand_ok, hAction.runs, Option.some.injEq, exists_eq_left'] at hRow
    obtain ⟨prepared, hMake, dispatched, hMark, hRecord⟩ := hRow
    have hPrepared := ExecutionCheckpoint.make_ok hMake
    obtain ⟨_, _, hFields⟩ := ExecutionCheckpoint.markDispatching_ok hMark
    rw [hPrepared] at hFields
    refine ⟨?_, (hAction.record_ok h hFields).mp ⟨row, hRecord⟩⟩
    have hOrdinal := prepared.facts.executionOrdinal.2
    rw [hPrepared] at hOrdinal
    exact hOrdinal
  · rintro ⟨hOrdinal, hTotal⟩ worker
    obtain ⟨hPrepared, hDispatched⟩ := hAction.checked hOrdinal worker
    have hRecord : (∃ row, store.planDispatchRecord ⟨_, hDispatched⟩ = .ok row) ↔
        store.stageCalls kind < store.creation.policy.runLimit kind := hAction.record_ok h rfl
    obtain ⟨row, hRow⟩ := hRecord.mpr hTotal
    refine ⟨row, ?_⟩
    simp only [planAction, bind_ok, demand_ok, hAction.runs, Option.some.injEq, exists_eq_left']
    refine ⟨⟨_, hPrepared⟩, (certify_ok _ _ _).mpr ⟨hPrepared, rfl⟩, ⟨_, hDispatched⟩, ?_, hRow⟩
    refine (require_bind_ok _ _ _ _).mpr ⟨⟨rfl, ?_⟩, (certify_ok _ _ _).mpr ⟨hDispatched, rfl⟩⟩
    exact strip_of_validId worker.identity.1

/-! Planned executions. -/

/-- A candidate that a slot accepts has a valid identity. -/
theorem Valid.accepted_valid (h : store.Valid) {slot : String × Nat} {candidateId : String}
    (hAccepts : store.book.Accepts slot candidateId) : validId candidateId = true := by
  obtain ⟨row, hRow, hId, _⟩ := hAccepts
  have hOutcome := h.sound.candidates.outcome row hRow
  by_cases hStatus : row.evidence.status = .succeeded
  · obtain ⟨stored, _, hStored, hValid, _⟩ := hOutcome.succeeded hStatus
    rw [hStored, Option.some.injEq] at hId
    rw [← hId]
    exact hValid
  · rw [(hOutcome.otherwise hStatus).2] at hId
    cases hId

theorem limit_pos (creation : Creation) (kind : ExecutionKind) : 0 < creation.policy.limit kind := by
  cases kind with
  | generation => exact creation.frozen.generationPerSlot
  | semantic => exact creation.frozen.semanticPerCandidate

/-- A history that may be continued left budget for its target. -/
theorem Valid.history_lt (h : store.Valid) {target : Target}
    (hPermits : ∀ completion ∈ store.book.history target, store.book.Permits completion) :
    (store.book.history target).length < store.creation.policy.limit target.kind := by
  cases hLast : (sorted (·.executionOrdinal) (store.book.history target)).getLast? with
  | none =>
      rw [List.getLast?_eq_none_iff, ← List.length_eq_zero_iff, length_sorted] at hLast
      rw [hLast]
      exact limit_pos store.creation target.kind
  | some completion =>
      obtain ⟨hMem, hTarget, hOrdinal⟩ := h.sound.last_ordinal hLast
      have hBudget := (hPermits completion (Book.mem_history.mpr ⟨hMem, hTarget⟩)).1
      rw [← completion.kind_target, hTarget, hOrdinal] at hBudget
      exact hBudget

/-- What the planner offers for a free slot continues the recorded calls. -/
theorem Valid.resumable_of_action (h : store.Valid) {slots : List SlotProgress} {slot : SlotProgress}
    (hSlots : store.book.Slots slots) (hMem : slot ∈ slots) (hFree : slot.identity ∉ store.live.map (·.slot))
    (hAction : slotAction slot store.creation.policy = .ok (some action)) (hRuns : action.kind.execution = some kind) :
    store.Resumable kind action := by
  have hFollows := h.sound.follows_of_action hSlots hMem hAction hRuns
  have hIssued : (store.book.issued (action.target kind)).length =
      (store.book.history (action.target kind)).length := by
    refine h.sound.issued_length fun cp hLive hTarget => hFree (List.mem_map.mpr ⟨cp, hLive, ?_⟩)
    exact h.sound.slot_of_target (hSlots.projects hMem) hLive (hTarget.trans hFollows.target.symm)
  have hNext := hFollows.next
  have hRoom := h.history_lt hFollows.permitted
  rw [hFollows.target, ← hIssued] at hNext hRoom
  refine ⟨hRuns, ?_, ?_, hNext, ?_⟩
  · rw [hFollows.identity]
    change slot.identity ∈ store.book.creation.slots
    rw [← hSlots.identities]
    exact List.mem_map_of_mem hMem
  · cases kind with
    | generation => exact .generation (hFollows.unjudged rfl)
    | semantic => exact .semantic (h.accepted_valid (hFollows.accepted rfl)) (hFollows.accepted rfl)
  · cases kind <;> exact hRoom

/-- An action of a slot that does not block runs the stage of the slot. -/
theorem slotAction_runs {slot : SlotProgress} {policy : ExecutionPolicy}
    (h : slotAction slot policy = .ok (some action)) (hKind : action.kind ≠ .block) :
    action.kind.execution = some slot.kind := by
  obtain ⟨_, planned, cause, rfl, hPlanned⟩ := slotAction_some h
  have hPlanned : planned = slot.kind.action := hPlanned.resolve_left hKind
  simp only [SlotProgress.action, hPlanned]
  cases slot.kind <;> rfl

/-- Every ready action of a parallel plan continues the recorded calls. -/
theorem Valid.resumable_of_ready (h : store.Valid) {active : List SlotClaim} {limit : Nat} {plan : ParallelPlan}
    (hNone : store.checkpoint = none) (hActive : store.activeClaims = .ok active)
    (hPlan : store.candidatePlan store.progress active limit = .ok plan) (hAction : action ∈ plan.ready) :
    ∃ kind, store.Resumable kind action := by
  obtain ⟨_, rfl⟩ := activeClaims_ok.mp hActive
  obtain ⟨slots, hSlots, hParallel⟩ := h.sound.projectCandidateRecords_ok rfl rfl hPlan
  obtain ⟨_, slot, hSlot, hFree, hPlanned, hKind⟩ :=
    planParallel_ready (h.sound.slotsAccepted hSlots) hParallel hAction
  refine ⟨slot.kind, h.resumable_of_action hSlots hSlot ?_ hPlanned (slotAction_runs hPlanned hKind)⟩
  intro hMem
  refine hFree ?_
  rw [live_candidate hNone, List.map_map] at hMem
  rw [List.map_map, List.mem_toFinset]
  exact hMem

/-- The next execution of a Run that nobody works on continues the recorded
calls. -/
theorem Valid.resumable_of_next (h : store.Valid) (hIdle : store.live = [])
    (hNext : store.serialAction = .ok action) (hRuns : action.kind.execution = some kind) :
    store.Resumable kind action := by
  obtain ⟨projected, hProject, hSlots⟩ := h.projectSlots_ok (open_of_live_nil hIdle)
  simp only [serialAction, bind_ok] at hNext
  obtain ⟨slots, hSame, hNext⟩ := hNext
  rw [hProject, Except.ok.injEq] at hSame
  subst hSame
  have hKind : action.kind = .generation ∨ action.kind = .semantic := by
    rw [ActionKind.execution_eq hRuns]
    cases kind
    · exact .inl rfl
    · exact .inr rfl
  obtain ⟨_, slot, hSlot, hPlanned⟩ := nextAction_runs (h.sound.slotsAccepted hSlots) hNext hKind
  exact h.resumable_of_action hSlots hSlot (by simp [hIdle]) hPlanned hRuns

/-! Replacements of unknown executions. -/

/-- The recorded call of an execution. -/
theorem Valid.call_of_execution (h : store.Valid) {completion : Completion} {row : DispatchRow}
    (hMem : completion ∈ store.book.completions) (hRow : row ∈ store.dispatches)
    (hId : row.executionId = completion.executionId) : completion.Ends row.checkpoint := by
  obtain ⟨entry, hEntry, hEnds⟩ := h.sound.calls.ended completion hMem
  have hExecution : entry.executionId = completion.executionId := by
    rw [congrArg DispatchRow.executionId (h.sound.calls.recorded entry hEntry).1]
    exact hEnds.executionId.symm
  rw [← h.sound.calls.executions.eq_of_key hEntry hRow (hExecution.trans hId.symm)]
  exact hEnds

theorem Valid.replacement_aims (h : store.Valid) {row : DispatchRow} (hRow : row ∈ store.dispatches) :
    row.replacement.target row.kind = row.checkpoint.target ∧ store.Aims row.replacement row.kind := by
  have hRecorded := (h.sound.calls.recorded row hRow).1
  have hFacts := row.checkpoint.facts
  have hKind : row.kind = row.checkpoint.kind := congrArg DispatchRow.kind hRecorded
  have hSlot : row.replacement.slot = row.checkpoint.slot := by
    rw [hRecorded]
    rfl
  have hCandidate : row.replacement.candidateId = row.checkpoint.candidateId :=
    congrArg DispatchRow.candidateId hRecorded
  rw [hKind, ExecutionCheckpoint.target]
  cases hStage : row.checkpoint.kind with
  | generation =>
      refine ⟨by simp only [NextAction.target, hSlot], .generation ?_⟩
      rw [hCandidate, hFacts.generation hStage]
  | semantic =>
      refine ⟨by simp only [NextAction.target, hCandidate], .semantic ?_ ?_⟩
      · rw [hCandidate]
        exact hFacts.semantic hStage
      · rw [hSlot, hCandidate]
        exact h.sound.candidates.issued row hRow hStage

/-- In a Run that nobody works on, an undecided unknown execution is the last
call of its target. -/
theorem Valid.undecided_issued (h : store.Valid) (hIdle : store.live = []) {completion : Completion}
    {row : DispatchRow} (hMem : completion ∈ store.book.completions) (hUnknown : completion.status = .resultUnknown)
    (hNew : completion.executionId ∉ store.progress.resultUnknownResolutions.map (·.executionId))
    (hRow : row ∈ store.dispatches) (hId : row.executionId = completion.executionId) :
    row.kind = completion.kind ∧ row.checkpoint.executionOrdinal = completion.executionOrdinal ∧
    completion.executionOrdinal = (store.book.issued (row.replacement.target row.kind)).length := by
  have hEnds := h.call_of_execution hMem hRow hId
  refine ⟨?_, hEnds.executionOrdinal.symm, ?_⟩
  · rw [congrArg DispatchRow.kind (h.sound.calls.recorded row hRow).1]
    exact hEnds.kind.symm
  · rw [(h.replacement_aims hRow).1, ← hEnds.target, h.undecided_last hMem hUnknown hNew]
    refine (h.sound.issued_length fun cp hLive => ?_).symm
    have hLive : cp ∈ store.live := hLive
    rw [hIdle] at hLive
    cases hLive

/-- The repetition that a decision authorizes continues the recorded calls. -/
theorem Coherent.resumable_of_resolved (h : store.Coherent) {value : ResultUnknownResolution}
    {result : ResolutionProgress} {row : DispatchRow}
    (hResult : resolveUnknown store.progress.status (unknownExecutions store.generations store.semantics)
      store.progress.resultUnknownResolutions value store.creation.policy = .ok result)
    (hDecision : value.decision = .authorizeReplacement) (hRow : row ∈ store.dispatches)
    (hId : row.executionId = value.executionId) : store.Resumable row.kind row.replacement := by
  obtain ⟨hStatus, _, _, _, hDecides, hNew, _⟩ := resolveUnknown_ok.mp hResult
  have hIdle : store.live = [] := h.idle (by rw [hStatus]; decide)
  obtain ⟨e, hMem, hExecution, _, hBudget⟩ := hDecides
  obtain ⟨completion, hCompletion, hUnknown, rfl⟩ := h.unknown_completion hMem
  have hExecution : completion.executionId = value.executionId := hExecution
  obtain ⟨hKind, hOrdinal, hLast⟩ := h.undecided_issued hIdle hCompletion hUnknown (hExecution ▸ hNew) hRow
    (hId.trans hExecution.symm)
  refine ⟨?_, ?_, (h.replacement_aims hRow).2, ?_, ?_⟩
  · simp only [DispatchRow.replacement]
    cases row.kind <;> rfl
  · have hPlanned := h.sound.calls.planned row hRow
    have hSlot : row.replacement.slot = row.checkpoint.slot := by
      rw [(h.sound.calls.recorded row hRow).1]
      rfl
    rw [hSlot]
    exact hPlanned
  · rw [← hLast, ← hOrdinal]
    rfl
  · rw [← hLast, hKind]
    exact hBudget hDecision

/-! The list of unknown executions and the decisions about them. -/

/-- What a summary says about the recorded calls. -/
structure Summarizes (store : Store) (canResolve : Bool) (row : EvidenceRow) (dispatch : DispatchRow)
    (summary : UnknownExecutionSummary) : Prop where
  recorded : dispatch ∈ store.dispatches
  execution : dispatch.executionId = row.executionId
  executionId : summary.executionId = row.executionId
  kind : summary.kind = dispatch.kind
  slot : (summary.caseId, summary.slotOrdinal) = dispatch.slot
  candidateId : summary.candidateId = dispatch.candidateId
  finishedAt : summary.finishedAt = row.evidence.finishedAt
  allowed : summary.replacementAllowed = true ↔ canResolve = true ∧
    store.targetCalls dispatch.kind dispatch.slot dispatch.candidateId < store.creation.policy.limit dispatch.kind ∧
    store.stageCalls dispatch.kind < store.creation.policy.runLimit dispatch.kind

theorem Valid.unknownSummary_ok (h : store.Valid) {canResolve : Bool} {row : EvidenceRow}
    {summary : UnknownExecutionSummary} (hOk : store.unknownSummary canResolve row = .ok summary) :
    ∃ dispatch, store.Summarizes canResolve row dispatch summary := by
  simp only [unknownSummary, bind_ok, demand_ok, pure_ok] at hOk
  obtain ⟨dispatch, hDispatch, failure, _, allowed, hAllowed, rfl⟩ := hOk
  obtain ⟨hRecorded, hExecution⟩ := h.sound.calls.executions.dict_iff.mp hDispatch
  refine ⟨dispatch, hRecorded, hExecution, rfl, rfl, rfl, rfl, rfl, ?_⟩
  have hTarget : ((store.dispatches.filter (·.kind = dispatch.kind)).filter fun d =>
      (d.caseId, d.slotOrdinal, d.candidateId) = (dispatch.caseId, dispatch.slotOrdinal, dispatch.candidateId)).length =
      store.targetCalls dispatch.kind dispatch.slot dispatch.candidateId := by
    rw [targetCalls, List.filter_filter]
    congr 1
    refine List.filter_congr fun d _ => ?_
    rw [← Bool.decide_and, decide_eq_decide]
    simp only [DispatchRow.slot, Prod.mk.injEq]
    tauto
  rw [hTarget] at hAllowed
  unfold ExecutionPolicy.replacementAllowed at hAllowed
  split at hAllowed
  · rename_i hResolve
    simp only [ExecutionPolicy.withinBudget, bind_ok, require_ok, exists_const, pure_ok] at hAllowed
    simp [← hAllowed.2, hResolve, stageCalls]
  · rename_i hResolve
    rw [pure_ok] at hAllowed
    simp [← hAllowed, hResolve]

/-- A listed execution is an unknown completion that nobody decided about, and
whether decisions are possible depends on the status. -/
theorem Valid.listUnknowns_ok (h : store.Valid) {expectedVersion : Nat} {index : UnknownExecutionIndex}
    {summary : UnknownExecutionSummary} (hOk : store.listUnknowns expectedVersion = .ok index)
    (hMem : summary ∈ index.executions) :
    store.live = [] ∧ ∃ row dispatch, row.evidence ∈ store.book.completions ∧
      row.evidence.status = .resultUnknown ∧ row.evidence.executionId = row.executionId ∧
      row.executionId ∉ store.progress.resultUnknownResolutions.map (·.executionId) ∧
      store.Summarizes (decide (store.progress.status = .blocked)) row dispatch summary := by
  simp only [listUnknowns, bind_ok, require_ok, exists_const, pure_ok] at hOk
  obtain ⟨_, ⟨hNone, hClaims⟩, unknowns, hEvidence, _, summaries, hSummaries, rfl⟩ := hOk
  rw [loadResolutionEvidence_ok hEvidence] at hSummaries
  have hMem : summary ∈ summaries := (List.perm_insertionSort _ _).mem_iff.mp hMem
  obtain ⟨row, hRow, hSummary⟩ := mem_mapM hSummaries hMem
  obtain ⟨hRow, hUnresolved⟩ := List.mem_filter.mp hRow
  have hUnresolved := of_decide_eq_true hUnresolved
  obtain ⟨hUnknown, hNew⟩ := Finset.mem_sdiff.mp hUnresolved
  rw [List.mem_toFinset] at hUnknown hNew
  obtain ⟨e, hE, hId⟩ := List.mem_map.mp hUnknown
  obtain ⟨completion, hCompletion, hStatus, rfl⟩ := h.unknown_completion hE
  have hRowEvidence : row.evidence ∈ store.book.completions ∧ row.evidence.executionId = row.executionId := by
    rcases List.mem_append.mp hRow with hRow | hRow
    · obtain ⟨generation, hGeneration, rfl⟩ := List.mem_map.mp hRow
      exact ⟨Book.generation_mem hGeneration, (h.sound.candidates.generationIndex generation hGeneration).1⟩
    · obtain ⟨semantic, hSemantic, rfl⟩ := List.mem_map.mp hRow
      exact ⟨Book.semantic_mem hSemantic, (h.sound.candidates.semanticIndex semantic hSemantic).2.1⟩
  have hSame : completion.executionId = row.evidence.executionId := hId.trans hRowEvidence.2.symm
  rw [h.sound.calls.executions_unique.eq_of_key hCompletion hRowEvidence.1 hSame] at hStatus
  have hNonempty : store.unresolvedExecutions (unknownExecutions store.generations store.semantics) ≠ ∅ :=
    Finset.ne_empty_of_mem hUnresolved
  obtain ⟨dispatch, hSummarizes⟩ := h.unknownSummary_ok hSummary
  refine ⟨by simp [live, hNone, hClaims], row, dispatch, hRowEvidence.1, hStatus, hRowEvidence.2, hNew, ?_⟩
  simpa only [hNonempty, ne_eq, not_false_eq_true, and_true] using hSummarizes

/-- Decisions look only at the budget of the target. -/
theorem Coherent.accepts_iff (h : store.Coherent) (hStatus : store.progress.status = .blocked)
    {value : ResultUnknownResolution} {completion : Completion} (hMem : completion ∈ store.book.completions)
    (hUnknown : completion.status = .resultUnknown) (hId : completion.executionId = value.executionId)
    (hNew : value.executionId ∉ store.progress.resultUnknownResolutions.map (·.executionId))
    (hTime : completion.finishedAt ≤ value.resolvedAt) (hDecision : value.decision = .authorizeReplacement) :
    (∃ result, resolveUnknown store.progress.status (unknownExecutions store.generations store.semantics)
        store.progress.resultUnknownResolutions value store.creation.policy = .ok result) ↔
      completion.executionOrdinal < store.creation.policy.limit completion.kind := by
  constructor
  · rintro ⟨result, hResult⟩
    obtain ⟨_, _, _, _, ⟨e, hE, hSame, _, hBudget⟩, _⟩ := resolveUnknown_ok.mp hResult
    obtain ⟨other, hOther, _, rfl⟩ := h.unknown_completion hE
    have hSame : other.executionId = value.executionId := hSame
    rw [h.sound.calls.executions_unique.eq_of_key hMem hOther (hId.trans hSame.symm)]
    exact hBudget hDecision
  · intro hBudget
    have hUnknowns : unknownExecutions store.generations store.semantics =
        (store.book.completions.filter (·.status = .resultUnknown)).map Completion.asUnknown :=
      h.sound.candidates.unknownExecutions_eq
    have hResolved : Resolved (unknownExecutions store.generations store.semantics) store.creation.policy
        store.progress.resultUnknownResolutions := h.sound.decisions.resolved
    refine ⟨_, resolveUnknown_ok.mpr ⟨hStatus, ?_, hResolved.unique, ?_, ?_, hNew, rfl⟩⟩
    · rw [hUnknowns]
      exact (h.sound.calls.executions_unique.sublist List.filter_sublist).map_of fun _ _ => rfl
    · intro r hr
      obtain ⟨e, hE, hSame, hResolvedAt, _⟩ := hResolved.decides r hr
      refine ⟨⟨e, hE, hSame, hResolvedAt⟩, ?_⟩
      rw [h.continued (by rw [hStatus]; decide) r hr]
      decide
    · refine ⟨completion.asUnknown, ?_, hId, hTime, fun _ => hBudget⟩
      rw [hUnknowns]
      exact List.mem_map_of_mem (List.mem_filter.mpr ⟨hMem, decide_eq_true hUnknown⟩)

/-- The list and the decision agree unless only the budget of the Run is used
up. -/
theorem Coherent.allowed_iff (h : store.Coherent) {expectedVersion : Nat} {index : UnknownExecutionIndex}
    {summary : UnknownExecutionSummary} {value : ResultUnknownResolution}
    (hOk : store.listUnknowns expectedVersion = .ok index) (hMem : summary ∈ index.executions)
    (hId : value.executionId = summary.executionId) (hDecision : value.decision = .authorizeReplacement)
    (hTime : summary.finishedAt ≤ value.resolvedAt) :
    (summary.replacementAllowed = true ↔
        ∃ result, resolveUnknown store.progress.status (unknownExecutions store.generations store.semantics)
          store.progress.resultUnknownResolutions value store.creation.policy = .ok result) ↔
      (store.progress.status = .blocked →
        store.targetCalls summary.kind (summary.caseId, summary.slotOrdinal) summary.candidateId <
          store.creation.policy.limit summary.kind →
        store.stageCalls summary.kind < store.creation.policy.runLimit summary.kind) := by
  obtain ⟨hIdle, row, dispatch, hCompletion, hUnknown, hExecution, hNew, hSummary⟩ := h.listUnknowns_ok hOk hMem
  rw [hSummary.allowed, hSummary.kind, hSummary.slot, hSummary.candidateId, decide_eq_true_iff]
  by_cases hStatus : store.progress.status = .blocked
  · have hRowId : row.evidence.executionId = value.executionId := by
      rw [hExecution, hId, hSummary.executionId]
    obtain ⟨hKind, _, hLast⟩ := h.undecided_issued hIdle hCompletion hUnknown (hExecution ▸ hNew) hSummary.recorded
      (hSummary.execution.trans hExecution.symm)
    have hCalls := (h.replacement_aims hSummary.recorded).2.targetCalls h.toValid
    have hValueNew : value.executionId ∉ store.progress.resultUnknownResolutions.map (·.executionId) := by
      rw [← hRowId, hExecution]
      exact hNew
    rw [h.accepts_iff hStatus hCompletion hUnknown hRowId hValueNew (hSummary.finishedAt ▸ hTime) hDecision, hLast,
      ← hKind, ← hCalls]
    change (_ ∧ store.targetCalls dispatch.kind dispatch.slot dispatch.candidateId < _ ∧ _ ↔
      store.targetCalls dispatch.kind dispatch.slot dispatch.candidateId < _) ↔ _
    tauto
  · have hRefused : ¬ ∃ result, resolveUnknown store.progress.status
        (unknownExecutions store.generations store.semantics) store.progress.resultUnknownResolutions value
        store.creation.policy = .ok result := by
      rintro ⟨result, hResult⟩
      exact hStatus (resolveUnknown_ok.mp hResult).1
    simp [hStatus, hRefused]

/-! Policies under which the budgets agree. -/

/-- A slot accepts one candidate. -/
theorem Valid.accepts_unique (h : store.Valid) {slot : String × Nat} {first second : String}
    (hFirst : store.book.Accepts slot first) (hSecond : store.book.Accepts slot second) : first = second := by
  obtain ⟨row, hRow, hId, hSlot⟩ := hFirst
  obtain ⟨other, hOther, hOtherId, hOtherSlot⟩ := hSecond
  obtain ⟨_, hTarget, hLast⟩ := h.sound.accepted_last hRow hId
  obtain ⟨_, hOtherTarget, hOtherLast⟩ := h.sound.accepted_last hOther hOtherId
  rw [hSlot] at hTarget hLast
  rw [hOtherSlot] at hOtherTarget hOtherLast
  have hSame := h.sound.eq_of_ordinal (Book.generation_mem hRow) (Book.generation_mem hOther)
    (hTarget.trans hOtherTarget.symm) (hLast.trans hOtherLast.symm)
  have hInvocation : row.invocationId = other.invocationId := by
    rw [← (h.sound.candidates.generationIndex row hRow).2.1, ← (h.sound.candidates.generationIndex other hOther).2.1]
    exact congrArg Completion.invocationId hSame
  rw [h.sound.generations_unique.eq_of_key hRow hOther hInvocation, hOtherId, Option.some.injEq] at hId
  exact hId.symm

/-- All calls of a stage on one slot share their target. -/
theorem Aims.slot_calls (hAims : store.Aims action kind) (h : store.Valid) :
    ((store.dispatches.filter (·.kind = kind)).filter (·.slot = action.slot)).length ≤
      (store.book.issued (action.target kind)).length := by
  rw [← hAims.targetCalls h, Store.targetCalls, List.filter_filter, ← List.countP_eq_length_filter,
    ← List.countP_eq_length_filter]
  refine List.countP_mono_left fun row hRow hSame => ?_
  rw [Bool.and_eq_true, decide_eq_true_iff, decide_eq_true_iff] at hSame
  obtain ⟨hSlot, hKind⟩ := hSame
  refine decide_eq_true ⟨hKind, hSlot, ?_⟩
  have hRecorded := (h.sound.calls.recorded row hRow).1
  have hCandidate : row.candidateId = row.checkpoint.candidateId := congrArg DispatchRow.candidateId hRecorded
  have hStage : row.checkpoint.kind = kind := (congrArg DispatchRow.kind hRecorded).symm.trans hKind
  have hPlace : row.checkpoint.slot = action.slot := by
    rw [← hSlot, DispatchRow.slot, hRecorded]
    rfl
  rw [hCandidate]
  cases hAims with
  | generation hNone => rw [row.checkpoint.facts.generation hStage, hNone]
  | semantic _ hAccepts =>
      have hOwn := h.sound.candidates.issued row hRow hStage
      rw [hPlace] at hOwn
      exact h.accepts_unique hOwn hAccepts

theorem Valid.slot_calls_le (h : store.Valid) (kind : ExecutionKind) (slot : String × Nat) :
    ((store.dispatches.filter (·.kind = kind)).filter (·.slot = slot)).length ≤ store.creation.policy.limit kind := by
  cases hRows : (store.dispatches.filter (·.kind = kind)).filter (·.slot = slot) with
  | nil => exact Nat.zero_le _
  | cons row rest =>
      have hMem : row ∈ (store.dispatches.filter (·.kind = kind)).filter (·.slot = slot) := by
        rw [hRows]
        exact List.mem_cons_self
      obtain ⟨hStage, hSlot⟩ := List.mem_filter.mp hMem
      obtain ⟨hRow, hKind⟩ := List.mem_filter.mp hStage
      have hKind := of_decide_eq_true hKind
      have hSlot : row.replacement.slot = slot := of_decide_eq_true hSlot
      obtain ⟨hTarget, hAims⟩ := h.replacement_aims hRow
      have hCalls := hAims.slot_calls h
      rw [hKind, hSlot, hRows] at hCalls
      refine hCalls.trans ?_
      rw [← hKind, hTarget]
      have hRowKind : row.kind = row.checkpoint.kind := congrArg DispatchRow.kind (h.sound.calls.recorded row hRow).1
      have hLimit := h.sound.numbering.limits row.checkpoint.target
      rw [ExecutionCheckpoint.kind_target, ← hRowKind] at hLimit
      exact hLimit

/-- Under at most two calls for each target, and a budget of the Run for all of
them, every planned execution can be dispatched. -/
theorem Resumable.hasRoom (hAction : store.Resumable kind action) (h : store.Valid)
    (hSmall : store.creation.policy.limit kind ≤ 2)
    (hWide : 35 * store.creation.policy.limit kind ≤ store.creation.policy.runLimit kind) : store.HasRoom action := by
  intro stage hStage
  obtain rfl : kind = stage := Option.some.inj (hAction.runs.symm.trans hStage)
  have hRoom := hAction.room
  refine ⟨?_, ?_⟩
  · rw [hAction.aims.targetCalls h]
    omega
  · refine Nat.lt_of_lt_of_le ?_ hWide
    rw [← store.creation.slots_length]
    refine length_lt_of_fibres DispatchRow.slot ?_ ?_ hAction.planned ?_
    · intro row hRow
      have hRow := (List.mem_filter.mp hRow).1
      have hPlanned := h.sound.calls.planned row hRow
      rw [DispatchRow.slot, congrArg DispatchRow.caseId (h.sound.calls.recorded row hRow).1,
        congrArg DispatchRow.slotOrdinal (h.sound.calls.recorded row hRow).1]
      exact hPlanned
    · exact fun slot _ => h.slot_calls_le kind slot
    · exact Nat.lt_of_le_of_lt (hAction.aims.slot_calls h) hRoom

end Store

/-- The executions that a Run offers to its workers: the ready actions of the
parallel plan, the next action when nobody works on it, and the repetition of an
unknown execution that a decision authorizes. -/
inductive Store.Offers (store : Store) : NextAction → Prop
  | ready {active : List SlotClaim} {limit : Nat} {plan : ParallelPlan} {action : NextAction}
      (hMode : store.creation.mode = .candidateV2) (hActive : store.activeClaims = .ok active)
      (hPlan : store.candidatePlan store.progress active limit = .ok plan) (hAction : action ∈ plan.ready) :
      Offers store action
  | next {action : NextAction} {kind : ExecutionKind} (hIdle : store.live = [])
      (hNext : store.serialAction = .ok action) (hRuns : action.kind.execution = some kind) : Offers store action
  | replacement {value : ResultUnknownResolution} {result : ResolutionProgress} {row : DispatchRow}
      (hResult : resolveUnknown store.progress.status (unknownExecutions store.generations store.semantics)
        store.progress.resultUnknownResolutions value store.creation.policy = .ok result)
      (hDecision : value.decision = .authorizeReplacement) (hRow : row ∈ store.dispatches)
      (hId : row.executionId = value.executionId) : Offers store row.replacement

theorem Store.Coherent.resumable {store : Store} (h : store.Coherent) {action : NextAction}
    (hOffers : store.Offers action) : ∃ kind, store.Resumable kind action := by
  cases hOffers with
  | ready hMode hActive hPlan hAction =>
      exact h.resumable_of_ready (h.shaped.candidate hMode) hActive hPlan hAction
  | next hIdle hNext hRuns => exact ⟨_, h.resumable_of_next hIdle hNext hRuns⟩
  | replacement hResult hDecision hRow hId => exact ⟨_, h.resumable_of_resolved hResult hDecision hRow hId⟩

/-- Under a policy whose limits fit together, like two calls for each target and
seventy for the Run, every offered execution can be dispatched. -/
theorem offered_work_fits {creation : Creation} {now : DateTime} {store : Store}
    (hReaches : Reaches (fun _ _ _ => True) creation now store) (hSmall : ∀ kind, creation.policy.limit kind ≤ 2)
    (hWide : ∀ kind, 35 * creation.policy.limit kind ≤ creation.policy.runLimit kind) {action : NextAction}
    (hOffers : store.Offers action) : store.Dispatchable action := by
  obtain ⟨hCoherent, rfl⟩ := hReaches.coherent
  obtain ⟨kind, hResumable⟩ := hCoherent.resumable hOffers
  exact (hResumable.dispatchable_iff hCoherent.toValid).mpr
    (hResumable.hasRoom hCoherent.toValid (hSmall kind) (hWide kind))

/-- An offered execution of a reachable Run can be dispatched exactly when at
most one call of its target and fewer than the limit of the Run are recorded,
and the list of unknown executions agrees with the decisions unless the budget
of the Run alone is used up. -/
theorem planned_work_dispatchable {creation : Creation} {now : DateTime} {store : Store}
    (hReaches : Reaches (fun _ _ _ => True) creation now store) :
    (∀ action, store.Offers action → (store.Dispatchable action ↔ store.HasRoom action)) ∧
    ∀ expectedVersion index, store.listUnknowns expectedVersion = .ok index → ∀ summary ∈ index.executions,
      ∀ value, value.executionId = summary.executionId → value.decision = .authorizeReplacement →
        summary.finishedAt ≤ value.resolvedAt →
      ((summary.replacementAllowed = true ↔
          ∃ result, resolveUnknown store.progress.status (unknownExecutions store.generations store.semantics)
            store.progress.resultUnknownResolutions value creation.policy = .ok result) ↔
        (store.progress.status = .blocked →
          store.targetCalls summary.kind (summary.caseId, summary.slotOrdinal) summary.candidateId <
            creation.policy.limit summary.kind →
          store.stageCalls summary.kind < creation.policy.runLimit summary.kind)) := by
  obtain ⟨hCoherent, rfl⟩ := hReaches.coherent
  constructor
  · intro action hOffers
    obtain ⟨kind, hResumable⟩ := hCoherent.resumable hOffers
    exact hResumable.dispatchable_iff hCoherent.toValid
  · intro expectedVersion index hOk summary hMem value hId hDecision hTime
    exact hCoherent.allowed_iff hOk hMem hId hDecision hTime

/-! One generation for the whole Run, and its result is unknown. -/

namespace Pilot

def tightPolicy : ExecutionPolicy := { policy with generationPerRun := 1 }

def tightCreation : Creation :=
  { creation .candidateV2 with
    policy := tightPolicy
    frozen := by constructor <;> decide
    cases := by decide }

theorem replaceFirst_audit : validId "e1" = true ∧ validId "operator" = true ∧ validReason "retry" = true := by
  decide

def replaceFirst : ResultUnknownResolution :=
  ⟨"e1", .authorizeReplacement, "operator", "retry", clock 10, replaceFirst_audit⟩

/-- The first call was dispatched, and its lease expired. -/
def interrupted : List ScriptStep := start ++ [lease 1 "e1" 1, expire 7]

/-- The list shows the first call alone, with the given answer. -/
def lists (allowed : Bool) (store : Store) : Bool :=
  (store.listUnknowns store.version).toOption.any fun index =>
    index.executions.map (fun summary => (summary.executionId, summary.replacementAllowed)) = [("e1", allowed)]

/-- The decision to repeat the first call is accepted. -/
def replaces (store : Store) : Bool :=
  (resolveUnknown store.progress.status (unknownExecutions store.generations store.semantics)
    store.progress.resultUnknownResolutions replaceFirst store.creation.policy).toOption.isSome

/-- The first call alone was recorded, and a worker can or cannot repeat it. -/
def repeats (possible : Bool) (store : Store) : Bool :=
  store.dispatches.map (fun row => (row.executionId, row.kind,
    (store.planAction row.replacement Store.someWorker).toOption.isSome)) = [("e1", .generation, possible)]

theorem replaces_offers {store : Store} (hReplaces : replaces store = true) {row : DispatchRow}
    (hRow : row ∈ store.dispatches) (hId : row.executionId = "e1") : store.Offers row.replacement := by
  obtain ⟨result, hResult⟩ := Option.isSome_iff_exists.mp hReplaces
  exact .replacement (toOption_some.mp hResult) rfl hRow hId

theorem repeats_row {store : Store} {possible : Bool} (h : repeats possible store = true) :
    ∃ row ∈ store.dispatches, row.executionId = "e1" ∧ row.kind = .generation ∧
      (store.planAction row.replacement Store.someWorker).toOption.isSome = possible := by
  have hRows := of_decide_eq_true h
  obtain ⟨row, hMem, hRow⟩ := List.mem_map.mp (hRows ▸ List.mem_singleton_self _)
  simp only [Prod.mk.injEq] at hRow
  exact ⟨row, hMem, hRow⟩

end Pilot

/-- With one generation for the Run the decision accepts a replacement that the
list excludes and that no worker can dispatch. -/
theorem planned_work_undispatchable :
    (∃ definition, executionPolicy definition = .ok Pilot.tightPolicy) ∧
    ∃ now store, Reaches (fun _ _ _ => True) Pilot.tightCreation now store ∧
      (∃ action, store.Offers action ∧ ¬ store.Dispatchable action) ∧
      (∃ index, store.listUnknowns store.version = .ok index ∧ ∃ summary ∈ index.executions,
        summary.executionId = Pilot.replaceFirst.executionId ∧ summary.replacementAllowed = false) ∧
      ∃ result, resolveUnknown store.progress.status (unknownExecutions store.generations store.semantics)
        store.progress.resultUnknownResolutions Pilot.replaceFirst Pilot.tightPolicy = .ok result := by
  refine ⟨executionPolicy_iff.mpr Pilot.tightCreation.frozen, ?_⟩
  obtain ⟨now, store, hReaches, hCheck⟩ := exists_reaches (fun _ _ _ => True) Pilot.tightCreation Pilot.interrupted
    (fun store => Pilot.lists false store && Pilot.replaces store && Pilot.repeats false store) (by decide)
  simp only [Bool.and_eq_true] at hCheck
  obtain ⟨⟨hLists, hReplaces⟩, hRepeats⟩ := hCheck
  refine ⟨now, store, hReaches, ?_, ?_, ?_⟩
  · obtain ⟨row, hRow, hId, _, hRefused⟩ := Pilot.repeats_row hRepeats
    refine ⟨row.replacement, Pilot.replaces_offers hReplaces hRow hId, fun hDispatch => ?_⟩
    obtain ⟨record, hRecord⟩ := hDispatch Store.someWorker
    rw [hRecord] at hRefused
    cases hRefused
  · obtain ⟨index, hIndex, hListed⟩ := (Option.any_eq_true _ _).mp hLists
    refine ⟨index, toOption_some.mp hIndex, ?_⟩
    have hRows := of_decide_eq_true hListed
    obtain ⟨summary, hMem, hSummary⟩ := List.mem_map.mp (hRows ▸ List.mem_singleton_self _)
    simp only [Prod.mk.injEq] at hSummary
    exact ⟨summary, hMem, hSummary⟩
  · obtain ⟨result, hResult⟩ := Option.isSome_iff_exists.mp hReplaces
    have hPolicy : store.creation.policy = Pilot.tightPolicy := by
      rw [hReaches.coherent.2]
      rfl
    rw [hPolicy] at hResult
    exact ⟨result, toOption_some.mp hResult⟩

theorem planned_work_dispatchable_pilot : ∃ now store,
    Reaches (fun _ _ _ => True) (Pilot.creation .candidateV2) now store ∧
    ∃ row ∈ store.dispatches, store.HasRoom row.replacement ∧ store.Dispatchable row.replacement := by
  obtain ⟨now, store, hReaches, hCheck⟩ := exists_reaches (fun _ _ _ => True) (Pilot.creation .candidateV2)
    Pilot.interrupted (fun store => Pilot.replaces store && Pilot.repeats true store &&
      store.dispatches.all fun row => decide (store.targetCalls row.kind row.slot row.candidateId < 2 ∧
        store.stageCalls row.kind < store.creation.policy.runLimit row.kind)) (by decide)
  simp only [Bool.and_eq_true] at hCheck
  obtain ⟨⟨hReplaces, hRepeats⟩, hRooms⟩ := hCheck
  obtain ⟨row, hRow, hId, hKind, _⟩ := Pilot.repeats_row hRepeats
  have hRoom : store.HasRoom row.replacement := by
    intro kind hRuns
    have hSame : kind = row.kind := by
      simp only [DispatchRow.replacement, hKind] at hRuns
      cases hRuns
      exact hKind.symm
    subst hSame
    exact of_decide_eq_true (List.all_eq_true.mp hRooms row hRow)
  exact ⟨now, store, hReaches, row, hRow, hRoom,
    ((planned_work_dispatchable hReaches).1 _ (Pilot.replaces_offers hReplaces hRow hId)).mpr hRoom⟩

end QsAi
