import QsAi.Run.Script

/-! A serial Run and its planner look at a failed call independently: the
completion decides whether the Run is blocked, and the planner decides from the
slot's history what comes next. They never disagree. -/
namespace QsAi

open Guarded

/-- What the planner sees of a completion that nobody has decided about yet. -/
def Completion.result (completion : Completion) : ResultFields := { status := completion.status, failure := completion.failure }

namespace Completion

variable (completion : Completion)

theorem status_facts : (completion.status = .succeeded → completion.failure = none) ∧
    (completion.status ≠ .succeeded →
      ∃ failure, completion.failure = some failure ∧ failure.resultUnknown = (completion.status == .resultUnknown)) := by
  cases completion with
  | generation value => exact ⟨fun h => (value.status_facts.1 h).2.2, value.status_facts.2⟩
  | semantic value => exact ⟨fun h => (value.status_facts.1 h).2.2, value.status_facts.2⟩

/-- The evidence of a completion is always a result the planner can read. -/
theorem result_checked : completion.result.check = .ok () := by
  rw [ResultFields.check, require_bind_pos (by simp [result]), require_bind_pos (by simp [result])]
  exact (require_ok _ _ _).mpr completion.status_facts.1

def executionResult : ExecutionResult := ⟨completion.result, completion.result_checked⟩

end Completion

namespace CandidateProgress

/-- The candidate with one more judge call. -/
def append (candidate : CandidateProgress) (result : ExecutionResult) : CandidateProgress where
  toCandidateFields := { candidate.toCandidateFields with semantic := candidate.semantic ++ [result] }
  checked := by
    have h := candidate.checked
    simp only [CandidateFields.check, bind_ok, require_ok, exists_const] at h ⊢
    refine ⟨h.1, fun hReady => ?_⟩
    obtain ⟨judged, hMem, hSucceeded⟩ := h.2 hReady
    exact ⟨judged, List.mem_append_left _ hMem, hSucceeded⟩

end CandidateProgress

namespace SlotProgress

/-- The slot with one more execution of the stage it is in. -/
def append (slot : SlotProgress) (result : ExecutionResult) : SlotProgress where
  toSlotFields :=
    match slot.candidate with
    | none => { slot.toSlotFields with generation := slot.generation ++ [result] }
    | some candidate => { slot.toSlotFields with candidate := some (candidate.append result) }
  checked := by
    have h := slot.checked
    simp only [SlotFields.check, bind_ok, require_ok, exists_const] at h ⊢
    cases hCandidate : slot.candidate with
    | none => exact ⟨h.1, fun hSome => absurd rfl hSome⟩
    | some candidate => exact ⟨h.1, fun _ => h.2 (by simp [hCandidate])⟩

variable (slot : SlotProgress) (result : ExecutionResult)

theorem append_executions : (slot.append result).executions = slot.executions ++ [result] := by
  cases hCandidate : slot.candidate with
  | none => simp [append, executions, hCandidate]
  | some candidate => simp [append, executions, hCandidate, CandidateProgress.append]

theorem append_kind : (slot.append result).kind = slot.kind := by
  cases hCandidate : slot.candidate with
  | none => simp [append, kind, hCandidate]
  | some candidate => simp [append, kind, hCandidate]

theorem append_reviewReady : (slot.append result).reviewReady = slot.reviewReady := by
  cases hCandidate : slot.candidate with
  | none => simp [append, reviewReady, hCandidate]
  | some candidate => simp [append, reviewReady, hCandidate, CandidateProgress.append]

theorem append_candidateId : (slot.append result).candidateId = slot.candidateId := by
  cases hCandidate : slot.candidate with
  | none => simp [append, candidateId, hCandidate]
  | some candidate => simp [append, candidateId, hCandidate, CandidateProgress.append]

theorem append_identity : (slot.append result).identity = slot.identity := by
  cases hCandidate : slot.candidate with
  | none => simp [append, identity, hCandidate]
  | some candidate => simp [append, identity, hCandidate]

/-- The history of the slot is one the Run can have when it accepts this
completion: the completion is of the stage the slot is in, carries the next
ordinal of that stage, and nothing is ready for review yet. -/
structure Awaits (slot : SlotProgress) (completion : Completion) : Prop where
  stage : slot.kind = completion.kind
  collecting : slot.reviewReady = false
  ordinal : completion.executionOrdinal = slot.executions.length + 1

end SlotProgress

/-- The Run was collecting, and this change blocked it for the given cause. -/
def Progress.Blocks (progress next : Progress) (cause : Cause) : Prop :=
  progress.status = .collecting ∧ next.status = .blocked ∧
    ∃ transition, next.transitions = progress.transitions ++ [transition] ∧ transition.source = some .collecting ∧
      transition.target = .blocked ∧ transition.cause = cause

/-- The progress of a serial Run after one completion, of whichever stage. -/
def serialProgress (progress : Progress) (completion : Completion) (policy : ExecutionPolicy) (owner : String) : Progress :=
  match completion with
  | .generation value => generationCompletionProgress progress value policy owner false
  | .semantic value => semanticCompletionProgress progress value policy owner false

theorem serialProgress_eq (progress : Progress) (completion : Completion) (policy : ExecutionPolicy) (owner : String) :
    serialProgress progress completion policy owner = completionProgress progress completion policy owner false := by
  cases completion with
  | generation value => rfl
  | semantic value => rfl

/-- A completion blocks a collecting Run exactly for its own cause. -/
theorem serialProgress_blocks {progress : Progress} (hCollecting : progress.status = .collecting) (completion : Completion)
    (policy : ExecutionPolicy) (owner : String) (cause : Cause) :
    progress.Blocks (serialProgress progress completion policy owner) cause ↔
      completionCause policy completion = some cause := by
  rw [serialProgress_eq, completionProgress]
  cases hCause : completionCause policy completion with
  | none =>
      simp only [Progress.Blocks, reduceCtorEq, iff_false]
      rintro ⟨-, hBlocked, -⟩
      split at hBlocked <;> simp [hCollecting] at hBlocked
  | some found =>
      simp only [Progress.Blocks, Bool.false_eq_true, if_false, Option.some.injEq]
      constructor
      · rintro ⟨-, -, transition, hTransitions, -, -, rfl⟩
        split at hTransitions
        · rw [List.append_cancel_left_eq, List.singleton_inj] at hTransitions
          rw [← hTransitions]
        · rw [List.append_cancel_left_eq, List.singleton_inj] at hTransitions
          rw [← hTransitions]
      · rintro rfl
        refine ⟨hCollecting, trivial, ?_⟩
        split
        · exact ⟨_, rfl, rfl, rfl, rfl⟩
        · exact ⟨_, rfl, rfl, rfl, rfl⟩

/-- The planner's answer to a slot whose last execution failed or is unknown. -/
theorem afterLast_appended {slot : SlotProgress} {completion : Completion} (policy : ExecutionPolicy)
    (hAwaits : slot.Awaits completion) (hEnded : completion.status ≠ .succeeded) :
    afterLast (slot.append completion.executionResult) policy completion.executionResult =
      .ok (match completionCause policy completion with
        | some cause => (slot.append completion.executionResult).action .block cause
        | none => (slot.append completion.executionResult).action completion.kind.action completion.kind.recoveryAllowed) := by
  have hLength : (slot.append completion.executionResult).executions.length = completion.executionOrdinal := by
    rw [SlotProgress.append_executions, List.length_append, hAwaits.ordinal]
    rfl
  have hStatus : completion.executionResult.status = completion.status := rfl
  have hFailure : completion.executionResult.failure = completion.failure := rfl
  have hReplacement : completion.executionResult.replacementAuthorized = false := rfl
  have hRecovery : completion.executionResult.contractRecoveryAuthorized = false := rfl
  rw [afterLast, hStatus, hFailure, hReplacement, hRecovery, SlotProgress.append_kind, hAwaits.stage, hLength]
  cases hCase : completion.status with
  | succeeded => exact absurd hCase hEnded
  | resultUnknown => simp [completionCause, hCase]
  | failed =>
      simp only [completionCause, hCase, failureCause, reduceCtorEq, false_and, if_false, Bool.false_eq_true,
        Nat.lt_add_one_iff]
      by_cases hBudget : policy.limit completion.kind ≤ completion.executionOrdinal
      · rw [if_pos hBudget, if_pos hBudget]
      · rw [if_neg hBudget, if_neg hBudget]
        by_cases hAllowed : completion.failure.any (policy.allowsRecovery completion.kind) = true
        · rw [if_pos hAllowed, if_pos hAllowed]
        · rw [if_neg hAllowed, if_neg hAllowed]

/-- A failed or unknown completion blocks the serial Run for a cause exactly when
the planner blocks the slot for that cause; otherwise the planner proposes the
next ordinal of the same stage. -/
theorem serial_progress_agrees (policy : ExecutionPolicy) (slot : SlotProgress) (completion : Completion)
    (progress : Progress) (owner : String) (hAwaits : slot.Awaits completion) (hEnded : completion.status ≠ .succeeded)
    (hCollecting : progress.status = .collecting) :
    ∃ action, slotAction (slot.append completion.executionResult) policy = .ok (some action) ∧
      (∀ cause, progress.Blocks (serialProgress progress completion policy owner) cause ↔
        action.kind = .block ∧ action.cause = cause) ∧
      ((∀ cause, ¬ progress.Blocks (serialProgress progress completion policy owner) cause) →
        action.kind = completion.kind.action ∧ action.executionOrdinal = completion.executionOrdinal + 1 ∧
        action.slot = slot.identity ∧ action.candidateId = slot.candidateId) := by
  have hOpen : (slot.append completion.executionResult).reviewReady = false := by
    rw [SlotProgress.append_reviewReady, hAwaits.collecting]
  have hLast : (slot.append completion.executionResult).executions.getLast? = some completion.executionResult := by
    rw [SlotProgress.append_executions, List.getLast?_concat]
  have hLength : (slot.append completion.executionResult).executions.length = completion.executionOrdinal := by
    rw [SlotProgress.append_executions, List.length_append, hAwaits.ordinal]
    rfl
  have hIdentity := slot.append_identity completion.executionResult
  rw [slotAction, hOpen, hLast]
  simp only [Bool.false_eq_true, if_false]
  rw [afterLast_appended policy hAwaits hEnded]
  refine ⟨_, rfl, ?_, ?_⟩
  · intro cause
    rw [serialProgress_blocks hCollecting]
    cases completionCause policy completion with
    | none => cases completion.kind <;> simp [SlotProgress.action, ExecutionKind.action]
    | some found => simp [SlotProgress.action]
  · intro hNone
    cases hCause : completionCause policy completion with
    | some found => exact absurd ((serialProgress_blocks hCollecting ..).mpr hCause) (hNone found)
    | none =>
        refine ⟨rfl, ?_, ?_, slot.append_candidateId _⟩
        · rw [SlotProgress.action, hLength]
        · exact hIdentity

namespace Pilot

/-- A call that the provider broke off. -/
def disrupted : ClassifiedFailure where
  stage := .generationExecution
  kind := .infrastructureExecution
  code := "provider_unavailable"
  retryable := true
  resultUnknown := false
  disposition := .retryGeneration
  safeMessage := "Provider unavailable"
  evidenceRefs := ["execution-1"]
  checked := by decide +kernel

/-- The first call of a slot failed. -/
def disruptedCall : GenerationCompletion where
  executionId := "execution-1"
  caseId := "case-1"
  slotOrdinal := 1
  executionOrdinal := 1
  invocationId := "invocation-1"
  status := .failed
  startedAt := clock 1
  finishedAt := clock 2
  providerCallCount := 0
  failure := some disrupted
  checked := by decide +kernel

/-- A slot without history waits for its first call; the failure is not one that
the policy retries, so both sides block. -/
theorem serial_progress_agrees_disrupted :
    emptySlot.Awaits (.generation disruptedCall) ∧
    ∃ action, slotAction (emptySlot.append (Completion.generation disruptedCall).executionResult) policy = .ok (some action) ∧
      action.kind = .block ∧ action.cause = .generationRecoveryNotAllowed := by
  have hAwaits : emptySlot.Awaits (.generation disruptedCall) := ⟨rfl, rfl, rfl⟩
  have hCause : completionCause policy (.generation disruptedCall) = some .generationRecoveryNotAllowed := by decide +kernel
  let progress : Progress := { status := .collecting, transitions := [] }
  obtain ⟨action, hAction, hAgrees, -⟩ := serial_progress_agrees policy emptySlot (.generation disruptedCall) progress
    "worker" hAwaits (by decide) rfl
  exact ⟨hAwaits, action, hAction, (hAgrees _).mp ((serialProgress_blocks rfl ..).mpr hCause)⟩

end Pilot

end QsAi
