import QsAi.Run.ReviewSteps

/-! What a transaction can do to the record of a Run. Both execution modes and
all operations share these changes; everything that holds of every Run is
derived from them. -/
namespace QsAi

open Guarded Keyed Numbered

/-- What happened in a transaction, with the time it recorded. -/
inductive Event
  | decided (time : DateTime)
  | prepared (time : DateTime)
  | dispatched (time : DateTime)
  | renewed
  | released (time : DateTime)
  | ended (status : CompletionStatus) (time : DateTime)
  | canceled (time : DateTime)
  | drained (time : DateTime)
  | reviewed (time : DateTime)
deriving DecidableEq

def Completion.event (completion : Completion) : Event := .ended completion.status completion.finishedAt

namespace Store

/-- Only the owners of the Run changed, and perhaps its list of expiries. -/
structure Keeps (store next : Store) : Prop where
  shaped : next.Shaped
  creation : next.creation = store.creation
  generations : next.generations = store.generations
  semantics : next.semantics = store.semantics
  progress : next.progress = { store.progress with recoveries := next.progress.recoveries }

/-- How a serial Run goes on after a completion. -/
inductive Concludes (store next : Store) (owner : String) (completion : Completion) : Prop
  | continues (hCause : completionCause store.creation.policy completion = none)
      (hStatus : next.progress.status = store.progress.status)
      (hTransitions : next.progress.transitions = store.progress.transitions)
  | blocks {cause : Cause} (hCause : completionCause store.creation.policy completion = some cause)
      (hStatus : next.progress.status = .blocked)
      (hTransitions : next.progress.transitions = store.progress.transitions ++
        [{ source := some .collecting, target := .blocked, cause, actor := strip owner
           time := completion.finishedAt, evidenceRefs := [completion.executionId] }])
  | closes {slots : List SlotProgress} {preflight : PreflightEvidence} {action : NextAction}
      (hSucceeded : completion.status = .succeeded) (hKind : completion.kind = .semantic)
      (hUncanceled : store.progress.cancelRequested = none)
      (hSlots : projectSlots next.creation.slots next.generations next.dispatches next.semantics
        next.progress.resultUnknownResolutions next.progress.semanticContractRecoveries next.creation.policy =
          .ok slots)
      (hPreflight : next.progress.preflight = some preflight)
      (hAction : nextAction .collecting preflight.status preflight.caseId slots next.creation.policy none
        next.progress.unresolvedResultUnknownCount = .ok action)
      (hReview : action.kind = .awaitReview)
      (hStatus : next.progress.status = .awaitingReview)
      (hTransitions : next.progress.transitions = store.progress.transitions ++
        [{ source := some .collecting, target := .awaitingReview, actor := strip owner
           cause := .candidateEvidenceComplete, time := completion.finishedAt
           evidenceRefs := [completion.executionId] }])

/-- The changes of a Run. -/
inductive Change (store : Store) : Event → Store → Prop
  | start {target : RunStatus} {actor reason : String} {time : DateTime} (hIdle : store.checkpoint = none)
      (hStatus : store.progress.status = .requested) (hTarget : target = .collecting ∨ target = .canceled)
      (hActor : validId actor = true) :
      Change store (.decided time) { store with
        version := store.version + 1
        progress := { store.progress with
          status := target
          transitions := store.progress.transitions ++
            [{ source := some .requested, target, actor, time
               cause := if target = .collecting then .evaluationStarted else .evaluationCanceled
               reason := some reason }]
          canceledAt := if target = .canceled then some time else store.progress.canceledAt } }
  | preflight {evidence : PreflightEvidence} (hIdle : store.checkpoint = none)
      (hStatus : store.progress.status = .collecting) (hNone : store.progress.preflight = none)
      (hCase : evidence.caseId = store.creation.preflightCaseId) :
      Change store (.decided evidence.evaluatedAt) { store with
        version := store.version + 1
        progress := if evidence.status = .failed then
            { store.progress with
              preflight := some evidence
              status := .blocked
              transitions := store.progress.transitions ++
                [{ source := some .collecting, target := .blocked, cause := .preflightFailed
                   actor := "system:runner", time := evidence.evaluatedAt, evidenceRefs := [evidence.caseId] }] }
          else { store.progress with preflight := some evidence } }
  | prepare {cp : ExecutionCheckpoint} {next : Store} (hOpens : store.Opens cp) (hKeeps : store.Keeps next)
      (hDispatches : next.dispatches = store.dispatches) (hLive : next.live.Perm (cp :: store.live)) :
      Change store (.prepared cp.claimedAt) next
  | dispatch {cp dispatched : ExecutionCheckpoint} {rest : List ExecutionCheckpoint} {time : DateTime} {next : Store}
      (hStatus : store.progress.status = .collecting) (hUncanceled : store.progress.cancelRequested = none)
      (hPassed : ∃ preflight ∈ store.progress.preflight, preflight.status = .passed)
      (hResolved : store.creation.mode = .candidateV2 → store.progress.unresolvedResultUnknownCount = 0)
      (hDispatches : cp.Dispatches dispatched) (hStarted : dispatched.dispatchStartedAt = some time)
      (hRecord : store.book.Recordable dispatched) (hKeeps : store.Keeps next)
      (hRecorded : next.dispatches = store.dispatches ++ [DispatchRow.record dispatched])
      (hLive : store.live.Perm (cp :: rest)) (hNext : next.live.Perm (dispatched :: rest)) :
      Change store (.dispatched time) next
  | renew {cp renewed : ExecutionCheckpoint} {rest : List ExecutionCheckpoint} {next : Store}
      (hCall : renewed.call = cp.call) (hKeeps : store.Keeps next) (hDispatches : next.dispatches = store.dispatches)
      (hLive : store.live.Perm (cp :: rest)) (hNext : next.live.Perm (renewed :: rest)) :
      Change store .renewed next
  | release {event : Event} {time : DateTime} {cp : ExecutionCheckpoint} {rest : List ExecutionCheckpoint}
      {next : Store} (hEvent : event = .released time ∨ event = .ended .resultUnknown time)
      (hPhase : cp.phase = .prepared) (hKeeps : store.Keeps next) (hDispatches : next.dispatches = store.dispatches)
      (hLive : store.live.Perm (cp :: rest)) (hNext : next.live.Perm rest) :
      Change store event next
  | drain {claim : SlotClaim} {actor : String} {completion : Completion} {next : Store}
      (hEnded : store.Ended next claim.checkpoint completion) (hDrains : store.Drains next claim actor completion) :
      Change store completion.event next
  | settle {cp : ExecutionCheckpoint} {owner : String} {completion : Completion} {next : Store}
      (hOwner : cp.owner = strip owner) (hSettles : store.Settles next cp)
      (hEnded : store.Ended next cp completion) (hConcludes : store.Concludes next owner completion) :
      Change store completion.event next
  | resolve {value : ResultUnknownResolution} {result : ResolutionProgress} (hIdle : store.checkpoint = none)
      (hClaims : store.creation.mode = .candidateV2 → store.claims = []) (hStatus : store.progress.status = .blocked)
      (hResult : resolveUnknown .blocked (unknownExecutions store.generations store.semantics)
        store.progress.resultUnknownResolutions value store.creation.policy = .ok result)
      (hDrained : store.progress.cancelRequested ≠ none → result.status = .canceled → result.unresolvedCount = 0) :
      Change store (.decided value.resolvedAt) { store with
        version := store.version + 1
        progress := { store.progress with
          status := result.status
          unresolvedResultUnknownCount := result.unresolvedCount
          resultUnknownResolutions := result.resolutions
          transitions := if result.status = .blocked then store.progress.transitions
            else store.progress.transitions ++
              [{ source := some .blocked, target := result.status
                 cause := if result.status = .canceled then .resultUnknownRunCanceled else .manualRecoveryApproved
                 actor := value.actor, time := value.resolvedAt, evidenceRefs := [value.executionId] }]
          canceledAt := if result.status = .canceled then some value.resolvedAt else store.progress.canceledAt } }
  | recover {value : ContractRecovery} {block : Transition} {target : SemanticCompletion} {next : Store}
      (hRecovers : store.Recovers next value block target) : Change store (.decided value.resolvedAt) next
  | requestCancel {decision : CancellationDecision} {next : Store} (hRequests : store.Requests next decision) :
      Change store (.canceled decision.canceledAt) next
  | endCanceled {event : Event} {decision : CancellationDecision} {now : DateTime} {record : CancellationRecord}
      {next : Store} (hEvent : event = .canceled decision.canceledAt ∨ ∃ time intent, event = .drained time ∧
        store.progress.cancelRequested = some intent ∧ decision.canceledAt = DateTime.latest time [intent.requestedAt])
      (hEnds : store.EndsCanceled next decision now record) : Change store event next
  | review {time : DateTime} {next : Store} (hReviews : store.Reviews next time) : Change store (.reviewed time) next
  | unchanged {event : Event} (hEvent : ∃ time, event = .drained time ∨ event = .reviewed time) :
      Change store event store

variable {store next : Store} {event : Event}

/-- What a Run froze at its creation never changes. -/
theorem Change.creation (hChange : store.Change event next) : next.creation = store.creation := by
  cases hChange with
  | prepare hOpens hKeeps => exact hKeeps.creation
  | dispatch _ _ _ _ _ _ _ hKeeps => exact hKeeps.creation
  | renew _ hKeeps => exact hKeeps.creation
  | release _ _ hKeeps => exact hKeeps.creation
  | drain _ hDrains => exact hDrains.creation
  | settle _ hSettles => exact hSettles.creation
  | recover hRecovers => rw [hRecovers.next]
  | requestCancel hRequests => rw [hRequests.next]
  | endCanceled _ hEnds => rw [hEnds.next]
  | review hReviews => rw [hReviews.reviewed.next]
  | _ => rfl

/-! A change keeps the Run valid. -/

theorem Keeps.book (h : store.Keeps next) (hDispatches : next.dispatches = store.dispatches) :
    next.book = { store.book with live := next.live } := by
  unfold Store.book
  rw [h.creation, h.generations, h.semantics, hDispatches, h.progress]

/-- A valid Run stays valid when only its owners change. -/
theorem Keeps.valid (h : store.Keeps next) (hValid : store.Valid) (hSound : next.book.Sound) : next.Valid := by
  refine ⟨h.shaped, hSound, ?_⟩
  rw [h.generations, h.semantics, h.progress]
  exact hValid.counted

theorem Keeps.rebook (h : store.Keeps next) {row : DispatchRow} (hDispatches : next.dispatches = store.dispatches ++ [row]) :
    next.book = { store.book with live := next.live, dispatches := store.book.dispatches ++ [row] } := by
  unfold Store.book
  rw [h.creation, h.generations, h.semantics, hDispatches, h.progress]

/-- Each unknown execution is decided once. -/
theorem resolutions_le {unknowns : List UnknownExecution} {policy : ExecutionPolicy}
    {resolutions : List ResultUnknownResolution} (h : Resolved unknowns policy resolutions) :
    resolutions.length ≤ unknowns.length := by
  have hSub : (resolutions.map (·.executionId)).Subperm (unknowns.map (·.executionId)) := by
    refine List.subperm_of_subset h.unique ?_
    intro id hId
    obtain ⟨r, hr, rfl⟩ := List.mem_map.mp hId
    obtain ⟨e, hMem, hSame, _⟩ := h.decides r hr
    exact List.mem_map.mpr ⟨e, hMem, hSame⟩
  simpa using hSub.length_le

/-- A Run with another progress and without new evidence. -/
theorem Valid.of_progress (h : store.Valid) {version : Nat} {progress : Progress}
    (hUnresolved : progress.unresolvedResultUnknownCount = store.progress.unresolvedResultUnknownCount)
    (hResolutions : progress.resultUnknownResolutions = store.progress.resultUnknownResolutions)
    (hRecoveries : progress.semanticContractRecoveries = store.progress.semanticContractRecoveries) :
    Valid { store with version, progress } := by
  refine ⟨⟨h.shaped.serial, h.shaped.candidate, h.shaped.index⟩, ?_, ?_⟩
  · have hBook : Store.book { store with version, progress } = store.book := by
      unfold Store.book Store.live
      rw [hResolutions, hRecoveries]
    rw [hBook]
    exact h.sound
  · simp only [hUnresolved, hResolutions]
    exact h.counted

theorem Valid.resolve (h : store.Valid) {version : Nat} {progress : Progress} {value : ResultUnknownResolution}
    {result : ResolutionProgress}
    (hResult : resolveUnknown .blocked (unknownExecutions store.generations store.semantics)
      store.progress.resultUnknownResolutions value store.creation.policy = .ok result)
    (hUnresolved : progress.unresolvedResultUnknownCount = result.unresolvedCount)
    (hResolutions : progress.resultUnknownResolutions = result.resolutions)
    (hRecoveries : progress.semanticContractRecoveries = store.progress.semanticContractRecoveries) :
    Valid { store with version, progress } := by
  obtain ⟨_, _, _, _, _, _, hEq⟩ := resolveUnknown_ok.mp hResult
  have hNext := (h.sound.decisions.resolved.snoc hResult).2
  refine ⟨⟨h.shaped.serial, h.shaped.candidate, h.shaped.index⟩, ?_, ?_⟩
  · have hBook : Store.book { store with version, progress } =
        { store.book with resolutions := store.book.resolutions ++ [value] } := by
      unfold Store.book Store.live
      rw [hResolutions, hNext, hRecoveries]
      rfl
    rw [hBook]
    exact (Book.Step.resolve hResult).sound h.sound
  · have hLe := resolutions_le (h.sound.decisions.resolved.snoc hResult).1
    have hLe : (store.progress.resultUnknownResolutions ++ [value]).length ≤
        (unknownExecutions store.generations store.semantics).length := hLe
    have hNext : result.resolutions = store.progress.resultUnknownResolutions ++ [value] := hNext
    have hCount : result.unresolvedCount = (unknownExecutions store.generations store.semantics).length -
        store.progress.resultUnknownResolutions.length - 1 := by rw [hEq]
    simp only [hUnresolved, hResolutions, hNext, hCount, List.length_append, List.length_singleton] at hLe ⊢
    omega

theorem Recovers.valid {value : ContractRecovery} {block : Transition} {target : SemanticCompletion}
    (hRecovers : store.Recovers next value block target) (h : store.Valid) (hIdle : store.live = []) :
    next.Valid := by
  obtain ⟨recovered, hExcepted⟩ := hRecovers.excepted
  have hSound := (Book.Step.recover hIdle hExcepted).sound h.sound
  rw [hRecovers.next]
  exact ⟨⟨h.shaped.serial, h.shaped.candidate, h.shaped.index⟩, hSound, h.counted⟩

/-- The preflight of the Run proved what it had to prove. -/
def Passed (store : Store) : Prop := ∃ preflight ∈ store.progress.preflight, preflight.status = .passed

/-- A valid Run that calls no model before its preflight passed, whose owners
work only while it collects, and that every decision but the last let go on. -/
structure Coherent (store : Store) : Prop extends store.Valid where
  working : store.live ≠ [] → store.progress.status = .collecting ∧ store.Passed
  checked : store.dispatches ≠ [] → store.Passed
  continued : store.progress.status ≠ .canceled →
    ∀ r ∈ store.progress.resultUnknownResolutions, r.decision = .authorizeReplacement

theorem Coherent.idle (h : store.Coherent) (hStatus : store.progress.status ≠ .collecting) : store.live = [] := by
  by_contra hLive
  exact hStatus (h.working hLive).1

theorem Keeps.coherent (hKeeps : store.Keeps next) (h : store.Coherent) (hSound : next.book.Sound)
    (hWorking : next.live ≠ [] → store.progress.status = .collecting ∧ store.Passed)
    (hChecked : next.dispatches ≠ [] → store.Passed) : next.Coherent := by
  refine ⟨hKeeps.valid h.toValid hSound, ?_, ?_, ?_⟩
  · rw [Passed, hKeeps.progress]
    exact hWorking
  · rw [Passed, hKeeps.progress]
    exact hChecked
  · rw [hKeeps.progress]
    exact h.continued

/-- A completion leaves what it does not record. -/
theorem Ended.passed {cp : ExecutionCheckpoint} {completion : Completion} (hEnded : store.Ended next cp completion) :
    next.Passed ↔ store.Passed := by
  rw [Passed, Passed, hEnded.preflight]

theorem Ended.dispatches {cp : ExecutionCheckpoint} {completion : Completion}
    (hEnded : store.Ended next cp completion) : next.dispatches = store.dispatches := hEnded.completed.dispatches

theorem Ended.resolutions {cp : ExecutionCheckpoint} {completion : Completion}
    (hEnded : store.Ended next cp completion) :
    next.progress.resultUnknownResolutions = store.progress.resultUnknownResolutions := hEnded.completed.resolutions

/-- A running Run stays coherent when one of its calls ends. -/
theorem Coherent.ended (h : store.Coherent) {cp : ExecutionCheckpoint} {completion : Completion}
    (hEnded : store.Ended next cp completion) (hShaped : next.Shaped)
    (hRunning : store.progress.status = .collecting ∨ store.progress.status = .blocked)
    (hWorking : next.live ≠ [] → next.progress.status = .collecting ∧ next.Passed) : next.Coherent := by
  refine ⟨hEnded.valid h.toValid hShaped, hWorking, ?_, ?_⟩
  · rw [hEnded.passed, hEnded.dispatches]
    exact h.checked
  · intro _
    rw [hEnded.resolutions]
    refine h.continued ?_
    rcases hRunning with hStatus | hStatus <;> rw [hStatus] <;> decide

/-- While claims are left the Run only counts the completion. -/
theorem Drains.unchanged {claim : SlotClaim} {actor : String} {completion : Completion}
    (hDrains : store.Drains next claim actor completion) (hLive : next.live ≠ []) :
    next.progress = store.progress.counted completion := by
  obtain ⟨plan, _, hProgress⟩ := hDrains.aggregated
  have hActive : next.claims.map (·.claim) ≠ [] := by
    intro hNil
    rw [live_candidate hDrains.checkpoint, List.map_eq_nil_iff.mp hNil] at hLive
    exact hLive rfl
  rw [candidateCompletionProgress, candidateCompletionTarget, if_pos hActive, pure_ok] at hProgress
  exact hProgress.symm

theorem Progress.counted_status (progress : Progress) (completion : Completion) :
    (progress.counted completion).status = progress.status := by
  unfold Progress.counted
  split <;> rfl

theorem Coherent.drain (h : store.Coherent) {claim : SlotClaim} {actor : String} {completion : Completion}
    (hEnded : store.Ended next claim.checkpoint completion) (hDrains : store.Drains next claim actor completion) :
    next.Coherent := by
  refine h.ended hEnded (hDrains.shaped h.toValid) hDrains.running ?_
  intro hLive
  have hBefore := h.working (by
    obtain ⟨rest, hSplit, _⟩ := hDrains.live h.toValid
    intro hNil
    rw [hNil] at hSplit
    exact absurd hSplit.symm.eq_nil (by simp))
  rw [hEnded.passed, hDrains.unchanged hLive, Progress.counted_status]
  exact hBefore

/-- How a candidate Run goes on after a completion, by what is left of it. -/
inductive Aggregates (store next : Store) (claim : SlotClaim) (actor : String) (completion : Completion) : Prop
  | working (hLive : next.live ≠ []) (hProgress : next.progress = store.progress.counted completion)
  | unknown {row : Evidence} {last : DateTime} (hIdle : next.live = [])
      (hRow : earliest (unresolvedEvidence next.generations next.semantics (store.progress.counted completion)) =
        some row)
      (hLast : store.progress.lastTransition = some last) (hTime : last ≤ row.finishedAt)
      (hProgress : next.progress = { store.progress.counted completion with
        status := .blocked
        transitions := store.progress.transitions ++
          [{ source := some .collecting, target := .blocked, cause := .resultUnknownRequiresReview, actor
             time := row.finishedAt, evidenceRefs := [row.executionId] }] })
  | draining (hIdle : next.live = [])
      (hCount : (store.progress.counted completion).unresolvedResultUnknownCount = 0)
      (hCanceled : store.progress.cancelRequested ≠ none)
      (hProgress : next.progress = store.progress.counted completion)
  | closes {plan : ParallelPlan} (hIdle : next.live = [])
      (hCount : (store.progress.counted completion).unresolvedResultUnknownCount = 0)
      (hUncanceled : store.progress.cancelRequested = none)
      (hPlan : next.candidatePlan (store.progress.counted completion) [] 32 = .ok plan)
      (hComplete : plan.complete = true)
      (hProgress : next.progress = { store.progress.counted completion with
        status := .awaitingReview
        transitions := store.progress.transitions ++
          [{ source := some .collecting, target := .awaitingReview, cause := .candidateEvidenceComplete, actor
             time := DateTime.latest completion.finishedAt (store.progress.transitions.map (·.time))
             evidenceRefs := [claim.checkpoint.executionId] }] })
  | blocks {plan : ParallelPlan} {action : NextAction} {later : List NextAction} {reference : String}
      {failedAt last : DateTime} (hIdle : next.live = [])
      (hCount : (store.progress.counted completion).unresolvedResultUnknownCount = 0)
      (hUncanceled : store.progress.cancelRequested = none)
      (hPlan : next.candidatePlan (store.progress.counted completion) [] 32 = .ok plan)
      (hComplete : plan.complete = false) (hBlocked : plan.blocked = action :: later) (hReady : plan.ready = [])
      (hEvidence : blockedExecution next.generations next.semantics (store.progress.counted completion) action.cause
        plan.blocked = .ok (reference, failedAt))
      (hLast : store.progress.lastTransition = some last)
      (hTime : action.cause ≠ .semanticRecoveryNotAllowed → last ≤ failedAt)
      (hProgress : next.progress = { store.progress.counted completion with
        status := .blocked
        transitions := store.progress.transitions ++
          [{ source := some .collecting, target := .blocked, cause := action.cause, actor
             time := if action.cause = .semanticRecoveryNotAllowed then
               DateTime.latest completion.finishedAt [failedAt, last] else failedAt
             evidenceRefs := [reference]
             evidenceAt := if action.cause = .semanticRecoveryNotAllowed then some failedAt else none }] })
  | waiting {plan : ParallelPlan} (hIdle : next.live = [])
      (hCount : (store.progress.counted completion).unresolvedResultUnknownCount = 0)
      (hUncanceled : store.progress.cancelRequested = none)
      (hPlan : next.candidatePlan (store.progress.counted completion) [] 32 = .ok plan)
      (hComplete : plan.complete = false) (hReady : plan.blocked = [] ∨ plan.ready ≠ [])
      (hProgress : next.progress = store.progress.counted completion)

theorem Progress.counted_kept (progress : Progress) (completion : Completion) :
    (progress.counted completion).transitions = progress.transitions ∧
    (progress.counted completion).cancelRequested = progress.cancelRequested ∧
    (progress.counted completion).preflight = progress.preflight ∧
    (progress.counted completion).resultUnknownResolutions = progress.resultUnknownResolutions ∧
    (progress.counted completion).semanticContractRecoveries = progress.semanticContractRecoveries := by
  unfold Progress.counted
  split <;> exact ⟨rfl, rfl, rfl, rfl, rfl⟩

theorem Drains.before {claim : SlotClaim} {actor : String} {completion : Completion}
    (hDrains : store.Drains next claim actor completion) (h : store.Coherent) :
    store.progress.status = .collecting ∧ store.Passed := by
  refine h.working ?_
  obtain ⟨rest, hSplit, _⟩ := hDrains.live h.toValid
  intro hNil
  rw [hNil] at hSplit
  exact absurd hSplit.symm.eq_nil (by simp)

/-- The aggregation of a drained completion, case by case. -/
theorem Drains.aggregates {claim : SlotClaim} {actor : String} {completion : Completion}
    (hDrains : store.Drains next claim actor completion) (h : store.Coherent) :
    store.Aggregates next claim actor completion := by
  by_cases hLive : next.live = []
  swap
  · exact .working hLive (hDrains.unchanged hLive)
  have hCollecting : (store.progress.counted completion).status = .collecting := by
    rw [Progress.counted_status]
    exact (hDrains.before h).1
  obtain ⟨hTransitions, hCancel, _⟩ := Progress.counted_kept store.progress completion
  have hClaims : next.claims = [] := by
    rw [live_candidate hDrains.checkpoint] at hLive
    exact List.map_eq_nil_iff.mp hLive
  obtain ⟨plan, hPlan, hProgress⟩ := hDrains.aggregated
  rw [hClaims, List.map_nil] at hPlan hProgress
  have hBlocked : RunStatus.blocked ≠ (store.progress.counted completion).status := by
    rw [hCollecting]
    decide
  have hReview : RunStatus.awaitingReview ≠ (store.progress.counted completion).status := by
    rw [hCollecting]
    decide
  rw [candidateCompletionProgress, candidateCompletionTarget, if_neg (by simp)] at hProgress
  by_cases hCount : (store.progress.counted completion).unresolvedResultUnknownCount = 0
  swap
  · simp only [if_pos hCount, if_true, bind_ok, demand_ok] at hProgress
    obtain ⟨⟨reference, failedAt⟩, hEvidence, last, hLast, hProgress⟩ := hProgress
    simp only [reduceCtorEq, if_false, bind_ok, require_ok, exists_const, pure_ok] at hProgress
    obtain ⟨hTime, hProgress⟩ := hProgress
    simp only [blockedExecution, if_true, bind_ok, demand_ok, pure_ok, Prod.mk.injEq] at hEvidence
    obtain ⟨row, hRow, rfl, rfl⟩ := hEvidence
    rw [Progress.lastTransition, hTransitions] at hLast
    refine .unknown hLive hRow hLast hTime ?_
    rw [← hProgress, appendTransition, if_neg hBlocked, hTransitions, hCollecting]
  rw [if_neg (not_not.mpr hCount)] at hProgress
  by_cases hCanceled : store.progress.cancelRequested = none
  swap
  · rw [if_pos (hCancel ▸ hCanceled), pure_ok] at hProgress
    exact .draining hLive hCount hCanceled hProgress.symm
  rw [if_neg (not_not.mpr (hCancel.trans hCanceled))] at hProgress
  cases hComplete : plan.complete with
  | true =>
      simp only [hComplete, if_true, reduceCtorEq, if_false, pure_ok] at hProgress
      refine .closes hLive hCount hCanceled hPlan hComplete ?_
      rw [← hProgress, appendTransition, if_neg hReview, hTransitions, hCollecting]
  | false =>
      simp only [hComplete, Bool.false_eq_true, if_false] at hProgress
      split at hProgress
      · rename_i hTarget
        rw [pure_ok] at hProgress
        refine .waiting hLive hCount hCanceled hPlan hComplete ?_ hProgress.symm
        cases hBlock : plan.blocked with
        | nil => exact .inl rfl
        | cons action later =>
            refine .inr fun hReady => ?_
            rw [hBlock, hReady] at hTarget
            cases hTarget
      · rename_i target cause hTarget
        split at hTarget
        · rename_i action later hBlock hReady
          cases hTarget
          simp only [if_true, bind_ok, demand_ok] at hProgress
          obtain ⟨⟨reference, failedAt⟩, hEvidence, last, hLast, hProgress⟩ := hProgress
          rw [Progress.lastTransition, hTransitions] at hLast
          refine .blocks hLive hCount hCanceled hPlan hComplete hBlock hReady hEvidence hLast ?_ ?_
          · intro hCause
            simp only [if_neg hCause, bind_ok, require_ok, exists_const] at hProgress
            exact hProgress.1
          · by_cases hCause : action.cause = .semanticRecoveryNotAllowed
            · simp only [if_pos hCause, pure_ok] at hProgress ⊢
              rw [← hProgress, appendTransition, if_neg hBlocked, hTransitions, hCollecting]
            · simp only [if_neg hCause, bind_ok, require_ok, exists_const, pure_ok] at hProgress ⊢
              rw [← hProgress.2, appendTransition, if_neg hBlocked, hTransitions, hCollecting]
        · cases hTarget

/-- Where a collecting Run is after one of its calls ended. -/
def Ongoing (store : Store) : Prop :=
  store.progress.status = .collecting ∨ store.progress.status = .blocked ∨ store.progress.status = .awaitingReview

theorem Drains.ongoing {claim : SlotClaim} {actor : String} {completion : Completion}
    (hDrains : store.Drains next claim actor completion) (h : store.Coherent) : next.Ongoing := by
  have hBefore := (hDrains.before h).1
  have hCounted : (store.progress.counted completion).status = .collecting := by
    rw [Progress.counted_status]
    exact hBefore
  cases hDrains.aggregates h with
  | working _ hProgress => exact .inl (hProgress ▸ hCounted)
  | draining _ _ _ hProgress => exact .inl (hProgress ▸ hCounted)
  | waiting _ _ _ _ _ _ hProgress => exact .inl (hProgress ▸ hCounted)
  | unknown _ _ _ _ hProgress => exact .inr (.inl (by rw [hProgress]))
  | closes _ _ _ _ _ hProgress => exact .inr (.inr (by rw [hProgress]))
  | blocks _ _ _ _ _ _ _ _ _ _ hProgress => exact .inr (.inl (by rw [hProgress]))

theorem Concludes.ongoing {owner : String} {completion : Completion} (hConcludes : store.Concludes next owner completion)
    (hBefore : store.progress.status = .collecting) : next.Ongoing := by
  cases hConcludes with
  | continues _ hStatus => exact .inl (hStatus.trans hBefore)
  | blocks _ hStatus => exact .inr (.inl hStatus)
  | closes _ _ _ _ _ _ _ hStatus => exact .inr (.inr hStatus)

theorem Ongoing.started (h : store.Ongoing) : store.progress.status ≠ .requested := by
  rcases h with h | h | h <;> rw [h] <;> decide

theorem Valid.unclaimed (h : store.Valid) (hClaims : store.creation.mode = .candidateV2 → store.claims = []) :
    store.claims = [] := by
  cases hMode : store.creation.mode with
  | serialV1 => exact h.shaped.serial hMode
  | candidateV2 => exact hClaims hMode

/-- Nothing works in a canceled Run. -/
theorem EndsCanceled.live {decision : CancellationDecision} {now : DateTime} {record : CancellationRecord}
    (hEnds : store.EndsCanceled next decision now record) (h : store.Valid) : next.live = [] := by
  rw [hEnds.next]
  simp [Store.live, h.unclaimed hEnds.claims]

/-- An idle Run, or one that only prepared its next call, gives up its owner. -/
theorem Valid.abandon (h : store.Valid) {version : Nat} {progress : Progress}
    (hClaims : store.creation.mode = .candidateV2 → store.claims = [])
    (hPrepared : ∀ cp ∈ store.checkpoint, cp.phase = .prepared)
    (hUnresolved : progress.unresolvedResultUnknownCount = store.progress.unresolvedResultUnknownCount)
    (hResolutions : progress.resultUnknownResolutions = store.progress.resultUnknownResolutions)
    (hRecoveries : progress.semanticContractRecoveries = store.progress.semanticContractRecoveries) :
    Valid { store with version, checkpoint := none, progress } := by
  have hNone := h.unclaimed hClaims
  have hLive : Store.live { store with version, checkpoint := none, progress } = [] := by
    simp [Store.live, hNone]
  refine ⟨⟨h.shaped.serial, fun _ => rfl, h.shaped.index⟩, ?_, ?_⟩
  · have hBook : Store.book { store with version, checkpoint := none, progress } =
        { store.book with live := [] } := by
      unfold Store.book
      rw [hLive, hResolutions, hRecoveries]
    rw [hBook]
    cases hCheckpoint : store.checkpoint with
    | none =>
        have hIdle : store.book.live = [] := by
          change store.live = []
          rw [live_serial hNone, hCheckpoint]
          rfl
        rw [← hIdle]
        exact h.sound
    | some cp =>
        have hOwner : store.book.live = [cp] := by
          change store.live = [cp]
          rw [live_serial hNone, hCheckpoint]
          rfl
        exact (Book.Step.release (List.Perm.of_eq hOwner) (List.Perm.refl []) (hPrepared cp hCheckpoint)).sound h.sound
  · simp only [hUnresolved, hResolutions]
    exact h.counted

/-- Every change keeps the Run coherent. -/
theorem Change.coherent (hChange : store.Change event next) (h : store.Coherent) : next.Coherent := by
  cases hChange with
  | start hIdle hStatus hTarget hActor =>
      have hLive : store.live = [] := h.idle (by rw [hStatus]; decide)
      have hOpen : store.progress.status ≠ .canceled := by rw [hStatus]; decide
      exact ⟨h.toValid.of_progress rfl rfl rfl, fun hNot => absurd hLive hNot, h.checked, fun _ => h.continued hOpen⟩
  | preflight hIdle hStatus hNone hCase =>
      have hUnproven : ¬ store.Passed := by
        rintro ⟨evidence, hEvidence, _⟩
        rw [hNone] at hEvidence
        cases hEvidence
      have hOpen : store.progress.status ≠ .canceled := by rw [hStatus]; decide
      refine ⟨?_, fun hLive => absurd (h.working hLive).2 hUnproven, fun hSome => absurd (h.checked hSome) hUnproven, ?_⟩
      · split
        · exact h.toValid.of_progress rfl rfl rfl
        · exact h.toValid.of_progress rfl rfl rfl
      · intro _
        split
        · exact h.continued hOpen
        · exact h.continued hOpen
  | prepare hOpens hKeeps hDispatches hLive =>
      refine hKeeps.coherent h ?_ (fun _ => ⟨hOpens.collecting, hOpens.passed⟩) fun _ => hOpens.passed
      rw [hKeeps.book hDispatches]
      exact (Book.Step.prepare hLive hOpens.phase hOpens.free hOpens.holds).sound h.sound
  | dispatch hStatus hUncanceled hPassed hResolved hDispatches hStarted hRecord hKeeps hRecorded hLive hNext =>
      refine hKeeps.coherent h ?_ (fun _ => ⟨hStatus, hPassed⟩) fun _ => hPassed
      rw [hKeeps.rebook hRecorded]
      exact (Book.Step.dispatch hLive hNext hDispatches hRecord).sound h.sound
  | renew hCall hKeeps hDispatches hLive hNext =>
      refine hKeeps.coherent h ?_ (fun _ => h.working ?_) (hDispatches ▸ h.checked)
      · rw [hKeeps.book hDispatches]
        exact (Book.Step.renew hLive hNext hCall).sound h.sound
      · intro hNil
        rw [hNil] at hLive
        exact absurd hLive.symm.eq_nil (by simp)
  | release hEvent hPhase hKeeps hDispatches hLive hNext =>
      refine hKeeps.coherent h ?_ (fun _ => h.working ?_) (hDispatches ▸ h.checked)
      · rw [hKeeps.book hDispatches]
        exact (Book.Step.release hLive hNext hPhase).sound h.sound
      · intro hNil
        rw [hNil] at hLive
        exact absurd hLive.symm.eq_nil (by simp)
  | drain hEnded hDrains => exact h.drain hEnded hDrains
  | settle hOwner hSettles hEnded hConcludes =>
      refine h.ended hEnded (hSettles.shaped h.toValid) (.inl hSettles.collecting) ?_
      exact fun hLive => absurd (hSettles.live h.toValid).2 hLive
  | @resolve value result hIdle hClaims hStatus hResult _ =>
      have hLive : store.live = [] := h.idle (by rw [hStatus]; decide)
      have hOpen : store.progress.status ≠ .canceled := by rw [hStatus]; decide
      refine ⟨h.toValid.resolve hResult rfl rfl rfl, fun hNot => absurd hLive hNot, h.checked, ?_⟩
      obtain ⟨_, _, _, _, _, _, rfl⟩ := resolveUnknown_ok.mp hResult
      intro hNot r hr
      rcases List.mem_append.mp hr with hr | hr
      · exact h.continued hOpen r hr
      · rw [List.mem_singleton.mp hr]
        cases hDecision : value.decision with
        | authorizeReplacement => rfl
        | cancelRun => exact absurd (if_pos hDecision) hNot
  | recover hRecovers =>
      have hLive : store.live = [] := h.idle (by rw [hRecovers.blocked]; decide)
      have hOpen : store.progress.status ≠ .canceled := by rw [hRecovers.blocked]; decide
      have hValid := hRecovers.valid h.toValid hLive
      have hNext := hRecovers.next
      subst hNext
      exact ⟨hValid, fun hNot => absurd hLive hNot, h.checked, fun _ => h.continued hOpen⟩
  | requestCancel hRequests =>
      have hNext := hRequests.next
      subst hNext
      exact ⟨h.toValid.of_progress rfl rfl rfl, h.working, h.checked, h.continued⟩
  | endCanceled _ hEnds =>
      have hLive := hEnds.live h.toValid
      have hNext := hEnds.next
      subst hNext
      refine ⟨h.toValid.abandon hEnds.claims hEnds.prepared rfl rfl rfl, ?_, h.checked, fun hNot => absurd rfl hNot⟩
      exact fun hNot => absurd hLive hNot
  | review hReviews =>
      have hReviewed := hReviews.reviewed
      have hLive : store.live = [] := h.idle (by rcases hReviewed.before with hStatus | hStatus <;> rw [hStatus] <;> decide)
      have hOpen : store.progress.status ≠ .canceled := by
        rcases hReviewed.before with hStatus | hStatus <;> rw [hStatus] <;> decide
      rw [hReviewed.next]
      exact ⟨h.toValid.of_progress rfl rfl rfl, fun hNot => absurd hLive hNot, h.checked, fun _ => h.continued hOpen⟩
  | unchanged => exact h

/-- No change leads back to the request, and before the start only the owners
could change. -/
theorem Change.requested (hChange : store.Change event next) (h : store.Coherent)
    (hRequested : next.progress.status = .requested) :
    store.progress.status = .requested ∧ next.progress.preflight = store.progress.preflight := by
  have hKept : ∀ {next : Store}, store.Keeps next → next.progress.status = .requested →
      store.progress.status = .requested ∧ next.progress.preflight = store.progress.preflight := by
    intro next hKeeps hNext
    rw [hKeeps.progress] at hNext ⊢
    exact ⟨hNext, rfl⟩
  cases hChange with
  | start _ _ hTarget => rcases hTarget with rfl | rfl <;> cases hRequested
  | preflight _ hStatus =>
      split at hRequested
      · cases hRequested
      · rw [hStatus] at hRequested
        cases hRequested
  | prepare _ hKeeps => exact hKept hKeeps hRequested
  | dispatch _ _ _ _ _ _ _ hKeeps => exact hKept hKeeps hRequested
  | renew _ hKeeps => exact hKept hKeeps hRequested
  | release _ _ hKeeps => exact hKept hKeeps hRequested
  | drain _ hDrains => exact absurd hRequested (hDrains.ongoing h).started
  | settle _ hSettles _ hConcludes => exact absurd hRequested (hConcludes.ongoing hSettles.collecting).started
  | resolve _ _ _ hResult =>
      obtain ⟨_, _, _, _, _, _, rfl⟩ := resolveUnknown_ok.mp hResult
      simp only at hRequested
      split_ifs at hRequested
  | recover hRecovers =>
      rw [hRecovers.next] at hRequested
      cases hRequested
  | requestCancel hRequests =>
      rw [hRequests.next] at hRequested ⊢
      exact ⟨hRequested, rfl⟩
  | endCanceled _ hEnds =>
      rw [hEnds.next] at hRequested
      cases hRequested
  | review hReviews =>
      rcases hReviews.reviewed.after with hStatus | hStatus | hStatus <;> rw [hStatus] at hRequested <;> cases hRequested
  | unchanged => exact ⟨hRequested, rfl⟩

end Store

end QsAi
