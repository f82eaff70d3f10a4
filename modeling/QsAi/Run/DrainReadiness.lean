import QsAi.Run.CancellationAudit
import QsAi.Run.CancellationSafety
import QsAi.Run.ContractRecovery
import QsAi.Run.Activity

/-! The drain of a requested cancellation. A Run that nobody works on any more and
whose unknown executions are decided is ready to be canceled; the drain is planned
in this state once and committed later. What else the Run accepts meanwhile
decides whether the plan can still be committed. -/
namespace QsAi

open Guarded Keyed Numbered

/-! Planned causes. -/

theorem afterLast_unopened {slot : SlotProgress} {policy : ExecutionPolicy} {last : ExecutionResult}
    {action : NextAction} (h : afterLast slot policy last = .ok action) : action.cause ≠ .semanticReviewReopened := by
  unfold afterLast at h
  split_ifs at h <;> cases h <;> cases slot.kind <;> exact fun hCause => by cases hCause

theorem slotAction_unopened {slot : SlotProgress} {policy : ExecutionPolicy} {action : NextAction}
    (h : slotAction slot policy = .ok (some action)) : action.cause ≠ .semanticReviewReopened := by
  unfold slotAction at h
  split at h
  · cases h
  · split at h
    · cases h
      cases slot.kind <;> exact fun hCause => by cases hCause
    · obtain ⟨planned, hPlanned, hAction⟩ := (bind_ok _ _ _).mp h
      cases (pure_ok _ _).mp hAction
      exact afterLast_unopened hPlanned

/-- Every blocked action of a pass was planned for one of its slots. -/
theorem planSlots_blocked {policy : ExecutionPolicy} {active : Finset (String × Nat)} {available : Nat}
    {slots : List SlotProgress} {ready blocked : List NextAction} {pending : Bool}
    {result : List NextAction × List NextAction × Bool}
    (h : planSlots policy active available slots ready blocked pending = .ok result) :
    ∀ action ∈ result.2.1, action ∈ blocked ∨ ∃ slot, slotAction slot policy = .ok (some action) := by
  induction slots generalizing ready blocked pending with
  | nil =>
      cases (pure_ok _ _).mp h
      exact fun action hAction => .inl hAction
  | cons slot rest ih =>
      rw [planSlots] at h
      split at h
      · exact ih h
      · obtain ⟨planned, hPlanned, h⟩ := (bind_ok _ _ _).mp h
        cases planned with
        | none => exact ih h
        | some action =>
            simp only at h
            split at h
            · intro other hOther
              rcases ih h other hOther with hBlocked | hSlot
              · rcases List.mem_append.mp hBlocked with hBlocked | hLast
                · exact .inl hBlocked
                · rw [List.mem_singleton.mp hLast]
                  exact .inr ⟨slot, hPlanned⟩
              · exact .inr hSlot
            · split at h
              · exact ih h
              · exact ih h

theorem planParallel_unopened {status : RunStatus} {preflightStatus : PreflightStatus} {preflightCaseId : String}
    {slots : List SlotProgress} {policy : ExecutionPolicy} {active : Finset (String × Nat)}
    {limit unresolvedUnknown : Nat} {plan : ParallelPlan}
    (h : planParallel status preflightStatus preflightCaseId slots policy active limit unresolvedUnknown = .ok plan) :
    ∀ action ∈ plan.blocked, action.cause ≠ .semanticReviewReopened := by
  simp only [planParallel, bind_ok, require_ok, exists_const] at h
  obtain ⟨_, first, _, _, h⟩ := h
  split at h
  · cases (pure_ok _ _).mp h
    exact fun action hAction => absurd hAction List.not_mem_nil
  · obtain ⟨result, hResult, h⟩ := (bind_ok _ _ _).mp h
    cases (pure_ok _ _).mp h
    intro action hAction
    rcases planSlots_blocked hResult action hAction with hNone | ⟨slot, hSlot⟩
    · exact absurd hNone List.not_mem_nil
    · exact slotAction_unopened hSlot

theorem completionCause_unopened {policy : ExecutionPolicy} {completion : Completion} {cause : Cause}
    (h : completionCause policy completion = some cause) : cause ≠ .semanticReviewReopened := by
  unfold completionCause at h
  split at h
  · cases h
    exact fun hCause => by cases hCause
  · unfold failureCause at h
    split_ifs at h <;> cases h <;> cases completion.kind <;> exact fun hCause => by cases hCause
  · cases h

namespace Store

variable {store next : Store}

theorem candidatePlan_unopened {progress : Progress} {active : List SlotClaim} {limit : Nat} {plan : ParallelPlan}
    (h : store.candidatePlan progress active limit = .ok plan) :
    ∀ action ∈ plan.blocked, action.cause ≠ .semanticReviewReopened := by
  simp only [candidatePlan, projectCandidateRecords, bind_ok] at h
  obtain ⟨_, _, _, _, h⟩ := h
  exact planParallel_unopened h

/-! What a Run that still runs has not written yet. -/

/-- The Run neither closed its collection nor ended. -/
def Running (store : Store) : Prop :=
  store.progress.status = .requested ∨ store.progress.status = .collecting ∨ store.progress.status = .blocked

/-- What a review or a cancellation leaves in the progress. -/
def outcome (progress : Progress) : Option CancellationRecord × Option DateTime × List CandidateHumanReview ×
    List ReviewCorrection × List RoundEntry × Option FinalRecord × Option DateTime :=
  (progress.cancellation, progress.canceledAt, progress.humanReviews, progress.reviewCorrections,
    progress.reviewReopenings, progress.gateResult, progress.finalizedAt)

/-- Nothing of a review and nothing of a cancellation is recorded. -/
structure Unfinished (store : Store) : Prop where
  nothing : outcome store.progress = (none, none, [], [], [], none, none)
  unopened : ∀ t ∈ store.progress.transitions, t.cause ≠ .semanticReviewReopened

theorem Unfinished.keeps (h : store.Unfinished) (hOutcome : outcome next.progress = outcome store.progress)
    (hTransitions : ∀ t ∈ next.progress.transitions,
      t ∈ store.progress.transitions ∨ t.cause ≠ .semanticReviewReopened) : next.Unfinished :=
  ⟨hOutcome.trans h.nothing, fun t ht => (hTransitions t ht).elim (h.unopened t) id⟩

/-- One more transition. -/
theorem snoc_unopened {transitions : List Transition} {added : Transition}
    (h : added.cause ≠ .semanticReviewReopened) :
    ∀ t ∈ transitions ++ [added], t ∈ transitions ∨ t.cause ≠ .semanticReviewReopened := by
  intro t ht
  rcases List.mem_append.mp ht with ht | ht
  · exact .inl ht
  · rw [List.mem_singleton.mp ht]
    exact .inr h

theorem outcome_counted (progress : Progress) (completion : Completion) :
    outcome (progress.counted completion) = outcome progress := by
  unfold Progress.counted
  split <;> rfl

theorem Drains.unfinished {claim : SlotClaim} {actor : String} {completion : Completion}
    (hDrains : store.Drains next claim actor completion) (h : store.Coherent) (hStore : store.Unfinished) :
    next.Unfinished := by
  obtain ⟨hTransitions, _⟩ := Progress.counted_kept store.progress completion
  have hOutcome := outcome_counted store.progress completion
  have hCounted : next.progress = store.progress.counted completion → next.Unfinished := by
    intro hProgress
    refine hStore.keeps (by rw [hProgress, hOutcome]) fun t ht => .inl ?_
    rw [hProgress, hTransitions] at ht
    exact ht
  cases hDrains.aggregates h with
  | working _ hProgress => exact hCounted hProgress
  | draining _ _ _ hProgress => exact hCounted hProgress
  | waiting _ _ _ _ _ _ hProgress => exact hCounted hProgress
  | unknown _ _ _ _ hProgress =>
      refine hStore.keeps ?_ ?_
      · rw [hProgress]
        exact hOutcome
      · rw [hProgress]
        exact snoc_unopened fun hCause => by cases hCause
  | closes _ _ _ _ _ hProgress =>
      refine hStore.keeps ?_ ?_
      · rw [hProgress]
        exact hOutcome
      · rw [hProgress]
        exact snoc_unopened fun hCause => by cases hCause
  | blocks _ _ _ hPlan _ hBlocked _ _ _ _ hProgress =>
      refine hStore.keeps ?_ ?_
      · rw [hProgress]
        exact hOutcome
      · rw [hProgress]
        refine snoc_unopened (candidatePlan_unopened hPlan _ ?_)
        rw [hBlocked]
        exact List.mem_cons_self

theorem Settles.unfinished {cp : ExecutionCheckpoint} {owner : String} {completion : Completion}
    (hEnded : store.Ended next cp completion) (hConcludes : store.Concludes next owner completion)
    (hStore : store.Unfinished) : next.Unfinished := by
  have hOutcome : outcome next.progress = outcome store.progress := by rw [hEnded.kept]; rfl
  refine hStore.keeps hOutcome ?_
  cases hConcludes with
  | continues _ _ hTransitions =>
      rw [hTransitions]
      exact fun t ht => .inl ht
  | blocks hCause _ hTransitions =>
      rw [hTransitions]
      exact snoc_unopened (completionCause_unopened hCause)
  | closes _ _ _ _ _ _ _ _ hTransitions =>
      rw [hTransitions]
      exact snoc_unopened fun hCause => by cases hCause

/-- A Run that still runs stays unfinished. -/
theorem Change.unfinished {event : Event} (hChange : store.Change event next) (h : store.Coherent)
    (hStore : store.Running → store.Unfinished) (hNext : next.Running) : next.Unfinished := by
  have hKept : ∀ {next : Store}, store.Keeps next → next.Running → next.Unfinished := by
    intro next hKeeps hRunning
    have hProgress := hKeeps.progress
    have hBefore : store.Running := by
      unfold Running at hRunning ⊢
      rwa [hProgress] at hRunning
    refine (hStore hBefore).keeps (by rw [hProgress]; rfl) ?_
    rw [hProgress]
    exact fun t ht => .inl ht
  cases hChange with
  | start _ hStatus hTarget =>
      have hCollecting : _ = RunStatus.collecting := hTarget.resolve_right fun hCanceled => by
        subst hCanceled
        rcases hNext with hNext | hNext | hNext <;> cases hNext
      subst hCollecting
      refine (hStore (.inl hStatus)).keeps rfl (snoc_unopened fun hCause => by cases hCause)
  | preflight _ hStatus =>
      refine (hStore (.inr (.inl hStatus))).keeps ?_ ?_
      · simp only
        split <;> rfl
      · simp only
        split
        · exact snoc_unopened fun hCause => by cases hCause
        · exact fun t ht => .inl ht
  | prepare _ hKeeps => exact hKept hKeeps hNext
  | dispatch _ _ _ _ _ _ _ hKeeps => exact hKept hKeeps hNext
  | renew _ hKeeps => exact hKept hKeeps hNext
  | release _ _ hKeeps => exact hKept hKeeps hNext
  | drain _ hDrains => exact hDrains.unfinished h (hStore (.inr hDrains.running))
  | settle _ hSettles hEnded hConcludes =>
      exact Settles.unfinished hEnded hConcludes (hStore (.inr (.inl hSettles.collecting)))
  | @resolve value result _ _ hStatus =>
      have hOpen : result.status ≠ .canceled := by
        rcases hNext with hNext | hNext | hNext <;> exact fun hCanceled => by cases hNext.symm.trans hCanceled
      refine (hStore (.inr (.inr hStatus))).keeps ?_ ?_
      · simp only [outcome, if_neg hOpen]
      · simp only
        split
        · exact fun t ht => .inl ht
        · refine snoc_unopened ?_
          exact fun hCause => by cases hCause
  | recover hRecovers =>
      have hProgress := hRecovers.next
      subst hProgress
      exact (hStore (.inr (.inr hRecovers.blocked))).keeps rfl (snoc_unopened fun hCause => by cases hCause)
  | requestCancel hRequests =>
      have hProgress := hRequests.next
      subst hProgress
      exact (hStore (.inr hRequests.running)).keeps rfl fun t ht => .inl ht
  | endCanceled _ hEnds =>
      have hProgress := hEnds.next
      subst hProgress
      rcases hNext with hNext | hNext | hNext <;> cases hNext
  | review hReviews =>
      rcases hReviews.reviewed.after with hAfter | hAfter | hAfter <;> rw [Running, hAfter] at hNext <;>
        rcases hNext with hNext | hNext | hNext <;> cases hNext
  | unchanged => exact hStore hNext

/-! The preflight of a Run that was asked to cancel. -/

/-- A preflight that passed stays the preflight of the Run. -/
theorem Change.keepsPassed {event : Event} (hChange : store.Change event next) (hPassed : store.Passed) :
    next.Passed := by
  cases hChange with
  | preflight _ _ hNone =>
      obtain ⟨preflight, hPreflight, _⟩ := hPassed
      rw [hNone] at hPreflight
      cases hPreflight
  | prepare _ hKeeps => rwa [Passed, hKeeps.progress]
  | dispatch _ _ _ _ _ _ _ hKeeps => rwa [Passed, hKeeps.progress]
  | renew _ hKeeps => rwa [Passed, hKeeps.progress]
  | release _ _ hKeeps => rwa [Passed, hKeeps.progress]
  | drain hEnded => exact hEnded.passed.mpr hPassed
  | settle _ _ hEnded => exact hEnded.passed.mpr hPassed
  | recover hRecovers => rwa [Passed, hRecovers.next]
  | requestCancel hRequests => rwa [Passed, hRequests.next]
  | endCanceled _ hEnds => rwa [Passed, hEnds.next]
  | review hReviews => rwa [Passed, hReviews.reviewed.next]
  | _ => exact hPassed

/-- A request finds work or an unknown execution, so the preflight had passed. -/
theorem Requests.passed {decision : CancellationDecision} (hRequests : store.Requests next decision)
    (h : store.Coherent) : store.Passed := by
  rcases hRequests.busy with hClaims | ⟨cp, hCp, _⟩ | hUnknown
  · refine (h.working fun hLive => ?_).2
    exact hClaims (List.map_eq_nil_iff.mp (List.append_eq_nil_iff.mp hLive).1)
  · refine (h.working (List.ne_nil_of_mem (a := cp) ?_)).2
    exact List.mem_append_right _ (Option.mem_toList.mpr hCp)
  · obtain ⟨completion, hMem, _⟩ := h.toValid.exists_undecided hUnknown
    obtain ⟨row, hRow, _⟩ := h.sound.calls.ended completion hMem
    exact h.checked (List.ne_nil_of_mem hRow)

end Store

/-- What every Run that still runs has recorded. -/
theorem Reaches.unfinished {allowed : DateTime → Store → Operation → Prop} {creation : Creation} {now : DateTime}
    {store : Store} (hReaches : Reaches allowed creation now store) (hRunning : store.Running) : store.Unfinished := by
  refine hReaches.keeps (P := fun store => store.Running → store.Unfinished) ?_ ?_ hRunning
  · refine fun _ => ⟨rfl, fun t ht => ?_⟩
    obtain rfl := List.mem_singleton.mp ht
    exact fun hCause => by cases hCause
  · exact fun h hChange hStore hNext => hChange.unfinished h hStore hNext

/-- A Run that was asked to cancel had passed its preflight. -/
theorem Reaches.passed {allowed : DateTime → Store → Operation → Prop} {creation : Creation} {now : DateTime}
    {store : Store} (hReaches : Reaches allowed creation now store)
    (hRequested : store.progress.cancelRequested ≠ none) : store.Passed := by
  refine hReaches.keeps (P := fun store => store.progress.cancelRequested ≠ none → store.Passed)
    (fun hSome => absurd rfl hSome) ?_ hRequested
  intro store next event h hChange hPassed hSome
  rcases hChange.request with hSame | ⟨_, _, hRequests⟩
  · rw [hSame] at hSome
    exact hChange.keepsPassed (hPassed hSome)
  · exact hChange.keepsPassed (hRequests.passed h)

/-- The decision of a request can be taken again at any time. -/
theorem CancelRequest.Intended.decide {request : CancelRequest} (h : request.Intended) (time : DateTime) :
    strip request.reason = request.reason ∧ ∃ decision,
      CancellationDecision.make request.actor request.reason false time = .ok decision ∧
      decision.actor = request.actor ∧ decision.reason = request.reason ∧ decision.discard = false ∧
      decision.canceledAt = time := by
  obtain ⟨first, hFirst⟩ := h.decided
  obtain ⟨hActor, hReason, _⟩ := CancellationDecision.make_ok hFirst
  have hValid := first.valid
  rw [hActor, hReason] at hValid
  exact ⟨hValid.2.2, ⟨request.actor, request.reason, false, time, hValid⟩, dif_pos hValid, rfl, rfl, rfl, rfl⟩

/-! The source of the drain and its plan. -/

/-- What the drain acts on: the version it found and the decision of the request. -/
structure CancellationDrainSource where
  version : Nat
  actor : String
  reason : String
  time : DateTime
deriving DecidableEq

/-- What a cancellation is about to store. -/
structure CancellationPlan where
  version : Nat
  checkpoint : Option ExecutionCheckpoint
  progress : Progress
deriving DecidableEq

namespace Store

section Source

variable (store : Store)

/-- The request as the drain acts on it, once nothing works any more and every
unknown execution is resolved. -/
def readCancelDrainSource (time : DateTime) : Except Rejection (Option CancellationDrainSource) :=
  match store.progress.cancelRequested with
  | none => pure none
  | some intent =>
      if store.progress.status = .canceled ∨ store.checkpoint ≠ none then pure none
      else do
        let active ← store.activeClaims
        if active ≠ [] ∨ store.progress.unresolvedResultUnknownCount ≠ 0 then pure none
        else pure (some ⟨store.version, intent.actor, intent.reason, DateTime.latest time [intent.requestedAt]⟩)

/-- A cancellation without its writes. -/
def planCancellation (expectedVersion : Nat) (actor reason : String) (time : DateTime) (discard confirm : Bool)
    (now : DateTime) : Except Rejection CancellationPlan := do
  require (confirm = true ∧ 0 < expectedVersion ∧ expectedVersion < 2 ^ 63 - 1)
    (.invalid "Explicit version and confirmation required")
  let decision ← CancellationDecision.make actor (strip reason) discard time
  require (store.version = expectedVersion) (.conflict "Cancellation version changed")
  let active ← store.cancelClaims
  if active ≠ [] ∨ (∃ cp ∈ store.checkpoint, cp.phase = .dispatching) ∨
      store.progress.unresolvedResultUnknownCount ≠ 0 then
    require ((store.progress.status = .collecting ∨ store.progress.status = .blocked) ∧ discard = false)
      (.conflict "Only running work can request cancellation drain")
    require (store.progress.cancelRequested = none) (.conflict "Cancellation already requested")
    require (∀ recorded ∈ store.progress.transitions.map (fun t => t.time) ++
        active.map (fun c => c.checkpoint.claimedAt) ++ store.checkpoint.toList.map (fun cp => cp.claimedAt),
        recorded ≤ time)
      (.invalid "Cancellation cannot precede existing work")
    pure ⟨expectedVersion + 1, store.checkpoint,
      { store.progress with
        cancelRequested := some ⟨expectedVersion, expectedVersion + 1, decision.actor, decision.reason, time⟩ }⟩
  else
    let record ← store.cancellationRecord store.checkpoint decision now
    pure ⟨expectedVersion + 1, none,
      { store.progress with
        status := .canceled
        canceledAt := some record.canceledAt
        cancellation := some record
        canceledCheckpoint := store.checkpoint
        transitions := store.progress.transitions ++ [cancellationTransition record] }⟩

end Source

variable {store next : Store}

/-- Canceling stores what it planned. -/
theorem cancel_planned {expectedVersion : Nat} {decision : CancellationDecision} {confirm : Bool} {now : DateTime} :
    store.cancel expectedVersion decision confirm now = .ok next ↔
      ∃ plan, store.planCancellation expectedVersion decision.actor decision.reason decision.canceledAt decision.discard
          confirm now = .ok plan ∧
        next = { store with version := plan.version, checkpoint := plan.checkpoint, progress := plan.progress } := by
  have hDecision : CancellationDecision.make decision.actor (strip decision.reason) decision.discard
      decision.canceledAt = .ok decision := by
    rw [decision.valid.2.2]
    exact decision.make_valid
  simp only [cancel, planCancellation, bind_ok, require_ok, exists_const, hDecision, Except.ok.injEq]
  constructor
  · rintro ⟨hConfirm, rfl, active, hActive, hOk⟩
    split at hOk
    · rename_i hBusy
      simp only [requestCancellation, bind_ok, require_ok, exists_const, pure_ok, saveCheckpoint] at hOk
      obtain ⟨hRunning, hNone, hTimes, saved, ⟨-, rfl⟩, rfl⟩ := hOk
      refine ⟨⟨_, _, _⟩, ⟨hConfirm, decision, rfl, rfl, active, hActive, ?_⟩, rfl⟩
      rw [if_pos hBusy]
      simp only [bind_ok, require_ok, exists_const, pure_ok]
      exact ⟨hRunning, hNone, hTimes, trivial⟩
    · rename_i hIdle
      simp only [endCanceled, bind_ok, require_ok, exists_const, pure_ok, saveCheckpoint] at hOk
      obtain ⟨record, hRecord, saved, ⟨-, rfl⟩, rfl⟩ := hOk
      refine ⟨⟨_, _, _⟩, ⟨hConfirm, decision, rfl, rfl, active, hActive, ?_⟩, rfl⟩
      rw [if_neg hIdle]
      simp only [bind_ok, pure_ok]
      exact ⟨record, hRecord, rfl⟩
  · rintro ⟨plan, ⟨hConfirm, _, rfl, rfl, active, hActive, hPlan⟩, rfl⟩
    refine ⟨hConfirm, rfl, active, hActive, ?_⟩
    split at hPlan
    · rename_i hBusy
      simp only [bind_ok, require_ok, exists_const, pure_ok] at hPlan
      obtain ⟨hRunning, hNone, hTimes, rfl⟩ := hPlan
      rw [if_pos hBusy]
      simp only [requestCancellation, bind_ok, require_ok, exists_const, pure_ok, saveCheckpoint]
      exact ⟨hRunning, hNone, hTimes, _, ⟨trivial, rfl⟩, rfl⟩
    · rename_i hIdle
      simp only [bind_ok, pure_ok] at hPlan
      obtain ⟨record, hRecord, rfl⟩ := hPlan
      rw [if_neg hIdle]
      simp only [endCanceled, bind_ok, require_ok, exists_const, pure_ok, saveCheckpoint]
      exact ⟨record, hRecord, _, ⟨trivial, rfl⟩, rfl⟩

/-! Readiness. -/

/-- A Run that was asked to cancel and is not canceled, in which nobody works and
every unknown execution is decided, with what such a Run has and has not
recorded. -/
structure Ready (store : Store) (request : CancelRequest) : Prop extends store.Coherent where
  requested : store.progress.cancelRequested = some request
  intended : request.Intended ∧ request.version ≤ store.version
  running : store.progress.status = .collecting ∨ store.progress.status = .blocked
  passed : store.Passed
  unfinished : store.Unfinished
  idle : store.live = []
  resolved : store.progress.unresolvedResultUnknownCount = 0

variable {request : CancelRequest}

theorem Ready.free (h : store.Ready request) : store.claims = [] ∧ store.checkpoint = none := by
  obtain ⟨hClaims, hCheckpoint⟩ := List.append_eq_nil_iff.mp h.idle
  exact ⟨List.map_eq_nil_iff.mp hClaims, Option.toList_eq_nil_iff.mp hCheckpoint⟩

theorem Ready.uncanceled (h : store.Ready request) : store.progress.status ≠ .canceled := by
  rcases h.running with hStatus | hStatus <;> rw [hStatus] <;> decide

/-- The source that a ready Run gives. -/
theorem Ready.read (h : store.Ready request) (time : DateTime) :
    store.readCancelDrainSource time =
      .ok (some ⟨store.version, request.actor, request.reason, DateTime.latest time [request.requestedAt]⟩) := by
  obtain ⟨hClaims, hCheckpoint⟩ := h.free
  have hActive : store.activeClaims = .ok [] := activeClaims_ok.mpr ⟨h.shaped.index, by rw [hClaims, List.map_nil]⟩
  have hOpen : ¬ (store.progress.status = .canceled ∨ store.checkpoint ≠ none) := by
    rintro (hCanceled | hSome)
    · exact h.uncanceled hCanceled
    · exact hSome hCheckpoint
  have hDrained : ¬ (([] : List SlotClaim) ≠ [] ∨ store.progress.unresolvedResultUnknownCount ≠ 0) := by
    rintro (hSome | hUnknown)
    · exact hSome rfl
    · exact hUnknown h.resolved
  rw [readCancelDrainSource, h.requested]
  simp only
  rw [if_neg hOpen, hActive, ok_bind, if_neg hDrained]
  rfl

/-- What a Run that gives a source looks like. -/
theorem readCancelDrainSource_some {time : DateTime} {source : CancellationDrainSource}
    (h : store.readCancelDrainSource time = .ok (some source)) :
    ∃ request, store.progress.cancelRequested = some request ∧ store.progress.status ≠ .canceled ∧ store.live = [] ∧
      store.progress.unresolvedResultUnknownCount = 0 ∧
      source = ⟨store.version, request.actor, request.reason, DateTime.latest time [request.requestedAt]⟩ := by
  unfold readCancelDrainSource at h
  split at h
  · cases (pure_ok _ _).mp h
  · rename_i request hRequested
    split at h
    · cases (pure_ok _ _).mp h
    · rename_i hOpen
      simp only [not_or, not_not] at hOpen
      obtain ⟨active, hActive, h⟩ := (bind_ok _ _ _).mp h
      split at h
      · cases (pure_ok _ _).mp h
      · rename_i hDrained
        simp only [not_or, not_not] at hDrained
        obtain ⟨rfl, hResolved⟩ := hDrained
        have hClaims := List.map_eq_nil_iff.mp (activeClaims_ok.mp hActive).2.symm
        cases (pure_ok _ _).mp h
        refine ⟨request, hRequested, hOpen.1, ?_, hResolved, rfl⟩
        rw [live_serial hClaims, hOpen.2]
        rfl

/-- A contract recovery leaves the Run ready. -/
theorem Ready.recovers (h : store.Ready request) {value : ContractRecovery} {block : Transition}
    {target : SemanticCompletion} (hRecovers : store.Recovers next value block target) : next.Ready request := by
  have hChange : store.Change (.decided value.resolvedAt) next := .recover hRecovers
  have hCoherent := hChange.coherent h.toCoherent
  have hUnfinished := hChange.unfinished h.toCoherent fun _ => h.unfinished
  have hPassed := hChange.keepsPassed h.passed
  have hNext := hRecovers.next
  subst hNext
  refine ⟨hCoherent, h.requested, ⟨h.intended.1, h.intended.2.trans (Nat.le_succ _)⟩, .inl rfl, hPassed,
    hUnfinished (.inr (.inl rfl)), h.idle, h.resolved⟩

end Store

/-- The Run that a source was read from. -/
theorem Reaches.ready {allowed : DateTime → Store → Operation → Prop} {creation : Creation} {now time : DateTime}
    {store : Store} {source : CancellationDrainSource} (hReaches : Reaches allowed creation now store)
    (hSource : store.readCancelDrainSource time = .ok (some source)) :
    ∃ request, store.Ready request ∧
      source = ⟨store.version, request.actor, request.reason, DateTime.latest time [request.requestedAt]⟩ := by
  obtain ⟨request, hRequested, hUncanceled, hIdle, hResolved, hSource⟩ := Store.readCancelDrainSource_some hSource
  have hSome : store.progress.cancelRequested ≠ none := by
    rw [hRequested]
    exact Option.some_ne_none request
  have hRunning : store.progress.status = .collecting ∨ store.progress.status = .blocked := by
    rcases (hReaches.stopping hSome).status with hStatus | hStatus | hStatus
    · exact .inl hStatus
    · exact .inr hStatus
    · exact absurd hStatus hUncanceled
  refine ⟨request, ⟨hReaches.coherent.1, hRequested, ?_, hRunning, hReaches.passed hSome,
    hReaches.unfinished (.inr hRunning), hIdle, hResolved⟩, hSource⟩
  exact hReaches.audited.intended request hRequested

namespace Store

variable {store next : Store} {request : CancelRequest}

/-! The plan. -/

/-- When the Run was created and what it recorded since then. -/
def recordedTimes (store : Store) : List DateTime :=
  store.creation.createdAt :: store.progress.transitions.map (fun t => t.time) ++
    store.generations.map (fun r => r.evidence.finishedAt) ++ store.semantics.map (fun r => r.evidence.finishedAt)

/-- The record of a drained cancellation. -/
def drainRecord (store : Store) (request : CancelRequest) (time : DateTime) : CancellationRecord :=
  ⟨store.version, store.version + 1, store.progress.status, store.creation.releaseFingerprint, request.actor,
    request.reason, false, time, "", ""⟩

/-- The progress of a drained Run. -/
def drainedProgress (store : Store) (request : CancelRequest) (time : DateTime) : Progress :=
  { store.progress with
    status := .canceled
    canceledAt := some time
    cancellation := some (store.drainRecord request time)
    canceledCheckpoint := none
    transitions := store.progress.transitions ++ [cancellationTransition (store.drainRecord request time)] }

/-- The record is refused only for a time before something recorded. -/
theorem Ready.record_iff (h : store.Ready request) {decision : CancellationDecision} {now : DateTime}
    {record : CancellationRecord} (hActor : decision.actor = request.actor) (hReason : decision.reason = request.reason)
    (hDrains : decision.discard = false) :
    store.cancellationRecord none decision now = .ok record ↔
      (∀ recorded ∈ store.recordedTimes, recorded ≤ decision.canceledAt) ∧
      record = store.drainRecord request decision.canceledAt := by
  have hNothing := h.unfinished.nothing
  simp only [outcome, Prod.mk.injEq] at hNothing
  obtain ⟨hCancellation, hCanceledAt, hReviews, hCorrections, hReopenings, hGate, hFinalized⟩ := hNothing
  obtain ⟨unknowns, hUnknowns⟩ : ∃ unknowns, store.loadResolutionEvidence = .ok unknowns :=
    ⟨_, h.toCoherent.loadResolutionEvidence_idle (open_of_live_nil h.idle)⟩
  have hCause : ∃ cause, decision.cause store.progress.status store.progress.unresolvedResultUnknownCount none =
      .ok cause := by
    refine bind_total ((require_ok _ _ ()).mpr ⟨?_, h.resolved, ?_⟩) (bind_total ((require_ok _ _ ()).mpr ?_) ⟨_, rfl⟩)
    · exact .inr (h.running.imp_right .inl)
    · rw [hDrains]
      rcases h.running with hStatus | hStatus <;> rw [hStatus] <;> decide
    · exact fun cp hCp => by cases hCp
  obtain ⟨cause, hCause⟩ := hCause
  have hRounds : ¬ (store.progress.hasReviewRounds ∨ store.progress.reviewCorrections ≠ []) := by
    rintro ((hRounds | ⟨t, ht, hOpened⟩) | hSome)
    · exact hRounds hReopenings
    · exact h.unfinished.unopened t ht hOpened
    · exact hSome hCorrections
  have hFinal : store.readFinalization now = .ok (none, false) := by
    have hUndecided : store.progress.gateResult = none ∧
        ¬ (store.progress.status = .approved ∨ store.progress.status = .rejected) := by
      refine ⟨hGate, ?_⟩
      rcases h.running with hStatus | hStatus <;> rw [hStatus] <;> decide
    rw [readFinalization, if_pos hUndecided, require_bind_pos hFinalized, if_neg hRounds]
    rfl
  have hRequested : store.progress.status = .requested → store.dispatches = [] := by
    rcases h.running with hStatus | hStatus <;> rw [hStatus] <;> exact fun hOther => by cases hOther
  have hTimes : store.creation.createdAt :: store.progress.transitions.map (fun t => t.time) ++
      store.generations.map (fun r => r.evidence.finishedAt) ++ store.semantics.map (fun r => r.evidence.finishedAt) ++
      store.progress.humanReviews.map (fun r => r.reviewedAt) ++
      store.progress.reviewCorrections.map (fun c => c.review.reviewedAt) = store.recordedTimes := by
    rw [hReviews, hCorrections, List.map_nil, List.map_nil, List.append_nil, List.append_nil]
    rfl
  rw [cancellationRecord, require_bind_pos ⟨hCancellation, hCanceledAt⟩, hCause, ok_bind, hUnknowns, ok_bind, hTimes]
  have hPlanned : (none : Option ExecutionCheckpoint).forM store.checkPreparedPlan = .ok () := rfl
  rw [require_bind_ok, require_bind_pos hRequested, hPlanned, ok_bind, hFinal, ok_bind, hActor, hReason, hDrains]
  refine and_congr_right fun _ => ?_
  rw [pure_ok]
  exact eq_comm

/-- The plan of a ready Run is refused only past the last version or for a time
before something recorded. -/
theorem Ready.plan_iff (h : store.Ready request) {time now : DateTime} {plan : CancellationPlan} :
    store.planCancellation store.version request.actor request.reason time false true now = .ok plan ↔
      store.version < 2 ^ 63 - 1 ∧ (∀ recorded ∈ store.recordedTimes, recorded ≤ time) ∧
      plan = ⟨store.version + 1, none, store.drainedProgress request time⟩ := by
  obtain ⟨hClaims, hCheckpoint⟩ := h.free
  obtain ⟨hStrip, decision, hDecision, hActor, hReason, hDrains, hTime⟩ := h.intended.1.decide time
  have hPositive : 0 < store.version := by
    have hSource := h.intended.1.source
    have hVersion := h.intended.1.version
    have hBound := h.intended.2
    omega
  have hActive : store.cancelClaims = .ok [] := by
    unfold cancelClaims
    split
    · exact activeClaims_ok.mpr ⟨h.shaped.index, by rw [hClaims, List.map_nil]⟩
    · rfl
  have hIdle : ¬ (([] : List SlotClaim) ≠ [] ∨ (∃ cp ∈ store.checkpoint, cp.phase = .dispatching) ∨
      store.progress.unresolvedResultUnknownCount ≠ 0) := by
    rintro (hSome | ⟨cp, hCp, _⟩ | hUnknown)
    · exact hSome rfl
    · rw [hCheckpoint] at hCp
      cases hCp
    · exact hUnknown h.resolved
  rw [planCancellation, require_bind_ok, hStrip, hDecision, ok_bind, require_bind_pos rfl, hActive, ok_bind,
    if_neg hIdle, bind_ok, hCheckpoint]
  simp only [h.record_iff hActor hReason hDrains, hTime, pure_ok]
  constructor
  · rintro ⟨⟨_, _, hVersion⟩, _, ⟨hPast, rfl⟩, rfl⟩
    exact ⟨hVersion, hPast, rfl⟩
  · rintro ⟨hVersion, hPast, rfl⟩
    exact ⟨⟨trivial, hPositive, hVersion⟩, _, ⟨hPast, rfl⟩, rfl⟩

/-- Finishing the cancellation of a ready Run stores its plan. -/
theorem Ready.finish_iff (h : store.Ready request) {time now : DateTime} :
    store.finishCancellation time now = .ok next ↔ ∃ plan,
      store.planCancellation store.version request.actor request.reason
        (DateTime.latest time [request.requestedAt]) false true now = .ok plan ∧
      next = { store with version := plan.version, checkpoint := plan.checkpoint, progress := plan.progress } := by
  obtain ⟨hClaims, hCheckpoint⟩ := h.free
  obtain ⟨_, decision, hDecision, hActor, hReason, hDrains, hTime⟩ :=
    h.intended.1.decide (DateTime.latest time [request.requestedAt])
  have hActive : store.activeClaims = .ok [] := activeClaims_ok.mpr ⟨h.shaped.index, by rw [hClaims, List.map_nil]⟩
  have hOpen : ¬ (store.progress.status = .canceled ∨ store.checkpoint ≠ none) := by
    rintro (hCanceled | hSome)
    · exact h.uncanceled hCanceled
    · exact hSome hCheckpoint
  have hDrained : ¬ (([] : List SlotClaim) ≠ [] ∨ store.progress.unresolvedResultUnknownCount ≠ 0) := by
    rintro (hSome | hUnknown)
    · exact hSome rfl
    · exact hUnknown h.resolved
  rw [finishCancellation, h.requested]
  simp only
  rw [if_neg hOpen, hActive, ok_bind, if_neg hDrained, hDecision, ok_bind, cancel_planned, hActor, hReason, hDrains, hTime]

/-! What a ready Run accepts. -/

theorem Ready.unowned (h : store.Ready request) {cp : ExecutionCheckpoint} {rest : List ExecutionCheckpoint} :
    ¬ store.live.Perm (cp :: rest) := by
  intro hPerm
  rw [h.idle] at hPerm
  exact absurd hPerm.symm.eq_nil (by simp)

/-- No unknown execution is left to decide about. -/
theorem Ready.decided (h : store.Ready request) {value : ResultUnknownResolution} {result : ResolutionProgress}
    (hResult : resolveUnknown .blocked (unknownExecutions store.generations store.semantics)
      store.progress.resultUnknownResolutions value store.creation.policy = .ok result) : False := by
  have hLength := resolutions_le (h.sound.decisions.resolved.snoc hResult).1
  have hLength : (store.progress.resultUnknownResolutions ++ [value]).length ≤
      (unknownExecutions store.generations store.semantics).length := hLength
  have hCounted := h.counted
  have hResolved := h.resolved
  simp only [List.length_append, List.length_singleton] at hLength
  omega

/-- A change of a ready Run recovers its block, cancels it or is none. -/
theorem Ready.change (h : store.Ready request) {event : Event} (hChange : store.Change event next) :
    ((∃ time, event = .decided time) ∧ ∃ value block target, store.Recovers next value block target) ∨
    ((∃ time, event = .canceled time ∨ event = .drained time) ∧ next.progress.status = .canceled ∧
      next.progress.cancellation ≠ none) ∨
    ((∃ time, event = .drained time ∨ event = .reviewed time) ∧ next = store) := by
  have hRequested : store.progress.cancelRequested ≠ none := by
    rw [h.requested]
    exact Option.some_ne_none request
  cases hChange with
  | start _ hStatus =>
      rcases h.running with hRunning | hRunning <;> rw [hRunning] at hStatus <;> cases hStatus
  | preflight _ _ hNone =>
      obtain ⟨preflight, hPreflight, _⟩ := h.passed
      rw [hNone] at hPreflight
      cases hPreflight
  | prepare hOpens => exact absurd hOpens.uncanceled hRequested
  | dispatch _ hUncanceled => exact absurd hUncanceled hRequested
  | renew _ _ _ hLive => exact absurd hLive h.unowned
  | release _ _ _ _ hLive => exact absurd hLive h.unowned
  | drain _ hDrains =>
      obtain ⟨_, hLive, _⟩ := hDrains.live h.toValid
      exact absurd hLive h.unowned
  | settle _ hSettles =>
      have hLive := (hSettles.live h.toValid).1
      rw [h.idle] at hLive
      cases hLive
  | resolve _ _ _ hResult => exact absurd hResult h.decided
  | recover hRecovers => exact .inl ⟨⟨_, rfl⟩, _, _, _, hRecovers⟩
  | requestCancel hRequests => exact absurd hRequests.uncanceled hRequested
  | endCanceled hEvent hEnds =>
      have hNext := hEnds.next
      subst hNext
      refine .inr (.inl ⟨?_, rfl, Option.some_ne_none _⟩)
      rcases hEvent with rfl | ⟨time, _, rfl, _⟩
      · exact ⟨_, .inl rfl⟩
      · exact ⟨time, .inr rfl⟩
  | review hReviews =>
      rcases hReviews.reviewed.before with hStatus | hStatus <;> rcases h.running with hRunning | hRunning <;>
        rw [hRunning] at hStatus <;> cases hStatus
  | unchanged hEvent => exact .inr (.inr ⟨hEvent, rfl⟩)

/-- Nothing is corrected in a ready Run, and no correction is on record. -/
theorem Ready.uncorrected (h : store.Ready request) {expectedVersion : Nat}
    {actor commandId previousReviewFingerprint candidateOutputFingerprint : String} {value : CandidateHumanReview} :
    store.correctReview expectedVersion actor commandId previousReviewFingerprint candidateOutputFingerprint value ≠
      .ok next := by
  intro hOk
  have hNothing := h.unfinished.nothing
  simp only [outcome, Prod.mk.injEq] at hNothing
  obtain ⟨_, _, _, hCorrections, hReopenings, _⟩ := hNothing
  have hFind : findCorrection store.creation.assets.encoding.reviewFingerprint commandId store.correctionArchives =
      .ok none := by
    rw [correctionArchives, hCorrections, hReopenings]
    rfl
  obtain ⟨_, hOk⟩ := (require_bind_ok _ _ _ _).mp hOk
  obtain ⟨_, _, hOk⟩ := (bind_ok _ _ _).mp hOk
  rw [hFind, ok_bind] at hOk
  obtain ⟨⟨_, hStatus⟩, _⟩ := (require_bind_ok _ _ _ _).mp hOk
  rcases h.running with hRunning | hRunning <;> rw [hRunning] at hStatus <;> cases hStatus

/-- A ready Run accepts the recovery of its contract block and what cancels it,
and refuses every other operation. -/
theorem Ready.perform (h : store.Ready request) {op : Operation} (hOp : store.perform op = .ok next) :
    (op.recovers = true ∧ ∃ value block target, store.Recovers next value block target) ∨
    (next.progress.status = .canceled ∧ next.progress.cancellation ≠ none) := by
  have hRequested : store.progress.cancelRequested ≠ none := by
    rw [h.requested]
    exact Option.some_ne_none request
  have hSingle : ∀ {event : Event}, op.events = [event] → store.Change event next := by
    intro event hEvents
    have hChanges := perform_changes h.toCoherent hOp
    rw [hEvents] at hChanges
    cases hChanges with
    | cons hChange hRest =>
        cases hRest
        exact hChange
  have hWorks : ∀ {event : Event}, op.events = [event] → (∀ time, event ≠ .decided time) →
      (∀ time, event ≠ .drained time ∧ event ≠ .reviewed time) →
      next.progress.status = .canceled ∧ next.progress.cancellation ≠ none := by
    intro event hEvents hDecided hOther
    rcases h.change (hSingle hEvents) with ⟨⟨time, hEvent⟩, _⟩ | ⟨_, hCanceled⟩ | ⟨⟨time, hEvent⟩, _⟩
    · exact absurd hEvent (hDecided time)
    · exact hCanceled
    · exact hEvent.elim (fun hEvent => absurd hEvent (hOther time).1) fun hEvent => absurd hEvent (hOther time).2
  have hReviewed : store.progress.status ≠ .awaitingReview ∧ store.progress.status ≠ .rejected := by
    rcases h.running with hRunning | hRunning <;> rw [hRunning] <;> decide
  cases op with
  | transitionRequested expectedVersion target actor reason time =>
      obtain ⟨_, hStatus, _⟩ := transitionRequested_ok hOp
      rcases h.running with hRunning | hRunning <;> rw [hRunning] at hStatus <;> cases hStatus
  | completePreflight expectedVersion evidence =>
      obtain ⟨_, _, hNone, _⟩ := completePreflight_ok hOp
      obtain ⟨preflight, hPreflight, _⟩ := h.passed
      rw [hNone] at hPreflight
      cases hPreflight
  | claimAndDispatch owner executionId invocationId claimedAt expiresAt limit time =>
      cases perform_changes h.toCoherent hOp with
      | cons hPrepare hRest =>
          rcases h.change hPrepare with ⟨⟨_, hEvent⟩, _⟩ | ⟨⟨_, hEvent⟩, _⟩ | ⟨⟨_, hEvent⟩, _⟩
          · cases hEvent
          · rcases hEvent with hEvent | hEvent <;> cases hEvent
          · rcases hEvent with hEvent | hEvent <;> cases hEvent
  | expireCandidate claim time =>
      refine .inr (hWorks rfl ?_ ?_) <;> intro reading <;> split <;> simp
  | acceptResolution expectedVersion value confirm =>
      obtain ⟨_, _, _, _, hResult, _⟩ := acceptResolution_ok hOp
      exact absurd hResult h.decided
  | authorizeContractRecovery expectedVersion expectedReleaseFingerprint value confirm =>
      obtain ⟨block, target, hRecovers⟩ := authorizeContractRecovery_ok h.toValid hOp
      exact .inl ⟨rfl, value, block, target, hRecovers⟩
  | finishCancellation time now =>
      obtain ⟨plan, hPlan, rfl⟩ := h.finish_iff.mp hOp
      obtain ⟨_, _, rfl⟩ := h.plan_iff.mp hPlan
      exact .inr ⟨rfl, Option.some_ne_none _⟩
  | acceptReviews expectedVersion actor values =>
      obtain ⟨_, _, hSigns⟩ := acceptReviews_ok hOp
      exact absurd hSigns.awaits hReviewed.1
  | correctReview expectedVersion actor commandId previousReviewFingerprint candidateOutputFingerprint value =>
      exact absurd hOp h.uncorrected
  | finalize expectedVersion actor expectedPassed reason time confirm =>
      obtain ⟨_, _, hFinalizes⟩ := finalize_ok hOp
      exact absurd (loadSnapshot_ok hFinalizes.loaded).2.2.1 hReviewed.1
  | reopen expectedVersion actor reason time confirm =>
      obtain ⟨_, hReopens⟩ := reopen_ok hOp
      exact absurd hReopens.rejected hReviewed.2
  | _ => exact .inr (hWorks rfl (by simp [Completion.event]) (by simp [Completion.event]))

end Store

/-- All that can become of a ready Run: it stays as it is, it is canceled, or its
contract block is recovered, once. -/
theorem Continues.ready {allowed : Operation → Prop} {store later : Store} {request : CancelRequest}
    (hLater : Continues allowed store later) (h : store.Ready request) :
    later = store ∨ (later.progress.status = .canceled ∧ later.progress.cancellation ≠ none) ∨
    ∃ value block target, store.Recovers later value block target := by
  induction hLater with
  | refl => exact .inl rfl
  | step hFirst _ hOp ih =>
      rcases ih with rfl | ⟨hCanceled, hRecord⟩ | ⟨value, block, target, hRecovers⟩
      · exact .inr ((h.perform hOp).symm.imp_right And.right)
      · obtain ⟨record, hRecord⟩ := Option.ne_none_iff_exists'.mp hRecord
        have hCoherent := (hFirst.kept h.toCoherent).1
        have hSame := (@Continues.step (fun _ => True) _ _ _ _ .refl trivial hOp).final hCoherent hCanceled hRecord
        subst hSame
        exact .inr (.inl ⟨hCanceled, by rw [hRecord]; exact Option.some_ne_none record⟩)
      · have hReady := h.recovers hRecovers
        rcases hReady.perform hOp with ⟨_, _, _, _, hAgain⟩ | hCanceled
        · have hBlocked := hAgain.blocked
          rw [hRecovers.next] at hBlocked
          cases hBlocked
        · exact .inr (.inl hCanceled)

/-! The frozen plan of the drain. -/

/-- Internal drain of an existing cancel request; never a new cancellation
authority. -/
structure CancellationDrainOperation where
  actor : String
  requestVersion : Nat
  reason : String
  requestedAt : DateTime
  identified : 1 < requestVersion ∧ requestVersion < 2 ^ 63 - 1
  decided : (CancellationDecision.make actor reason false requestedAt).toOption.isSome = true
deriving DecidableEq

/-- The drain of the request that the Run carries. -/
def CancellationDrainOperation.fromRun (store : Store) : Except Rejection CancellationDrainOperation := do
  let value ← demand store.progress.cancelRequested (.invalid "cancel_requested")
  require (1 ≤ value.sourceVersion ∧ value.version = value.sourceVersion + 1 ∧ value.version ≤ store.version)
    (.invalid "Exact original cancellation request audit required")
  if h : (1 < value.version ∧ value.version < 2 ^ 63 - 1) ∧
      (CancellationDecision.make value.actor value.reason false value.requestedAt).toOption.isSome = true then
    pure ⟨value.actor, value.version, value.reason, value.requestedAt, h.1, h.2⟩
  else throw (.invalid "Original cancellation request identity required")

/-- How a drain plan is written: the digest of the Run with its planned progress,
and whether the frozen facts keep their bound. -/
structure DrainEncoding (δ : Type) where
  digest : Store → Progress → δ
  fits : CancellationDrainOperation → δ → Bool

/-- What a drain plan freezes of the Run. -/
structure DrainFacts (δ : Type) where
  operation : CancellationDrainOperation
  time : DateTime
  sourceVersion : Nat
  source : δ

namespace Store

variable {δ : Type}

/-- Plan the drain and freeze what it found. -/
def drainCandidate (encoding : DrainEncoding δ) (store : Store) (operation : CancellationDrainOperation)
    (time now : DateTime) : Except Rejection (DrainFacts δ) := do
  match ← store.readCancelDrainSource (DateTime.latest time [operation.requestedAt]) with
  | none => throw (.conflict "Original cancellation is no longer ready to drain")
  | some source => do
      let first ← CancellationDrainOperation.fromRun store
      require (first = operation) (.conflict "Original cancellation is no longer ready to drain")
      let plan ← store.planCancellation source.version source.actor source.reason source.time false true now
      let digest := encoding.digest store plan.progress
      require (encoding.fits operation digest = true) (.invalid "Frozen drain facts exceed bounds")
      pure ⟨operation, source.time, source.version, digest⟩

variable {store next : Store} {request : CancelRequest} {encoding : DrainEncoding δ} {facts : DrainFacts δ}

/-- What was frozen of a ready Run. -/
theorem Ready.frozen (h : store.Ready request) {operation : CancellationDrainOperation} {time now : DateTime}
    (hFacts : store.drainCandidate encoding operation time now = .ok facts) :
    CancellationDrainOperation.fromRun store = .ok facts.operation ∧
    DateTime.latest facts.time [request.requestedAt] = facts.time ∧ facts.sourceVersion = store.version ∧
    store.version < 2 ^ 63 - 1 ∧ (∀ recorded ∈ store.recordedTimes, recorded ≤ facts.time) ∧
    facts.source = encoding.digest store (store.drainedProgress request facts.time) := by
  rw [drainCandidate, h.read, ok_bind] at hFacts
  simp only [bind_ok, require_ok, exists_const, pure_ok] at hFacts
  obtain ⟨first, hFirst, rfl, plan, hPlan, _, rfl⟩ := hFacts
  obtain ⟨hVersion, hPast, rfl⟩ := h.plan_iff.mp hPlan
  refine ⟨hFirst, DateTime.latest_eq_first fun t ht => ?_, rfl, hVersion, hPast, rfl⟩
  rw [List.mem_singleton.mp ht]
  exact DateTime.le_latest_of_mem (List.mem_singleton_self _)

variable [DecidableEq δ]

/-- Commit a frozen drain, when the Run is still what was frozen. -/
def applyCancellationDrain (encoding : DrainEncoding δ) (store : Store) (facts : DrainFacts δ) (now : DateTime) :
    Except Rejection Store := do
  match ← store.readCancelDrainSource facts.time with
  | none => throw (.conflict "Original cancellation drain source changed")
  | some source => do
      require (source.version = facts.sourceVersion) (.conflict "Original cancellation drain source changed")
      let first ← CancellationDrainOperation.fromRun store
      require (first = facts.operation) (.conflict "Original cancellation drain source changed")
      let plan ← store.planCancellation source.version source.actor source.reason source.time false true now
      require (encoding.digest store plan.progress = facts.source)
        (.conflict "Original drain evidence differs from frozen plan")
      store.finishCancellation facts.time now

/-- A plan of the Run as it is commits, at any reading of the clock. -/
theorem Ready.commits (h : store.Ready request) {operation : CancellationDrainOperation} {time now : DateTime}
    (hFacts : store.drainCandidate encoding operation time now = .ok facts) (later : DateTime) :
    ∃ next, store.applyCancellationDrain encoding facts later = .ok next ∧ next.progress.status = .canceled := by
  obtain ⟨hFirst, hTime, hSource, hVersion, hPast, hDigest⟩ := h.frozen hFacts
  have hPlan : store.planCancellation store.version request.actor request.reason facts.time false true later =
      .ok ⟨store.version + 1, none, store.drainedProgress request facts.time⟩ :=
    h.plan_iff.mpr ⟨hVersion, hPast, rfl⟩
  refine ⟨{ store with version := store.version + 1, checkpoint := none
                       progress := store.drainedProgress request facts.time }, ?_, rfl⟩
  rw [applyCancellationDrain, h.read, ok_bind]
  simp only
  rw [require_bind_pos hSource.symm, hFirst, ok_bind, require_bind_pos rfl, hTime, hPlan, ok_bind,
    require_bind_pos hDigest.symm]
  refine h.finish_iff.mpr ⟨⟨_, _, _⟩, ?_, rfl⟩
  rw [hTime]
  exact hPlan

/-- A plan is refused once the version moved. -/
theorem apply_stale {now : DateTime} (hMoved : store.version ≠ facts.sourceVersion) :
    store.applyCancellationDrain encoding facts now ≠ .ok next := by
  intro hOk
  obtain ⟨found, hSource, hOk⟩ := (bind_ok _ _ _).mp hOk
  cases found with
  | none => cases hOk
  | some source =>
      obtain ⟨request, _, _, _, _, rfl⟩ := readCancelDrainSource_some hSource
      exact hMoved ((require_bind_ok _ _ _ _).mp hOk).1

end Store

/-- In a reachable Run that gives a drain source, in either mode: the source is
planned for every time that nothing recorded follows, while a version is left;
every operation that neither cancels the Run nor recovers its contract block is
refused; and a recovery leaves the Run ready, so that a plan frozen here commits,
finds the Run canceled, or finds the version that one recovery moved. -/
theorem drain_readiness {δ : Type} [DecidableEq δ] {allowed : DateTime → Store → Operation → Prop} {creation : Creation}
    {now time : DateTime} {store : Store} {source : CancellationDrainSource}
    (hReaches : Reaches allowed creation now store) (hSource : store.readCancelDrainSource time = .ok (some source)) :
    (∀ moment reading, ∃ found, store.readCancelDrainSource moment = .ok (some found) ∧
      ((∃ plan, store.planCancellation found.version found.actor found.reason found.time false true reading = .ok plan) ↔
        store.version < 2 ^ 63 - 1 ∧ ∀ recorded ∈ store.recordedTimes, recorded ≤ found.time)) ∧
    (∀ op next, store.perform op = .ok next → op.recovers = false → next.progress.status = .canceled) ∧
    (∀ op next, store.perform op = .ok next → next.progress.status ≠ .canceled →
      next.version = store.version + 1 ∧ next.checkpoint = store.checkpoint ∧ next.claims = store.claims ∧
      next.progress.status = .collecting ∧
      (∃ found, next.readCancelDrainSource time = .ok (some found)) ∧
      ∀ again other, next.perform again = .ok other → other.progress.status = .canceled) ∧
    ∀ (encoding : DrainEncoding δ) operation moment reading facts,
      store.drainCandidate encoding operation moment reading = .ok facts →
      ∀ later, Continues (fun _ => True) store later →
        (later = store ∧ ∀ reading, ∃ next, later.applyCancellationDrain encoding facts reading = .ok next ∧
          next.progress.status = .canceled) ∨
        later.progress.status = .canceled ∨
        (∃ value block target, store.Recovers later value block target) ∧
          ∀ reading next, later.applyCancellationDrain encoding facts reading ≠ .ok next := by
  obtain ⟨request, hReady, rfl⟩ := hReaches.ready hSource
  refine ⟨?_, ?_, ?_, ?_⟩
  · intro moment reading
    refine ⟨_, hReady.read moment, ?_⟩
    simp only [hReady.plan_iff]
    exact ⟨fun ⟨_, hVersion, hPast, _⟩ => ⟨hVersion, hPast⟩, fun ⟨hVersion, hPast⟩ => ⟨_, hVersion, hPast, rfl⟩⟩
  · intro op next hOp hOther
    rcases hReady.perform hOp with ⟨hRecovers, _⟩ | ⟨hCanceled, _⟩
    · rw [hOther] at hRecovers
      cases hRecovers
    · exact hCanceled
  · intro op next hOp hOpen
    rcases hReady.perform hOp with ⟨_, value, block, target, hRecovers⟩ | ⟨hCanceled, _⟩
    · have hNext := hReady.recovers hRecovers
      have hAgain : ∀ again other, next.perform again = .ok other → other.progress.status = .canceled := by
        intro again other hAgain
        rcases hNext.perform hAgain with ⟨_, _, _, _, hOther⟩ | ⟨hCanceled, _⟩
        · have hBlocked := hOther.blocked
          rw [hRecovers.next] at hBlocked
          cases hBlocked
        · exact hCanceled
      refine ⟨by rw [hRecovers.next], by rw [hRecovers.next], by rw [hRecovers.next], by rw [hRecovers.next],
        ⟨_, hNext.read time⟩, hAgain⟩
    · exact absurd hCanceled hOpen
  · intro encoding operation moment reading facts hFacts later hLater
    rcases hLater.ready hReady with rfl | ⟨hCanceled, _⟩ | ⟨value, block, target, hRecovers⟩
    · exact .inl ⟨rfl, fun reading => hReady.commits hFacts reading⟩
    · exact .inr (.inl hCanceled)
    · refine .inr (.inr ⟨⟨value, block, target, hRecovers⟩, fun reading next => Store.apply_stale ?_⟩)
      obtain ⟨_, _, hVersion, _⟩ := hReady.frozen hFacts
      rw [hVersion, hRecovers.next]
      simp

namespace Pilot

/-- A serial generation that was out when an operator asked to cancel and that
succeeded afterwards. -/
def drainedScript : List ScriptStep :=
  start ++ [prepare 1 "e1", reserve 1, cancel 2, explain 4 "c1"]

/-- A serial judge call that was out when an operator asked to cancel and that
left its contract. -/
def blockedScript : List ScriptStep :=
  start ++ [prepare 1 "e1", reserve 1, explain 2 "c1", prepare 3 "s1", reserve 3, cancel 4, breakContract 4]

/-- The whole Run as its own digest. -/
def drainEncoding : DrainEncoding Unit := ⟨fun _ _ => (), fun _ _ => true⟩

def sourced (store : Store) (seconds : Fin 60) : Bool :=
  (store.readCancelDrainSource (clock seconds)).toOption.any (·.isSome)

def frozen (store : Store) (seconds : Fin 60) : Bool :=
  (CancellationDrainOperation.fromRun store).toOption.any fun operation =>
    (store.drainCandidate drainEncoding operation (clock seconds) (clock seconds)).toOption.isSome

theorem sourced_some {store : Store} {seconds : Fin 60} (h : sourced store seconds = true) :
    ∃ source, store.readCancelDrainSource (clock seconds) = .ok (some source) := by
  obtain ⟨found, hFound, hSome⟩ := (Option.any_eq_true _ _).mp h
  obtain ⟨source, rfl⟩ := Option.isSome_iff_exists.mp hSome
  exact ⟨source, toOption_some.mp hFound⟩

theorem frozen_some {store : Store} {seconds : Fin 60} (h : frozen store seconds = true) :
    ∃ operation facts, store.drainCandidate drainEncoding operation (clock seconds) (clock seconds) = .ok facts := by
  obtain ⟨operation, _, hSome⟩ := (Option.any_eq_true _ _).mp h
  obtain ⟨facts, hFacts⟩ := Option.isSome_iff_exists.mp hSome
  exact ⟨operation, facts, toOption_some.mp hFacts⟩

end Pilot

/-- The drained pilot Run: it can be planned for every later reading and the frozen
plan commits. -/
theorem drain_readiness_pilot : ∃ now store source operation facts,
    Reaches (fun _ _ _ => True) (Pilot.creation .serialV1) now store ∧
    store.readCancelDrainSource (Pilot.clock 5) = .ok (some source) ∧
    store.drainCandidate Pilot.drainEncoding operation (Pilot.clock 5) (Pilot.clock 5) = .ok facts ∧
    (∀ op next, store.perform op = .ok next → op.recovers = false → next.progress.status = .canceled) ∧
    ∃ next, store.applyCancellationDrain Pilot.drainEncoding facts (Pilot.clock 6) = .ok next ∧
      next.progress.status = .canceled := by
  obtain ⟨now, store, hReaches, hCheck⟩ := exists_reaches (fun _ _ _ => True) (Pilot.creation .serialV1)
    Pilot.drainedScript (fun store => Pilot.sourced store 5 && Pilot.frozen store 5 &&
      decide (store.progress.status ≠ .canceled)) (by decide)
  simp only [Bool.and_eq_true, decide_eq_true_eq] at hCheck
  obtain ⟨⟨hSourced, hFrozen⟩, hOpen⟩ := hCheck
  obtain ⟨source, hSource⟩ := Pilot.sourced_some hSourced
  obtain ⟨operation, facts, hFacts⟩ := Pilot.frozen_some hFrozen
  obtain ⟨_, hRefused, _, hDrain⟩ := drain_readiness (δ := Unit) hReaches hSource
  refine ⟨now, store, source, operation, facts, hReaches, hSource, hFacts, hRefused, ?_⟩
  rcases hDrain Pilot.drainEncoding operation _ _ facts hFacts store .refl with
    ⟨_, hCommits⟩ | hCanceled | ⟨⟨value, block, target, hRecovers⟩, _⟩
  · exact hCommits (Pilot.clock 6)
  · exact absurd hCanceled hOpen
  · have hVersion := congrArg Store.version hRecovers.next
    exact absurd hVersion (by simp)

/-- Two ready Runs that break a drain which nothing but a cancellation touches: one
accepts the recovery of its contract block, which leaves its frozen plan stale, and
the other cannot be canceled at a time after its last transition, because a result
is later. -/
theorem ready_run_moves :
    (∃ now store source next operation facts, Reaches (fun _ _ _ => True) (Pilot.creation .serialV1) now store ∧
      store.readCancelDrainSource (Pilot.clock 5) = .ok (some source) ∧
      store.drainCandidate Pilot.drainEncoding operation (Pilot.clock 5) (Pilot.clock 5) = .ok facts ∧
      store.perform (.authorizeContractRecovery store.version "release" Pilot.exception true) = .ok next ∧
      next.version ≠ store.version ∧ next.progress.status = .collecting ∧
      ∀ reading other, next.applyCancellationDrain Pilot.drainEncoding facts reading ≠ .ok other) ∧
    ∃ now store source, Reaches (fun _ _ _ => True) (Pilot.creation .serialV1) now store ∧
      store.readCancelDrainSource (Pilot.clock 3) = .ok (some source) ∧
      (∀ t ∈ store.progress.transitions, t.time ≤ Pilot.clock 3) ∧
      ∀ reading plan,
        store.planCancellation source.version source.actor source.reason source.time false true reading ≠ .ok plan := by
  constructor
  · obtain ⟨now, store, hReaches, hCheck⟩ := exists_reaches (fun _ _ _ => True) (Pilot.creation .serialV1)
      Pilot.blockedScript (fun store => Pilot.sourced store 5 && Pilot.frozen store 5 &&
        (store.authorizeContractRecovery store.version "release" Pilot.exception true).toOption.isSome)
      (by decide)
    simp only [Bool.and_eq_true] at hCheck
    obtain ⟨⟨hSourced, hFrozen⟩, hAccepted⟩ := hCheck
    obtain ⟨source, hSource⟩ := Pilot.sourced_some hSourced
    obtain ⟨operation, facts, hFacts⟩ := Pilot.frozen_some hFrozen
    obtain ⟨next, hNext⟩ := Option.isSome_iff_exists.mp hAccepted
    have hOk := toOption_some.mp hNext
    obtain ⟨request, hReady, _⟩ := hReaches.ready hSource
    obtain ⟨block, target, hRecovers⟩ := Store.authorizeContractRecovery_ok hReady.toValid hOk
    have hMoved : next.version ≠ store.version := by
      rw [hRecovers.next]
      simp
    refine ⟨now, store, source, next, operation, facts, hReaches, hSource, hFacts, hOk, hMoved, ?_, ?_⟩
    · rw [hRecovers.next]
    · intro reading other
      refine Store.apply_stale ?_
      rw [(hReady.frozen hFacts).2.2.1]
      exact hMoved
  · obtain ⟨now, store, hReaches, hCheck⟩ := exists_reaches (fun _ _ _ => True) (Pilot.creation .serialV1)
      Pilot.drainedScript (fun store => Pilot.sourced store 3 &&
        decide (∀ t ∈ store.progress.transitions, t.time ≤ Pilot.clock 3) &&
        decide (∃ recorded ∈ store.recordedTimes, ¬ recorded ≤ Pilot.clock 3) &&
        decide (∀ request ∈ store.progress.cancelRequested, request.requestedAt ≤ Pilot.clock 3)) (by decide)
    simp only [Bool.and_eq_true, decide_eq_true_eq] at hCheck
    obtain ⟨⟨⟨hSourced, hPast⟩, recorded, hRecorded, hLater⟩, hAsked⟩ := hCheck
    obtain ⟨source, hSource⟩ := Pilot.sourced_some hSourced
    obtain ⟨request, hReady, rfl⟩ := hReaches.ready hSource
    refine ⟨now, store, _, hReaches, hSource, hPast, fun reading plan hPlan => ?_⟩
    obtain ⟨_, hBefore, _⟩ := hReady.plan_iff.mp hPlan
    have hTime : DateTime.latest (Pilot.clock 3) [request.requestedAt] = Pilot.clock 3 := by
      refine DateTime.latest_eq_first fun t ht => ?_
      rw [List.mem_singleton.mp ht]
      exact hAsked request hReady.requested
    rw [hTime] at hBefore
    exact hLater (hBefore recorded hRecorded)

end QsAi
