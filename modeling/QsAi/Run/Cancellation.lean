import QsAi.Run.SerialCompletion

/-! A Run that somebody asked to cancel. The request stays for good, nothing new
is dispatched under it, and the Run drains towards its cancellation while the
calls that are already out still report. -/
namespace QsAi

open Guarded Keyed Numbered

namespace Store

variable {store next : Store} {event : Event}

/-! The request. -/

/-- Only a cancellation asks to cancel, and only once. -/
theorem Change.request (hChange : store.Change event next) :
    next.progress.cancelRequested = store.progress.cancelRequested ∨
    ∃ decision, event = .canceled decision.canceledAt ∧ store.Requests next decision := by
  cases hChange with
  | start => exact .inl rfl
  | preflight =>
      left
      split
      · rfl
      · rfl
  | prepare _ hKeeps => exact .inl (by rw [hKeeps.progress])
  | dispatch _ _ _ _ _ _ _ hKeeps => exact .inl (by rw [hKeeps.progress])
  | renew _ hKeeps => exact .inl (by rw [hKeeps.progress])
  | release _ _ hKeeps => exact .inl (by rw [hKeeps.progress])
  | drain hEnded => exact .inl hEnded.cancelRequested
  | settle _ _ hEnded => exact .inl hEnded.cancelRequested
  | resolve => exact .inl rfl
  | recover hRecovers => exact .inl (by rw [hRecovers.next])
  | requestCancel hRequests => exact .inr ⟨_, rfl, hRequests⟩
  | endCanceled _ hEnds => exact .inl (by rw [hEnds.next])
  | review hReviews => exact .inl (by rw [hReviews.reviewed.next])
  | unchanged => exact .inl rfl

/-- A request to cancel is never taken back. -/
theorem Change.keepsRequest (hChange : store.Change event next) {request : CancelRequest}
    (hRequested : store.progress.cancelRequested = some request) : next.progress.cancelRequested = some request := by
  rcases hChange.request with hSame | ⟨_, _, hRequests⟩
  · exact hSame.trans hRequested
  · rw [hRequests.uncanceled] at hRequested
    cases hRequested

/-- The transitions of a Run are only ever appended to. -/
theorem Change.appends (hChange : store.Change event next) (h : store.Coherent) :
    store.progress.transitions <+: next.progress.transitions := by
  have hCounted := fun completion => (Progress.counted_kept store.progress completion).1
  cases hChange with
  | start => exact ⟨_, rfl⟩
  | preflight =>
      split
      · exact ⟨_, rfl⟩
      · exact ⟨[], List.append_nil _⟩
  | prepare _ hKeeps => rw [hKeeps.progress]
  | dispatch _ _ _ _ _ _ _ hKeeps => rw [hKeeps.progress]
  | renew _ hKeeps => rw [hKeeps.progress]
  | release _ _ hKeeps => rw [hKeeps.progress]
  | drain _ hDrains =>
      cases hDrains.aggregates h with
      | working _ hProgress => rw [hProgress, hCounted]
      | draining _ _ _ hProgress => rw [hProgress, hCounted]
      | waiting _ _ _ _ _ _ hProgress => rw [hProgress, hCounted]
      | unknown _ _ _ _ hProgress => exact ⟨_, by rw [hProgress]⟩
      | closes _ _ _ _ _ hProgress => exact ⟨_, by rw [hProgress]⟩
      | blocks _ _ _ _ _ _ _ _ _ _ hProgress => exact ⟨_, by rw [hProgress]⟩
  | settle _ _ _ hConcludes =>
      cases hConcludes with
      | continues _ _ hTransitions => rw [hTransitions]
      | blocks _ _ hTransitions => exact ⟨_, hTransitions.symm⟩
      | closes _ _ _ _ _ _ _ _ hTransitions => exact ⟨_, hTransitions.symm⟩
  | resolve =>
      simp only
      split
      · exact ⟨[], List.append_nil _⟩
      · exact ⟨_, rfl⟩
  | recover hRecovers =>
      rw [hRecovers.next]
      exact ⟨_, rfl⟩
  | requestCancel hRequests => rw [hRequests.next]
  | endCanceled _ hEnds =>
      rw [hEnds.next]
      exact ⟨_, rfl⟩
  | review hReviews =>
      obtain ⟨added, hAdded, _⟩ := hReviews.reviewed.transitions
      exact ⟨added, hAdded.symm⟩
  | unchanged => exact ⟨[], List.append_nil _⟩

/-- Nothing is dispatched once the request is stored. -/
theorem Change.undispatched_of_request (hChange : store.Change event next)
    (hRequested : store.progress.cancelRequested ≠ none) : next.dispatches = store.dispatches := by
  by_cases hEvent : ∃ time, event = .dispatched time
  · obtain ⟨time, rfl⟩ := hEvent
    cases hChange with
    | dispatch _ hUncanceled => exact absurd hUncanceled hRequested
    | release hEvent => rcases hEvent with hEvent | hEvent <;> cases hEvent
    | endCanceled hEvent => rcases hEvent with hEvent | ⟨_, _, hEvent, _⟩ <;> cases hEvent
    | unchanged hEvent => obtain ⟨_, hEvent | hEvent⟩ := hEvent <;> cases hEvent
  · exact hChange.undispatched fun time hSame => hEvent ⟨time, hSame⟩

/-- Where a Run is that somebody asked to cancel: still collecting or blocked, or
canceled without an unknown execution left; a serial Run holds no call that is
only prepared. -/
structure Stopping (store : Store) : Prop where
  status : store.progress.status = .collecting ∨ store.progress.status = .blocked ∨ store.progress.status = .canceled
  drained : store.progress.status = .canceled → store.progress.unresolvedResultUnknownCount = 0
  dispatched : store.creation.mode = .serialV1 → ∀ cp ∈ store.live, cp.phase = .dispatching

theorem Stopping.keeps (h : store.Stopping) (hKeeps : store.Keeps next)
    (hOwners : ∀ cp ∈ next.live, ∃ owner ∈ store.live, cp.phase = owner.phase) : next.Stopping := by
  refine ⟨?_, ?_, ?_⟩
  · rw [hKeeps.progress]
    exact h.status
  · rw [hKeeps.progress]
    exact h.drained
  · rw [hKeeps.creation]
    intro hSerial cp hCp
    obtain ⟨owner, hOwner, hPhase⟩ := hOwners cp hCp
    exact hPhase.trans (h.dispatched hSerial owner hOwner)

/-- A request finds a call that was sent or an unknown execution, and a serial Run
that is collecting has no unknown ones. -/
theorem Requests.stopping {decision : CancellationDecision} (hRequests : store.Requests next decision)
    (h : store.Coherent) (hFenced : store.Fenced) : next.Stopping := by
  rw [hRequests.next]
  refine ⟨?_, ?_, ?_⟩
  · rcases hRequests.running with hStatus | hStatus
    · exact .inl hStatus
    · exact .inr (.inl hStatus)
  · intro hCanceled
    have hCanceled : store.progress.status = .canceled := hCanceled
    rcases hRequests.running with hStatus | hStatus <;> rw [hStatus] at hCanceled <;> cases hCanceled
  · intro hSerial cp hCp
    have hSerial : store.creation.mode = .serialV1 := hSerial
    have hCp : cp ∈ store.live := hCp
    have hClaims := h.shaped.serial hSerial
    rcases hRequests.busy with hBusy | ⟨owner, hOwner, hPhase⟩ | hUnknown
    · exact absurd hClaims hBusy
    · rw [live_serial hClaims, Option.mem_def.mp hOwner] at hCp
      obtain rfl := List.mem_singleton.mp hCp
      exact hPhase
    · exact absurd (hFenced hSerial (.inr (h.working (List.ne_nil_of_mem hCp)).1)) hUnknown

theorem Drains.stopping {claim : SlotClaim} {actor : String} {completion : Completion}
    (hDrains : store.Drains next claim actor completion) (h : store.Coherent)
    (hRequested : store.progress.cancelRequested ≠ none) : next.Stopping := by
  have hCounted : (store.progress.counted completion).status = .collecting := by
    rw [Progress.counted_status]
    exact (hDrains.before h).1
  have hStatus : next.progress.status = .collecting ∨ next.progress.status = .blocked := by
    cases hDrains.aggregates h with
    | working _ hProgress => exact .inl (hProgress ▸ hCounted)
    | draining _ _ _ hProgress => exact .inl (hProgress ▸ hCounted)
    | waiting _ _ hUncanceled => exact absurd hUncanceled hRequested
    | unknown _ _ _ _ hProgress => exact .inr (by rw [hProgress])
    | closes _ _ hUncanceled => exact absurd hUncanceled hRequested
    | blocks _ _ hUncanceled => exact absurd hUncanceled hRequested
  refine ⟨hStatus.imp_right .inl, ?_, ?_⟩
  · intro hCanceled
    rcases hStatus with hStatus | hStatus <;> rw [hStatus] at hCanceled <;> cases hCanceled
  · rw [hDrains.creation, hDrains.mode]
    exact fun hSerial => by cases hSerial

theorem Settles.stopping {cp : ExecutionCheckpoint} {owner : String} {completion : Completion}
    (hSettles : store.Settles next cp) (hConcludes : store.Concludes next owner completion) (h : store.Coherent)
    (hRequested : store.progress.cancelRequested ≠ none) : next.Stopping := by
  have hStatus : next.progress.status = .collecting ∨ next.progress.status = .blocked := by
    cases hConcludes with
    | continues _ hStatus => exact .inl (hStatus.trans hSettles.collecting)
    | blocks _ hStatus => exact .inr hStatus
    | closes _ _ hUncanceled => exact absurd hUncanceled hRequested
  refine ⟨hStatus.imp_right .inl, ?_, ?_⟩
  · intro hCanceled
    rcases hStatus with hStatus | hStatus <;> rw [hStatus] at hCanceled <;> cases hCanceled
  · intro _ cp hCp
    rw [(hSettles.live h.toValid).2] at hCp
    cases hCp

theorem Stopping.resolve (h : store.Stopping) {value : ResultUnknownResolution} {result : ResolutionProgress}
    (hResult : resolveUnknown .blocked (unknownExecutions store.generations store.semantics)
      store.progress.resultUnknownResolutions value store.creation.policy = .ok result)
    (hDrained : result.status = .canceled → result.unresolvedCount = 0) {progress : Progress}
    (hStatus : progress.status = result.status)
    (hCount : progress.unresolvedResultUnknownCount = result.unresolvedCount) :
    Stopping { store with version := store.version + 1, progress } := by
  refine ⟨?_, ?_, h.dispatched⟩
  · obtain ⟨_, _, _, _, _, _, rfl⟩ := resolveUnknown_ok.mp hResult
    simp only at hStatus ⊢
    rw [hStatus]
    split_ifs
    · exact .inr (.inr rfl)
    · exact .inl rfl
    · exact .inr (.inl rfl)
  · intro hCanceled
    exact hCount.trans (hDrained (hStatus.symm.trans hCanceled))

/-- Every change under a request keeps the Run on its way to the cancellation. -/
theorem Change.stopping (hChange : store.Change event next) (h : store.Coherent)
    (hRequested : store.progress.cancelRequested ≠ none) (hStopping : store.Stopping) : next.Stopping := by
  have hStatus := hStopping.status
  cases hChange with
  | start _ hRequestedStatus => rw [hRequestedStatus] at hStatus; rcases hStatus with h | h | h <;> cases h
  | preflight _ hCollecting =>
      refine ⟨?_, ?_, hStopping.dispatched⟩
      · split
        · exact .inr (.inl rfl)
        · exact .inl hCollecting
      · split
        · exact fun hCanceled => by cases hCanceled
        · exact hStopping.drained
  | prepare hOpens => exact absurd hOpens.uncanceled hRequested
  | dispatch _ hUncanceled => exact absurd hUncanceled hRequested
  | @renew cp renewed rest _ hCall hKeeps _ hLive hNext =>
      refine hStopping.keeps hKeeps fun owner hOwner => ?_
      rcases List.mem_cons.mp (hNext.mem_iff.mp hOwner) with rfl | hOwner
      · refine ⟨cp, hLive.mem_iff.mpr List.mem_cons_self, ?_⟩
        simp only [ExecutionCheckpoint.call, CheckpointFields.mk.injEq] at hCall
        exact hCall.2.2.2.2.2.2.2.2.1
      · exact ⟨owner, hLive.mem_iff.mpr (List.mem_cons_of_mem _ hOwner), rfl⟩
  | release _ _ hKeeps _ hLive hNext =>
      refine hStopping.keeps hKeeps fun owner hOwner => ⟨owner, ?_, rfl⟩
      exact hLive.mem_iff.mpr (List.mem_cons_of_mem _ (hNext.mem_iff.mp hOwner))
  | drain _ hDrains => exact hDrains.stopping h hRequested
  | settle _ hSettles _ hConcludes => exact hSettles.stopping hConcludes h hRequested
  | resolve _ _ _ hResult hDrained => exact hStopping.resolve hResult (hDrained hRequested) rfl rfl
  | recover hRecovers =>
      rw [hRecovers.next]
      exact ⟨.inl rfl, (fun hCanceled => by cases hCanceled), hStopping.dispatched⟩
  | requestCancel hRequests => exact absurd hRequests.uncanceled hRequested
  | endCanceled _ hEnds =>
      have hLive := hEnds.live h.toValid
      refine ⟨?_, ?_, ?_⟩
      · rw [hEnds.next]
        exact .inr (.inr rfl)
      · rw [hEnds.next]
        exact fun _ => hEnds.resolved
      · intro _ cp hCp
        rw [hLive] at hCp
        cases hCp
  | review hReviews =>
      rcases hReviews.reviewed.before with hBefore | hBefore <;> rw [hBefore] at hStatus <;>
        rcases hStatus with h | h | h <;> cases h
  | unchanged => exact hStopping

/-- Nobody works in the Run that a change cancels under a request. -/
theorem Change.canceled_idle (hChange : store.Change event next) (h : store.Coherent)
    (hStopping : store.Stopping) (hCanceled : next.progress.status = .canceled) : store.live = [] := by
  by_contra hWorking
  have hCollecting := (h.working hWorking).1
  have hKept : ∀ {next : Store}, store.Keeps next → next.progress.status ≠ .canceled := by
    intro next hKeeps hCanceled
    rw [hKeeps.progress] at hCanceled
    have hCanceled : store.progress.status = .canceled := hCanceled
    rw [hCollecting] at hCanceled
    cases hCanceled
  have hOngoing : next.Ongoing → False := by
    rintro (hStatus | hStatus | hStatus) <;> rw [hStatus] at hCanceled <;> cases hCanceled
  cases hChange with
  | start _ hStatus => rw [hStatus] at hCollecting; cases hCollecting
  | preflight =>
      split at hCanceled
      · cases hCanceled
      · rw [hCollecting] at hCanceled
        cases hCanceled
  | prepare _ hKeeps => exact hKept hKeeps hCanceled
  | dispatch _ _ _ _ _ _ _ hKeeps => exact hKept hKeeps hCanceled
  | renew _ hKeeps => exact hKept hKeeps hCanceled
  | release _ _ hKeeps => exact hKept hKeeps hCanceled
  | drain _ hDrains => exact hOngoing (hDrains.ongoing h)
  | settle _ hSettles _ hConcludes => exact hOngoing (hConcludes.ongoing hSettles.collecting)
  | resolve _ _ hStatus => rw [hStatus] at hCollecting; cases hCollecting
  | recover hRecovers => rw [hRecovers.blocked] at hCollecting; cases hCollecting
  | requestCancel hRequests =>
      rw [hRequests.next] at hCanceled
      have hCanceled : store.progress.status = .canceled := hCanceled
      rw [hCollecting] at hCanceled
      cases hCanceled
  | endCanceled _ hEnds =>
      have hClaims := h.toValid.unclaimed hEnds.claims
      obtain ⟨cp, hCp⟩ := List.exists_mem_of_ne_nil _ hWorking
      cases hMode : store.creation.mode with
      | candidateV2 =>
          rw [live_candidate (h.shaped.candidate hMode), hClaims] at hCp
          cases hCp
      | serialV1 =>
          have hDispatched := hStopping.dispatched hMode cp hCp
          rw [live_serial hClaims] at hCp
          rw [hEnds.prepared cp (Option.mem_toList.mp hCp)] at hDispatched
          cases hDispatched
  | review hReviews =>
      rcases hReviews.reviewed.before with hBefore | hBefore <;> rw [hBefore] at hCollecting <;> cases hCollecting
  | unchanged => rw [hCollecting] at hCanceled; cases hCanceled

/-- Nobody works in the Run that an operation cancels under a request. -/
theorem perform_canceled_idle (h : store.Coherent) (hRequested : store.progress.cancelRequested ≠ none)
    (hStopping : store.Stopping) {op : Operation} (hOp : store.perform op = .ok next)
    (hCanceled : next.progress.status = .canceled) : store.live = [] := by
  have hChanges := perform_changes h hOp
  have hOnce : ∀ event, op.events = [event] → store.live = [] := by
    intro event hEvents
    rw [hEvents] at hChanges
    cases hChanges with
    | cons hChange hRest =>
        cases hRest
        exact hChange.canceled_idle h hStopping hCanceled
  cases op with
  | claimAndDispatch owner executionId invocationId claimedAt expiresAt limit time =>
      simp only [perform, claimAndDispatch, bind_ok] at hOp
      obtain ⟨⟨claim, claimed⟩, hPrepare, _⟩ := hOp
      exact absurd (prepareCandidate_ok h.toValid hPrepare).2.1.uncanceled hRequested
  | acceptReviews expectedVersion actor values =>
      obtain ⟨_, _, hSigns⟩ := acceptReviews_ok hOp
      exact h.idle (by rw [hSigns.awaits]; decide)
  | _ => exact hOnce _ rfl

/-! The serial call that is out. -/

/-- The outcome of the call is recorded. -/
def Reported (store : Store) (cp : ExecutionCheckpoint) : Prop :=
  ∃ completion ∈ store.book.completions, completion.invocationId = cp.invocationId

theorem Ended.reported {cp : ExecutionCheckpoint} {completion : Completion} (hEnded : store.Ended next cp completion) :
    next.Reported cp :=
  ⟨completion, hEnded.completed.mem_completions.mpr (.inl rfl), hEnded.completed.ends.invocationId⟩

/-- Whatever happens to a serial Run whose call is out, an operator asks to cancel
or the call is reported. -/
theorem InFlight.perform {sent middle : Store} {cp : ExecutionCheckpoint} {op : Operation}
    (hFlight : sent.InFlight middle) (h : middle.Coherent) (hCp : sent.checkpoint = some cp)
    (hPhase : cp.phase = .dispatching) (hOp : middle.perform op = .ok next) :
    sent.InFlight next ∨ next.Reported cp := by
  by_cases hManages : op.Manages
  · exact .inl (hFlight.manage hCp hPhase hManages hOp)
  have hMiddle : middle.checkpoint = some cp := by
    cases hFlight with
    | untouched => exact hCp
    | canceled => exact hCp
  have hSerial : middle.creation.mode = .serialV1 := by
    cases hMode : middle.creation.mode with
    | serialV1 => rfl
    | candidateV2 =>
        rw [h.shaped.candidate hMode] at hMiddle
        cases hMiddle
  have hCandidate : middle.creation.mode ≠ .candidateV2 := by
    rw [hSerial]
    decide
  have hSettled : ∀ {owner : ExecutionCheckpoint} {settled : Store}, middle.Settles settled owner → owner = cp :=
    fun hSettles => Option.some.inj (hSettles.checkpoint.symm.trans hMiddle)
  cases op with
  | prepareCandidate owner executionId invocationId time expiresAt limit =>
      simp only [Store.perform, bind_ok] at hOp
      obtain ⟨⟨claim, claimed⟩, hPrepare, _⟩ := hOp
      exact absurd (prepareCandidate_ok h.toValid hPrepare).1 hCandidate
  | dispatchClaim claim time => exact absurd (dispatchClaim_ok h.toValid hOp).1 hCandidate
  | claimAndDispatch owner executionId invocationId claimedAt expiresAt limit time =>
      simp only [Store.perform, claimAndDispatch, bind_ok] at hOp
      obtain ⟨⟨claim, claimed⟩, hPrepare, _⟩ := hOp
      exact absurd (prepareCandidate_ok h.toValid hPrepare).1 hCandidate
  | renewClaim claim time expiresAt =>
      obtain ⟨row, hRow, _⟩ := renewClaim_ok hOp
      rw [h.shaped.serial hSerial] at hRow
      cases hRow
  | completeClaimedGeneration claim owner completion candidateId assertions =>
      obtain ⟨_, _, _, hDrains⟩ := completeClaimedGeneration_ok h.toValid hOp
      exact absurd hDrains.mode hCandidate
  | completeClaimedSemantic claim owner completion =>
      obtain ⟨_, _, _, hDrains⟩ := completeClaimedSemantic_ok h.toValid hOp
      exact absurd hDrains.mode hCandidate
  | expireCandidate claim time =>
      rcases expireCandidate_ok h.toValid hOp with ⟨hMode, _⟩ | ⟨_, _, _, _, _, hDrains⟩
      · exact absurd hMode hCandidate
      · exact absurd hDrains.mode hCandidate
  | prepareExecution expectedVersion owner executionId invocationId time leaseExpiresAt =>
      have hNone := (prepareExecution_ok h.toValid hOp).2.1
      rw [hMiddle] at hNone
      cases hNone
  | reserveDispatch expectedVersion owner time =>
      obtain ⟨_, _, _, _, prepared, _, hPrepared, hDispatches, _⟩ := reserveDispatch_ok h.toValid hOp
      rw [hMiddle] at hPrepared
      cases hPrepared
      rw [hDispatches.prepared] at hPhase
      cases hPhase
  | completeSerialGeneration expectedVersion owner completion candidateId assertions =>
      obtain ⟨settled, hSettles, _, hEnded, _⟩ := completeSerialGeneration_ok h.toValid hOp
      exact .inr (hSettled hSettles ▸ hEnded.reported)
  | completeSerialSemantic expectedVersion owner completion =>
      obtain ⟨settled, hSettles, _, hEnded, _⟩ := completeSerialSemantic_ok h.toValid hOp
      exact .inr (hSettled hSettles ▸ hEnded.reported)
  | recoverExpired expectedVersion invocationId observedExpiry time actor =>
      obtain ⟨owner, settled, event, hSettles, rfl, hCases⟩ := recoverExpired_ok h.toValid hOp
      obtain rfl := hSettled hSettles
      rcases hCases with ⟨hPrepared, _⟩ | ⟨completion, _, hEnded, _⟩ | ⟨completion, _, hEnded, _⟩
      · rw [hPrepared] at hPhase
        cases hPhase
      · exact .inr hEnded.reported
      · exact .inr hEnded.reported
  | _ => exact absurd trivial hManages

/-- As long as the checkpoint of the call is there, the call is in flight. -/
theorem inFlight_of_checkpoint {sent later : Store} {cp : ExecutionCheckpoint} (h : sent.Coherent)
    (hLater : Continues (fun _ => True) sent later) (hCp : sent.checkpoint = some cp)
    (hPhase : cp.phase = .dispatching) (hSame : later.checkpoint = some cp) : sent.InFlight later := by
  have hFlight : sent.InFlight later ∨ later.Reported cp := by
    clear hSame
    induction hLater with
    | refl => exact .inl .untouched
    | step hFirst _ hOp ih =>
        have hMiddle := (hFirst.kept h).1
        rcases ih with hFlight | ⟨completion, hMem, hInvocation⟩
        · exact hFlight.perform hMiddle hCp hPhase hOp
        · exact .inr ⟨completion, (perform_changes hMiddle hOp).completions hMem, hInvocation⟩
  rcases hFlight with hFlight | ⟨completion, hMem, hInvocation⟩
  · exact hFlight
  · have hLive : cp ∈ later.live := List.mem_append_right _ (by simp [hSame])
    exact absurd hInvocation ((hLater.kept h).1.toValid.unsettled hLive hPhase hMem).1

end Store

theorem Reaches.stopping {allowed : DateTime → Store → Operation → Prop} {creation : Creation} {now : DateTime}
    {store : Store} (hReaches : Reaches allowed creation now store)
    (hRequested : store.progress.cancelRequested ≠ none) : store.Stopping := by
  have hFenced : store.Fenced ∧ (store.progress.cancelRequested ≠ none → store.Stopping) := by
    refine hReaches.keeps (P := fun store => store.Fenced ∧ (store.progress.cancelRequested ≠ none → store.Stopping))
      ⟨fun _ _ => rfl, fun hSome => absurd rfl hSome⟩ ?_
    rintro store next event h hChange ⟨hFenced, hStopping⟩
    refine ⟨hChange.fenced hFenced, fun hSome => ?_⟩
    rcases hChange.request with hSame | ⟨_, _, hRequests⟩
    · rw [hSame] at hSome
      exact hChange.stopping h hSome (hStopping hSome)
    · exact hRequests.stopping h hFenced
  exact hFenced.2 hRequested

/-- A Run remembers how it was created. -/
theorem Reaches.recorded {allowed : DateTime → Store → Operation → Prop} {creation : Creation} {now : DateTime}
    {store : Store} (hReaches : Reaches allowed creation now store) : store.progress.transitions ≠ [] := by
  refine hReaches.keeps (P := fun store => store.progress.transitions ≠ []) (List.cons_ne_nil _ _) ?_
  intro store next event h hChange hSome hNil
  obtain ⟨added, hAdded⟩ := hChange.appends h
  rw [hNil] at hAdded
  exact hSome (List.append_eq_nil_iff.mp hAdded).1

/-- What every later state of a Run under a request keeps. -/
theorem Continues.stopping {allowed : Operation → Prop} {store later : Store} (hLater : Continues allowed store later)
    (h : store.Coherent) {request : CancelRequest} (hRequested : store.progress.cancelRequested = some request)
    (hStopping : store.Stopping) :
    later.progress.cancelRequested = some request ∧ later.dispatches = store.dispatches ∧ later.Stopping := by
  induction hLater with
  | refl => exact ⟨hRequested, rfl, hStopping⟩
  | step hFirst _ hOp ih =>
      have hMiddle := (hFirst.kept h).1
      refine (Store.perform_changes hMiddle hOp).keeps (P := fun later => later.progress.cancelRequested = some request ∧
        later.dispatches = store.dispatches ∧ later.Stopping) hMiddle (fun _ _ => trivial) ?_ ih
      rintro middle next event hCoherent - hChange ⟨hKept, hDispatches, hStops⟩
      have hSome : middle.progress.cancelRequested ≠ none := by
        rw [hKept]
        exact Option.some_ne_none request
      exact ⟨hChange.keepsRequest hKept, (hChange.undispatched_of_request hSome).trans hDispatches,
        hChange.stopping hCoherent hSome hStops⟩

end QsAi
