import QsAi.Run.Liveness

/-! The fence around unknown executions. A call whose result is unknown may have
been paid for; until somebody decided about it, the Run starts nothing new. The
fence is kept by a counter in the progress document, by the status of a serial
Run and by one decision for each execution, and the three never diverge. -/
namespace QsAi

open Guarded Keyed Numbered

namespace Store

variable {store next : Store} {event : Event}

/-- The decision that lets the execution be replaced is stored. -/
def Authorized (store : Store) (completion : Completion) : Prop :=
  ∃ r ∈ store.progress.resultUnknownResolutions,
    r.executionId = completion.executionId ∧ r.decision = .authorizeReplacement

instance (store : Store) (completion : Completion) : Decidable (store.Authorized completion) :=
  inferInstanceAs (Decidable (∃ r ∈ _, _))

/-- A serial Run that may work has no undecided execution. -/
def Fenced (store : Store) : Prop :=
  store.creation.mode = .serialV1 → store.progress.status = .requested ∨ store.progress.status = .collecting →
    store.progress.unresolvedResultUnknownCount = 0

/-! The counter. -/

theorem Keeps.fenced (hKeeps : store.Keeps next) (h : store.Fenced) : next.Fenced := by
  unfold Fenced
  rw [hKeeps.creation, hKeeps.progress]
  exact h

/-- A completion that lets a serial Run go on is not unknown. -/
theorem Concludes.counted {owner : String} {completion : Completion} (hConcludes : store.Concludes next owner completion)
    (hRunning : next.progress.status = .requested ∨ next.progress.status = .collecting) :
    completion.status ≠ .resultUnknown := by
  cases hConcludes with
  | continues hCause =>
      intro hUnknown
      rw [completionCause, hUnknown] at hCause
      cases hCause
  | blocks _ hStatus =>
      rw [hStatus] at hRunning
      rcases hRunning with hRunning | hRunning <;> cases hRunning
  | closes hSucceeded =>
      rw [hSucceeded]
      decide

theorem Change.fenced (hChange : store.Change event next) (hFenced : store.Fenced) : next.Fenced := by
  cases hChange with
  | start _ hStatus => exact fun hSerial _ => hFenced hSerial (.inl hStatus)
  | preflight _ hStatus =>
      intro hSerial _
      have hCount := hFenced hSerial (.inr hStatus)
      split
      · exact hCount
      · exact hCount
  | prepare _ hKeeps => exact hKeeps.fenced hFenced
  | dispatch _ _ _ _ _ _ _ hKeeps => exact hKeeps.fenced hFenced
  | renew _ hKeeps => exact hKeeps.fenced hFenced
  | release _ _ hKeeps => exact hKeeps.fenced hFenced
  | drain _ hDrains =>
      intro hSerial
      rw [hDrains.creation, hDrains.mode] at hSerial
      cases hSerial
  | settle _ hSettles hEnded hConcludes =>
      intro hSerial hRunning
      have hKnown := hConcludes.counted hRunning
      rw [hEnded.unresolved, Progress.counted, if_neg hKnown]
      exact hFenced (hSettles.creation ▸ hSerial) (.inr hSettles.collecting)
  | resolve _ _ _ hResult =>
      intro _ hRunning
      refine (resolved_collecting hResult ?_).2
      rcases hRunning with hRunning | hRunning
      · obtain ⟨_, _, _, _, _, _, rfl⟩ := resolveUnknown_ok.mp hResult
        simp only at hRunning
        split_ifs at hRunning
      · exact hRunning
  | recover hRecovers =>
      rw [hRecovers.next]
      exact fun _ _ => hRecovers.resolved
  | requestCancel hRequests =>
      rw [hRequests.next]
      exact hFenced
  | endCanceled _ hEnds =>
      rw [hEnds.next]
      intro _ hRunning
      rcases hRunning with hRunning | hRunning <;> cases hRunning
  | review hReviews =>
      intro _ hRunning
      rcases hReviews.reviewed.after with hStatus | hStatus | hStatus <;> rw [hStatus] at hRunning <;>
        rcases hRunning with hRunning | hRunning <;> cases hRunning
  | unchanged => exact hFenced

/-- The completions of a stage were all dispatched in it. -/
theorem Valid.generations_le (h : store.Valid) : store.generations.length ≤ store.creation.policy.generationPerRun := by
  have hSub : (store.generations.map (·.invocationId)).Subperm
      ((store.dispatches.filter (·.kind = .generation)).map (·.invocationId)) := by
    refine List.subperm_of_subset h.sound.generations_unique ?_
    intro id hId
    obtain ⟨row, hRow, rfl⟩ := List.mem_map.mp hId
    obtain ⟨entry, hEntry, hInvocation, hEnds⟩ := h.sound.calls.entry (Book.generation_mem hRow)
    refine List.mem_map.mpr ⟨entry, List.mem_filter.mpr ⟨hEntry, decide_eq_true ?_⟩, ?_⟩
    · rw [congrArg DispatchRow.kind (h.sound.calls.recorded entry hEntry).1]
      exact hEnds.kind.symm
    · rw [hInvocation]
      exact (h.sound.candidates.generationIndex row hRow).2.1
  have hTotal : (store.dispatches.filter (·.kind = .generation)).length ≤ store.creation.policy.generationPerRun :=
    h.sound.numbering.totals .generation
  have hLength := hSub.length_le
  simp only [List.length_map] at hLength
  omega

theorem Valid.semantics_le (h : store.Valid) : store.semantics.length ≤ store.creation.policy.semanticPerRun := by
  have hSub : (store.semantics.map (·.invocationId)).Subperm
      ((store.dispatches.filter (·.kind = .semantic)).map (·.invocationId)) := by
    refine List.subperm_of_subset h.sound.semantics_unique ?_
    intro id hId
    obtain ⟨row, hRow, rfl⟩ := List.mem_map.mp hId
    obtain ⟨entry, hEntry, hInvocation, hEnds⟩ := h.sound.calls.entry (Book.semantic_mem hRow)
    refine List.mem_map.mpr ⟨entry, List.mem_filter.mpr ⟨hEntry, decide_eq_true ?_⟩, ?_⟩
    · rw [congrArg DispatchRow.kind (h.sound.calls.recorded entry hEntry).1]
      exact hEnds.kind.symm
    · rw [hInvocation]
      exact (h.sound.candidates.semanticIndex row hRow).2.2.1
  have hTotal : (store.dispatches.filter (·.kind = .semantic)).length ≤ store.creation.policy.semanticPerRun :=
    h.sound.numbering.totals .semantic
  have hLength := hSub.length_le
  simp only [List.length_map] at hLength
  omega

theorem Valid.dispatches_le (h : store.Valid) : store.dispatches.length ≤
    store.creation.policy.generationPerRun + store.creation.policy.semanticPerRun := by
  have hGenerations : (store.dispatches.filter (·.kind = .generation)).length ≤
      store.creation.policy.generationPerRun := h.sound.numbering.totals .generation
  have hSemantics : (store.dispatches.filter (·.kind = .semantic)).length ≤
      store.creation.policy.semanticPerRun := h.sound.numbering.totals .semantic
  have hSplit := List.length_eq_length_filter_add (l := store.dispatches) (fun row => decide (row.kind = .generation))
  have hOther : store.dispatches.filter (fun row => !decide (row.kind = .generation)) =
      store.dispatches.filter (·.kind = .semantic) := by
    refine List.filter_congr fun row _ => ?_
    cases row.kind <;> rfl
  rw [hOther] at hSplit
  omega

/-- Loading the evidence refuses nothing but what the projection refuses. -/
theorem Coherent.loadResolutionEvidence_eq (h : store.Coherent) :
    store.loadResolutionEvidence = (do
      let _ ← projectSlots store.creation.slots store.generations store.dispatches store.semantics
        store.progress.resultUnknownResolutions store.progress.semanticContractRecoveries store.creation.policy
      pure (unknownExecutions store.generations store.semantics)) := by
  have hValid := h.toValid
  have hCanceled : (∃ r ∈ store.progress.resultUnknownResolutions, r.decision = .cancelRun) →
      store.progress.status = .canceled := by
    rintro ⟨r, hr, hDecision⟩
    by_contra hOpen
    rw [h.continued hOpen r hr] at hDecision
    cases hDecision
  rw [loadResolutionEvidence,
    require_bind_pos ⟨hValid.generations_le, hValid.semantics_le, hValid.dispatches_le⟩]
  congr 1
  funext slots
  rw [require_bind_pos h.counted, require_bind_pos hCanceled]

/-- Without a call in flight the evidence loads. -/
theorem Coherent.loadResolutionEvidence_idle (h : store.Coherent) (hIdle : store.book.openInvocations = []) :
    store.loadResolutionEvidence = .ok (unknownExecutions store.generations store.semantics) := by
  obtain ⟨slots, hSlots, _⟩ := h.toValid.projectSlots_ok hIdle
  rw [h.loadResolutionEvidence_eq, hSlots]
  rfl

/-! The fence. -/

/-- Past the fence every unknown execution was authorized to be replaced. -/
theorem Coherent.authorized (h : store.Coherent) (hFenced : store.Fenced)
    (hCollecting : store.progress.status = .collecting)
    (hResolved : store.creation.mode = .candidateV2 → store.progress.unresolvedResultUnknownCount = 0)
    {completion : Completion} (hMem : completion ∈ store.book.completions)
    (hUnknown : completion.status = .resultUnknown) : store.Authorized completion := by
  have hCount : store.progress.unresolvedResultUnknownCount = 0 := by
    cases hMode : store.creation.mode with
    | serialV1 => exact hFenced hMode (.inr hCollecting)
    | candidateV2 => exact hResolved hMode
  have hOpen : store.progress.status ≠ .canceled := by
    rw [hCollecting]
    decide
  obtain ⟨r, hr, hDecision, hSame⟩ := mem_replacedExecutions.mp (h.replaced hOpen hCount hMem hUnknown)
  exact ⟨r, hr, hSame, hDecision⟩

/-- Only a dispatch records a call. -/
theorem Change.undispatched (hChange : store.Change event next) (hEvent : ∀ time, event ≠ .dispatched time) :
    next.dispatches = store.dispatches := by
  cases hChange with
  | prepare _ _ hDispatches => exact hDispatches
  | dispatch => exact absurd rfl (hEvent _)
  | renew _ _ hDispatches => exact hDispatches
  | release _ _ _ hDispatches => exact hDispatches
  | drain hEnded => exact hEnded.dispatches
  | settle _ _ hEnded => exact hEnded.dispatches
  | recover hRecovers => rw [hRecovers.next]
  | requestCancel hRequests => rw [hRequests.next]
  | endCanceled _ hEnds => rw [hEnds.next]
  | review hReviews => rw [hReviews.reviewed.next]
  | _ => rfl

theorem Changes.undispatched {events : List Event} (hChanges : Changes store events next)
    (hEvents : ∀ time, Event.dispatched time ∉ events) : next.dispatches = store.dispatches := by
  induction hChanges with
  | nil => rfl
  | cons hChange _ ih =>
      rw [ih fun time hMem => hEvents time (List.mem_cons_of_mem _ hMem)]
      refine hChange.undispatched ?_
      rintro time rfl
      exact hEvents time List.mem_cons_self

/-- One new call: what the Run looked like when it was recorded. -/
structure Records (store next : Store) (dispatched : ExecutionCheckpoint) : Prop where
  collecting : store.progress.status = .collecting
  uncanceled : store.progress.cancelRequested = none
  resolved : store.creation.mode = .candidateV2 → store.progress.unresolvedResultUnknownCount = 0
  recorded : next.dispatches = store.dispatches ++ [DispatchRow.record dispatched]
  ordinal : dispatched.executionOrdinal = (store.book.history dispatched.target).length + 1
  kept : next.book.completions = store.book.completions

theorem Keeps.completions (hKeeps : store.Keeps next) : next.book.completions = store.book.completions := by
  have hGenerations : next.book.generations = store.book.generations := hKeeps.generations
  have hSemantics : next.book.semantics = store.book.semantics := hKeeps.semantics
  rw [Book.completions, hGenerations, hSemantics]
  rfl

theorem Change.records {time : DateTime} (hChange : store.Change (.dispatched time) next) (h : store.Coherent) :
    ∃ dispatched, store.Records next dispatched := by
  cases hChange with
  | @dispatch cp dispatched _ _ _ hStatus hUncanceled _ hResolved hDispatches _ _ hKeeps hRecorded hLive =>
      refine ⟨dispatched, hStatus, hUncanceled, hResolved, hRecorded, ?_, hKeeps.completions⟩
      obtain ⟨_, hTarget, _, _, hOrdinal, _⟩ := hDispatches.same
      have hHolds := h.sound.live cp (hLive.mem_iff.mpr List.mem_cons_self)
      rw [hOrdinal, hTarget]
      exact hHolds.next
  | release hEvent => rcases hEvent with hEvent | hEvent <;> cases hEvent
  | endCanceled hEvent => rcases hEvent with hEvent | ⟨_, _, hEvent, _⟩ <;> cases hEvent
  | unchanged hEvent => obtain ⟨_, hEvent | hEvent⟩ := hEvent <;> cases hEvent

/-- An accepted operation records at most one call. -/
theorem perform_records (h : store.Coherent) {op : Operation} (hOp : store.perform op = .ok next) :
    next.dispatches = store.dispatches ∨ ∃ dispatched, store.Records next dispatched := by
  have hChanges := perform_changes h hOp
  by_cases hEvents : ∀ time, Event.dispatched time ∉ op.events
  · exact .inl (hChanges.undispatched hEvents)
  right
  cases op with
  | dispatchClaim claim time =>
      cases hChanges with
      | cons hChange hRest =>
          cases hRest
          exact hChange.records h
  | reserveDispatch expectedVersion owner time =>
      cases hChanges with
      | cons hChange hRest =>
          cases hRest
          exact hChange.records h
  | claimAndDispatch owner executionId invocationId claimedAt expiresAt limit time =>
      cases hChanges with
      | cons hPrepare hRest =>
          cases hRest with
          | cons hChange hRest =>
              cases hRest
              obtain ⟨dispatched, hRecords⟩ := hChange.records (hPrepare.coherent h)
              obtain ⟨hCollecting, hUncanceled, hResolved, hRecorded, hNext, hKept⟩ := hRecords
              cases hPrepare with
              | prepare _ hKeeps hDispatches =>
                  rw [hKeeps.progress] at hCollecting hUncanceled hResolved
                  rw [hKeeps.creation] at hResolved
                  rw [hDispatches] at hRecorded
                  rw [Book.history, hKeeps.completions] at hNext
                  exact ⟨dispatched, hCollecting, hUncanceled, hResolved, hRecorded, hNext,
                    hKept.trans hKeeps.completions⟩
              | release hEvent => rcases hEvent with hEvent | hEvent <;> cases hEvent
              | endCanceled hEvent => rcases hEvent with hEvent | ⟨_, _, hEvent, _⟩ <;> cases hEvent
              | unchanged hEvent => obtain ⟨_, hEvent | hEvent⟩ := hEvent <;> cases hEvent
  | expireCandidate claim time =>
      refine absurd ?_ hEvents
      intro reading hMem
      rw [Operation.events, List.mem_singleton] at hMem
      split at hMem <;> cases hMem
  | _ => exact absurd (by simp [Operation.events, Completion.event]) hEvents

end Store

theorem Reaches.fenced {allowed : DateTime → Store → Operation → Prop} {creation : Creation} {now : DateTime}
    {store : Store} (hReaches : Reaches allowed creation now store) : store.Fenced :=
  hReaches.keeps (fun _ _ => rfl) fun _ hChange hFenced => hChange.fenced hFenced

/-- The counter of a reachable Run is the number of its unknown executions that
nobody decided about, the decisions name distinct unknown executions, and
loading the evidence never refuses for one of its own checks. -/
theorem unknown_counter_exact {creation : Creation} {now : DateTime} {store : Store}
    (hReaches : Reaches (fun _ _ _ => True) creation now store) :
    (store.progress.unresolvedResultUnknownCount : Int) =
      (store.book.completions.filter (·.status = .resultUnknown)).length -
        store.progress.resultUnknownResolutions.length ∧
    (store.progress.resultUnknownResolutions.map (·.executionId)).Nodup ∧
    (∀ r ∈ store.progress.resultUnknownResolutions, ∃ completion ∈ store.book.completions,
      completion.status = .resultUnknown ∧ completion.executionId = r.executionId) ∧
    store.loadResolutionEvidence = (do
      let _ ← projectSlots store.creation.slots store.generations store.dispatches store.semantics
        store.progress.resultUnknownResolutions store.progress.semanticContractRecoveries store.creation.policy
      pure (unknownExecutions store.generations store.semantics)) ∧
    (store.book.openInvocations = [] →
      store.loadResolutionEvidence = .ok (unknownExecutions store.generations store.semantics)) := by
  obtain ⟨hCoherent, _⟩ := hReaches.coherent
  have hUnknowns : unknownExecutions store.generations store.semantics =
      (store.book.completions.filter (·.status = .resultUnknown)).map Completion.asUnknown :=
    hCoherent.sound.candidates.unknownExecutions_eq
  have hResolved : Resolved (unknownExecutions store.generations store.semantics) store.creation.policy
      store.progress.resultUnknownResolutions := hCoherent.sound.decisions.resolved
  refine ⟨?_, hResolved.unique, ?_, hCoherent.loadResolutionEvidence_eq, hCoherent.loadResolutionEvidence_idle⟩
  · have hCounted := hCoherent.counted
    rw [hUnknowns, List.length_map] at hCounted
    omega
  · intro r hr
    obtain ⟨e, hMem, hSame, _⟩ := hResolved.decides r hr
    rw [hUnknowns] at hMem
    obtain ⟨completion, hFiltered, rfl⟩ := List.mem_map.mp hMem
    obtain ⟨hCompletion, hStatus⟩ := List.mem_filter.mp hFiltered
    exact ⟨completion, hCompletion, of_decide_eq_true hStatus, hSame⟩

/-- In every reachable Run, an operation that records a new call finds every
unknown execution authorized to be replaced; the execution before the new one
has ended, so an unknown predecessor was decided about before its successor was
recorded. -/
theorem unknown_fencing {creation : Creation} {now : DateTime} {store next : Store} {op : Operation}
    (hReaches : Reaches (fun _ _ _ => True) creation now store) (hOp : store.perform op = .ok next)
    {row : DispatchRow} (hRow : row ∈ next.dispatches) (hNew : row ∉ store.dispatches) :
    (∀ completion ∈ store.book.completions, completion.status = .resultUnknown → store.Authorized completion) ∧
    (1 < row.checkpoint.executionOrdinal → ∃ previous ∈ store.book.completions,
      previous.target = row.checkpoint.target ∧
      previous.executionOrdinal + 1 = row.checkpoint.executionOrdinal ∧
      (previous.status = .resultUnknown → store.Authorized previous)) ∧
    next.book.completions = store.book.completions := by
  obtain ⟨hCoherent, _⟩ := hReaches.coherent
  rcases Store.perform_records hCoherent hOp with hSame | ⟨dispatched, hRecords⟩
  · exact absurd (hSame ▸ hRow) hNew
  have hAuthorized : ∀ completion ∈ store.book.completions, completion.status = .resultUnknown →
      store.Authorized completion := fun completion hMem hUnknown =>
    hCoherent.authorized hReaches.fenced hRecords.collecting hRecords.resolved hMem hUnknown
  have hRow : row = DispatchRow.record dispatched := by
    rw [hRecords.recorded] at hRow
    rcases List.mem_append.mp hRow with hOld | hRow
    · exact absurd hOld hNew
    · exact List.mem_singleton.mp hRow
  subst hRow
  refine ⟨hAuthorized, ?_, hRecords.kept⟩
  intro hLater
  have hLater : 1 < dispatched.executionOrdinal := hLater
  -- the history of the target is numbered without gaps up to the new execution
  have hLength : dispatched.executionOrdinal = (store.book.history dispatched.target).length + 1 := hRecords.ordinal
  have hHistory := hCoherent.sound.numbering.histories dispatched.target
  obtain ⟨previous, hMem, hOrdinal⟩ := Complete.exists_number hHistory
    (show 1 ≤ dispatched.executionOrdinal - 1 by omega) (by omega)
  obtain ⟨hCompletion, hTarget⟩ := Book.mem_history.mp hMem
  refine ⟨previous, hCompletion, hTarget, ?_, fun hUnknown => hAuthorized previous hCompletion hUnknown⟩
  change previous.executionOrdinal + 1 = dispatched.executionOrdinal
  omega

/-- The counter of a Run with one undecided execution. -/
theorem unknown_counter_exact_pilot : ∃ now store,
    Reaches (fun _ _ _ => True) (Pilot.creation .candidateV2) now store ∧
    store.progress.unresolvedResultUnknownCount = 1 ∧
    (store.progress.unresolvedResultUnknownCount : Int) =
      (store.book.completions.filter (·.status = .resultUnknown)).length -
        store.progress.resultUnknownResolutions.length := by
  obtain ⟨now, store, hReaches, hCheck⟩ := exists_reaches (fun _ _ _ => True) (Pilot.creation .candidateV2)
    (Pilot.start ++ [Pilot.lease 1 "e1" 1, Pilot.expire 6])
    (fun store => store.progress.unresolvedResultUnknownCount = 1) (by decide +kernel)
  exact ⟨now, store, hReaches, of_decide_eq_true hCheck, (unknown_counter_exact hReaches).1⟩

/-- The second execution of a slot whose first one was unknown. -/
theorem unknown_fencing_pilot : ∃ now store next op row,
    Reaches (fun _ _ _ => True) (Pilot.creation .candidateV2) now store ∧ store.perform op = .ok next ∧
    row ∈ next.dispatches ∧ row ∉ store.dispatches ∧ 1 < row.checkpoint.executionOrdinal ∧
    ∃ previous ∈ store.book.completions, previous.target = row.checkpoint.target ∧
      previous.executionOrdinal + 1 = row.checkpoint.executionOrdinal ∧
      (previous.status = .resultUnknown → store.Authorized previous) := by
  obtain ⟨now, store, hReaches, hCheck⟩ := exists_reaches (fun _ _ _ => True) (Pilot.creation .candidateV2)
    (Pilot.start ++ [Pilot.lease 1 "e1" 1, Pilot.expire 6, Pilot.authorize 7 "e1" (by decide +kernel)])
    (fun store => (store.perform (.claimAndDispatch "worker" "e2" "e2" (Pilot.clock 8) (Pilot.clock 9) 1
        (Pilot.clock 8))).toOption.any fun next => ∃ row ∈ next.dispatches, row ∉ store.dispatches ∧
          1 < row.checkpoint.executionOrdinal) (by decide +kernel)
  cases hOp : store.perform (.claimAndDispatch "worker" "e2" "e2" (Pilot.clock 8) (Pilot.clock 9) 1
      (Pilot.clock 8)) with
  | error refusal =>
      rw [hOp] at hCheck
      cases hCheck
  | ok next =>
      rw [hOp] at hCheck
      obtain ⟨row, hRow, hNew, hLater⟩ := of_decide_eq_true hCheck
      exact ⟨now, store, next, _, row, hReaches, hOp, hRow, hNew, hLater,
        (unknown_fencing hReaches hOp hRow hNew).2.1 hLater⟩

end QsAi
