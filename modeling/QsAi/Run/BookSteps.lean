import QsAi.Run.Reading

/-! The changes of a book. A call is prepared, dispatched, renewed and released
by its owner, ends in one completion, and is followed by another one only by
permission; every change keeps the book sound. -/
namespace QsAi

open Guarded Keyed Numbered

namespace ExecutionCheckpoint

theorem slot_of_call {a b : ExecutionCheckpoint} (h : a.call = b.call) : a.slot = b.slot := by
  simp only [call, CheckpointFields.mk.injEq] at h
  simp only [slot, h]

/-- What a checkpoint keeps while its lease moves. -/
theorem same_of_call {a b : ExecutionCheckpoint} (h : a.call = b.call) :
    a.invocationId = b.invocationId ∧ a.phase = b.phase ∧ a.kind = b.kind ∧ a.candidateId = b.candidateId ∧
    a.executionOrdinal = b.executionOrdinal ∧ a.claimedAt = b.claimedAt ∧ a.owner = b.owner := by
  simp only [call, CheckpointFields.mk.injEq] at h
  simp only [h, and_self]

/-- A prepared checkpoint and the dispatched one it becomes. -/
structure Dispatches (cp dispatched : ExecutionCheckpoint) : Prop where
  prepared : cp.phase = .prepared
  fields : ∃ time, dispatched.toCheckpointFields =
    { cp.toCheckpointFields with phase := .dispatching, dispatchStartedAt := some time }

theorem Dispatches.phase {cp dispatched : ExecutionCheckpoint} (h : cp.Dispatches dispatched) :
    dispatched.phase = .dispatching := by
  obtain ⟨_, hFields⟩ := h.fields
  rw [hFields]

theorem Dispatches.same {cp dispatched : ExecutionCheckpoint} (h : cp.Dispatches dispatched) :
    dispatched.slot = cp.slot ∧ dispatched.target = cp.target ∧ dispatched.kind = cp.kind ∧
    dispatched.candidateId = cp.candidateId ∧ dispatched.executionOrdinal = cp.executionOrdinal ∧
    dispatched.claimedAt = cp.claimedAt := by
  obtain ⟨_, hFields⟩ := h.fields
  simp only [slot, target, hFields, and_self]

end ExecutionCheckpoint

theorem Completion.Ends.of_call {completion : Completion} {a b : ExecutionCheckpoint} (h : completion.Ends a)
    (hCall : a.call = b.call) : completion.Ends b := by
  have hFields := hCall
  simp only [ExecutionCheckpoint.call, CheckpointFields.mk.injEq] at hFields
  obtain ⟨hExecution, _, _, _, _, hOrdinal, _, hInvocation, hPhase, _, _, hStarted⟩ := hFields
  exact ⟨hPhase ▸ h.phase, h.executionId.trans hExecution, h.invocationId.trans hInvocation,
    h.executionOrdinal.trans hOrdinal, h.target.trans (ExecutionCheckpoint.target_of_call hCall), hStarted ▸ h.started⟩

/-- The row after the candidate of one generation was replaced. -/
def GenerationRow.withCandidate (executionId : String) (updated : Candidate) (row : GenerationRow) : GenerationRow :=
  if row.executionId = executionId then { row with candidate := some updated } else row

namespace GenerationRow

variable (executionId : String) (updated : Candidate) (row : GenerationRow)

@[simp] theorem withCandidate_evidence : (row.withCandidate executionId updated).evidence = row.evidence := by
  unfold withCandidate
  split <;> rfl

@[simp] theorem withCandidate_candidateId :
    (row.withCandidate executionId updated).candidateId = row.candidateId := by
  unfold withCandidate
  split <;> rfl

@[simp] theorem withCandidate_slot : (row.withCandidate executionId updated).slot = row.slot := by
  unfold withCandidate
  split <;> rfl

theorem withCandidate_index (h : row.IndexMatches) : (row.withCandidate executionId updated).IndexMatches := by
  unfold withCandidate
  split <;> exact h

theorem withCandidate_same : (row.withCandidate row.executionId updated).candidate = some updated := by
  simp [withCandidate]

variable {executionId updated row}

theorem withCandidate_other (h : row.executionId ≠ executionId) : row.withCandidate executionId updated = row :=
  if_neg h

end GenerationRow

namespace Book

variable {b b' : Book} {cp dispatched renewed : ExecutionCheckpoint} {rest live : List ExecutionCheckpoint}
  {completion : Completion}

/-- The open invocations after a checkpoint is put in front. -/
theorem open_cons_dispatching (hPhase : cp.phase = .dispatching) :
    ((cp :: rest).filter (·.phase = .dispatching)).map (·.invocationId) =
      cp.invocationId :: (rest.filter (·.phase = .dispatching)).map (·.invocationId) := by
  rw [List.filter_cons_of_pos (by simp [hPhase]), List.map_cons]

theorem open_cons_prepared (hPhase : cp.phase = .prepared) :
    ((cp :: rest).filter (·.phase = .dispatching)).map (·.invocationId) =
      (rest.filter (·.phase = .dispatching)).map (·.invocationId) := by
  rw [List.filter_cons_of_neg (by simp [hPhase])]

theorem open_perm (hPerm : b.live.Perm live) :
    b.openInvocations.Perm ((live.filter (·.phase = .dispatching)).map (·.invocationId)) :=
  (hPerm.filter _).map _

/-- The call can be recorded: its identities are new, its number is the next one
of its target, and the budgets of the target and of the Run have room. -/
structure Recordable (b : Book) (cp : ExecutionCheckpoint) : Prop where
  invocation : cp.invocationId ∉ b.dispatches.map (·.invocationId)
  execution : cp.executionId ∉ b.dispatches.map (·.executionId)
  ordinal : cp.executionOrdinal = (b.issued cp.target).length + 1
  limit : (b.issued cp.target).length < b.creation.policy.limit cp.kind
  total : (b.dispatches.filter (·.kind = cp.kind)).length < b.creation.policy.runLimit cp.kind

namespace Sound

/-- Different live checkpoints work on different targets. -/
theorem live_targets (h : b.Sound) {other : ExecutionCheckpoint} (hMem : cp ∈ b.live) (hOther : other ∈ b.live)
    (hSame : cp.target = other.target) : cp = other := by
  have hKind : cp.kind = other.kind := by rw [← cp.kind_target, ← other.kind_target, hSame]
  refine h.calls.slots.eq_of_key hMem hOther ?_
  cases hCase : cp.kind with
  | generation =>
      simp only [ExecutionCheckpoint.target, hCase, ← hKind, Target.slot.injEq] at hSame
      exact hSame
  | semantic =>
      simp only [ExecutionCheckpoint.target, hCase, ← hKind, Target.candidate.injEq] at hSame
      obtain ⟨row, hRow, hId, hSlot⟩ := (h.live cp hMem).accepted hCase
      obtain ⟨otherRow, hOtherRow, hOtherId, hOtherSlot⟩ := (h.live other hOther).accepted (hKind ▸ hCase)
      have hEq := h.source_unique hRow hOtherRow hId (hOtherId.trans (by rw [hSame]))
      rw [← hSlot, ← hOtherSlot, hEq]

/-- The owners of a sound book may change as long as each of them holds the
next execution of its slot and no call is gained or lost. -/
theorem of_live (h : b.Sound)
    (hOpen : b.openInvocations.Perm ((live.filter (·.phase = .dispatching)).map (·.invocationId)))
    (hSlots : UniqueOn (·.slot) live) (hLive : ∀ cp ∈ live, b.Holds cp) : Sound { b with live } := by
  obtain ⟨hRecorded, hPlanned, hExecutions, hBalanced, hEnded, _⟩ := h.calls
  obtain ⟨hGenerations, hSemantics, hOutcome, hUnique, hJudged, hIssued, hReviewed⟩ := h.candidates
  refine ⟨⟨hRecorded, hPlanned, hExecutions, hBalanced.congr hOpen (List.Perm.refl _), hEnded, hSlots⟩,
    ⟨h.numbering.histories, h.numbering.issued, h.numbering.limits, h.numbering.totals⟩,
    ⟨hGenerations, hSemantics, hOutcome, hUnique, hJudged, hIssued, ?_⟩, h.permitted,
    ⟨h.decisions.resolved, h.decisions.recoveries, h.decisions.excepted⟩, ?_⟩
  · intro row hRow stored hStored
    have hStored := hReviewed row hRow stored hStored
    exact ⟨hStored.results, hStored.ready, hStored.accepted⟩
  · intro cp hMem
    have hHolds := hLive cp hMem
    exact ⟨hHolds.planned, hHolds.owned, hHolds.next, hHolds.permitted, hHolds.accepted, hHolds.claimed⟩

/-- A new owner of a free slot. -/
theorem prepare (h : b.Sound) (hLive : live.Perm (cp :: b.live)) (hPhase : cp.phase = .prepared)
    (hFree : cp.slot ∉ b.live.map (·.slot)) (hHolds : b.Holds cp) : Sound { b with live } := by
  refine h.of_live ?_ ?_ ?_
  · have hOpen := (hLive.filter (·.phase = .dispatching)).map (·.invocationId)
    rw [open_cons_prepared hPhase] at hOpen
    exact hOpen.symm
  · exact (uniqueOn_cons.mpr ⟨hFree, h.calls.slots⟩).perm hLive.symm
  · intro other hOther
    rcases List.mem_cons.mp (hLive.mem_iff.mp hOther) with rfl | hOther
    · exact hHolds
    · exact h.live other hOther

/-- The lease of an owner moves. -/
theorem renew (h : b.Sound) (hLive : b.live.Perm (cp :: rest)) (hNext : live.Perm (renewed :: rest))
    (hCall : renewed.call = cp.call) : Sound { b with live } := by
  have hTarget := ExecutionCheckpoint.target_of_call hCall
  have hSlot := ExecutionCheckpoint.slot_of_call hCall
  obtain ⟨hInvocation, hPhase, hKind, hCandidate, hOrdinal, hClaimed, _⟩ := ExecutionCheckpoint.same_of_call hCall
  refine h.of_live ?_ ?_ ?_
  · refine (open_perm hLive).trans (List.Perm.trans ?_ ((hNext.filter _).map _).symm)
    simp only [List.filter_cons, hPhase]
    split_ifs
    · rw [List.map_cons, List.map_cons, hInvocation]
    · exact List.Perm.refl _
  · refine UniqueOn.perm ?_ hNext.symm
    have hSlots := h.calls.slots.perm hLive
    rw [uniqueOn_cons] at hSlots ⊢
    rw [hSlot]
    exact hSlots
  · intro other hOther
    rcases List.mem_cons.mp (hNext.mem_iff.mp hOther) with rfl | hOther
    · have hHolds := h.live cp (hLive.mem_iff.mpr List.mem_cons_self)
      refine ⟨hSlot ▸ hHolds.planned, ?_, hTarget ▸ hOrdinal ▸ hHolds.next, hTarget ▸ hHolds.permitted, ?_,
        hClaimed ▸ hHolds.claimed⟩
      · rw [hPhase, hCall]
        exact hHolds.owned
      · rw [hKind, hSlot, hCandidate]
        exact hHolds.accepted
    · exact h.live other (hLive.mem_iff.mpr (List.mem_cons_of_mem _ hOther))

/-- An owner that has not dispatched its call gives the slot back. -/
theorem release (h : b.Sound) (hLive : b.live.Perm (cp :: rest)) (hNext : live.Perm rest)
    (hPhase : cp.phase = .prepared) : Sound { b with live } := by
  refine h.of_live ?_ ?_ ?_
  · have hOpen := open_perm hLive
    rw [open_cons_prepared hPhase] at hOpen
    exact hOpen.trans ((hNext.filter _).map _).symm
  · exact (uniqueOn_cons.mp (h.calls.slots.perm hLive)).2.perm hNext.symm
  · intro other hOther
    exact h.live other (hLive.mem_iff.mpr (List.mem_cons_of_mem _ (hNext.mem_iff.mp hOther)))

/-- The owner of a slot dispatches its call. -/
theorem dispatch (h : b.Sound) (hLive : b.live.Perm (cp :: rest)) (hNext : live.Perm (dispatched :: rest))
    (hDispatches : cp.Dispatches dispatched) (hRecord : b.Recordable dispatched) :
    Sound { b with live, dispatches := b.dispatches ++ [DispatchRow.record dispatched] } := by
  obtain ⟨hRecorded, hPlanned, hExecutions, hBalanced, hEnded, hSlots⟩ := h.calls
  obtain ⟨hGenerations, hSemantics, hOutcome, hUnique, hJudged, hIssued, hReviewed⟩ := h.candidates
  obtain ⟨hSlot, hTarget, hKind, hCandidate, hOrdinal, hClaimed⟩ := hDispatches.same
  have hHolds := h.live cp (hLive.mem_iff.mpr List.mem_cons_self)
  have hTargetKind : dispatched.target.kind = dispatched.kind := dispatched.kind_target
  have hIssuedEq : ∀ target, (b.dispatches ++ [DispatchRow.record dispatched]).filter
      (·.checkpoint.target = target) = b.issued target ++
        if dispatched.target = target then [DispatchRow.record dispatched] else [] := by
    intro target
    rw [List.filter_append, issued, List.filter_singleton]
    change _ ++ (bif decide (dispatched.target = target) then _ else _) = _
    by_cases hCase : dispatched.target = target
    · rw [if_pos hCase, decide_eq_true hCase, cond_true]
    · rw [if_neg hCase, decide_eq_false hCase, cond_false]
  refine ⟨⟨?_, ?_, hExecutions.snoc hRecord.execution, ?_, ?_, ?_⟩, ⟨h.numbering.histories, ?_, ?_, ?_⟩,
    ⟨hGenerations, hSemantics, hOutcome, hUnique, hJudged, ?_, ?_⟩, h.permitted,
    ⟨h.decisions.resolved, h.decisions.recoveries, h.decisions.excepted⟩, ?_⟩
  · intro row hRow
    rcases List.mem_append.mp hRow with hRow | hRow
    · exact hRecorded row hRow
    · rw [List.mem_singleton.mp hRow]
      exact ⟨rfl, hDispatches.phase⟩
  · intro row hRow
    rcases List.mem_append.mp hRow with hRow | hRow
    · exact hPlanned row hRow
    · rw [List.mem_singleton.mp hRow]
      exact hSlot ▸ hHolds.planned
  · have hIssue := hBalanced.issue hRecord.invocation
    rw [List.map_append]
    refine hIssue.congr ?_ (List.Perm.refl _)
    have hOpen := open_perm hLive
    rw [open_cons_prepared hDispatches.prepared] at hOpen
    refine (hOpen.cons _).trans ?_
    rw [← open_cons_dispatching hDispatches.phase]
    exact ((hNext.filter _).map _).symm
  · intro completion hMem
    obtain ⟨row, hRow, hEnds⟩ := hEnded completion hMem
    exact ⟨row, List.mem_append_left _ hRow, hEnds⟩
  · refine UniqueOn.perm ?_ hNext.symm
    have hOld := hSlots.perm hLive
    rw [uniqueOn_cons] at hOld ⊢
    rw [hSlot]
    exact hOld
  · intro target
    change Complete _ ((b.dispatches ++ [DispatchRow.record dispatched]).filter _)
    rw [hIssuedEq]
    split_ifs with hCase
    · refine ((h.numbering.issued target).snoc ?_).1
      rw [← hCase]
      exact hRecord.ordinal
    · rw [List.append_nil]
      exact h.numbering.issued target
  · intro target
    change ((b.dispatches ++ [DispatchRow.record dispatched]).filter _).length ≤ _
    rw [hIssuedEq]
    split_ifs with hCase
    · rw [List.length_append, List.length_singleton, ← hCase, hTargetKind]
      exact hRecord.limit
    · rw [List.append_nil]
      exact h.numbering.limits target
  · intro kind
    rw [List.filter_append, List.length_append, List.filter_singleton]
    by_cases hCase : dispatched.kind = kind
    · rw [← hCase]
      have hTotal := hRecord.total
      simp only [DispatchRow.record, decide_true, cond_true, List.length_singleton]
      omega
    · have hTotal := h.numbering.totals kind
      simpa [DispatchRow.record, hCase] using hTotal
  · intro row hRow hSemantic
    rcases List.mem_append.mp hRow with hRow | hRow
    · exact hIssued row hRow hSemantic
    · rw [List.mem_singleton.mp hRow] at hSemantic ⊢
      change b.Accepts dispatched.slot dispatched.candidateId
      rw [hSlot, hCandidate]
      exact hHolds.accepted (hKind ▸ hSemantic)
  · intro row hRow stored hStored
    have hStored := hReviewed row hRow stored hStored
    exact ⟨hStored.results, hStored.ready, hStored.accepted⟩
  · intro other hOther
    rcases List.mem_cons.mp (hNext.mem_iff.mp hOther) with rfl | hOther
    · refine ⟨hSlot ▸ hHolds.planned, ?_, hTarget ▸ hOrdinal ▸ hHolds.next, hTarget ▸ hHolds.permitted, ?_,
        hClaimed ▸ hHolds.claimed⟩
      · intro _
        exact ⟨DispatchRow.record other, by simp, rfl⟩
      · rw [hKind, hSlot, hCandidate]
        exact hHolds.accepted
    · have hOld := h.live other (hLive.mem_iff.mpr (List.mem_cons_of_mem _ hOther))
      refine ⟨hOld.planned, ?_, hOld.next, hOld.permitted, hOld.accepted, hOld.claimed⟩
      intro hPhase
      obtain ⟨row, hRow, hCall⟩ := hOld.owned hPhase
      exact ⟨row, List.mem_append_left _ hRow, hCall⟩

end Sound

/-- A dispatched call ends: its owner leaves, one completion is added, and
nothing else is decided or dispatched. -/
structure Completed (b b' : Book) (cp : ExecutionCheckpoint) (completion : Completion) : Prop where
  creation : b'.creation = b.creation
  dispatches : b'.dispatches = b.dispatches
  resolutions : b'.resolutions = b.resolutions
  recoveries : b'.recoveries = b.recoveries
  live : ∃ rest, b.live.Perm (cp :: rest) ∧ b'.live.Perm rest
  completions : b'.completions.Perm (completion :: b.completions)
  ends : completion.Ends cp

namespace Completed

variable (hCompleted : b.Completed b' cp completion) (h : b.Sound)
include hCompleted

theorem mem_completions {other : Completion} :
    other ∈ b'.completions ↔ other = completion ∨ other ∈ b.completions := by
  rw [hCompleted.completions.mem_iff, List.mem_cons]

theorem mem_live : cp ∈ b.live := by
  obtain ⟨rest, hLive, _⟩ := hCompleted.live
  exact hLive.mem_iff.mpr List.mem_cons_self

/-- The history of the ended call grows by one, every other one is as before. -/
theorem history_perm (target : Target) : (b'.history target).Perm
    (if completion.target = target then b.history target ++ [completion] else b.history target) := by
  refine (hCompleted.completions.filter _).trans ?_
  split_ifs with hCase
  · rw [List.filter_cons_of_pos (by simpa using hCase)]
    exact (List.perm_append_singleton completion _).symm
  · rw [List.filter_cons_of_neg (by simpa using hCase)]
    exact List.Perm.refl _

theorem history_length (target : Target) : (b'.history target).length =
    (b.history target).length + if completion.target = target then 1 else 0 := by
  rw [(hCompleted.history_perm target).length_eq]
  split_ifs <;> simp

theorem permits {other : Completion} : b'.Permits other ↔ b.Permits other := by
  unfold Permits
  rw [hCompleted.creation, hCompleted.resolutions, hCompleted.recoveries]

include h

theorem ordinal : completion.executionOrdinal = (b.history completion.target).length + 1 := by
  rw [hCompleted.ends.executionOrdinal, hCompleted.ends.target]
  exact (h.live cp hCompleted.mem_live).next

/-- The remaining owners work on other targets. -/
theorem target_ne {other : ExecutionCheckpoint} (hOther : other ∈ b'.live) : completion.target ≠ other.target := by
  obtain ⟨rest, hLive, hNext⟩ := hCompleted.live
  have hRest := hNext.mem_iff.mp hOther
  have hSlots := (uniqueOn_cons.mp (h.calls.slots.perm hLive)).1
  intro hSame
  have hEq := h.live_targets hCompleted.mem_live (hLive.mem_iff.mpr (List.mem_cons_of_mem _ hRest))
    (hCompleted.ends.target.symm.trans hSame)
  exact hSlots (hEq ▸ List.mem_map_of_mem hRest)

theorem calls : b'.Calls := by
  obtain ⟨hRecorded, hPlanned, hExecutions, hBalanced, hEnded, hSlots⟩ := h.calls
  obtain ⟨rest, hLive, hNext⟩ := hCompleted.live
  refine ⟨?_, ?_, ?_, ?_, ?_, ?_⟩
  · rw [hCompleted.dispatches]
    exact hRecorded
  · rw [hCompleted.dispatches, hCompleted.creation]
    exact hPlanned
  · rw [hCompleted.dispatches]
    exact hExecutions
  · rw [hCompleted.dispatches]
    have hOpen := open_perm hLive
    rw [open_cons_dispatching hCompleted.ends.phase] at hOpen
    refine (hBalanced.congr hOpen (List.Perm.refl _)).settle.congr ((hNext.filter _).map _).symm ?_
    have hSettled := (hCompleted.completions.map (·.invocationId)).symm
    rw [List.map_cons, hCompleted.ends.invocationId] at hSettled
    exact hSettled
  · rw [hCompleted.dispatches]
    intro other hOther
    rcases hCompleted.mem_completions.mp hOther with rfl | hOther
    · obtain ⟨row, hRow, hCall⟩ := (h.live cp hCompleted.mem_live).owned hCompleted.ends.phase
      exact ⟨row, hRow, hCompleted.ends.of_call hCall.symm⟩
    · exact hEnded other hOther
  · exact (uniqueOn_cons.mp (hSlots.perm hLive)).2.perm hNext.symm

theorem numbering : b'.Numbering := by
  refine ⟨?_, ?_, ?_, ?_⟩
  · intro target
    refine Complete.perm ?_ (hCompleted.history_perm target).symm
    split_ifs with hCase
    · refine ((h.numbering.histories target).snoc ?_).1
      rw [← hCase]
      exact hCompleted.ordinal h
    · exact h.numbering.histories target
  · intro target
    rw [issued, hCompleted.dispatches]
    exact h.numbering.issued target
  · intro target
    rw [issued, hCompleted.dispatches, hCompleted.creation]
    exact h.numbering.limits target
  · intro kind
    rw [hCompleted.dispatches, hCompleted.creation]
    exact h.numbering.totals kind

theorem permitted : b'.Permitted := by
  intro other hOther hFollowed
  rw [hCompleted.permits]
  rw [hCompleted.history_length] at hFollowed
  rcases hCompleted.mem_completions.mp hOther with rfl | hOther
  · have hOrdinal := hCompleted.ordinal h
    rw [if_pos rfl] at hFollowed
    omega
  · by_cases hCase : completion.target = other.target
    · -- the owner of the ended call was only prepared after a permitted history
      refine (h.live cp hCompleted.mem_live).permitted other (mem_history.mpr ⟨hOther, ?_⟩)
      rw [← hCase, hCompleted.ends.target]
    · rw [if_neg hCase] at hFollowed
      exact h.permitted other hOther hFollowed

theorem live_holds (hAccepts : ∀ slot id, b.Accepts slot id → b'.Accepts slot id) :
    ∀ other ∈ b'.live, b'.Holds other := by
  intro other hOther
  obtain ⟨rest, hLive, hNext⟩ := hCompleted.live
  have hNe := hCompleted.target_ne h hOther
  have hHolds := h.live other (hLive.mem_iff.mpr (List.mem_cons_of_mem _ (hNext.mem_iff.mp hOther)))
  have hHistory := hCompleted.history_perm other.target
  rw [if_neg hNe] at hHistory
  refine ⟨hCompleted.creation ▸ hHolds.planned, hCompleted.dispatches ▸ hHolds.owned,
    hHistory.length_eq ▸ hHolds.next, ?_, fun hKind => hAccepts _ _ (hHolds.accepted hKind),
    hCompleted.recoveries ▸ hHolds.claimed⟩
  intro earlier hEarlier
  rw [hCompleted.permits]
  exact hHolds.permitted earlier (hHistory.mem_iff.mp hEarlier)

/-- Recorded resolutions stay sound when a completion is added. -/
theorem resolved (hIndexes : b'.Candidates) :
    Resolved (unknownExecutions b'.generations b'.semantics) b'.creation.policy b'.resolutions := by
  have hCalls := hCompleted.calls h
  rw [hCompleted.creation, hCompleted.resolutions]
  refine h.decisions.resolved.mono ?_ ?_
  · rw [hIndexes.unknownExecutions_eq]
    exact UniqueOn.map_of (hCalls.executions_unique.sublist List.filter_sublist) fun _ _ => rfl
  · rw [hIndexes.unknownExecutions_eq, h.candidates.unknownExecutions_eq]
    refine List.map_subset _ ?_
    intro other hOther
    obtain ⟨hMem, hStatus⟩ := List.mem_filter.mp hOther
    exact List.mem_filter.mpr ⟨hCompleted.mem_completions.mpr (.inr hMem), hStatus⟩

end Completed

theorem completed_generation (hLive : b.live.Perm (cp :: rest)) (hNext : live.Perm rest) {row : GenerationRow}
    (hEnds : (Completion.generation row.evidence).Ends cp) :
    b.Completed { b with live, generations := b.generations ++ [row] } cp (.generation row.evidence) := by
  refine ⟨rfl, rfl, rfl, rfl, ⟨rest, hLive, hNext⟩, ?_, hEnds⟩
  simp only [completions, List.map_append, List.map_singleton, List.append_assoc]
  exact List.perm_middle

theorem completed_semantic (hLive : b.live.Perm (cp :: rest)) (hNext : live.Perm rest) {judgement : SemanticRow}
    (source : GenerationRow) (updated : Candidate) (hEnds : (Completion.semantic judgement.evidence).Ends cp) :
    b.Completed { b with
      live
      generations := b.generations.map (·.withCandidate source.executionId updated)
      semantics := b.semantics ++ [judgement] } cp (.semantic judgement.evidence) := by
  refine ⟨rfl, rfl, rfl, rfl, ⟨rest, hLive, hNext⟩, ?_, hEnds⟩
  simp only [completions, List.map_append, List.map_map, List.map_singleton, Function.comp_def,
    GenerationRow.withCandidate_evidence]
  rw [← List.append_assoc]
  exact List.perm_append_singleton _ _

theorem checkSemanticResult_open {stored : Candidate} {value : SemanticCompletion} {result : Option SemanticResult}
    (hStatus : value.status ≠ .succeeded) :
    checkSemanticResult stored value result = .ok () ↔ result = none := by
  rw [checkSemanticResult, if_neg hStatus, require_ok]

namespace Sound

variable (h : b.Sound)
include h

/-- A generation ends; a success brings a new candidate that nobody judged. -/
theorem completeGeneration (hLive : b.live.Perm (cp :: rest)) (hNext : live.Perm rest) {row : GenerationRow}
    (hEnds : (Completion.generation row.evidence).Ends cp) (hIndex : row.IndexMatches) (hOutcome : row.Outcome)
    (hNew : row.candidateId = none ∨ row.candidateId ∉ b.generations.map (·.candidateId))
    (hFresh : ∀ stored, row.candidate = some stored →
      stored.reviewReady = false ∧ stored.acceptedSemanticExecutionId = none) :
    Sound { b with live, generations := b.generations ++ [row] } := by
  have hCompleted := completed_generation hLive hNext hEnds
  obtain ⟨hGenerations, hSemantics, hOutcomes, hUnique, hJudged, hIssued, hReviewed⟩ := h.candidates
  have hAccepts : ∀ slot id, b.Accepts slot id →
      Accepts { b with live, generations := b.generations ++ [row] } slot id := by
    rintro slot id ⟨source, hSource, hFacts⟩
    exact ⟨source, List.mem_append_left _ hSource, hFacts⟩
  have hApart : ∀ other ∈ b.generations, other.candidateId = row.candidateId → row.candidateId = none := by
    intro other hOther hSame
    refine hNew.resolve_right fun hNot => hNot ?_
    rw [← hSame]
    exact List.mem_map_of_mem hOther
  have hCandidates : Candidates { b with live, generations := b.generations ++ [row] } := by
    refine ⟨?_, hSemantics, ?_, ?_, ?_, fun entry hEntry hKind => hAccepts _ _ (hIssued entry hEntry hKind), ?_⟩
    · intro other hOther
      rcases List.mem_append.mp hOther with hOther | hOther
      · exact hGenerations other hOther
      · rw [List.mem_singleton.mp hOther]
        exact hIndex
    · intro other hOther
      rcases List.mem_append.mp hOther with hOther | hOther
      · exact hOutcomes other hOther
      · rw [List.mem_singleton.mp hOther]
        exact hOutcome
    · intro first hFirst second hSecond hSame hSome
      rcases List.mem_append.mp hFirst with hFirst | hFirst <;>
        rcases List.mem_append.mp hSecond with hSecond | hSecond
      · exact hUnique first hFirst second hSecond hSame hSome
      · rw [List.mem_singleton.mp hSecond] at hSame
        exact absurd (hSame.trans (hApart first hFirst hSame)) hSome
      · rw [List.mem_singleton.mp hFirst] at hSame hSome
        exact absurd (hApart second hSecond hSame.symm) hSome
      · rw [List.mem_singleton.mp hFirst, List.mem_singleton.mp hSecond]
    · intro judgement hJudgement
      obtain ⟨source, hSource, hFacts⟩ := hJudged judgement hJudgement
      exact ⟨source, List.mem_append_left _ hSource, hFacts⟩
    · intro other hOther stored hStored
      rcases List.mem_append.mp hOther with hOther | hOther
      · have hOld := hReviewed other hOther stored hStored
        exact ⟨hOld.results, hOld.ready, hOld.accepted⟩
      · rw [List.mem_singleton.mp hOther] at hStored
        obtain ⟨hReady, hAccepted⟩ := hFresh stored hStored
        obtain ⟨same, hSame, hId, _⟩ := hOutcome.succeeded (hOutcome.succeeded_of_candidate hStored)
        rw [hStored] at hSame
        cases hSame
        have hUnjudged : ∀ judgement ∈ b.semantics, judgement.candidateId ≠ stored.id := by
          intro judgement hJudgement hOf
          obtain ⟨source, hSource, hSourceId, _⟩ := hJudged judgement hJudgement
          have hNone := hApart source hSource (by rw [hSourceId, hId, hOf])
          rw [hId] at hNone
          cases hNone
        refine ⟨fun judgement hJudgement hOf => absurd hOf (hUnjudged judgement hJudgement), ?_, ?_⟩
        · rw [hReady, hAccepted]
          rfl
        · intro id
          rw [hAccepted]
          constructor
          · intro hNone
            cases hNone
          · rintro ⟨judgement, hJudgement, hOf, _⟩
            exact absurd hOf (hUnjudged judgement hJudgement)
  exact ⟨hCompleted.calls h, hCompleted.numbering h, hCandidates, hCompleted.permitted h,
    ⟨hCompleted.resolved h hCandidates, h.decisions.recoveries, h.decisions.excepted⟩,
    hCompleted.live_holds h hAccepts⟩

end Sound

/-- What a judge call makes of its candidate. -/
structure Judged (candidate updated : Candidate) (judgement : SemanticRow) : Prop where
  identity : updated.id = candidate.id ∧ updated.generationExecutionId = candidate.generationExecutionId ∧
    updated.normalizedOutputFingerprint = candidate.normalizedOutputFingerprint ∧
    updated.acceptedAt = candidate.acceptedAt
  assertions : updated.assertions ≠ []
  result : checkSemanticResult updated judgement.evidence judgement.result = .ok ()
  ready : updated.reviewReady = updated.acceptedSemanticExecutionId.isSome
  accepted : updated.acceptedSemanticExecutionId =
    if judgement.evidence.status = .succeeded then some judgement.executionId
    else candidate.acceptedSemanticExecutionId

namespace Sound

variable (h : b.Sound)
include h

theorem generation_executions : UniqueOn (·.executionId) b.generations := by
  have hSub : (b.generations.map fun row => Completion.generation row.evidence).Sublist b.completions :=
    List.sublist_append_left _ _
  exact (h.calls.executions_unique.sublist hSub).of_map fun row hRow =>
    (h.candidates.generationIndex row hRow).1

/-- A judge call ends; a success makes its candidate reviewable. -/
theorem completeSemantic (hLive : b.live.Perm (cp :: rest)) (hNext : live.Perm rest) {judgement : SemanticRow}
    {source : GenerationRow} {candidate updated : Candidate}
    (hEnds : (Completion.semantic judgement.evidence).Ends cp) (hIndex : judgement.IndexMatches)
    (hSource : source ∈ b.generations) (hId : source.candidateId = some judgement.candidateId)
    (hCandidate : source.candidate = some candidate)
    (hFingerprint : source.evidence.normalizedFingerprint = judgement.evidence.candidateOutputFingerprint)
    (hJudged : Judged candidate updated judgement) :
    Sound { b with
      live
      generations := b.generations.map (·.withCandidate source.executionId updated)
      semantics := b.semantics ++ [judgement] } := by
  have hCompleted := completed_semantic hLive hNext source updated hEnds
  obtain ⟨hGenerations, hSemantics, hOutcomes, hUnique, hJudgements, hIssued, hReviewed⟩ := h.candidates
  have hHolds := h.live cp hCompleted.mem_live
  have hAccepts : ∀ slot id, b.Accepts slot id → Accepts { b with
      live
      generations := b.generations.map (·.withCandidate source.executionId updated)
      semantics := b.semantics ++ [judgement] } slot id := by
    rintro slot id ⟨row, hRow, hRowId, hSlot⟩
    exact ⟨_, List.mem_map_of_mem hRow, by simpa using hRowId, by simpa using hSlot⟩
  have hOf : candidate.id = judgement.candidateId := by
    rw [h.candidate_stored hSource hCandidate] at hId
    exact Option.some.inj hId
  -- the judge is asked again only after calls that were not accepted
  have hOpen : ∀ row ∈ b.semantics, row.candidateId = candidate.id → row.evidence.status ≠ .succeeded := by
    intro row hRow hRowOf
    refine (hHolds.permitted (.semantic row.evidence) (mem_history.mpr ⟨semantic_mem hRow, ?_⟩)).not_succeeded
    rw [← hEnds.target]
    simp only [Completion.target, (hSemantics row hRow).2.2.2.1, hIndex.2.2.2.1, hRowOf, hOf]
  have hNone : candidate.acceptedSemanticExecutionId = none := by
    cases hAccepted : candidate.acceptedSemanticExecutionId with
    | none => rfl
    | some id =>
        obtain ⟨row, hRow, hRowOf, hStatus, _⟩ := ((hReviewed source hSource candidate hCandidate).accepted id).mp
          hAccepted
        exact absurd hStatus (hOpen row hRow hRowOf)
  have hCases : ∀ row ∈ b.generations, row = source ∨ row.executionId ≠ source.executionId := by
    intro row hRow
    by_cases hSame : row.executionId = source.executionId
    · exact .inl (h.generation_executions.eq_of_key hRow hSource hSame)
    · exact .inr hSame
  have hCandidates : Candidates { b with
      live
      generations := b.generations.map (·.withCandidate source.executionId updated)
      semantics := b.semantics ++ [judgement] } := by
    refine ⟨?_, ?_, ?_, ?_, ?_, fun entry hEntry hKind => hAccepts _ _ (hIssued entry hEntry hKind), ?_⟩
    · intro row hRow
      obtain ⟨old, hOld, rfl⟩ := List.mem_map.mp hRow
      exact old.withCandidate_index _ _ (hGenerations old hOld)
    · intro row hRow
      rcases List.mem_append.mp hRow with hRow | hRow
      · exact hSemantics row hRow
      · rw [List.mem_singleton.mp hRow]
        exact hIndex
    · intro row hRow
      obtain ⟨old, hOld, rfl⟩ := List.mem_map.mp hRow
      rcases hCases old hOld with rfl | hOther
      · have hSucceeded := (hOutcomes old hOld).succeeded_of_candidate hCandidate
        obtain ⟨same, hSame, hSameId, hValid, hExecution, hOutput, hAt, _⟩ := (hOutcomes old hOld).succeeded hSucceeded
        rw [hCandidate] at hSame
        cases hSame
        obtain ⟨hUpdatedId, hUpdatedExecution, hUpdatedOutput, hUpdatedAt⟩ := hJudged.identity
        refine ⟨fun _ => ⟨updated, old.withCandidate_same updated, ?_, ?_, ?_, ?_, ?_, hJudged.assertions⟩, ?_⟩
        · rw [old.withCandidate_candidateId, hUpdatedId, hSameId]
        · rw [hUpdatedId]
          exact hValid
        · rw [old.withCandidate_evidence, hUpdatedExecution, hExecution]
        · rw [old.withCandidate_evidence, hUpdatedOutput, hOutput]
        · rw [old.withCandidate_evidence, hUpdatedAt, hAt]
        · rw [old.withCandidate_evidence]
          exact fun hNot => absurd hSucceeded hNot
      · rw [GenerationRow.withCandidate_other hOther]
        exact hOutcomes old hOld
    · intro first hFirst second hSecond hSame hSome
      obtain ⟨row, hRow, rfl⟩ := List.mem_map.mp hFirst
      obtain ⟨other, hOther, rfl⟩ := List.mem_map.mp hSecond
      simp only [GenerationRow.withCandidate_candidateId] at hSame hSome
      rw [hUnique row hRow other hOther hSame hSome]
    · intro row hRow
      rcases List.mem_append.mp hRow with hRow | hRow
      · obtain ⟨origin, hOrigin, hOriginId, hOutput⟩ := hJudgements row hRow
        exact ⟨_, List.mem_map_of_mem hOrigin, by simpa using hOriginId, by simpa using hOutput⟩
      · rw [List.mem_singleton.mp hRow]
        exact ⟨_, List.mem_map_of_mem hSource, by simpa using hId, by simpa using hFingerprint⟩
    · intro row hRow stored hStored
      obtain ⟨old, hOld, rfl⟩ := List.mem_map.mp hRow
      rcases hCases old hOld with rfl | hOther
      · rw [old.withCandidate_same] at hStored
        cases hStored
        refine ⟨?_, hJudged.ready, ?_⟩
        · intro other hOther hOtherOf
          rcases List.mem_append.mp hOther with hOther | hOther
          · rw [hJudged.identity.1] at hOtherOf
            have hStatus := hOpen other hOther hOtherOf
            rw [checkSemanticResult_open hStatus]
            exact (checkSemanticResult_open hStatus).mp
              ((hReviewed old hOld candidate hCandidate).results other hOther hOtherOf)
          · rw [List.mem_singleton.mp hOther]
            exact hJudged.result
        · intro id
          rw [hJudged.accepted, hJudged.identity.1]
          constructor
          · intro hSome
            split at hSome
            · rename_i hStatus
              exact ⟨judgement, by simp, hOf.symm, hStatus, Option.some.inj hSome⟩
            · rw [hNone] at hSome
              cases hSome
          · rintro ⟨other, hOther, hOtherOf, hStatus, rfl⟩
            rcases List.mem_append.mp hOther with hOther | hOther
            · exact absurd hStatus (hOpen other hOther hOtherOf)
            · rw [List.mem_singleton.mp hOther] at hStatus ⊢
              rw [if_pos hStatus]
      · rw [GenerationRow.withCandidate_other hOther] at hStored
        have hOld' := hReviewed old hOld stored hStored
        have hApart : judgement.candidateId ≠ stored.id := by
          intro hSame
          have hEq := h.source_unique hOld hSource (h.candidate_stored hOld hStored) (by rw [hId, hSame])
          exact hOther (by rw [hEq])
        refine ⟨?_, hOld'.ready, ?_⟩
        · intro other hMem hOtherOf
          rcases List.mem_append.mp hMem with hMem | hMem
          · exact hOld'.results other hMem hOtherOf
          · rw [List.mem_singleton.mp hMem] at hOtherOf
            exact absurd hOtherOf hApart
        · intro id
          rw [hOld'.accepted]
          constructor
          · rintro ⟨other, hMem, hFacts⟩
            exact ⟨other, List.mem_append_left _ hMem, hFacts⟩
          · rintro ⟨other, hMem, hOtherOf, hFacts⟩
            rcases List.mem_append.mp hMem with hMem | hMem
            · exact ⟨other, hMem, hOtherOf, hFacts⟩
            · rw [List.mem_singleton.mp hMem] at hOtherOf
              exact absurd hOtherOf hApart
  refine ⟨hCompleted.calls h, hCompleted.numbering h, hCandidates, hCompleted.permitted h,
    ⟨hCompleted.resolved h hCandidates, h.decisions.recoveries, ?_⟩, hCompleted.live_holds h hAccepts⟩
  intro value hValue
  obtain ⟨target, hTarget, hTargetId, hTargets, hPrecedes⟩ := h.decisions.excepted value hValue
  refine ⟨target, ?_, hTargetId, hTargets, ?_⟩
  · rw [List.map_append]
    exact List.mem_append_left _ hTarget
  · intro other hOther hSame hLater
    rw [List.map_append] at hOther
    rcases List.mem_append.mp hOther with hOther | hOther
    · exact hPrecedes other hOther hSame hLater
    · rw [List.map_singleton, List.mem_singleton] at hOther
      subst hOther
      obtain ⟨dispatchedAt, hDispatched, hStarted⟩ := hEnds.started
      obtain ⟨time, hTime, hClaimed, _⟩ := cp.facts.dispatching hEnds.phase
      rw [hTime] at hDispatched
      cases hDispatched
      exact le_trans (hHolds.claimed value hValue) (le_trans hClaimed hStarted)

end Sound

/-- More decisions permit at least as much. -/
theorem permits_mono {resolutions : List ResultUnknownResolution} {recoveries : List ContractRecovery}
    (hResolutions : b.resolutions ⊆ resolutions) (hRecoveries : b.recoveries ⊆ recoveries)
    (hPermits : b.Permits completion) : Permits { b with resolutions, recoveries } completion := by
  refine ⟨hPermits.1, ?_⟩
  have hMatch := hPermits.2
  cases hStatus : completion.status with
  | succeeded =>
      rw [hStatus] at hMatch
      exact hMatch
  | failed =>
      rw [hStatus] at hMatch
      refine hMatch.imp_right ?_
      rintro ⟨hKind, hId⟩
      exact ⟨hKind, List.map_subset _ hRecoveries hId⟩
  | resultUnknown =>
      rw [hStatus] at hMatch
      obtain ⟨r, hr, hDecision, hId⟩ := mem_replacedExecutions.mp hMatch
      exact mem_replacedExecutions.mpr ⟨r, hResolutions hr, hDecision, hId⟩

namespace Sound

/-- Recorded decisions grow while the evidence stays. -/
theorem of_decisions (h : b.Sound) (resolutions : List ResultUnknownResolution) (recoveries : List ContractRecovery)
    (hResolutions : b.resolutions ⊆ resolutions) (hRecoveries : b.recoveries ⊆ recoveries)
    (hResolved : Resolved (unknownExecutions b.generations b.semantics) b.creation.policy resolutions)
    (hUnique : UniqueOn (·.executionId) recoveries)
    (hExcepted : ∀ value ∈ recoveries, Excepts (b.semantics.map (·.evidence)) b.creation.policy value)
    (hClaimed : ∀ cp ∈ b.live, ∀ value ∈ recoveries, value.resolvedAt ≤ cp.claimedAt) :
    Sound { b with resolutions, recoveries } := by
  obtain ⟨hRecorded, hPlanned, hExecutions, hBalanced, hEnded, hSlots⟩ := h.calls
  obtain ⟨hGenerations, hSemantics, hOutcome, hCandidate, hJudged, hIssued, hReviewed⟩ := h.candidates
  refine ⟨⟨hRecorded, hPlanned, hExecutions, hBalanced, hEnded, hSlots⟩,
    ⟨h.numbering.histories, h.numbering.issued, h.numbering.limits, h.numbering.totals⟩,
    ⟨hGenerations, hSemantics, hOutcome, hCandidate, hJudged, hIssued, ?_⟩, ?_, ⟨hResolved, hUnique, hExcepted⟩, ?_⟩
  · intro row hRow stored hStored
    have hStored := hReviewed row hRow stored hStored
    exact ⟨hStored.results, hStored.ready, hStored.accepted⟩
  · intro completion hMem hFollowed
    exact permits_mono hResolutions hRecoveries (h.permitted completion hMem hFollowed)
  · intro cp hMem
    have hHolds := h.live cp hMem
    refine ⟨hHolds.planned, hHolds.owned, hHolds.next, ?_, hHolds.accepted, hClaimed cp hMem⟩
    exact fun completion hCompletion => permits_mono hResolutions hRecoveries (hHolds.permitted completion hCompletion)

/-- An unknown execution is decided. -/
theorem resolve (h : b.Sound) {value : ResultUnknownResolution} {result : ResolutionProgress}
    (hValue : resolveUnknown .blocked (unknownExecutions b.generations b.semantics) b.resolutions value
      b.creation.policy = .ok result) : Sound { b with resolutions := b.resolutions ++ [value] } :=
  h.of_decisions _ b.recoveries (List.subset_append_left _ _) (List.Subset.refl _)
    (h.decisions.resolved.snoc hValue).1 h.decisions.recoveries h.decisions.excepted
    fun cp hMem => (h.live cp hMem).claimed

/-- A judge call is excepted while nobody works. -/
theorem recover (h : b.Sound) (hIdle : b.live = []) {value : ContractRecovery} {recovered : List String}
    (hValue : validateRecoveries (b.recoveries ++ [value]) (b.semantics.map (·.evidence)) b.creation.policy =
      .ok recovered) : Sound { b with recoveries := b.recoveries ++ [value] } := by
  obtain ⟨_, hUnique, hExcepted⟩ := (validateRecoveries_ok h.semantic_executions).mp hValue
  refine h.of_decisions b.resolutions _ (List.Subset.refl _) (List.subset_append_left _ _)
    h.decisions.resolved hUnique hExcepted ?_
  rw [hIdle]
  simp

end Sound

/-- One change of the book. -/
inductive Step (b : Book) : Book → Prop
  | prepare {cp : ExecutionCheckpoint} {live : List ExecutionCheckpoint} (hLive : live.Perm (cp :: b.live))
      (hPhase : cp.phase = .prepared) (hFree : cp.slot ∉ b.live.map (·.slot)) (hHolds : b.Holds cp) :
      Step b { b with live }
  | dispatch {cp dispatched : ExecutionCheckpoint} {rest live : List ExecutionCheckpoint}
      (hLive : b.live.Perm (cp :: rest)) (hNext : live.Perm (dispatched :: rest))
      (hDispatches : cp.Dispatches dispatched) (hRecord : b.Recordable dispatched) :
      Step b { b with live, dispatches := b.dispatches ++ [DispatchRow.record dispatched] }
  | renew {cp renewed : ExecutionCheckpoint} {rest live : List ExecutionCheckpoint}
      (hLive : b.live.Perm (cp :: rest)) (hNext : live.Perm (renewed :: rest)) (hCall : renewed.call = cp.call) :
      Step b { b with live }
  | release {cp : ExecutionCheckpoint} {rest live : List ExecutionCheckpoint} (hLive : b.live.Perm (cp :: rest))
      (hNext : live.Perm rest) (hPhase : cp.phase = .prepared) : Step b { b with live }
  | completeGeneration {cp : ExecutionCheckpoint} {rest live : List ExecutionCheckpoint} {row : GenerationRow}
      (hLive : b.live.Perm (cp :: rest)) (hNext : live.Perm rest)
      (hEnds : (Completion.generation row.evidence).Ends cp) (hIndex : row.IndexMatches) (hOutcome : row.Outcome)
      (hNew : row.candidateId = none ∨ row.candidateId ∉ b.generations.map (·.candidateId))
      (hFresh : ∀ stored, row.candidate = some stored →
        stored.reviewReady = false ∧ stored.acceptedSemanticExecutionId = none) :
      Step b { b with live, generations := b.generations ++ [row] }
  | completeSemantic {cp : ExecutionCheckpoint} {rest live : List ExecutionCheckpoint} {judgement : SemanticRow}
      {source : GenerationRow} {candidate updated : Candidate} (hLive : b.live.Perm (cp :: rest))
      (hNext : live.Perm rest) (hEnds : (Completion.semantic judgement.evidence).Ends cp)
      (hIndex : judgement.IndexMatches) (hSource : source ∈ b.generations)
      (hId : source.candidateId = some judgement.candidateId) (hCandidate : source.candidate = some candidate)
      (hFingerprint : source.evidence.normalizedFingerprint = judgement.evidence.candidateOutputFingerprint)
      (hJudged : Judged candidate updated judgement) :
      Step b { b with
        live
        generations := b.generations.map (·.withCandidate source.executionId updated)
        semantics := b.semantics ++ [judgement] }
  | resolve {value : ResultUnknownResolution} {result : ResolutionProgress}
      (hValue : resolveUnknown .blocked (unknownExecutions b.generations b.semantics) b.resolutions value
        b.creation.policy = .ok result) : Step b { b with resolutions := b.resolutions ++ [value] }
  | recover {value : ContractRecovery} {recovered : List String} (hIdle : b.live = [])
      (hValue : validateRecoveries (b.recoveries ++ [value]) (b.semantics.map (·.evidence)) b.creation.policy =
        .ok recovered) : Step b { b with recoveries := b.recoveries ++ [value] }

/-- Every change keeps the book sound. -/
theorem Step.sound (hStep : b.Step b') (h : b.Sound) : b'.Sound := by
  cases hStep with
  | prepare hLive hPhase hFree hHolds => exact h.prepare hLive hPhase hFree hHolds
  | dispatch hLive hNext hDispatches hRecord => exact h.dispatch hLive hNext hDispatches hRecord
  | renew hLive hNext hCall => exact h.renew hLive hNext hCall
  | release hLive hNext hPhase => exact h.release hLive hNext hPhase
  | completeGeneration hLive hNext hEnds hIndex hOutcome hNew hFresh =>
      exact h.completeGeneration hLive hNext hEnds hIndex hOutcome hNew hFresh
  | completeSemantic hLive hNext hEnds hIndex hSource hId hCandidate hFingerprint hJudged =>
      exact h.completeSemantic hLive hNext hEnds hIndex hSource hId hCandidate hFingerprint hJudged
  | resolve hValue => exact h.resolve hValue
  | recover hIdle hValue => exact h.recover hIdle hValue

/-- The empty book of a new Run. -/
def start (creation : Creation) : Book := ⟨creation, [], [], [], [], [], []⟩

theorem start_sound (creation : Creation) : (start creation).Sound := by
  refine ⟨⟨?_, ?_, ?_, Ledger.Balanced.nil, ?_, ?_⟩, ⟨?_, ?_, ?_, ?_⟩, ⟨?_, ?_, ?_, ?_, ?_, ?_, ?_⟩, ?_,
    ⟨Resolved.nil _ _, ?_, ?_⟩, ?_⟩
  all_goals simp [start, history, issued, completions, Permitted]

end Book

end QsAi
