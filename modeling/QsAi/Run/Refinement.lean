import QsAi.Run.BookSteps
import QsAi.Run.Decisions
import QsAi.Run.Planning

/-! Every transaction of a Run is a change of its book. A serial Run keeps its
owner in the coordinator, a candidate Run in the claim table; the book sees a
list of live checkpoints in both cases. -/
namespace QsAi

open Guarded Keyed Numbered

namespace Store

variable (store : Store)

/-- The live checkpoints of the Run. -/
def live : List ExecutionCheckpoint := store.claims.map (·.claim.checkpoint) ++ store.checkpoint.toList

def book : Book :=
  ⟨store.creation, store.live, store.dispatches, store.generations, store.semantics,
    store.progress.resultUnknownResolutions, store.progress.semanticContractRecoveries⟩

/-- The owner is kept where the mode keeps it, and claims are filed under their
slot. -/
structure Shaped : Prop where
  serial : store.creation.mode = .serialV1 → store.claims = []
  candidate : store.creation.mode = .candidateV2 → store.checkpoint = none
  index : ∀ row ∈ store.claims, row.claim.checkpoint.slot = row.slot

/-- What every reachable Run keeps: a sound book and the count of the unknown
executions that nobody decided about. -/
structure Valid : Prop where
  shaped : store.Shaped
  sound : store.book.Sound
  counted : store.progress.unresolvedResultUnknownCount + store.progress.resultUnknownResolutions.length =
    (unknownExecutions store.generations store.semantics).length

variable {store} {next : Store}

theorem lockRun_ok {version : Nat} (h : store.lockRun = .ok version) :
    store.creation.mode = .candidateV2 ∧ store.checkpoint = none ∧ version = store.version := by
  simp only [lockRun, bind_ok, require_ok, exists_const, pure_ok] at h
  exact ⟨h.1, h.2.1, h.2.2.symm⟩

theorem activeClaims_ok {active : List SlotClaim} :
    store.activeClaims = .ok active ↔
      (∀ row ∈ store.claims, row.claim.checkpoint.slot = row.slot) ∧ active = store.claims.map (·.claim) := by
  simp only [activeClaims, bind_ok, require_ok, exists_const, pure_ok]
  rw [@eq_comm _ active]

/-- The caller still holds the stored claim. -/
structure Current (claim current : SlotClaim) : Prop where
  stored : ∃ row ∈ store.claims, row.slot = claim.checkpoint.slot ∧ row.claim = current
  slot : current.checkpoint.slot = claim.checkpoint.slot
  executionId : current.checkpoint.executionId = claim.checkpoint.executionId
  invocationId : current.checkpoint.invocationId = claim.checkpoint.invocationId
  owner : current.checkpoint.owner = claim.checkpoint.owner
  phase : current.checkpoint.phase = claim.checkpoint.phase

theorem requireClaim_ok {claim current : SlotClaim} (h : store.requireClaim claim = .ok current) :
    store.Current claim current := by
  simp only [requireClaim, bind_ok, demand_ok, require_ok, exists_const, pure_ok] at h
  obtain ⟨row, hFind, ⟨hSlot, _, hExecution, hInvocation, hOwner, hPhase⟩, rfl⟩ := h
  obtain ⟨hMem, hKey⟩ := lookup_some hFind
  exact ⟨⟨row, hMem, hKey, rfl⟩, hSlot, hExecution, hInvocation, hOwner, hPhase⟩

theorem saveCheckpoint_ok {expected : Nat} {checkpoint : Option ExecutionCheckpoint}
    (h : store.saveCheckpoint expected checkpoint = .ok next) :
    store.version = expected ∧ next = { store with version := store.version + 1, checkpoint } := by
  simp only [saveCheckpoint, bind_ok, require_ok, exists_const, pure_ok] at h
  obtain ⟨rfl, rfl⟩ := h
  exact ⟨rfl, rfl⟩

/-! Claims as rows of the live list. -/

theorem live_candidate (h : store.checkpoint = none) : store.live = store.claims.map (·.claim.checkpoint) := by
  simp [live, h]

theorem live_serial (h : store.claims = []) : store.live = store.checkpoint.toList := by
  simp [live, h]

theorem Valid.claims_unique (h : store.Valid) : UniqueOn (·.slot) store.claims := by
  have hSub : (store.claims.map (·.claim.checkpoint)).Sublist store.live := List.sublist_append_left _ _
  exact (h.sound.calls.slots.sublist hSub).of_map fun row hRow => h.shaped.index row hRow

theorem live_split (h : store.Valid) (hMode : store.creation.mode = .candidateV2) {row : ClaimRow}
    (hRow : row ∈ store.claims) : store.live.Perm
      (row.claim.checkpoint :: (store.claims.filter (·.slot ≠ row.slot)).map (·.claim.checkpoint)) := by
  rw [live_candidate (h.shaped.candidate hMode)]
  exact (h.claims_unique.perm_cons_filter hRow).map _

/-- Replacing the checkpoint of a claim. -/
theorem live_updateClaim (h : store.Valid) (hMode : store.creation.mode = .candidateV2) {row : ClaimRow}
    (hRow : row ∈ store.claims) (checkpoint : ExecutionCheckpoint) :
    ((store.updateClaim row.slot checkpoint).live).Perm
      (checkpoint :: (store.claims.filter (·.slot ≠ row.slot)).map (·.claim.checkpoint)) := by
  have hNone : (store.updateClaim row.slot checkpoint).checkpoint = none := h.shaped.candidate hMode
  rw [live_candidate hNone]
  exact (h.claims_unique.perm_replace hRow fun r => { r with claim := { r.claim with checkpoint } }).map _

/-- A claim may be replaced by one for the same slot. -/
theorem Shaped.update (h : store.Shaped) {row : ClaimRow} (hRow : row ∈ store.claims)
    {checkpoint : ExecutionCheckpoint} (hSlot : checkpoint.slot = row.slot) :
    (store.updateClaim row.slot checkpoint).Shaped := by
  refine ⟨?_, h.candidate, ?_⟩
  · intro hSerial
    rw [h.serial hSerial] at hRow
    cases hRow
  · intro other hOther
    obtain ⟨source, hSource, rfl⟩ := List.mem_map.mp hOther
    by_cases hSame : source.slot = row.slot
    · rw [if_pos hSame]
      exact hSlot.trans hSame.symm
    · rw [if_neg hSame]
      exact h.index source hSource

end Store

/-! The plan of a candidate Run. -/

/-- Filtering keeps exactly the dispatches with terminal evidence. -/
theorem filterDispatches_ok {terminal : List String} {active : List SlotClaim} {seen : List String}
    {dispatches filtered : List DispatchRow} {found : List String}
    (h : filterDispatches terminal active seen dispatches = .ok (filtered, found)) :
    filtered = dispatches.filter (·.invocationId ∈ terminal) := by
  induction dispatches generalizing seen filtered found with
  | nil =>
      rw [filterDispatches, pure_ok, Prod.mk.injEq] at h
      exact h.1.symm
  | cons row rest ih =>
      by_cases hTerminal : row.invocationId ∈ terminal
      · rw [filterDispatches, if_pos hTerminal, bind_ok] at h
        obtain ⟨⟨kept, later⟩, hRest, hEq⟩ := h
        rw [pure_ok, Prod.mk.injEq] at hEq
        rw [List.filter_cons_of_pos (by simpa using hTerminal), ← ih hRest]
        exact hEq.1.symm
      · simp only [filterDispatches, if_neg hTerminal, bind_ok, demand_ok, require_ok, exists_const] at h
        obtain ⟨_, _, _, _, hRest⟩ := h
        rw [List.filter_cons_of_neg (by simpa using hTerminal)]
        exact ih hRest

theorem terminalDispatches_ok {terminal : List String} {active : List SlotClaim}
    {dispatches filtered : List DispatchRow} (h : terminalDispatches dispatches terminal active = .ok filtered) :
    filtered = dispatches.filter (·.invocationId ∈ terminal) := by
  simp only [terminalDispatches, bind_ok] at h
  obtain ⟨⟨kept, seen⟩, hFilter, hRest⟩ := h
  simp only [require_ok, exists_const, pure_ok] at hRest
  rw [← hRest.2]
  exact filterDispatches_ok hFilter

namespace Book

variable {b : Book}

theorem Candidates.terminalInvocations_eq (h : b.Candidates) :
    terminalInvocations b.generations b.semantics = b.settledInvocations := by
  rw [terminalInvocations, settledInvocations, completions, List.map_append, List.map_map, List.map_map]
  congr 1
  · exact List.map_congr_left fun row hRow => (h.generationIndex row hRow).2.1.symm
  · exact List.map_congr_left fun row hRow => (h.semanticIndex row hRow).2.2.1.symm

/-- The plan of the records is the plan of the slots of the book. -/
theorem Sound.projectCandidateRecords_ok (h : b.Sound) {progress : Progress} {active : List SlotClaim} {limit : Nat}
    {plan : ParallelPlan} (hResolutions : progress.resultUnknownResolutions = b.resolutions)
    (hRecoveries : progress.semanticContractRecoveries = b.recoveries)
    (hPlan : projectCandidateRecords b.creation progress active limit b.dispatches b.generations b.semantics =
      .ok plan) :
    ∃ slots, b.Slots slots ∧
      planParallel progress.status ((progress.preflight.map (·.status)).getD .pending)
        ((progress.preflight.map (·.caseId)).getD b.creation.preflightCaseId) slots b.creation.policy
        (active.map (·.checkpoint.slot)).toFinset limit progress.unresolvedResultUnknownCount = .ok plan := by
  simp only [projectCandidateRecords, bind_ok] at hPlan
  obtain ⟨terminal, hTerminal, slots, hProject, hPlan⟩ := hPlan
  obtain ⟨projected, hProjected, hSlots⟩ := h.projectSlots_ok
  rw [terminalDispatches_ok hTerminal, h.candidates.terminalInvocations_eq, hResolutions, hRecoveries] at hProject
  change projectSlots _ _ b.settledDispatches _ _ _ _ = _ at hProject
  rw [hProjected] at hProject
  cases hProject
  exact ⟨slots, hSlots, hPlan⟩

end Book

namespace Store

variable {store next : Store}

/-! New executions. -/

/-- The Run collects, its preflight passed, and the checkpoint is prepared for
the next execution of a free slot. -/
structure Opens (store : Store) (cp : ExecutionCheckpoint) : Prop where
  collecting : store.progress.status = .collecting
  passed : ∃ preflight ∈ store.progress.preflight, preflight.status = .passed
  resolved : store.progress.unresolvedResultUnknownCount = 0
  uncanceled : store.progress.cancelRequested = none
  phase : cp.phase = .prepared
  holds : store.book.Holds cp
  free : cp.slot ∉ store.live.map (·.slot)

theorem passed_of_status {preflight : Option PreflightEvidence}
    (h : (preflight.map (·.status)).getD .pending = .passed) : ∃ evidence ∈ preflight, evidence.status = .passed := by
  cases preflight with
  | none => cases h
  | some evidence => exact ⟨evidence, rfl, h⟩

/-- Preparing a claim files one prepared checkpoint for a ready slot. -/
theorem prepareCandidate_ok (h : store.Valid) {owner executionId invocationId : String} {time expiresAt : DateTime}
    {limit : Nat} {claim : SlotClaim}
    (hOk : store.prepareCandidate owner executionId invocationId time expiresAt limit = .ok (claim, next)) :
    store.creation.mode = .candidateV2 ∧ store.Opens claim.checkpoint ∧ claim.checkpoint.claimedAt = time ∧
    claim.checkpoint.invocationId = invocationId ∧ claim.checkpoint.executionId = executionId ∧
    next = { store with
      version := store.version + 1
      claims := store.claims ++ [⟨claim.checkpoint.caseId, claim.checkpoint.slotOrdinal, claim⟩] } := by
  simp only [prepareCandidate, bind_ok, require_ok, exists_const] at hOk
  obtain ⟨version, hLock, hCancel, active, hActive, plan, hPlan, cp, hCheckpoint, claimed, hClaim, saved, hSave,
    hPair⟩ := hOk
  obtain ⟨hMode, hNone, rfl⟩ := lockRun_ok hLock
  obtain ⟨hIndex, rfl⟩ := activeClaims_ok.mp hActive
  rw [pure_ok, Prod.mk.injEq] at hPair
  obtain ⟨rfl, rfl⟩ := hPair
  obtain ⟨slots, hSlots, hParallel⟩ := h.sound.projectCandidateRecords_ok rfl rfl hPlan
  simp only [candidateCheckpoint, bind_ok, require_ok, exists_const, demand_ok] at hCheckpoint
  obtain ⟨_, action, hAction, hEarliest, kind, hKind, hMake⟩ := hCheckpoint
  have hFields := ExecutionCheckpoint.make_ok hMake
  obtain ⟨hOpen, slot, hSlot, hFree, hPlanned, _⟩ :=
    planParallel_ready (h.sound.slotsAccepted hSlots) hParallel (List.mem_of_mem_head? hAction)
  simp only [guarded, not_or, not_not] at hOpen
  have hTakes : cp.Takes action := by
    refine ⟨?_, ?_, ?_, ?_, ?_⟩ <;> simp only [hFields, hKind]
  have hPhase : cp.phase = .prepared := by rw [hFields]
  have hClaimedAt : cp.claimedAt = time := by rw [hFields]
  obtain ⟨hHolds, hIdentity⟩ := h.sound.holds_of_action hSlots hSlot hPlanned hTakes hPhase (by
    intro value hValue
    rw [hClaimedAt]
    exact hEarliest _ (List.mem_cons_of_mem _ (List.mem_map_of_mem hValue)))
  simp only [createClaim, insertClaim, bind_ok, require_ok, exists_const, pure_ok] at hClaim
  obtain ⟨_, rfl⟩ := hClaim
  obtain ⟨_, rfl⟩ := saveCheckpoint_ok hSave
  refine ⟨hMode, ⟨hOpen.1, passed_of_status hOpen.2.1, hOpen.2.2.1, hCancel, hPhase, hHolds, ?_⟩, hClaimedAt,
    by rw [hFields], by rw [hFields], ?_⟩
  · rw [live_candidate hNone, List.map_map, hIdentity]
    intro hMem
    refine hFree ?_
    rw [List.map_map, List.mem_toFinset]
    exact hMem
  · rw [← hNone]

/-- The slots of a Run without open calls. -/
theorem Valid.projectSlots_ok (h : store.Valid) (hIdle : store.book.openInvocations = []) :
    ∃ slots, projectSlots store.creation.slots store.generations store.dispatches store.semantics
        store.progress.resultUnknownResolutions store.progress.semanticContractRecoveries store.creation.policy =
      .ok slots ∧ store.book.Slots slots := by
  obtain ⟨slots, hSlots, hProjects⟩ := h.sound.projectSlots_ok
  rw [h.sound.settledDispatches_idle hIdle] at hSlots
  exact ⟨slots, hSlots, hProjects⟩

theorem open_of_live_nil (h : store.live = []) : store.book.openInvocations = [] := by
  simp [Book.openInvocations, book, h]

/-- Preparing a serial execution puts one prepared checkpoint into the
coordinator. -/
theorem prepareExecution_ok (h : store.Valid) {expectedVersion : Nat} {owner executionId invocationId : String}
    {time leaseExpiresAt : DateTime}
    (hOk : store.prepareExecution expectedVersion owner executionId invocationId time leaseExpiresAt = .ok next) :
    store.creation.mode = .serialV1 ∧ store.checkpoint = none ∧ ∃ cp, store.Opens cp ∧ cp.claimedAt = time ∧
    cp.invocationId = invocationId ∧ cp.executionId = executionId ∧
    next = { store with version := store.version + 1, checkpoint := some cp } := by
  simp only [prepareExecution, bind_ok, require_ok, exists_const, demand_ok] at hOk
  obtain ⟨⟨rfl, hNone⟩, hMode, hCancel, slots, hProject, action, hNext, kind, hKind, _, _, hRecoveries, cp, hMake,
    hSave⟩ := hOk
  have hLive : store.live = [] := by rw [live_serial (h.shaped.serial hMode), hNone]; rfl
  obtain ⟨projected, hProjected, hSlots⟩ := h.projectSlots_ok (open_of_live_nil hLive)
  rw [hProjected] at hProject
  cases hProject
  have hFields := ExecutionCheckpoint.make_ok hMake
  have hRuns : action.kind = .generation ∨ action.kind = .semantic := by
    rw [ActionKind.execution_eq hKind]
    cases kind
    · exact .inl rfl
    · exact .inr rfl
  obtain ⟨hOpen, slot, hSlot, hPlanned⟩ := nextAction_runs (h.sound.slotsAccepted hSlots) hNext hRuns
  simp only [guarded, not_or, not_not] at hOpen
  have hTakes : cp.Takes action := by
    refine ⟨?_, ?_, ?_, ?_, ?_⟩ <;> simp only [hFields, hKind]
  have hPhase : cp.phase = .prepared := by rw [hFields]
  have hClaimedAt : cp.claimedAt = time := by rw [hFields]
  obtain ⟨hHolds, _⟩ := h.sound.holds_of_action hSlots hSlot hPlanned hTakes hPhase (by
    intro value hValue
    rw [hClaimedAt]
    exact hRecoveries value hValue)
  obtain ⟨_, rfl⟩ := saveCheckpoint_ok hSave
  refine ⟨hMode, hNone, cp, ⟨hOpen.1, passed_of_status hOpen.2.1, hOpen.2.2.1, hCancel, hPhase, hHolds, ?_⟩, hClaimedAt,
    by rw [hFields], by rw [hFields], rfl⟩
  rw [hLive]
  simp

/-! Dispatch. -/

/-- The dispatches counted against a call are those of its target. -/
theorem sameTarget_iff (h : store.Valid) {cp : ExecutionCheckpoint}
    (hAccepted : cp.kind = .semantic → store.book.Accepts cp.slot cp.candidateId) {row : DispatchRow}
    (hRow : row ∈ store.dispatches) :
    (DispatchRow.sameTarget cp row = true ∧ row.kind = cp.kind) ↔ row.checkpoint.target = cp.target := by
  have hRecorded := (h.sound.calls.recorded row hRow).1
  have hRowKind : row.kind = row.checkpoint.kind := congrArg DispatchRow.kind hRecorded
  have hRowCase : row.caseId = row.checkpoint.caseId := congrArg DispatchRow.caseId hRecorded
  have hRowOrdinal : row.slotOrdinal = row.checkpoint.slotOrdinal := congrArg DispatchRow.slotOrdinal hRecorded
  have hRowCandidate : row.candidateId = row.checkpoint.candidateId := congrArg DispatchRow.candidateId hRecorded
  simp only [DispatchRow.sameTarget, Bool.and_eq_true, beq_iff_eq, Bool.or_eq_true, hRowKind, hRowCase, hRowOrdinal,
    hRowCandidate]
  constructor
  · rintro ⟨⟨⟨⟨hSame, hCase⟩, hOrdinal⟩, hStage⟩, _⟩
    cases hCpKind : cp.kind with
    | generation =>
        simp only [ExecutionCheckpoint.target, hSame, hCpKind, ExecutionCheckpoint.slot, hCase, hOrdinal]
    | semantic =>
        rw [hCpKind] at hStage
        simp only [ExecutionCheckpoint.target, hSame, hCpKind, hStage.resolve_left (by simp)]
  · intro hTarget
    have hSame : row.checkpoint.kind = cp.kind := by
      rw [← ExecutionCheckpoint.kind_target, hTarget, ExecutionCheckpoint.kind_target]
    cases hCpKind : cp.kind with
    | generation =>
        simp only [ExecutionCheckpoint.target, hSame, hCpKind, ExecutionCheckpoint.slot, Target.slot.injEq,
          Prod.mk.injEq] at hTarget
        exact ⟨⟨⟨⟨hSame.trans hCpKind, hTarget.1⟩, hTarget.2⟩, .inl rfl⟩, hSame.trans hCpKind⟩
    | semantic =>
        simp only [ExecutionCheckpoint.target, hSame, hCpKind, Target.candidate.injEq] at hTarget
        -- a candidate belongs to one slot, so its judge calls all count together
        obtain ⟨source, hSource, hId, hSourceSlot⟩ := h.sound.candidates.issued row hRow (hSame.trans hCpKind)
        obtain ⟨own, hOwn, hOwnId, hOwnSlot⟩ := hAccepted hCpKind
        have hEq := h.sound.source_unique hSource hOwn hId (by rw [hOwnId, hTarget])
        have hSlots : row.checkpoint.slot = cp.slot := by rw [← hSourceSlot, hEq, hOwnSlot]
        simp only [ExecutionCheckpoint.slot, Prod.mk.injEq] at hSlots
        exact ⟨⟨⟨⟨hSame.trans hCpKind, hSlots.1⟩, hSlots.2⟩, .inr hTarget⟩, hSame.trans hCpKind⟩

/-- A call can be recorded as long as the budgets of its target and of its stage
are open, and only under the next ordinal of its target. -/
theorem planDispatchRecord_ok (h : store.Valid) {cp : ExecutionCheckpoint}
    (hAccepted : cp.kind = .semantic → store.book.Accepts cp.slot cp.candidateId) {row : DispatchRow} :
    store.planDispatchRecord cp = .ok row ↔
      ((store.book.issued cp.target).length < store.creation.policy.limit cp.kind ∧
        (store.dispatches.filter (·.kind = cp.kind)).length < store.creation.policy.runLimit cp.kind) ∧
      cp.executionOrdinal = (store.book.issued cp.target).length + 1 ∧ DispatchRow.record cp = row := by
  have hIssued : (store.dispatches.filter (·.kind = cp.kind)).filter (DispatchRow.sameTarget cp) =
      store.book.issued cp.target := by
    rw [List.filter_filter, Book.issued]
    refine List.filter_congr fun row hRow => ?_
    have hIff := sameTarget_iff h hAccepted hRow
    by_cases hTarget : row.checkpoint.target = cp.target
    · obtain ⟨hSame, hKind⟩ := hIff.mpr hTarget
      simp [hTarget, hSame, hKind]
    · simp only [hTarget, decide_false, Bool.and_eq_false_iff, decide_eq_false_iff_not]
      by_contra hNot
      simp only [not_or, Bool.not_eq_false, not_not] at hNot
      exact hTarget (hIff.mp hNot)
  simp only [planDispatchRecord, bind_ok, require_ok, exists_const, pure_ok, hIssued]

/-- Recording a dispatch stays inside the frozen budgets. -/
theorem recordDispatch_ok (h : store.Valid) {cp prepared : ExecutionCheckpoint} (hLive : prepared ∈ store.live)
    (hDispatches : prepared.Dispatches cp) (hOk : store.recordDispatch cp = .ok next) :
    store.book.Recordable cp ∧
    next = { store with dispatches := store.dispatches ++ [DispatchRow.record cp] } := by
  obtain ⟨hSlot, _, hKind, hCandidate, _, _⟩ := hDispatches.same
  have hAccepted : cp.kind = .semantic → store.book.Accepts cp.slot cp.candidateId := by
    rw [hSlot, hKind, hCandidate]
    exact (h.sound.live prepared hLive).accepted
  simp only [recordDispatch, insertDispatch, bind_ok, require_ok, exists_const, pure_ok,
    planDispatchRecord_ok h hAccepted] at hOk
  obtain ⟨row, ⟨⟨hUsed, hTotal⟩, hOrdinal, rfl⟩, hInvocation, hExecution, rfl⟩ := hOk
  exact ⟨⟨hInvocation, hExecution, hOrdinal, hUsed, hTotal⟩, rfl⟩

theorem Dispatches.of_markDispatching {cp dispatched : ExecutionCheckpoint} {owner : String} {time : DateTime}
    (h : cp.markDispatching owner time = .ok dispatched) :
    cp.Dispatches dispatched ∧ dispatched.dispatchStartedAt = some time := by
  obtain ⟨hPhase, _, hFields⟩ := ExecutionCheckpoint.markDispatching_ok h
  exact ⟨⟨hPhase, time, hFields⟩, by rw [hFields]⟩

/-- Dispatching a claim records its call and marks the claim. -/
theorem dispatchClaim_ok (h : store.Valid) {claim : SlotClaim} {time : DateTime}
    (hOk : store.dispatchClaim claim time = .ok next) :
    store.creation.mode = .candidateV2 ∧ store.progress.status = .collecting ∧
    store.progress.cancelRequested = none ∧ store.progress.unresolvedResultUnknownCount = 0 ∧
    (∃ preflight ∈ store.progress.preflight, preflight.status = .passed) ∧
    ∃ row ∈ store.claims, ∃ dispatched, row.slot = claim.checkpoint.slot ∧
      row.claim.checkpoint.Dispatches dispatched ∧ dispatched.dispatchStartedAt = some time ∧
      store.book.Recordable dispatched ∧
      next = { store with dispatches := store.dispatches ++ [DispatchRow.record dispatched] }.updateClaim row.slot
        dispatched := by
  simp only [dispatchClaim, bind_ok, require_ok, exists_const, pure_ok] at hOk
  obtain ⟨_, hLock, _, _, current, hCurrent, ⟨hStatus, hCancel, hCount, hPassed, _⟩, dispatched, hMark, recorded,
    hRecord, rfl⟩ := hOk
  obtain ⟨hMode, hNone, _⟩ := lockRun_ok hLock
  obtain ⟨row, hRow, hSlot, rfl⟩ := (requireClaim_ok hCurrent).stored
  obtain ⟨hDispatches, hStarted⟩ := Dispatches.of_markDispatching hMark
  have hLive : row.claim.checkpoint ∈ store.live := by
    rw [live_candidate hNone]
    exact List.mem_map_of_mem hRow
  obtain ⟨hRecordable, rfl⟩ := recordDispatch_ok h hLive hDispatches hRecord
  refine ⟨hMode, hStatus, hCancel, hCount, hPassed, row, hRow, dispatched, hSlot, hDispatches, hStarted, hRecordable, ?_⟩
  rw [hSlot]

/-- Reserving the call of the serial checkpoint. -/
theorem reserveDispatch_ok (h : store.Valid) {expectedVersion : Nat} {owner : String} {time : DateTime}
    (hOk : store.reserveDispatch expectedVersion owner time = .ok next) :
    store.creation.mode = .serialV1 ∧ store.progress.status = .collecting ∧ store.progress.cancelRequested = none ∧
    (∃ preflight ∈ store.progress.preflight, preflight.status = .passed) ∧
    ∃ cp dispatched, store.checkpoint = some cp ∧ cp.Dispatches dispatched ∧
      dispatched.dispatchStartedAt = some time ∧ store.book.Recordable dispatched ∧
      next = { store with
        version := store.version + 1
        dispatches := store.dispatches ++ [DispatchRow.record dispatched]
        checkpoint := some dispatched } := by
  simp only [reserveDispatch, bind_ok, require_ok, exists_const, demand_ok] at hOk
  obtain ⟨rfl, cp, hCp, hMode, ⟨hStatus, hPassed⟩, hCancel, _, dispatched, hMark, recorded, hRecord, hSave⟩ := hOk
  obtain ⟨hDispatches, hStarted⟩ := Dispatches.of_markDispatching hMark
  have hLive : cp ∈ store.live := by
    rw [live_serial (h.shaped.serial hMode), hCp]
    simp
  obtain ⟨hRecordable, rfl⟩ := recordDispatch_ok h hLive hDispatches hRecord
  obtain ⟨_, rfl⟩ := saveCheckpoint_ok hSave
  exact ⟨hMode, hStatus, hCancel, hPassed, cp, dispatched, hCp, hDispatches, hStarted, hRecordable, rfl⟩

/-- Renewing moves the lease of a claim. -/
theorem renewClaim_ok {claim : SlotClaim} {time expiresAt : DateTime}
    (hOk : store.renewClaim claim time expiresAt = .ok next) :
    ∃ row ∈ store.claims, ∃ renewed, row.slot = claim.checkpoint.slot ∧
      renewed.call = row.claim.checkpoint.call ∧ next = store.updateClaim row.slot renewed := by
  simp only [renewClaim, bind_ok, require_ok, exists_const, pure_ok] at hOk
  obtain ⟨current, hCurrent, _, renewed, hRenew, rfl⟩ := hOk
  obtain ⟨row, hRow, hSlot, rfl⟩ := (requireClaim_ok hCurrent).stored
  refine ⟨row, hRow, renewed, hSlot, ?_, by rw [hSlot]⟩
  have hFields := ExecutionCheckpoint.make_ok hRenew
  simp only [ExecutionCheckpoint.call, hFields]

end Store

/-! Completions. -/

/-- The row of an accepted generation carries its evidence and a matching, not
yet judged candidate. -/
theorem generationCandidate_ok {completion : GenerationCompletion} {candidateId : String}
    {assertions : List AssertionReceipt} {candidate : Option Candidate}
    (h : generationCandidate completion candidateId assertions = .ok candidate) :
    (generationTerminalValues completion candidate).Outcome ∧
    ∀ stored, candidate = some stored →
      stored.reviewReady = false ∧ stored.acceptedSemanticExecutionId = none := by
  unfold generationCandidate at h
  split at h
  · rename_i hStatus
    simp only [bind_ok, require_ok, exists_const, pure_ok] at h
    obtain ⟨⟨hId, hAssertions⟩, rfl⟩ := h
    refine ⟨⟨fun _ => ⟨_, rfl, rfl, hId, rfl, rfl, rfl, hAssertions⟩, fun hNot => absurd hStatus hNot⟩, ?_⟩
    rintro stored ⟨rfl⟩
    exact ⟨rfl, rfl⟩
  · rename_i hStatus
    simp only [bind_ok, require_ok, exists_const, pure_ok] at h
    obtain ⟨_, rfl⟩ := h
    refine ⟨⟨fun hSucceeded => absurd hSucceeded hStatus, fun _ => ⟨rfl, rfl⟩⟩, ?_⟩
    intro stored hNone
    cases hNone

/-- Resolving the pending assertions keeps their number. -/
theorem resolveAssertions_length {decisions assertions resolved : List AssertionReceipt}
    (h : resolveAssertions decisions assertions = .ok resolved) : resolved.length = assertions.length := by
  unfold resolveAssertions at h
  rw [mapM_ok] at h
  exact h.length_eq.symm

/-- What the parser accepted reads back from the stored result and the
candidate that holds its decisions. -/
theorem checkSemanticResult_of_parse {completion : SemanticCompletion} {contract : JudgeContract}
    {receipt : ProviderReceipt} {obligations : List AssertionReceipt} {result : SemanticResult} {stored : Candidate}
    (hStatus : completion.status = .succeeded)
    (hParse : parseSemanticOutput completion.normalizedOutput contract receipt completion.invocationId obligations =
      .ok result) (hDecisions : stored.semanticAssertions = some result.decisions) :
    checkSemanticResult stored completion (some result) = .ok () := by
  obtain ⟨document, decisions, rationale, hDocument, hBound, hRationale, rfl⟩ := parseSemanticOutput_ok hParse
  obtain ⟨hKeys, hUnique, _, _⟩ := parseDecisions_ok hBound
  have hRaw : UniqueOn (·.key) document.decisions := by
    unfold UniqueOn at hUnique ⊢
    rw [hKeys] at hUnique
    have hComp : document.decisions.map
        (fun r => bindKey receipt.provider (obligations.map (·.key)) r.key) =
        (document.decisions.map (·.key)).map (bindKey receipt.provider (obligations.map (·.key))) := by
      rw [List.map_map]
      rfl
    rw [hComp] at hUnique
    exact List.Nodup.of_map _ hUnique
  have hCount : decisions.length = document.decisions.length := by
    have hEq := congrArg List.length hKeys
    simpa using hEq
  have hCurrent : ∀ d ∈ decisions, lookup (·.key) decisions d.key = some d := fun d hd =>
    hUnique.lookup_iff.mpr ⟨hd, rfl⟩
  have hCheck := checkDecisions_of_parse hBound hCurrent
  simp only [checkSemanticResult, if_pos hStatus, hDocument, hDecisions, ok_bind, demand]
  refine (require_bind_ok _ _ _ _).mpr ⟨⟨rfl, List.Perm.refl _, hRationale⟩, ?_⟩
  exact (require_bind_ok _ _ _ _).mpr ⟨⟨hRaw, hCount⟩, hCheck⟩

/-- An accepted judgement reads back from its stored evidence. -/
theorem acceptJudgement_ok {assets : FrozenAssets} {completion : SemanticCompletion} {receipt : ProviderReceipt}
    {generated : GenerationCompletion} {candidate : Candidate} {accepted : SemanticAcceptance}
    (hStatus : completion.status = .succeeded) (hAssertions : candidate.assertions ≠ [])
    (h : acceptJudgement assets completion receipt generated candidate = .ok accepted) :
    accepted.generated = generated ∧ accepted.result.isSome = true ∧
    Book.Judged candidate accepted.candidate (semanticTerminalValues completion accepted) := by
  simp only [acceptJudgement, bind_ok, demand_ok, pure_ok] at h
  obtain ⟨_, _, obligations, _, result, hParse, assertions, hResolve, rfl⟩ := h
  have hLength := resolveAssertions_length hResolve
  refine ⟨rfl, rfl, ⟨⟨rfl, rfl, rfl, rfl⟩, ?_, ?_, rfl, ?_⟩⟩
  · intro hNil
    have hNil : assertions = [] := hNil
    rw [hNil] at hLength
    exact hAssertions (List.eq_nil_of_length_eq_zero hLength.symm)
  · exact checkSemanticResult_of_parse hStatus hParse rfl
  · change some completion.executionId = if completion.status = .succeeded then some completion.executionId else _
    rw [if_pos hStatus]

namespace Store

variable {store next : Store}

/-- An accepted judge call belongs to one stored candidate of its slot. -/
theorem readSemanticAcceptance_ok (h : store.Valid) {cp : ExecutionCheckpoint} {owner : String}
    {completion : SemanticCompletion} {accepted : SemanticAcceptance}
    (hOk : store.readSemanticAcceptance cp owner completion = .ok accepted) :
    ∃ source ∈ store.generations, source.candidateId = some completion.candidateId ∧
      accepted.generated = source.evidence ∧
      completion.matchesCheckpoint cp owner source.evidence.normalizedFingerprint ∧
      ∃ candidate, source.candidate = some candidate ∧
        Book.Judged candidate accepted.candidate (semanticTerminalValues completion accepted) ∧
        (accepted.result.isSome = true ↔ completion.status = .succeeded) ∧
        (accepted.result = none → accepted.candidate = candidate) := by
  simp only [readSemanticAcceptance, bind_ok, require_ok, exists_const, demand_ok] at hOk
  obtain ⟨source, hFind, candidate, hCandidate, generated, hDecode, ⟨_, _, hMatches, _⟩, _, entry, _, _, _, _, hRest⟩ :=
    hOk
  obtain ⟨hSource, hId⟩ := lookup_some hFind
  simp only [decodeCompletion, bind_ok, require_ok, exists_const, pure_ok] at hDecode
  obtain ⟨_, rfl⟩ := hDecode
  have hOutcome := h.sound.candidates.outcome source hSource
  obtain ⟨same, hSame, _, _, _, _, _, hAssertions⟩ :=
    hOutcome.succeeded (hOutcome.succeeded_of_candidate hCandidate)
  rw [hCandidate] at hSame
  cases hSame
  refine ⟨source, hSource, hId, ?_⟩
  by_cases hStatus : completion.status = .succeeded
  · rw [if_pos hStatus, bind_ok] at hRest
    obtain ⟨receipt, _, hAccept⟩ := hRest
    obtain ⟨hGenerated, hResult, hJudged⟩ := acceptJudgement_ok hStatus hAssertions hAccept
    refine ⟨hGenerated, hMatches, candidate, hCandidate, hJudged, by simp [hResult, hStatus], ?_⟩
    intro hNone
    rw [hNone] at hResult
    cases hResult
  · rw [if_neg hStatus, pure_ok] at hRest
    subst hRest
    have hReviewed := h.sound.candidates.reviewed source hSource candidate hCandidate
    refine ⟨rfl, hMatches, candidate, hCandidate, ⟨⟨rfl, rfl, rfl, rfl⟩, hAssertions, ?_, hReviewed.ready, ?_⟩,
      by simp [hStatus], fun _ => rfl⟩
    · exact (Book.checkSemanticResult_open hStatus).mpr rfl
    · change _ = if completion.status = .succeeded then _ else _
      rw [if_neg hStatus]

/-- Storing a judge call adds its row and replaces the candidate it judged; an
unaccepted call leaves the candidate as it is. -/
theorem storeSemantic_ok (h : store.Valid) {completion : SemanticCompletion} {accepted : SemanticAcceptance}
    {source : GenerationRow} {candidate : Candidate} (hSource : source ∈ store.generations)
    (hGenerated : accepted.generated = source.evidence) (hCandidate : source.candidate = some candidate)
    (hKept : accepted.result = none → accepted.candidate = candidate)
    (hOk : store.storeSemantic completion accepted = .ok next) :
    next = { store with
      generations := store.generations.map (·.withCandidate source.executionId accepted.candidate)
      semantics := store.semantics ++ [semanticTerminalValues completion accepted] } := by
  simp only [storeSemantic, insertSemantic, bind_ok, require_ok, exists_const, pure_ok] at hOk
  obtain ⟨inserted, ⟨_, _, _, rfl⟩, rfl⟩ := hOk
  have hExecution : source.evidence.executionId = source.executionId :=
    (h.sound.candidates.generationIndex source hSource).1
  cases hResult : accepted.result with
  | some result =>
      simp only [Option.isSome_some, if_true, updateCandidate, hGenerated, hExecution]
      rfl
  | none =>
      have hSame : store.generations.map (·.withCandidate source.executionId accepted.candidate) =
          store.generations := by
        have hRows : ∀ row ∈ store.generations,
            row.withCandidate source.executionId accepted.candidate = id row := by
          intro row hRow
          by_cases hId : row.executionId = source.executionId
          · have hEq := h.sound.generation_executions.eq_of_key hRow hSource hId
            rw [GenerationRow.withCandidate, if_pos hId, hKept hResult, hEq, ← hCandidate]
            rfl
          · exact GenerationRow.withCandidate_other hId
        rw [List.map_congr_left hRows, List.map_id]
      simp only [Option.isSome_none, Bool.false_eq_true, if_false, hSame]

end Store

/-- The progress with one more unknown execution, if the completion is one. -/
def Progress.counted (progress : Progress) (completion : Completion) : Progress :=
  if completion.status = .resultUnknown then
    { progress with unresolvedResultUnknownCount := progress.unresolvedResultUnknownCount + 1 }
  else progress

/-- Only the status and the transitions differ. -/
def Progress.Moves (progress final : Progress) : Prop :=
  final = { progress with status := final.status, transitions := final.transitions }

theorem completionProgress_claim (progress : Progress) (completion : Completion) (policy : ExecutionPolicy)
    (owner : String) : completionProgress progress completion policy owner true = progress.counted completion := by
  unfold completionProgress Progress.counted
  cases completionCause policy completion <;> rfl

theorem completionProgress_moves (progress : Progress) (completion : Completion) (policy : ExecutionPolicy)
    (owner : String) (candidateClaim : Bool) :
    (progress.counted completion).Moves (completionProgress progress completion policy owner candidateClaim) := by
  unfold completionProgress Progress.counted Progress.Moves
  cases completionCause policy completion with
  | none => rfl
  | some cause =>
      simp only
      split
      · rfl
      · rfl

theorem appendTransition_moves (progress : Progress) (target : RunStatus) (cause : Cause) (actor : String)
    (time : DateTime) (reference : String) (evidenceAt : Option DateTime) :
    progress.Moves (appendTransition progress target cause actor time reference evidenceAt) := by
  unfold appendTransition Progress.Moves
  split <;> rfl

/-- Aggregation changes the status and the transitions and nothing else. -/
theorem candidateCompletionProgress_moves {claim : SlotClaim} {progress final : Progress} {actor : String}
    {time : DateTime} {active : List SlotClaim} {plan : ParallelPlan}
    {blockedEvidence : Cause → Except Rejection (String × DateTime)}
    (h : candidateCompletionProgress claim progress actor time active plan blockedEvidence = .ok final) :
    progress.Moves final := by
  unfold candidateCompletionProgress at h
  split at h
  · rw [pure_ok] at h
    subst h
    rfl
  · rename_i target cause _
    split at h
    · rw [bind_ok] at h
      obtain ⟨⟨reference, failedAt⟩, _, h⟩ := h
      simp only [bind_ok, demand_ok] at h
      obtain ⟨last, _, h⟩ := h
      split at h
      · rw [pure_ok] at h
        subst h
        exact appendTransition_moves ..
      · simp only [bind_ok, require_ok, exists_const, pure_ok] at h
        obtain ⟨_, rfl⟩ := h
        exact appendTransition_moves ..
    · rw [pure_ok] at h
      subst h
      exact appendTransition_moves ..

end QsAi
