import QsAi.Run.Turns

/-! No silent deadlock. When nobody works on a collecting Run, nothing is left
undecided and the planner offers a slot to the next worker. -/
namespace QsAi

open Guarded Keyed Numbered

namespace Store

variable {store next : Store}

/-- Without undecided unknown executions each of them may be replaced. -/
theorem Coherent.replaced (h : store.Coherent) (hStatus : store.progress.status ≠ .canceled)
    (hCount : store.progress.unresolvedResultUnknownCount = 0) {completion : Completion}
    (hMem : completion ∈ store.book.completions) (hUnknown : completion.status = .resultUnknown) :
    completion.executionId ∈ replacedExecutions store.progress.resultUnknownResolutions := by
  have hResolved : Resolved (unknownExecutions store.generations store.semantics) store.creation.policy
      store.progress.resultUnknownResolutions := h.sound.decisions.resolved
  have hSub : (store.progress.resultUnknownResolutions.map (·.executionId)).Subperm
      ((unknownExecutions store.generations store.semantics).map (·.executionId)) := by
    refine List.subperm_of_subset hResolved.unique ?_
    intro id hId
    obtain ⟨r, hr, rfl⟩ := List.mem_map.mp hId
    obtain ⟨e, hE, hSame, _⟩ := hResolved.decides r hr
    exact List.mem_map.mpr ⟨e, hE, hSame⟩
  have hCounted := h.counted
  rw [hCount, Nat.zero_add] at hCounted
  have hPerm := hSub.perm_of_length_le (by simp [hCounted])
  have hUnknowns : unknownExecutions store.generations store.semantics =
      (store.book.completions.filter (·.status = .resultUnknown)).map Completion.asUnknown :=
    h.sound.candidates.unknownExecutions_eq
  have hId : completion.executionId ∈ (unknownExecutions store.generations store.semantics).map (·.executionId) := by
    rw [hUnknowns, List.map_map]
    exact List.mem_map.mpr ⟨completion, List.mem_filter.mpr ⟨hMem, decide_eq_true hUnknown⟩, rfl⟩
  obtain ⟨r, hr, hSame⟩ := List.mem_map.mp (hPerm.mem_iff.mpr hId)
  exact mem_replacedExecutions.mpr ⟨r, hr, h.continued hStatus r hr, hSame⟩

/-- The Run collects after its preflight, nobody asked to cancel it, and nobody
works on it. -/
structure Waiting (store : Store) : Prop where
  collecting : store.progress.status = .collecting
  uncanceled : store.progress.cancelRequested = none
  passed : store.Passed
  idle : store.live = []

/-- No unknown execution is undecided, and the planner offers work under every
limit. -/
structure WorkLeft (store : Store) : Prop where
  decided : store.progress.unresolvedResultUnknownCount = 0
  ready : ∀ limit, 1 ≤ limit → limit ≤ 32 →
    ∃ plan, store.candidatePlan store.progress [] limit = .ok plan ∧ plan.ready ≠ []

/-- The slots of a Run that collects past its guards. -/
theorem Coherent.unguarded (h : store.Coherent) (hStatus : store.progress.status = .collecting)
    (hPassed : store.Passed) (hCount : store.progress.unresolvedResultUnknownCount = 0) {slots : List SlotProgress}
    (hSlots : store.book.Slots slots) :
    ¬ guarded store.progress.status ((store.progress.preflight.map (·.status)).getD .pending) slots
      store.progress.unresolvedResultUnknownCount := by
  obtain ⟨evidence, hEvidence, hEvidenceStatus⟩ := hPassed
  have hEvidence : store.progress.preflight = some evidence := hEvidence
  simp only [guarded, not_or, not_not]
  refine ⟨hStatus, ?_, hCount, ?_⟩
  · rw [hEvidence]
    exact hEvidenceStatus
  · intro hHistory
    obtain ⟨completion, hMem, hUnknown, hOpen⟩ := Book.Sound.unresolved_of_historical hSlots hHistory
    exact hOpen (h.replaced (by rw [hStatus]; decide) hCount hMem hUnknown)

/-- The plan of an idle, unguarded Run: everything that can run, up to the limit. -/
theorem Coherent.idle_plan (h : store.Coherent) (hMode : store.creation.mode = .candidateV2)
    (hIdle : store.live = []) (hStatus : store.progress.status = .collecting) (hPassed : store.Passed)
    (hCount : store.progress.unresolvedResultUnknownCount = 0) :
    ∃ slots, projectSlots store.creation.slots store.generations store.book.settledDispatches store.semantics
        store.progress.resultUnknownResolutions store.progress.semanticContractRecoveries store.creation.policy =
        .ok slots ∧
      store.book.Slots slots ∧ ∀ limit, 1 ≤ limit → limit ≤ 32 → store.candidatePlan store.progress [] limit =
        .ok ⟨((openActions store.creation.policy ∅ slots).filter (!·.blocks)).take limit,
          (openActions store.creation.policy ∅ slots).filter (·.blocks), none,
          (openActions store.creation.policy ∅ slots).isEmpty⟩ := by
  have hDistinct : store.Distinct := by
    unfold Distinct
    rw [hIdle]
    exact List.nodup_nil
  obtain ⟨slots, hProject, hSlots, hPlan⟩ := h.candidatePlan_total hMode hDistinct store.progress rfl rfl
  have hClaims : store.claims = [] := by
    rw [live_candidate (h.shaped.candidate hMode)] at hIdle
    exact List.map_eq_nil_iff.mp hIdle
  refine ⟨slots, hProject, hSlots, fun limit hPos hMax => ?_⟩
  have hPlan := hPlan limit
  rw [hClaims, hIdle] at hPlan
  obtain ⟨first, hFirst⟩ := h.sound.nextAction_exists hSlots store.progress.status
    ((store.progress.preflight.map (·.status)).getD .pending)
    ((store.progress.preflight.map (·.caseId)).getD store.creation.preflightCaseId)
    store.progress.unresolvedResultUnknownCount
  have hEq := (planParallel_eq hFirst (h.sound.slotsAccepted hSlots) (Finset.empty_subset _) ⟨hPos, hMax⟩).2
    (h.unguarded hStatus hPassed hCount hSlots)
  simp only [Finset.card_empty, Nat.sub_zero, decide_true, Bool.and_true] at hEq
  exact hPlan.trans hEq

/-- One slot that can run is work for everybody. -/
theorem Coherent.workLeft (h : store.Coherent) (hMode : store.creation.mode = .candidateV2) (hWaiting : store.Waiting)
    (hCount : store.progress.unresolvedResultUnknownCount = 0)
    (hSlot : ∀ slots, projectSlots store.creation.slots store.generations store.book.settledDispatches store.semantics
        store.progress.resultUnknownResolutions store.progress.semanticContractRecoveries store.creation.policy =
        .ok slots → store.book.Slots slots →
      ∃ slot ∈ slots, ∃ action, slotAction slot store.creation.policy = .ok (some action) ∧ action.kind ≠ .block) :
    store.WorkLeft := by
  refine ⟨hCount, fun limit hPos hMax => ?_⟩
  obtain ⟨slots, hProject, hSlots, hPlan⟩ :=
    h.idle_plan hMode hWaiting.idle hWaiting.collecting hWaiting.passed hCount
  refine ⟨_, hPlan limit hPos hMax, ?_⟩
  obtain ⟨slot, hMem, action, hAction, hKind⟩ := hSlot slots hProject hSlots
  have hOpen : action ∈ (openActions store.creation.policy ∅ slots).filter (!·.blocks) := by
    refine List.mem_filter.mpr ⟨List.mem_filterMap.mpr ⟨slot, ?_, plannedAction_eq hAction⟩, ?_⟩
    · exact List.mem_filter.mpr ⟨hMem, by simp⟩
    · simp [NextAction.blocks, hKind]
  intro hNil
  rw [List.take_eq_nil_iff] at hNil
  rcases hNil with hZero | hNil
  · omega
  · rw [hNil] at hOpen
    cases hOpen

/-! What keeps the Run going. -/

/-- A Run that dispatched nothing has every slot to offer. -/
theorem Coherent.workLeft_fresh (h : store.Coherent) (hMode : store.creation.mode = .candidateV2)
    (hWaiting : store.Waiting) (hNone : store.dispatches = []) : store.WorkLeft := by
  have hCompletions : store.book.completions = [] := by
    refine List.eq_nil_iff_forall_not_mem.mpr fun completion hMem => ?_
    obtain ⟨row, hRow, _⟩ := h.sound.calls.ended completion hMem
    have hRow : row ∈ store.dispatches := hRow
    rw [hNone] at hRow
    cases hRow
  have hCount : store.progress.unresolvedResultUnknownCount = 0 := by
    have hCounted := h.counted
    have hUnknowns : unknownExecutions store.generations store.semantics = _ :=
      h.sound.candidates.unknownExecutions_eq
    rw [hUnknowns, hCompletions] at hCounted
    simp only [List.filter_nil, List.map_nil, List.length_nil] at hCounted
    omega
  refine h.workLeft hMode hWaiting hCount fun slots _ hSlots => ?_
  have hFrozen := store.creation.frozen
  obtain ⟨slot, hMem⟩ : ∃ slot, slot ∈ slots := by
    have hPlan := h.sound.checkPlan_slots hSlots
    simp only [checkPlan, bind_ok, require_ok, exists_const] at hPlan
    have hPolicy : slots.length = store.creation.policy.generationCases * store.creation.policy.candidatesPerCase :=
      hPlan.1
    rw [hFrozen.generationCases, hFrozen.candidatesPerCase] at hPolicy
    exact List.exists_mem_of_length_pos (by omega)
  obtain ⟨action, hAction, hKind⟩ := h.sound.slot_runs hSlots hMem (by
    intro completion hCompletion
    have hCompletion := (Book.mem_history.mp hCompletion).1
    rw [hCompletions] at hCompletion
    cases hCompletion)
  exact ⟨slot, hMem, action, hAction, hKind⟩

/-- The last undecided execution was authorized: its slot can run again. -/
theorem Coherent.workLeft_resolved (h : next.Coherent) (hMode : next.creation.mode = .candidateV2)
    (hWaiting : next.Waiting) (hCount : next.progress.unresolvedResultUnknownCount = 0) {completion : Completion}
    (hMem : completion ∈ next.book.completions)
    (hLast : completion.executionOrdinal = (next.book.history completion.target).length)
    (hPermits : next.book.Permits completion) : next.WorkLeft := by
  refine h.workLeft hMode hWaiting hCount fun slots _ hSlots => ?_
  obtain ⟨slot, hSlot, hTarget⟩ := h.sound.open_slot hSlots hMem hLast hPermits.not_succeeded
  obtain ⟨action, hAction, hKind⟩ := h.sound.slot_runs hSlots hSlot (by
    rw [hTarget]
    refine h.sound.permits_history fun final hFinal => ?_
    obtain ⟨hFinalMem, hFinalTarget, hFinalOrdinal⟩ := h.sound.last_ordinal hFinal
    rw [h.sound.eq_of_ordinal hFinalMem hMem hFinalTarget (hFinalOrdinal.trans hLast.symm)]
    exact hPermits)
  exact ⟨slot, hSlot, action, hAction, hKind⟩

/-- An unknown execution that nobody decided about is the last of its target. -/
theorem Valid.undecided_last (h : store.Valid) {completion : Completion} (hMem : completion ∈ store.book.completions)
    (hUnknown : completion.status = .resultUnknown)
    (hNew : completion.executionId ∉ store.progress.resultUnknownResolutions.map (·.executionId)) :
    completion.executionOrdinal = (store.book.history completion.target).length := by
  have hLe := h.sound.numbering.ordinal_le hMem
  by_contra hNot
  have hBefore := (h.sound.permitted completion hMem (by omega)).2
  rw [hUnknown] at hBefore
  obtain ⟨r, hr, _, hSame⟩ := mem_replacedExecutions.mp hBefore
  exact hNew (List.mem_map.mpr ⟨r, hr, hSame⟩)

/-- The unknown executions are unknown completions under their identity. -/
theorem Valid.unknown_completion (h : store.Valid) {e : UnknownExecution}
    (hMem : e ∈ unknownExecutions store.generations store.semantics) :
    ∃ completion ∈ store.book.completions, completion.status = .resultUnknown ∧ completion.asUnknown = e := by
  have hUnknowns : unknownExecutions store.generations store.semantics = _ :=
    h.sound.candidates.unknownExecutions_eq
  rw [hUnknowns] at hMem
  obtain ⟨completion, hFiltered, rfl⟩ := List.mem_map.mp hMem
  obtain ⟨hCompletion, hUnknown⟩ := List.mem_filter.mp hFiltered
  exact ⟨completion, hCompletion, of_decide_eq_true hUnknown, rfl⟩

/-- The unknown execution that a decision names is the last of its target, and
the decision permits the next one. -/
theorem Valid.permits_resolved (h : store.Valid) {value : ResultUnknownResolution} {result : ResolutionProgress}
    (hResult : resolveUnknown .blocked (unknownExecutions store.generations store.semantics)
      store.progress.resultUnknownResolutions value store.creation.policy = .ok result)
    (hDecision : value.decision = .authorizeReplacement) :
    ∃ completion ∈ store.book.completions,
      completion.executionOrdinal = (store.book.history completion.target).length ∧
      Book.Permits { store.book with resolutions := store.book.resolutions ++ [value] } completion := by
  obtain ⟨_, _, _, _, hDecides, hNew, _⟩ := resolveUnknown_ok.mp hResult
  obtain ⟨e, hMem, hId, _, hBudget⟩ := hDecides
  obtain ⟨completion, hCompletion, hUnknown, rfl⟩ := h.unknown_completion hMem
  have hId : completion.executionId = value.executionId := hId
  refine ⟨completion, hCompletion, h.undecided_last hCompletion hUnknown (hId ▸ hNew), hBudget hDecision, ?_⟩
  rw [hUnknown]
  exact mem_replacedExecutions.mpr ⟨value, by simp, hDecision, hId.symm⟩

/-- What every operation of the workers keeps: a Run that nobody works on has
work to offer. -/
structure Lively (store : Store) : Prop where
  dispatched : store.AllDispatched
  unstarted : store.progress.status = .requested → store.progress.preflight = none
  work : store.creation.mode = .candidateV2 → store.Waiting → store.WorkLeft

/-- A completion that leaves the Run collecting leaves work. -/
theorem Coherent.workLeft_drained (h : store.Coherent) (hNext : next.Coherent) {claim : SlotClaim} {actor : String}
    {completion : Completion} (hDrains : store.Drains next claim actor completion) (hWaiting : next.Waiting) :
    next.WorkLeft := by
  have hMode : next.creation.mode = .candidateV2 := by
    rw [hDrains.creation]
    exact hDrains.mode
  cases hDrains.aggregates h with
  | working hLive => exact absurd hWaiting.idle hLive
  | unknown _ _ _ _ hProgress =>
      have hStatus := hWaiting.collecting
      rw [hProgress] at hStatus
      cases hStatus
  | draining _ _ hCanceled hProgress =>
      have hCancel := hWaiting.uncanceled
      rw [hProgress, (Progress.counted_kept _ _).2.1] at hCancel
      exact absurd hCancel hCanceled
  | closes _ _ _ _ _ hProgress =>
      have hStatus := hWaiting.collecting
      rw [hProgress] at hStatus
      cases hStatus
  | blocks _ _ _ _ _ _ _ _ _ _ hProgress =>
      have hStatus := hWaiting.collecting
      rw [hProgress] at hStatus
      cases hStatus
  | @waiting plan _ hCount _ hPlan hComplete hReady hProgress =>
      rw [← hProgress] at hCount hPlan
      obtain ⟨slots, hProject, hSlots, hPlans⟩ :=
        hNext.idle_plan hMode hWaiting.idle hWaiting.collecting hWaiting.passed hCount
      rw [hPlans 32 (by decide) (by decide)] at hPlan
      cases hPlan
      refine hNext.workLeft hMode hWaiting hCount fun other hOther _ => ?_
      rw [hProject] at hOther
      cases hOther
      -- nothing blocked and nothing to run would mean that everything is done
      have hRuns : (openActions next.creation.policy ∅ slots).filter (!·.blocks) ≠ [] := by
        intro hNil
        have hBlocked : (openActions next.creation.policy ∅ slots).filter (·.blocks) = [] := by
          rcases hReady with hBlocked | hReady
          · exact hBlocked
          · exact absurd (by rw [hNil]; rfl) hReady
        have hOpen : openActions next.creation.policy ∅ slots = [] := by
          refine List.eq_nil_iff_forall_not_mem.mpr fun action hAction => ?_
          by_cases hBlocks : action.blocks = true
          · exact List.filter_eq_nil_iff.mp hBlocked action hAction hBlocks
          · exact List.filter_eq_nil_iff.mp hNil action hAction (by simpa using hBlocks)
        rw [hOpen] at hComplete
        cases hComplete
      obtain ⟨action, hAction⟩ := List.exists_mem_of_ne_nil _ hRuns
      obtain ⟨hOpen, hBlocks⟩ := List.mem_filter.mp hAction
      obtain ⟨slot, hSlot, _, hPlanned⟩ := openActions_mem hOpen
      refine ⟨slot, hSlot, action, hPlanned, ?_⟩
      simpa [NextAction.blocks] using hBlocks

theorem Recovers.workLeft {value : ContractRecovery} {block : Transition} {target : SemanticCompletion}
    (hRecovers : store.Recovers next value block target) (hNext : next.Coherent)
    (hMode : next.creation.mode = .candidateV2) (hWaiting : next.Waiting) : next.WorkLeft := by
  obtain ⟨slots, preflight, action, hProject, _, hAction, hKind⟩ := hRecovers.planned
  have hCount : next.progress.unresolvedResultUnknownCount = 0 := by
    rw [hRecovers.next]
    exact hRecovers.resolved
  refine hNext.workLeft hMode hWaiting hCount fun other hOther hSlots => ?_
  rw [hNext.sound.settledDispatches_idle (open_of_live_nil hWaiting.idle)] at hOther
  have hSame : other = slots := by
    have hCurrent := hRecovers.next
    rw [hCurrent] at hOther
    exact Except.ok.inj (hOther.symm.trans hProject)
  have hPolicy : next.creation.policy = store.creation.policy := by rw [hRecovers.next]
  subst hSame
  rw [← hPolicy] at hAction
  obtain ⟨_, slot, hSlot, hPlanned⟩ := nextAction_runs (hNext.sound.slotsAccepted hSlots) hAction (.inr hKind)
  exact ⟨slot, hSlot, action, hPlanned, by rw [hKind]; decide⟩

/-- A decision after which the Run collects again left nothing undecided and
authorized a replacement. -/
theorem resolved_collecting {value : ResultUnknownResolution} {result : ResolutionProgress}
    {unknowns : List UnknownExecution} {resolutions : List ResultUnknownResolution} {policy : ExecutionPolicy}
    (hResult : resolveUnknown .blocked unknowns resolutions value policy = .ok result)
    (hCollecting : result.status = .collecting) :
    value.decision = .authorizeReplacement ∧ result.unresolvedCount = 0 := by
  obtain ⟨_, _, _, _, _, _, hEq⟩ := resolveUnknown_ok.mp hResult
  have hDecision : value.decision = .authorizeReplacement := by
    cases hDecision : value.decision with
    | authorizeReplacement => rfl
    | cancelRun =>
        rw [hEq] at hCollecting
        simp only [hDecision, if_true, reduceCtorEq] at hCollecting
  refine ⟨hDecision, ?_⟩
  rw [hEq] at hCollecting ⊢
  by_contra hNot
  simp only [hDecision, reduceCtorEq, if_false, if_neg hNot] at hCollecting

theorem Coherent.workLeft_decided (h : store.Coherent) (hNext : next.Coherent) {value : ResultUnknownResolution}
    {result : ResolutionProgress}
    (hResult : resolveUnknown .blocked (unknownExecutions store.generations store.semantics)
      store.progress.resultUnknownResolutions value store.creation.policy = .ok result)
    (hBook : next.book = { store.book with resolutions := result.resolutions })
    (hStatus : next.progress.status = result.status)
    (hCount : next.progress.unresolvedResultUnknownCount = result.unresolvedCount)
    (hMode : next.creation.mode = .candidateV2) (hWaiting : next.Waiting) : next.WorkLeft := by
  obtain ⟨hDecision, hZero⟩ := resolved_collecting hResult (hStatus.symm.trans hWaiting.collecting)
  obtain ⟨completion, hMem, hLast, hPermits⟩ := h.toValid.permits_resolved hResult hDecision
  have hResolutions : result.resolutions = store.book.resolutions ++ [value] :=
    (h.sound.decisions.resolved.snoc hResult).2
  rw [hResolutions] at hBook
  have hMem : completion ∈ next.book.completions := hBook ▸ hMem
  have hLast : completion.executionOrdinal = (next.book.history completion.target).length := hBook ▸ hLast
  exact hNext.workLeft_resolved hMode hWaiting (hCount.trans hZero) hMem hLast (hBook ▸ hPermits)

theorem Lively.change (hLively : store.Lively) (h : store.Coherent) {event : Event}
    (hChange : store.Change event next) (hAll : next.AllDispatched) : next.Lively := by
  have hNext := hChange.coherent h
  have hPrepared : ∀ cp ∈ store.live, cp.phase ≠ .prepared := by
    intro cp hCp hPhase
    rw [hLively.dispatched cp hCp] at hPhase
    cases hPhase
  refine ⟨hAll, ?_, ?_⟩
  · intro hRequested
    obtain ⟨hBefore, hSame⟩ := hChange.requested h hRequested
    rw [hSame]
    exact hLively.unstarted hBefore
  intro hMode hWaiting
  cases hChange with
  | start hIdle hStatus hTarget hActor =>
      obtain ⟨evidence, hEvidence, _⟩ := hWaiting.passed
      have hEvidence : evidence ∈ store.progress.preflight := hEvidence
      rw [hLively.unstarted hStatus] at hEvidence
      cases hEvidence
  | preflight hIdle hStatus hNone hCase =>
      refine hNext.workLeft_fresh hMode hWaiting ?_
      by_contra hSome
      obtain ⟨evidence, hEvidence, _⟩ := h.checked hSome
      rw [hNone] at hEvidence
      cases hEvidence
  | prepare hOpens hKeeps hDispatches hLive =>
      have hPhase := hAll _ (hLive.mem_iff.mpr List.mem_cons_self)
      rw [hOpens.phase] at hPhase
      cases hPhase
  | dispatch _ _ _ _ hDispatches _ _ _ _ hLive _ =>
      exact absurd hDispatches.prepared (hPrepared _ (hLive.mem_iff.mpr List.mem_cons_self))
  | release _ hPhase _ _ hLive _ => exact absurd hPhase (hPrepared _ (hLive.mem_iff.mpr List.mem_cons_self))
  | renew hCall hKeeps hDispatches hLive hOwners =>
      rw [hWaiting.idle] at hOwners
      exact absurd hOwners.symm.eq_nil (by simp)
  | drain hEnded hDrains => exact h.workLeft_drained hNext hDrains hWaiting
  | settle hOwner hSettles hEnded hConcludes =>
      rw [hSettles.creation, hSettles.serial h.toValid] at hMode
      cases hMode
  | resolve hIdle hClaims hStatus hResult => exact h.workLeft_decided hNext hResult rfl rfl rfl hMode hWaiting
  | recover hRecovers => exact hRecovers.workLeft hNext hMode hWaiting
  | requestCancel hRequests =>
      have hCancel := hWaiting.uncanceled
      rw [hRequests.next] at hCancel
      cases hCancel
  | endCanceled _ hEnds =>
      have hCollecting := hWaiting.collecting
      rw [hEnds.next] at hCollecting
      cases hCollecting
  | review hReviews =>
      have hCollecting := hWaiting.collecting
      rcases hReviews.reviewed.after with hStatus | hStatus | hStatus <;> rw [hStatus] at hCollecting <;> cases hCollecting
  | unchanged => exact hLively.work hMode hWaiting

theorem Lively.turn (hLively : store.Lively) (h : store.Coherent) {op : Operation} (hTurn : store.Turn op next)
    (hAll : next.AllDispatched) : next.Lively := by
  cases hTurn with
  | claim hEvents hStarted hClaims =>
      refine ⟨hAll, ?_, ?_⟩
      · rw [hClaims.keeps.progress]
        exact hLively.unstarted
      · intro _ hWaiting
        have hLive := hClaims.live
        rw [hWaiting.idle] at hLive
        exact absurd hLive.symm.eq_nil (by simp)
  | other hEvents hChange hNext => exact hLively.change h hChange hNext

end Store

theorem Reaches.lively {allowed : DateTime → Store → Operation → Prop} {creation : Creation} {now : DateTime}
    {store : Store} (hReaches : Reaches allowed creation now store)
    (hAtomic : ∀ {now : DateTime} {store : Store} {op : Operation}, allowed now store op → op.Atomic) :
    store.Lively := by
  induction hReaches with
  | create _ =>
      refine ⟨?_, fun _ => rfl, ?_⟩
      · intro cp hCp
        cases hCp
      · intro _ hWaiting
        have hStatus := hWaiting.collecting
        cases hStatus
  | step hReaches _ hAllowed hOp ih =>
      have hCoherent := hReaches.coherent.1
      obtain ⟨hTurn, hAll⟩ := Store.perform_turn hCoherent ih.dispatched (hAtomic hAllowed) hOp
      exact ih.turn hCoherent hTurn hAll

/-- A candidate Run that collects after a passed preflight without a request to
cancel and without a claim has decided every unknown execution, and the planner
offers a slot under every limit. -/
theorem no_silent_deadlock {creation : Creation} {now : DateTime} {store : Store}
    (hMode : creation.mode = .candidateV2) (hReaches : Reaches (fun _ _ op => op.Atomic) creation now store)
    (hCollecting : store.progress.status = .collecting) (hUncanceled : store.progress.cancelRequested = none)
    (hPassed : ∃ preflight ∈ store.progress.preflight, preflight.status = .passed) (hClaims : store.claims = []) :
    store.progress.unresolvedResultUnknownCount = 0 ∧
    ∀ limit, 1 ≤ limit → limit ≤ 32 →
      ∃ plan, store.candidatePlan store.progress [] limit = .ok plan ∧ plan.ready ≠ [] := by
  obtain ⟨hCoherent, rfl⟩ := hReaches.coherent
  have hIdle : store.live = [] := by
    rw [Store.live_candidate (hCoherent.shaped.candidate hMode), hClaims]
    rfl
  have hWork := (hReaches.lively fun hAtomic => hAtomic).work hMode ⟨hCollecting, hUncanceled, hPassed, hIdle⟩
  exact ⟨hWork.decided, hWork.ready⟩

/-- The pilot Run right after its preflight. -/
theorem no_silent_deadlock_pilot : ∃ now store,
    Reaches (fun _ _ op => op.Atomic) (Pilot.creation .candidateV2) now store ∧
    store.progress.unresolvedResultUnknownCount = 0 ∧
    ∃ plan, store.candidatePlan store.progress [] 4 = .ok plan ∧ plan.ready ≠ [] := by
  obtain ⟨now, store, hReaches, hCheck⟩ := exists_reaches (fun _ _ op => op.Atomic) (Pilot.creation .candidateV2)
    Pilot.start (fun store => store.progress.status = .collecting ∧ store.progress.cancelRequested = none ∧
      (∃ preflight ∈ store.progress.preflight, preflight.status = .passed) ∧ store.claims = []) (by decide +kernel)
  obtain ⟨hCollecting, hUncanceled, hPassed, hClaims⟩ := of_decide_eq_true hCheck
  obtain ⟨hDecided, hReady⟩ := no_silent_deadlock rfl hReaches hCollecting hUncanceled hPassed hClaims
  exact ⟨now, store, hReaches, hDecided, hReady 4 (by decide) (by decide)⟩

end QsAi
