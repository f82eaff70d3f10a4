import QsAi.Run.Draining

/-! Reports under a request to cancel. A call that was sent before the request
can still be reported, in both execution modes: the serial worker under the
version of its dispatch, the owner of a claim under its claim. -/
namespace QsAi

open Guarded Keyed Numbered

namespace Store

variable {store next : Store} {now : DateTime}

/-- The Run without the claim, before it is aggregated. -/
def released (store : Store) (claim : SlotClaim) (progress : Progress) : Store :=
  { store.deleteClaim claim.checkpoint.slot with progress }

/-- An unknown execution is left when the counter says so. -/
theorem Valid.exists_undecided (h : store.Valid) (hCount : store.progress.unresolvedResultUnknownCount ≠ 0) :
    ∃ completion, store.Undecided completion := by
  by_contra hNone
  simp only [not_exists, Undecided, not_and, not_not] at hNone
  have hUnknowns : unknownExecutions store.generations store.semantics =
      (store.book.completions.filter (·.status = .resultUnknown)).map Completion.asUnknown :=
    h.sound.candidates.unknownExecutions_eq
  have hUnique : ((store.book.completions.filter (·.status = .resultUnknown)).map (·.executionId)).Nodup :=
    h.sound.calls.executions_unique.sublist List.filter_sublist
  have hSub : ((store.book.completions.filter (·.status = .resultUnknown)).map (·.executionId)).Subperm
      (store.progress.resultUnknownResolutions.map (·.executionId)) := by
    refine List.subperm_of_subset hUnique fun id hId => ?_
    obtain ⟨completion, hMem, rfl⟩ := List.mem_map.mp hId
    obtain ⟨hMem, hStatus⟩ := List.mem_filter.mp hMem
    exact hNone completion hMem (of_decide_eq_true hStatus)
  have hLength := hSub.length_le
  have hCounted := h.counted
  rw [hUnknowns] at hCounted
  simp only [List.length_map] at hLength hCounted
  omega

/-- The plan of a Run with distinct owners is always found. -/
theorem Valid.candidatePlan_exists (h : store.Valid) (hMode : store.creation.mode = .candidateV2)
    (hDistinct : store.Distinct) {limit : Nat} (hLimit : 1 ≤ limit ∧ limit ≤ 32) :
    ∃ plan, store.candidatePlan store.progress (store.claims.map (·.claim)) limit = .ok plan := by
  obtain ⟨slots, _, hSlots, hPlan⟩ := h.candidatePlan_total hMode hDistinct store.progress rfl rfl
  obtain ⟨first, hFirst⟩ := h.sound.nextAction_exists hSlots store.progress.status
    ((store.progress.preflight.map (·.status)).getD .pending)
    ((store.progress.preflight.map (·.caseId)).getD store.creation.preflightCaseId)
    store.progress.unresolvedResultUnknownCount
  have hActive : (store.live.map (·.slot)).toFinset ⊆ (slots.map SlotProgress.identity).toFinset := by
    intro id hId
    obtain ⟨cp, hCp, rfl⟩ := List.mem_map.mp (List.mem_toFinset.mp hId)
    rw [hSlots.identities, List.mem_toFinset]
    exact (h.sound.live cp hCp).planned
  obtain ⟨hGuarded, hOpen⟩ := planParallel_eq hFirst (h.sound.slotsAccepted hSlots) hActive hLimit
  rw [hPlan limit]
  by_cases hGuard : guarded store.progress.status ((store.progress.preflight.map (·.status)).getD .pending) slots
      store.progress.unresolvedResultUnknownCount
  · exact ⟨_, hGuarded hGuard⟩
  · exact ⟨_, hOpen hGuard⟩

/-- Under a request the aggregation only looks for unknown executions, and those
came after the last transition. -/
theorem candidateCompletionProgress_total (h : store.Valid) (hRequested : store.progress.cancelRequested ≠ none)
    (hHistory : store.progress.transitions ≠ [])
    (hUnknown : ∀ completion, store.Undecided completion → ∀ t ∈ store.progress.transitions,
      t.time ≤ completion.finishedAt)
    (claim : SlotClaim) (actor : String) (time : DateTime) (plan : ParallelPlan) :
    ∃ final, candidateCompletionProgress claim store.progress actor time (store.claims.map (·.claim)) plan
      (fun cause => blockedExecution store.generations store.semantics store.progress cause plan.blocked) =
        .ok final := by
  rw [candidateCompletionProgress, candidateCompletionTarget]
  by_cases hActive : store.claims.map (·.claim) = []
  swap
  · exact ⟨_, by rw [if_pos hActive]; rfl⟩
  by_cases hCount : store.progress.unresolvedResultUnknownCount = 0
  · exact ⟨_, by rw [if_neg (not_not.mpr hActive), if_neg (not_not.mpr hCount), if_pos hRequested]; rfl⟩
  obtain ⟨completion, hMem, hStatus, hOpen⟩ := h.exists_undecided hCount
  have hRows : unresolvedEvidence store.generations store.semantics store.progress ≠ [] := by
    rcases Book.mem_completions.mp hMem with ⟨row, hRow, rfl⟩ | ⟨row, hRow, rfl⟩
    · have hIndex : row.evidence.executionId = row.executionId := (h.sound.candidates.generationIndex row hRow).1
      rw [show (Completion.generation row.evidence).executionId = _ from hIndex] at hOpen
      exact List.ne_nil_of_mem (List.mem_filter.mpr
        ⟨List.mem_append_left _ (List.mem_map_of_mem hRow), decide_eq_true ⟨hOpen, hStatus⟩⟩)
    · have hIndex : row.evidence.executionId = row.executionId := (h.sound.candidates.semanticIndex row hRow).2.1
      rw [show (Completion.semantic row.evidence).executionId = _ from hIndex] at hOpen
      exact List.ne_nil_of_mem (List.mem_filter.mpr
        ⟨List.mem_append_right _ (List.mem_map_of_mem hRow), decide_eq_true ⟨hOpen, hStatus⟩⟩)
  obtain ⟨row, hRow⟩ := earliest_total hRows
  obtain ⟨hRowMem, hRowOpen⟩ := List.mem_filter.mp (earliest_mem hRow)
  obtain ⟨hRowOpen, hRowStatus⟩ := of_decide_eq_true hRowOpen
  obtain ⟨unknown, hUnknownMem, hId, hSame, hFinished⟩ := mem_of_evidence h hRowMem
  have hLast : store.progress.lastTransition = some (store.progress.transitions.getLast hHistory).time := by
    rw [Progress.lastTransition, List.getLast?_eq_some_getLast hHistory]
    rfl
  have hTime : (store.progress.transitions.getLast hHistory).time ≤ row.finishedAt := by
    rw [← hFinished]
    refine hUnknown unknown ⟨hUnknownMem, hSame.trans hRowStatus, ?_⟩ _ (List.getLast_mem hHistory)
    rw [hId]
    exact hRowOpen
  have hEvidence : blockedExecution store.generations store.semantics store.progress .resultUnknownRequiresReview
      plan.blocked = .ok (row.executionId, row.finishedAt) := by
    rw [blockedExecution, if_pos rfl, hRow]
    rfl
  rw [if_neg (not_not.mpr hActive), if_pos hCount]
  simp only [if_true, hEvidence, ok_bind, hLast, demand, reduceCtorEq, if_false]
  rw [require_bind_pos hTime]
  exact ⟨_, rfl⟩

theorem requireClaim_again {claim current : SlotClaim} (h : store.requireClaim claim = .ok current)
    {stored : Store} (hClaims : stored.claims = store.claims) : stored.requireClaim current = .ok current := by
  simp only [requireClaim, bind_ok, demand_ok, require_ok, exists_const, pure_ok] at h ⊢
  obtain ⟨row, hFind, ⟨hSlot, _⟩, rfl⟩ := h
  rw [hClaims, hSlot]
  exact ⟨row, hFind, ⟨hSlot, rfl, rfl, rfl, rfl, rfl⟩, rfl⟩

/-- The Run can be aggregated after the completion of a claim. -/
theorem Coherent.completeClaim_total (h : store.Coherent) (hClocked : store.Clocked now) (hDistinct : store.Distinct)
    (hRequested : store.progress.cancelRequested ≠ none) (hHistory : store.progress.transitions ≠ [])
    (hMode : store.creation.mode = .candidateV2) {claim : SlotClaim} {stored : Store} {completion : Completion}
    (hEnded : store.Ended (stored.released claim (store.progress.counted completion)) claim.checkpoint completion)
    (hClaim : stored.requireClaim claim = .ok claim) (hClaims : stored.claims = store.claims)
    (hVersion : stored.version = store.version) (hNone : stored.checkpoint = none)
    (hCreation : stored.creation = store.creation) (actor : String) :
    ∃ next, stored.completeClaim store.version claim (store.progress.counted completion) actor
      completion.finishedAt = .ok next := by
  obtain ⟨hTransitions, hCancel, _⟩ := Progress.counted_kept store.progress completion
  have hBefore := (h.working (List.ne_nil_of_mem hEnded.completed.mem_live)).1
  have hFiltered : ∀ row ∈ (stored.released claim (store.progress.counted completion)).claims, row ∈ store.claims := by
    intro row hRow
    exact hClaims ▸ (List.mem_filter.mp hRow).1
  have hShaped : (stored.released claim (store.progress.counted completion)).Shaped := by
    refine ⟨?_, fun _ => hNone, fun row hRow => h.shaped.index row (hFiltered row hRow)⟩
    intro hSerial
    have hSerial : stored.creation.mode = .serialV1 := hSerial
    rw [hCreation, hMode] at hSerial
    cases hSerial
  have hValid := hEnded.valid h.toValid hShaped
  have hOwners : (stored.released claim (store.progress.counted completion)).Distinct := by
    obtain ⟨rest, hLive, hNext⟩ := hEnded.completed.live
    refine hDistinct.of_sub ((hNext.map _).subperm.trans (List.Subperm.trans ?_ (hLive.map _).symm.subperm))
    exact (List.sublist_cons_self _ _).subperm
  have hUnknown : ∀ other, (stored.released claim (store.progress.counted completion)).Undecided other →
      ∀ t ∈ (store.progress.counted completion).transitions, t.time ≤ other.finishedAt := by
    intro other hUndecided
    rw [hTransitions]
    rcases hEnded.undecided hUndecided with ⟨rfl, _⟩ | hUndecided
    · exact hClocked.reported_after hEnded
    · exact hClocked.unknown hBefore other hUndecided
  have hReleased : (stored.released claim (store.progress.counted completion)).creation.mode = .candidateV2 := by
    change stored.creation.mode = .candidateV2
    rw [hCreation, hMode]
  obtain ⟨plan, hPlan⟩ := hValid.candidatePlan_exists hReleased hOwners (show 1 ≤ 32 ∧ 32 ≤ 32 by decide)
  have hStopping : (stored.released claim (store.progress.counted completion)).progress.cancelRequested ≠ none :=
    hCancel ▸ hRequested
  have hPast : (stored.released claim (store.progress.counted completion)).progress.transitions ≠ [] :=
    hTransitions ▸ hHistory
  obtain ⟨final, hFinal⟩ := candidateCompletionProgress_total hValid hStopping hPast hUnknown claim actor
    completion.finishedAt plan
  have hActive : (stored.deleteClaim claim.checkpoint.slot).activeClaims =
      .ok ((stored.deleteClaim claim.checkpoint.slot).claims.map (·.claim)) :=
    activeClaims_ok.mpr ⟨fun row hRow => h.shaped.index row (hFiltered row hRow), rfl⟩
  have hPlan : (stored.deleteClaim claim.checkpoint.slot).candidatePlan (store.progress.counted completion)
      ((stored.deleteClaim claim.checkpoint.slot).claims.map (·.claim)) 32 = .ok plan := hPlan
  have hRelease : stored.releaseClaim claim = .ok (stored.deleteClaim claim.checkpoint.slot) := by
    rw [releaseClaim, hClaim]
    rfl
  have hFinal : candidateCompletionProgress claim (store.progress.counted completion) actor completion.finishedAt
      ((stored.deleteClaim claim.checkpoint.slot).claims.map (·.claim)) plan
      (fun cause => blockedExecution (stored.deleteClaim claim.checkpoint.slot).generations
        (stored.deleteClaim claim.checkpoint.slot).semantics (store.progress.counted completion) cause plan.blocked) =
      .ok final := hFinal
  rw [completeClaim, hRelease, ok_bind, hActive, ok_bind, hPlan, ok_bind, hFinal, ok_bind, saveCheckpoint,
    require_bind_pos (show (stored.deleteClaim claim.checkpoint.slot).version = store.version from hVersion)]
  exact ⟨_, rfl⟩

/-- What the owner of a claim finds when it reports. -/
theorem Coherent.completionOwner_total (h : store.Coherent) {claim current : SlotClaim}
    (hCurrent : store.requireClaim claim = .ok current) :
    store.creation.mode = .candidateV2 ∧ current.checkpoint ∈ store.live ∧
    store.completionOwner claim = .ok (store.version, current) := by
  obtain ⟨row, hRow, _, hSame⟩ := (requireClaim_ok hCurrent).stored
  have hMode : store.creation.mode = .candidateV2 := by
    cases hMode : store.creation.mode with
    | candidateV2 => rfl
    | serialV1 =>
        rw [h.shaped.serial hMode] at hRow
        cases hRow
  have hNone := h.shaped.candidate hMode
  have hLive : current.checkpoint ∈ store.live := by
    rw [live_candidate hNone, ← hSame]
    exact List.mem_map_of_mem hRow
  refine ⟨hMode, hLive, ?_⟩
  rw [completionOwner, lockRun, require_bind_pos hMode, require_bind_pos hNone, activeClaims_ok.mpr ⟨h.shaped.index, rfl⟩,
    hCurrent]
  simp only [ok_bind, pure_bind]
  rw [require_bind_pos (.inl (h.working (List.ne_nil_of_mem hLive)).1)]
  rfl

/-- The owners that are left when a claim is released. -/
theorem released_live (h : store.Valid) (hMode : store.creation.mode = .candidateV2) {claim current : SlotClaim}
    (hCurrent : store.requireClaim claim = .ok current) {stored : Store} (hClaims : stored.claims = store.claims)
    (hNone : stored.checkpoint = none) (progress : Progress) :
    ∃ rest, store.live.Perm (current.checkpoint :: rest) ∧ (stored.released current progress).live.Perm rest := by
  obtain ⟨row, hRow, hSlot, rfl⟩ := (requireClaim_ok hCurrent).stored
  refine ⟨_, live_split h hMode hRow, List.Perm.of_eq ?_⟩
  rw [live_candidate (show (stored.released row.claim progress).checkpoint = none from hNone)]
  simp only [released, deleteClaim, hClaims, h.shaped.index row hRow]

theorem Coherent.completeClaimedGeneration_total (h : store.Coherent) (hClocked : store.Clocked now)
    (hDistinct : store.Distinct) (hRequested : store.progress.cancelRequested ≠ none)
    (hHistory : store.progress.transitions ≠ []) {claim current : SlotClaim} {owner : String}
    (hCurrent : store.requireClaim claim = .ok current) {completion : GenerationCompletion} {candidateId : String}
    {assertions : List AssertionReceipt}
    (hReports : store.ReportsGeneration current.checkpoint owner completion candidateId assertions) :
    ∃ next, store.completeClaimedGeneration claim owner completion candidateId assertions = .ok next := by
  obtain ⟨hMode, hLive, hOwner⟩ := h.completionOwner_total hCurrent
  have hNone := h.shaped.candidate hMode
  obtain ⟨candidate, hCandidate, hFresh⟩ := hReports.candidate_total
  have hAccepted := h.toValid.readGenerationAcceptance_total hLive hReports.owned hReports.assets
  have hInserted := h.toValid.insertGeneration_total hLive hReports.owned hFresh
  have hNew : candidate.map (·.id) = none ∨ candidate.map (·.id) ∉ store.generations.map (·.candidateId) := by
    cases candidate with
    | none => exact .inl rfl
    | some stored => exact .inr (hFresh stored rfl)
  obtain ⟨rest, hBefore, hAfter⟩ := released_live h.toValid hMode hCurrent
    (show Store.claims { store with
      generations := store.generations ++ [generationTerminalValues completion candidate] } = store.claims from rfl) hNone
    (store.progress.counted (.generation completion))
  have hEnded := ended_generation hCandidate hBefore hAfter (Completion.ends_of_generation hReports.owned) hNew
    (show Progress.Moves _ _ from rfl) ⟨rfl, rfl, rfl, rfl⟩
  obtain ⟨next, hNext⟩ := h.completeClaim_total hClocked hDistinct hRequested hHistory hMode hEnded
    (requireClaim_again hCurrent rfl) rfl rfl hNone rfl owner
  refine ⟨next, ?_⟩
  rw [completeClaimedGeneration, hCandidate, ok_bind, hOwner, ok_bind]
  simp only
  rw [require_bind_pos hReports.owned, hAccepted, ok_bind, hInserted, ok_bind, generationCompletionProgress,
    completionProgress_claim]
  exact hNext

theorem Coherent.completeClaimedSemantic_total (h : store.Coherent) (hClocked : store.Clocked now)
    (hDistinct : store.Distinct) (hRequested : store.progress.cancelRequested ≠ none)
    (hHistory : store.progress.transitions ≠ []) {claim current : SlotClaim} {owner : String}
    (hCurrent : store.requireClaim claim = .ok current) {completion : SemanticCompletion}
    (hReports : store.ReportsSemantic current.checkpoint owner completion) :
    ∃ next, store.completeClaimedSemantic claim owner completion = .ok next := by
  obtain ⟨hMode, hLive, hOwner⟩ := h.completionOwner_total hCurrent
  have hNone := h.shaped.candidate hMode
  obtain ⟨accepted, hAccepted⟩ := h.toValid.readSemanticAcceptance_total hLive hReports
  obtain ⟨source, hSource, hId, hGenerated, hMatches, candidate, hCandidate, hJudged, _, hKept⟩ :=
    readSemanticAcceptance_ok h.toValid hAccepted
  obtain ⟨stored, hStored⟩ := h.toValid.storeSemantic_total hLive hMatches accepted
  have hRows := storeSemantic_ok h.toValid hSource hGenerated hCandidate hKept hStored
  subst hRows
  obtain ⟨rest, hBefore, hAfter⟩ := released_live h.toValid hMode hCurrent
    (show Store.claims { store with
      generations := store.generations.map (·.withCandidate source.executionId accepted.candidate)
      semantics := store.semantics ++ [semanticTerminalValues completion accepted] } = store.claims from rfl) hNone
    (store.progress.counted (.semantic completion))
  have hEnded := ended_semantic hSource hId hCandidate hJudged hMatches.2.2.2.2.2.2.2.1 hBefore hAfter
    (Completion.ends_of_semantic hMatches) (show Progress.Moves _ _ from rfl) ⟨rfl, rfl, rfl, rfl⟩
  obtain ⟨next, hNext⟩ := h.completeClaim_total hClocked hDistinct hRequested hHistory hMode hEnded
    (requireClaim_again hCurrent rfl) rfl rfl hNone rfl owner
  refine ⟨next, ?_⟩
  rw [completeClaimedSemantic, hOwner, ok_bind]
  simp only
  rw [hAccepted, ok_bind, hStored, ok_bind, semanticCompletionProgress, completionProgress_claim]
  exact hNext

/-- Every report about the serial call is accepted under the version. -/
def AcceptsSerial (store : Store) (version : Nat) (cp : ExecutionCheckpoint) : Prop :=
  ∀ owner, (∀ completion candidateId assertions,
      store.ReportsGeneration cp owner completion candidateId assertions →
      ∃ next, store.perform (.completeSerialGeneration version owner completion candidateId assertions) = .ok next) ∧
    ∀ completion, store.ReportsSemantic cp owner completion →
      ∃ next, store.perform (.completeSerialSemantic version owner completion) = .ok next

/-- Every report about the call of the claim is accepted. -/
def AcceptsClaimed (store : Store) (claim : SlotClaim) (cp : ExecutionCheckpoint) : Prop :=
  ∀ owner, (∀ completion candidateId assertions,
      store.ReportsGeneration cp owner completion candidateId assertions →
      ∃ next, store.perform (.completeClaimedGeneration claim owner completion candidateId assertions) = .ok next) ∧
    ∀ completion, store.ReportsSemantic cp owner completion →
      ∃ next, store.perform (.completeClaimedSemantic claim owner completion) = .ok next

end Store

/-- Once a reachable Run was asked to cancel, in whatever order its operations
follow: the request stays, no call is dispatched any more, the Run never awaits or
ends a review, and an operation that cancels it finds and leaves nobody working
and leaves no unknown execution undecided. Until then the serial call that is out
can be reported under the version of its dispatch and, on one clock and with
fresh invocations, every claimed call that is out under its claim. -/
theorem cancellation_safe {allowed : DateTime → Store → Operation → Prop} {creation : Creation} {now : DateTime}
    {store : Store} {request : CancelRequest} (hReaches : Reaches allowed creation now store)
    (hRequested : store.progress.cancelRequested = some request) :
    (∀ later, Continues (fun _ => True) store later →
      later.progress.cancelRequested = some request ∧ later.dispatches = store.dispatches ∧
      later.progress.status ∉ [.awaitingReview, .approved, .rejected] ∧
      ∀ op next, later.perform op = .ok next → next.progress.status = .canceled →
        later.live = [] ∧ next.live = [] ∧ next.progress.unresolvedResultUnknownCount = 0) ∧
    (∀ moment before sent expectedVersion owner time cp, Reaches allowed creation moment before →
      before.perform (.reserveDispatch expectedVersion owner time) = .ok sent → sent.checkpoint = some cp →
      Continues (fun _ => True) sent store → store.checkpoint = some cp → store.AcceptsSerial sent.version cp) ∧
    ((∀ now store op, allowed now store op → op.Timely now ∧ op.Fresh store) →
      ∀ claim current, store.requireClaim claim = .ok current → store.AcceptsClaimed claim current.checkpoint) := by
  have hCoherent := hReaches.coherent.1
  have hSome : store.progress.cancelRequested ≠ none := by
    rw [hRequested]
    exact Option.some_ne_none request
  refine ⟨?_, ?_, ?_⟩
  · intro later hLater
    obtain ⟨hKept, hDispatches, hStops⟩ := hLater.stopping hCoherent hRequested (hReaches.stopping hSome)
    have hLaterCoherent := (hLater.kept hCoherent).1
    have hLaterSome : later.progress.cancelRequested ≠ none := by
      rw [hKept]
      exact Option.some_ne_none request
    refine ⟨hKept, hDispatches, ?_, ?_⟩
    · rcases hStops.status with hStatus | hStatus | hStatus <;> rw [hStatus] <;> decide
    · intro op next hOp hCanceled
      have hNext := ((Store.perform_changes hLaterCoherent hOp).coherent hLaterCoherent).1
      have hEnd : Continues (fun _ => True) store next := .step hLater trivial hOp
      obtain ⟨_, _, hNextStops⟩ := hEnd.stopping hCoherent hRequested (hReaches.stopping hSome)
      exact ⟨Store.perform_canceled_idle hLaterCoherent hLaterSome hStops hOp hCanceled,
        hNext.idle (by rw [hCanceled]; decide), hNextStops.drained hCanceled⟩
  · intro moment before sent expectedVersion owner time cp hBefore hDispatch hCp hManaged hSame reporter
    have hBefore := hBefore.coherent.1
    have hSent := ((Store.perform_changes hBefore hDispatch).coherent hBefore).1
    obtain ⟨_, _, _, _, prepared, dispatched, _, hDispatches, _, _, hNext⟩ :=
      Store.reserveDispatch_ok hBefore.toValid hDispatch
    have hPhase : cp.phase = .dispatching := by
      rw [hNext] at hCp
      cases hCp
      exact hDispatches.phase
    have hLive : cp ∈ sent.live := List.mem_append_right _ (by simp [hCp])
    have hFlight := Store.inFlight_of_checkpoint hSent hManaged hCp hPhase hSame
    have hVersion := hFlight.serialVersion (hSent.working (List.ne_nil_of_mem hLive)).1
    exact ⟨fun _ _ _ hReports => hCoherent.toValid.completeSerialGeneration_total hSame hVersion hReports,
      fun _ hReports => hCoherent.completeSerialSemantic_total hSame hVersion hReports⟩
  · intro hAllowed claim current hCurrent owner
    have hClocked := hReaches.clocked fun h => (hAllowed _ _ _ h).1
    have hDistinct := hReaches.distinct fun h => (hAllowed _ _ _ h).2
    exact ⟨fun _ _ _ hReports => hCoherent.completeClaimedGeneration_total hClocked hDistinct hSome hReaches.recorded
        hCurrent hReports,
      fun _ hReports => hCoherent.completeClaimedSemantic_total hClocked hDistinct hSome hReaches.recorded hCurrent
        hReports⟩

/-- A claimed call that is out when an operator asks to cancel, and that is then
reported as interrupted. -/
theorem cancellation_safe_pilot : ∃ now store request claim completion next,
    Reaches (fun now store op => op.Timely now ∧ op.Fresh store) (Pilot.creation .candidateV2) now store ∧
    store.progress.cancelRequested = some request ∧ store.dispatches.length = 1 ∧
    store.perform (.completeClaimedGeneration claim "worker" completion "" []) = .ok next ∧
    next.dispatches = store.dispatches ∧ next.progress.cancelRequested = some request := by
  obtain ⟨now, store, hReaches, hCheck⟩ := exists_reaches (fun now store op => op.Timely now ∧ op.Fresh store)
    (Pilot.creation .candidateV2) (Pilot.start ++ [Pilot.lease 1 "e1" 4, Pilot.cancel 2])
    (fun store => store.progress.cancelRequested.isSome ∧ store.dispatches.length = 1 ∧
      store.claims.head?.any fun row => store.requireClaim row.claim = .ok row.claim ∧
        (interruptedGeneration row.claim.checkpoint (Pilot.clock 3)).toOption.any fun completion =>
          completion.matchesCheckpoint row.claim.checkpoint "worker" ∧
          validateGenerationCompletion store.creation.assets completion = .ok () ∧
          completion.status ≠ .succeeded ∧ some "" ∉ store.generations.map (·.candidateId)) (by decide +kernel)
  obtain ⟨hSome, hOnce, hCheck⟩ := of_decide_eq_true hCheck
  obtain ⟨request, hRequested⟩ := Option.isSome_iff_exists.mp hSome
  obtain ⟨row, _, hCheck⟩ := Option.any_eq_true _ _ |>.mp hCheck
  obtain ⟨hCurrent, hCheck⟩ := of_decide_eq_true hCheck
  obtain ⟨completion, _, hCheck⟩ := Option.any_eq_true _ _ |>.mp hCheck
  obtain ⟨hOwned, hAssets, hStatus, hFresh⟩ := of_decide_eq_true hCheck
  have hReports : store.ReportsGeneration row.claim.checkpoint "worker" completion "" [] := by
    refine ⟨hOwned, hAssets, ?_, hFresh⟩
    rw [if_neg hStatus]
    exact ⟨rfl, rfl⟩
  obtain ⟨hSafe, _, hAccepts⟩ := cancellation_safe hReaches hRequested
  obtain ⟨next, hNext⟩ := (hAccepts (fun _ _ _ h => h) row.claim row.claim hCurrent "worker").1 completion "" [] hReports
  obtain ⟨hKept, hDispatches, _⟩ := hSafe next (.step .refl trivial hNext)
  exact ⟨now, store, request, row.claim, completion, next, hReaches, hRequested, hOnce, hNext, hDispatches, hKept⟩

end QsAi
