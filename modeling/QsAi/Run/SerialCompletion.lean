import QsAi.Run.Acceptance

/-! A serial call in flight. The Run has one version for its worker and for its
operators; while the call is out, the operators can move the version only by
asking to cancel, and the completion recognizes exactly that move. -/
namespace QsAi

open Guarded Keyed Numbered

/-- The commands of the operators. -/
def Operation.Manages : Operation → Prop
  | .transitionRequested .. | .completePreflight .. | .acceptResolution .. | .authorizeContractRecovery ..
  | .cancel .. | .finishCancellation .. | .acceptReviews .. | .correctReview .. | .finalize .. | .reopen .. => True
  | _ => False

instance : (op : Operation) → Decidable op.Manages
  | .transitionRequested .. | .completePreflight .. | .acceptResolution .. | .authorizeContractRecovery ..
  | .cancel .. | .finishCancellation .. | .acceptReviews .. | .correctReview .. | .finalize .. | .reopen .. =>
      inferInstanceAs (Decidable True)
  | .prepareCandidate .. | .dispatchClaim .. | .claimAndDispatch .. | .renewClaim .. | .completeClaimedGeneration ..
  | .completeClaimedSemantic .. | .expireCandidate .. | .prepareExecution .. | .reserveDispatch ..
  | .completeSerialGeneration .. | .completeSerialSemantic .. | .recoverExpired .. => inferInstanceAs (Decidable False)

/-- Accepted operations of one sort, one after the other. -/
inductive Continues (allowed : Operation → Prop) (store : Store) : Store → Prop
  | refl : Continues allowed store store
  | step {middle next : Store} {op : Operation} (hFirst : Continues allowed store middle) (hAllowed : allowed op)
      (hOp : middle.perform op = .ok next) : Continues allowed store next

namespace Store

variable {store next : Store} {cp : ExecutionCheckpoint} {owner : String}

/-- No change forgets terminal evidence. -/
theorem Change.completions {event : Event} (hChange : store.Change event next) {completion : Completion}
    (hMem : completion ∈ store.book.completions) : completion ∈ next.book.completions := by
  cases hChange with
  | prepare _ hKeeps => exact hKeeps.completions ▸ hMem
  | dispatch _ _ _ _ _ _ _ hKeeps => exact hKeeps.completions ▸ hMem
  | renew _ hKeeps => exact hKeeps.completions ▸ hMem
  | release _ _ hKeeps => exact hKeeps.completions ▸ hMem
  | drain hEnded => exact hEnded.completed.mem_completions.mpr (.inr hMem)
  | settle _ _ hEnded => exact hEnded.completed.mem_completions.mpr (.inr hMem)
  | recover hRecovers =>
      rw [hRecovers.next]
      exact hMem
  | requestCancel hRequests =>
      rw [hRequests.next]
      exact hMem
  | endCanceled _ hEnds =>
      rw [hEnds.next]
      exact hMem
  | review hReviews =>
      rw [hReviews.reviewed.next]
      exact hMem
  | _ => exact hMem

theorem Changes.completions {events : List Event} (hChanges : Changes store events next) {completion : Completion}
    (hMem : completion ∈ store.book.completions) : completion ∈ next.book.completions := by
  induction hChanges with
  | nil => exact hMem
  | cons hChange _ ih => exact ih (hChange.completions hMem)

/-- The serial Run is in flight: its call is dispatched, and an operator may
have asked to cancel since. -/
inductive InFlight (store : Store) : Store → Prop
  | untouched : InFlight store store
  | canceled {request : CancelRequest} (hSource : request.sourceVersion = store.version)
      (hVersion : request.version = store.version + 1) :
      InFlight store { store with
        version := store.version + 1
        progress := { store.progress with cancelRequested := some request } }

/-- While the call is out the operators can ask to cancel, once, and nothing
else. -/
theorem InFlight.manage {middle : Store} (hFlight : store.InFlight middle) (hCp : store.checkpoint = some cp)
    (hPhase : cp.phase = .dispatching) {op : Operation} (hManages : op.Manages) (hOp : middle.perform op = .ok next) :
    store.InFlight next := by
  have hMiddle : middle.checkpoint = some cp := by
    cases hFlight with
    | untouched => exact hCp
    | canceled => exact hCp
  have hOwned : middle.checkpoint ≠ none := by
    rw [hMiddle]
    exact Option.some_ne_none cp
  have hBusy : ∀ expectedVersion, middle.requireIdle expectedVersion ≠ .ok () :=
    fun expectedVersion hIdle => hOwned (requireIdle_ok hIdle).2
  cases op with
  | transitionRequested expectedVersion target actor reason time =>
      simp only [perform, transitionRequested, bind_ok, require_ok, exists_const] at hOp
      obtain ⟨_, _, _, ⟨⟨⟩, hIdle, _⟩⟩ := hOp
      exact absurd hIdle (hBusy expectedVersion)
  | completePreflight expectedVersion evidence =>
      simp only [perform, completePreflight, bind_ok, require_ok, exists_const] at hOp
      obtain ⟨⟨⟩, hIdle, _⟩ := hOp
      exact absurd hIdle (hBusy expectedVersion)
  | acceptResolution expectedVersion value confirm =>
      simp only [perform, acceptResolution, bind_ok, require_ok, exists_const] at hOp
      obtain ⟨_, ⟨⟨⟩, hIdle, _⟩⟩ := hOp
      exact absurd hIdle (hBusy expectedVersion)
  | authorizeContractRecovery expectedVersion expectedReleaseFingerprint value confirm =>
      simp only [perform, authorizeContractRecovery, bind_ok, require_ok, exists_const] at hOp
      obtain ⟨_, ⟨⟨⟩, hIdle, _⟩⟩ := hOp
      exact absurd hIdle (hBusy expectedVersion)
  | cancel expectedVersion decision confirm =>
      simp only [perform, cancel, bind_ok, require_ok, exists_const] at hOp
      obtain ⟨_, rfl, active, _, hOp⟩ := hOp
      have hDispatched : ∃ owner ∈ middle.checkpoint, owner.phase = .dispatching := ⟨cp, hMiddle, hPhase⟩
      rw [if_pos (.inr (.inl hDispatched))] at hOp
      simp only [requestCancellation, bind_ok, require_ok, exists_const, pure_ok] at hOp
      obtain ⟨_, hNone, _, saved, hSave, rfl⟩ := hOp
      obtain ⟨_, rfl⟩ := saveCheckpoint_ok hSave
      cases hFlight with
      | untouched => exact .canceled rfl rfl
      | canceled => cases hNone
  | finishCancellation time now =>
      simp only [perform, finishCancellation] at hOp
      split at hOp
      · rw [pure_ok] at hOp
        exact hOp ▸ hFlight
      · rw [if_pos (.inr hOwned), pure_ok] at hOp
        exact hOp ▸ hFlight
  | acceptReviews expectedVersion actor values =>
      obtain ⟨_, _, hSigns⟩ := acceptReviews_ok hOp
      exact absurd hSigns.idle hOwned
  | correctReview expectedVersion actor commandId previousReviewFingerprint candidateOutputFingerprint value =>
      rcases correctReview_ok hOp with rfl | ⟨entry, hCorrects⟩
      · exact hFlight
      · exact absurd hCorrects.idle hOwned
  | finalize expectedVersion actor expectedPassed reason time confirm =>
      obtain ⟨_, _, hFinalizes⟩ := finalize_ok hOp
      exact absurd hFinalizes.idle hOwned
  | reopen expectedVersion actor reason time confirm =>
      obtain ⟨_, hReopens⟩ := reopen_ok hOp
      exact absurd hReopens.idle hOwned
  | _ => cases hManages

theorem inFlight_of_continues {managed : Store} (hManaged : Continues Operation.Manages store managed)
    (hCp : store.checkpoint = some cp) (hPhase : cp.phase = .dispatching) : store.InFlight managed := by
  induction hManaged with
  | refl => exact .untouched
  | step _ hManages hOp ih => exact ih.manage hCp hPhase hManages hOp

/-- The version that the worker read at its dispatch is still recognized. -/
theorem InFlight.serialVersion {managed : Store} (hFlight : store.InFlight managed)
    (hCollecting : store.progress.status = .collecting) :
    managed.serialVersion store.version = .ok managed.version := by
  cases hFlight with
  | untouched =>
      rw [Store.serialVersion, require_bind_pos hCollecting, require_bind_pos (.inl rfl)]
      rfl
  | canceled hSource hVersion =>
      rw [Store.serialVersion, require_bind_pos hCollecting, require_bind_pos (.inr ⟨_, rfl, hSource, hVersion⟩)]
      rfl

/-! Completions of the serial checkpoint. -/

theorem Valid.completeSerialGeneration_total (h : store.Valid) (hCp : store.checkpoint = some cp)
    {expectedVersion : Nat} (hVersion : store.serialVersion expectedVersion = .ok store.version)
    {completion : GenerationCompletion} {candidateId : String} {assertions : List AssertionReceipt}
    (hReports : store.ReportsGeneration cp owner completion candidateId assertions) :
    ∃ next, store.completeSerialGeneration expectedVersion owner completion candidateId assertions = .ok next := by
  have hLive : cp ∈ store.live := List.mem_append_right _ (by simp [hCp])
  obtain ⟨candidate, hCandidate, hFresh⟩ := hReports.candidate_total
  have hAccepted := h.readGenerationAcceptance_total hLive hReports.owned hReports.assets
  have hInserted := h.insertGeneration_total hLive hReports.owned hFresh
  have hSource : store.loadSerialGenerationSource expectedVersion owner completion = .ok (store.version, cp) := by
    rw [loadSerialGenerationSource, hCp]
    simp only [demand, ok_bind]
    rw [require_bind_pos hReports.owned, hVersion]
    rfl
  rw [completeSerialGeneration, hCandidate, ok_bind, hSource, ok_bind]
  simp only
  rw [hAccepted, ok_bind, hInserted, ok_bind, saveCheckpoint, require_bind_pos rfl]
  exact ⟨_, rfl⟩

/-- The progress of a serial Run after a judge call is always found. -/
theorem Valid.projectSemanticProgress_total (h : store.Valid) (hIdle : store.live = []) (hPassed : store.Passed)
    {progress : Progress} (hPreflight : progress.preflight = store.progress.preflight)
    (hResolutions : progress.resultUnknownResolutions = store.progress.resultUnknownResolutions)
    (hRecoveries : progress.semanticContractRecoveries = store.progress.semanticContractRecoveries)
    (completion : SemanticCompletion) (accepted : SemanticAcceptance) (owner : String) :
    ∃ final, store.projectSemanticProgress completion accepted owner progress = .ok final := by
  unfold projectSemanticProgress
  split
  · exact ⟨_, rfl⟩
  · obtain ⟨slots, hSlots, hProjects⟩ := h.projectSlots_ok (open_of_live_nil hIdle)
    obtain ⟨preflight, hSome, _⟩ := hPassed
    have hSome : progress.preflight = some preflight := hPreflight.trans hSome
    obtain ⟨action, hAction⟩ := h.sound.nextAction_exists hProjects progress.status preflight.status preflight.caseId
      progress.unresolvedResultUnknownCount
    rw [hResolutions, hRecoveries, hSlots, hSome]
    change nextAction _ _ _ _ store.creation.policy _ _ = _ at hAction
    simp only [ok_bind, demand, hAction]
    exact ⟨_, rfl⟩

theorem Coherent.completeSerialSemantic_total (h : store.Coherent) (hCp : store.checkpoint = some cp)
    {expectedVersion : Nat} (hVersion : store.serialVersion expectedVersion = .ok store.version)
    {completion : SemanticCompletion}
    (hReports : store.ReportsSemantic cp owner completion) :
    ∃ next, store.completeSerialSemantic expectedVersion owner completion = .ok next := by
  have hLive : cp ∈ store.live := List.mem_append_right _ (by simp [hCp])
  obtain ⟨accepted, hAccepted⟩ := h.toValid.readSemanticAcceptance_total hLive hReports
  obtain ⟨source, hSource, hId, hGenerated, hMatches, candidate, hCandidate, hJudged, _, hKept⟩ :=
    readSemanticAcceptance_ok h.toValid hAccepted
  obtain ⟨stored, hStored⟩ := h.toValid.storeSemantic_total hLive hMatches accepted
  have hRows := storeSemantic_ok h.toValid hSource hGenerated hCandidate hKept hStored
  have hMoves := completionProgress_moves store.progress (.semantic completion) store.creation.policy owner false
  -- the Run without its checkpoint is valid, so its slots can be read
  have hSettles : store.Settles { stored with
      version := store.version + 1
      checkpoint := none
      progress := completionProgress store.progress (.semantic completion) store.creation.policy owner false } cp := by
    refine ⟨(h.working ?_).1, hCp, rfl, ?_, ?_⟩
    · exact List.ne_nil_of_mem hLive
    · rw [hRows]
    · rw [hRows]
  obtain ⟨hBefore, hAfter⟩ := hSettles.live h.toValid
  have hEnded := ended_semantic hSource hId hCandidate hJudged hMatches.2.2.2.2.2.2.2.1 (List.Perm.of_eq hBefore)
    (List.Perm.of_eq hAfter) (Completion.ends_of_semantic hMatches) hMoves (by rw [hRows]; exact ⟨rfl, rfl, rfl, rfl⟩)
  have hValid := hEnded.valid h.toValid (hSettles.shaped h.toValid)
  have hPassed := hEnded.passed.mpr (h.working (List.ne_nil_of_mem hLive)).2
  obtain ⟨final, hFinal⟩ := hValid.projectSemanticProgress_total hAfter hPassed rfl rfl rfl completion accepted owner
  have hFinal : stored.projectSemanticProgress completion accepted owner
      (semanticCompletionProgress store.progress completion store.creation.policy owner false) = .ok final := hFinal
  have hSource : store.loadSerialSemanticState expectedVersion = .ok (store.version, cp) := by
    rw [loadSerialSemanticState, hVersion, ok_bind, hCp]
    rfl
  rw [completeSerialSemantic, hSource, ok_bind]
  simp only
  rw [hAccepted, ok_bind, hStored, ok_bind, hFinal, ok_bind, saveCheckpoint, require_bind_pos (by rw [hRows])]
  exact ⟨_, rfl⟩

/-- A recorded outcome is not recorded again, whatever happens to the Run. -/
theorem Coherent.completeSerial_once (h : store.Coherent) {completion : Completion}
    (hMem : completion ∈ store.book.completions) (hLive : cp ∈ store.live) : ¬ completion.Ends cp := by
  intro hEnds
  exact (h.toValid.unsettled hLive hEnds.phase hMem).1 hEnds.invocationId

end Store

theorem Continues.kept {allowed : Operation → Prop} {store later : Store} (hLater : Continues allowed store later)
    (h : store.Coherent) : later.Coherent ∧
      ∀ completion ∈ store.book.completions, completion ∈ later.book.completions := by
  induction hLater with
  | refl => exact ⟨h, fun _ hMem => hMem⟩
  | step _ _ hOp ih =>
      have hChanges := Store.perform_changes ih.1 hOp
      exact ⟨(hChanges.coherent ih.1).1, fun completion hMem => hChanges.completions (ih.2 completion hMem)⟩

/-- Whatever the operators do while a serial call is out, its owner's report
under the version of the dispatch is accepted and stored; after that it is
refused in every later state of the Run. -/
theorem serial_completion_never_lost {creation : Creation} {now : DateTime} {before store managed : Store}
    {expectedVersion : Nat} {owner : String} {time : DateTime} {cp : ExecutionCheckpoint}
    (hReaches : Reaches (fun _ _ _ => True) creation now before)
    (hDispatch : before.perform (.reserveDispatch expectedVersion owner time) = .ok store)
    (hCp : store.checkpoint = some cp) (hManaged : Continues Operation.Manages store managed) :
    (∀ completion candidateId assertions, managed.ReportsGeneration cp owner completion candidateId assertions →
      ∃ next, managed.perform (.completeSerialGeneration store.version owner completion candidateId assertions) =
          .ok next ∧
        (∃ row ∈ next.generations, row.evidence = completion) ∧
        ∀ later, Continues (fun _ => True) next later → ∀ version owner candidateId assertions final,
          later.perform (.completeSerialGeneration version owner completion candidateId assertions) ≠ .ok final) ∧
    ∀ completion, managed.ReportsSemantic cp owner completion →
      ∃ next, managed.perform (.completeSerialSemantic store.version owner completion) = .ok next ∧
        (∃ row ∈ next.semantics, row.evidence = completion) ∧
        ∀ later, Continues (fun _ => True) next later → ∀ version owner final,
          later.perform (.completeSerialSemantic version owner completion) ≠ .ok final := by
  have hBefore := hReaches.coherent.1
  have hStore := ((Store.perform_changes hBefore hDispatch).coherent hBefore).1
  obtain ⟨_, _, _, _, prepared, dispatched, _, hDispatches, _, _, hNext⟩ :=
    Store.reserveDispatch_ok hBefore.toValid hDispatch
  have hPhase : cp.phase = .dispatching := by
    rw [hNext] at hCp
    cases hCp
    exact hDispatches.phase
  have hLive : cp ∈ store.live := List.mem_append_right _ (by simp [hCp])
  have hFlight := Store.inFlight_of_continues hManaged hCp hPhase
  have hManagedCp : managed.checkpoint = some cp := by
    cases hFlight with
    | untouched => exact hCp
    | canceled => exact hCp
  have hVersion := hFlight.serialVersion (hStore.working (List.ne_nil_of_mem hLive)).1
  have hCoherent := (hManaged.kept hStore).1
  refine ⟨?_, ?_⟩
  · intro completion candidateId assertions hReports
    obtain ⟨next, hOk⟩ := hCoherent.toValid.completeSerialGeneration_total hManagedCp hVersion hReports
    obtain ⟨_, hSettles, _, hEnded, _⟩ := Store.completeSerialGeneration_ok hCoherent.toValid hOk
    have hRecorded : Completion.generation completion ∈ next.book.completions :=
      hEnded.completed.mem_completions.mpr (.inl rfl)
    have hNext := hCoherent.ended hEnded (hSettles.shaped hCoherent.toValid) (.inl hSettles.collecting)
      fun hSome => absurd (hSettles.live hCoherent.toValid).2 hSome
    refine ⟨next, hOk, ?_, ?_⟩
    · rcases Book.mem_completions.mp hRecorded with ⟨row, hRow, hSame⟩ | ⟨row, _, hSame⟩
      · exact ⟨row, hRow, (Completion.generation.inj hSame).symm⟩
      · cases hSame
    · intro later hLater version other candidateId assertions final hAgain
      obtain ⟨hKept, hCompletions⟩ := hLater.kept hNext
      obtain ⟨_, hAgainSettles, _, hAgainEnded, _⟩ := Store.completeSerialGeneration_ok hKept.toValid hAgain
      refine hKept.completeSerial_once (hCompletions _ hRecorded) ?_ hAgainEnded.completed.ends
      exact List.mem_append_right _ (by simp [hAgainSettles.checkpoint])
  · intro completion hReports
    obtain ⟨next, hOk⟩ := hCoherent.completeSerialSemantic_total hManagedCp hVersion hReports
    obtain ⟨_, hSettles, _, hEnded, _⟩ := Store.completeSerialSemantic_ok hCoherent.toValid hOk
    have hRecorded : Completion.semantic completion ∈ next.book.completions :=
      hEnded.completed.mem_completions.mpr (.inl rfl)
    have hNext := hCoherent.ended hEnded (hSettles.shaped hCoherent.toValid) (.inl hSettles.collecting)
      fun hSome => absurd (hSettles.live hCoherent.toValid).2 hSome
    refine ⟨next, hOk, ?_, ?_⟩
    · rcases Book.mem_completions.mp hRecorded with ⟨row, _, hSame⟩ | ⟨row, hRow, hSame⟩
      · cases hSame
      · exact ⟨row, hRow, (Completion.semantic.inj hSame).symm⟩
    · intro later hLater version other final hAgain
      obtain ⟨hKept, hCompletions⟩ := hLater.kept hNext
      obtain ⟨_, hAgainSettles, _, hAgainEnded, _⟩ := Store.completeSerialSemantic_ok hKept.toValid hAgain
      refine hKept.completeSerial_once (hCompletions _ hRecorded) ?_ hAgainEnded.completed.ends
      exact List.mem_append_right _ (by simp [hAgainSettles.checkpoint])

/-- A call that an operator asks to cancel and that is then reported as
interrupted. -/
theorem serial_completion_never_lost_pilot : ∃ now before store managed completion,
    Reaches (fun _ _ _ => True) (Pilot.creation .serialV1) now before ∧
    before.perform (.reserveDispatch before.version "worker" (Pilot.clock 2)) = .ok store ∧
    Continues Operation.Manages store managed ∧ managed.version = store.version + 1 ∧
    ∃ next, managed.perform (.completeSerialGeneration store.version "worker" completion "" []) = .ok next ∧
      ∃ row ∈ next.generations, row.evidence = completion := by
  obtain ⟨now, before, hReaches, hCheck⟩ := exists_reaches (fun _ _ _ => True) (Pilot.creation .serialV1)
    (Pilot.start ++ [Pilot.prepare 1 "e1"])
    (fun before => (before.perform (.reserveDispatch before.version "worker" (Pilot.clock 2))).toOption.any fun store =>
      (store.perform (.cancel store.version (Pilot.cancellation 3) true (Pilot.clock 3))).toOption.any fun managed =>
        store.checkpoint.any fun cp => (interruptedGeneration cp (Pilot.clock 4)).toOption.any fun completion =>
          managed.version = store.version + 1 ∧ completion.matchesCheckpoint cp "worker" ∧
          validateGenerationCompletion managed.creation.assets completion = .ok () ∧
          completion.status ≠ .succeeded ∧ some "" ∉ managed.generations.map (·.candidateId)) (by decide +kernel)
  cases hDispatch : before.perform (.reserveDispatch before.version "worker" (Pilot.clock 2)) with
  | error refusal =>
      rw [hDispatch] at hCheck
      cases hCheck
  | ok store =>
      rw [hDispatch] at hCheck
      cases hCancel : store.perform (.cancel store.version (Pilot.cancellation 3) true (Pilot.clock 3)) with
      | error refusal =>
          simp only [Except.toOption, Option.any_some, hCancel] at hCheck
          cases hCheck
      | ok managed =>
          simp only [Except.toOption, Option.any_some, hCancel] at hCheck
          obtain ⟨cp, hCp, hCheck⟩ := Option.any_eq_true _ _ |>.mp hCheck
          obtain ⟨completion, _, hCheck⟩ := Option.any_eq_true _ _ |>.mp hCheck
          obtain ⟨hVersion, hOwned, hAssets, hStatus, hFresh⟩ := of_decide_eq_true hCheck
          have hManages : (Operation.cancel store.version (Pilot.cancellation 3) true (Pilot.clock 3)).Manages := trivial
          have hManaged : Continues Operation.Manages store managed := .step .refl hManages hCancel
          have hReports : managed.ReportsGeneration cp "worker" completion "" [] := by
            refine ⟨hOwned, hAssets, ?_, hFresh⟩
            rw [if_neg hStatus]
            exact ⟨rfl, rfl⟩
          obtain ⟨next, hOk, hStored, _⟩ :=
            (serial_completion_never_lost hReaches hDispatch hCp hManaged).1 completion "" [] hReports
          exact ⟨now, before, store, managed, completion, hReaches, hDispatch, hManaged, hVersion, next, hOk, hStored⟩

end QsAi
