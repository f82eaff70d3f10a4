import QsAi.Run.Refinement

/-! What the transactions of a Run do. Each accepted transaction changes the
book by the steps it may take and leaves the rest of the record as it was, so
every Run that starts valid stays valid. -/
namespace QsAi

open Guarded Keyed Numbered

namespace Store

variable {store next : Store}

/-- A dispatched call of the Run ended with the completion. -/
structure Ended (store next : Store) (cp : ExecutionCheckpoint) (completion : Completion) : Prop where
  step : store.book.Step next.book
  completed : store.book.Completed next.book cp completion
  preflight : next.progress.preflight = store.progress.preflight
  cancelRequested : next.progress.cancelRequested = store.progress.cancelRequested
  unresolved : next.progress.unresolvedResultUnknownCount =
    (store.progress.counted completion).unresolvedResultUnknownCount
  kept : next.progress = { store.progress with
    status := next.progress.status
    transitions := next.progress.transitions
    unresolvedResultUnknownCount := next.progress.unresolvedResultUnknownCount
    recoveries := next.progress.recoveries }

theorem Ended.valid {cp : ExecutionCheckpoint} {completion : Completion} (hEnded : store.Ended next cp completion)
    (h : store.Valid) (hShaped : next.Shaped) : next.Valid := by
  have hSound := hEnded.step.sound h.sound
  refine ⟨hShaped, hSound, ?_⟩
  have hBefore := h.sound.candidates.unknownExecutions_eq
  have hAfter := hSound.candidates.unknownExecutions_eq
  have hPerm := (hEnded.completed.completions.filter (·.status = .resultUnknown)).length_eq
  have hCounted := h.counted
  have hResolutions : next.progress.resultUnknownResolutions = store.progress.resultUnknownResolutions :=
    hEnded.completed.resolutions
  change unknownExecutions store.generations store.semantics = _ at hBefore
  change unknownExecutions next.generations next.semantics = _ at hAfter
  rw [hBefore, List.length_map] at hCounted
  rw [hAfter, List.length_map, hPerm, hEnded.unresolved, hResolutions, Progress.counted]
  by_cases hStatus : completion.status = .resultUnknown
  · rw [if_pos hStatus, List.filter_cons_of_pos (by simpa using hStatus), List.length_cons, ← hCounted]
    simp only
    omega
  · rw [if_neg hStatus, List.filter_cons_of_neg (by simpa using hStatus)]
    exact hCounted

theorem ended_of_moves {progress final : Progress} {completion : Completion}
    (hMoves : (progress.counted completion).Moves final) :
    final.preflight = progress.preflight ∧ final.cancelRequested = progress.cancelRequested ∧
    final.resultUnknownResolutions = progress.resultUnknownResolutions ∧
    final.semanticContractRecoveries = progress.semanticContractRecoveries ∧
    final.unresolvedResultUnknownCount = (progress.counted completion).unresolvedResultUnknownCount ∧
    final = { progress with
      status := final.status
      transitions := final.transitions
      unresolvedResultUnknownCount := final.unresolvedResultUnknownCount
      recoveries := final.recoveries } := by
  unfold Progress.Moves at hMoves
  rw [hMoves]
  unfold Progress.counted
  split <;> exact ⟨rfl, rfl, rfl, rfl, rfl, rfl⟩

/-- The row of a generation is a change of the book. -/
theorem ended_generation {cp : ExecutionCheckpoint} {rest : List ExecutionCheckpoint}
    {completion : GenerationCompletion} {candidateId : String} {assertions : List AssertionReceipt}
    {candidate : Option Candidate} (hCandidate : generationCandidate completion candidateId assertions = .ok candidate)
    (hLive : store.live.Perm (cp :: rest)) (hNext : next.live.Perm rest)
    (hEnds : (Completion.generation completion).Ends cp)
    (hNew : candidate.map (·.id) = none ∨ candidate.map (·.id) ∉ store.generations.map (·.candidateId))
    (hMoves : (store.progress.counted (.generation completion)).Moves next.progress)
    (hRecords : next.creation = store.creation ∧ next.dispatches = store.dispatches ∧
      next.generations = store.generations ++ [generationTerminalValues completion candidate] ∧
      next.semantics = store.semantics) : store.Ended next cp (.generation completion) := by
  obtain ⟨hOutcome, hFresh⟩ := generationCandidate_ok hCandidate
  obtain ⟨hPreflight, hCancel, hResolutions, hRecoveries, hCount, hKept⟩ := ended_of_moves hMoves
  have hBook : next.book = { store.book with
      live := next.live
      generations := store.generations ++ [generationTerminalValues completion candidate] } := by
    unfold book
    rw [hRecords.1, hRecords.2.1, hRecords.2.2.1, hRecords.2.2.2, hResolutions, hRecoveries]
  have hIndex : (generationTerminalValues completion candidate).IndexMatches := ⟨rfl, rfl, rfl, rfl, rfl⟩
  refine ⟨?_, ?_, hPreflight, hCancel, hCount, hKept⟩
  · rw [hBook]
    exact Book.Step.completeGeneration hLive hNext hEnds hIndex hOutcome hNew hFresh
  · rw [hBook]
    exact Book.completed_generation hLive hNext hEnds

/-- The row of a judge call is a change of the book. -/
theorem ended_semantic {cp : ExecutionCheckpoint} {rest : List ExecutionCheckpoint}
    {completion : SemanticCompletion} {accepted : SemanticAcceptance} {source : GenerationRow} {candidate : Candidate}
    (hSource : source ∈ store.generations) (hId : source.candidateId = some completion.candidateId)
    (hCandidate : source.candidate = some candidate)
    (hJudged : Book.Judged candidate accepted.candidate (semanticTerminalValues completion accepted))
    (hFingerprint : completion.candidateOutputFingerprint = source.evidence.normalizedFingerprint)
    (hLive : store.live.Perm (cp :: rest)) (hNext : next.live.Perm rest)
    (hEnds : (Completion.semantic completion).Ends cp)
    (hMoves : (store.progress.counted (.semantic completion)).Moves next.progress)
    (hRecords : next.creation = store.creation ∧ next.dispatches = store.dispatches ∧
      next.generations = store.generations.map (·.withCandidate source.executionId accepted.candidate) ∧
      next.semantics = store.semantics ++ [semanticTerminalValues completion accepted]) :
    store.Ended next cp (.semantic completion) := by
  obtain ⟨hPreflight, hCancel, hResolutions, hRecoveries, hCount, hKept⟩ := ended_of_moves hMoves
  have hBook : next.book = { store.book with
      live := next.live
      generations := store.generations.map (·.withCandidate source.executionId accepted.candidate)
      semantics := store.semantics ++ [semanticTerminalValues completion accepted] } := by
    unfold book
    rw [hRecords.1, hRecords.2.1, hRecords.2.2.1, hRecords.2.2.2, hResolutions, hRecoveries]
  have hIndex : (semanticTerminalValues completion accepted).IndexMatches := ⟨rfl, rfl, rfl, rfl, rfl⟩
  refine ⟨?_, ?_, hPreflight, hCancel, hCount, hKept⟩
  · rw [hBook]
    exact Book.Step.completeSemantic hLive hNext hEnds hIndex hSource hId hCandidate hFingerprint.symm hJudged
  · rw [hBook]
    exact Book.completed_semantic hLive hNext source accepted.candidate hEnds

/-! Candidate completions. -/

/-- The claim was released and the Run aggregated over what is left. -/
structure Drains (store next : Store) (claim : SlotClaim) (actor : String) (completion : Completion) : Prop where
  mode : store.creation.mode = .candidateV2
  running : store.progress.status = .collecting ∨ store.progress.status = .blocked
  stored : ∃ row ∈ store.claims, row.claim = claim
  creation : next.creation = store.creation
  claims : next.claims = store.claims.filter (·.slot ≠ claim.checkpoint.slot)
  checkpoint : next.checkpoint = none
  aggregated : ∃ plan, next.candidatePlan (store.progress.counted completion) (next.claims.map (·.claim)) 32 =
      .ok plan ∧
    candidateCompletionProgress claim (store.progress.counted completion) actor completion.finishedAt
      (next.claims.map (·.claim)) plan (fun cause => blockedExecution next.generations next.semantics
        (store.progress.counted completion) cause plan.blocked) = .ok next.progress

theorem Drains.moves {claim : SlotClaim} {actor : String} {completion : Completion}
    (h : store.Drains next claim actor completion) : (store.progress.counted completion).Moves next.progress := by
  obtain ⟨_, _, hProgress⟩ := h.aggregated
  exact candidateCompletionProgress_moves hProgress

theorem Drains.shaped {claim : SlotClaim} {actor : String} {completion : Completion}
    (h : store.Drains next claim actor completion) (hValid : store.Valid) : next.Shaped := by
  refine ⟨?_, fun _ => h.checkpoint, ?_⟩
  · rw [h.creation, h.mode]
    exact fun hSerial => by cases hSerial
  · rw [h.claims]
    exact fun row hRow => hValid.shaped.index row (List.mem_filter.mp hRow).1

/-- The owners before and after a drained completion. -/
theorem Drains.live {claim : SlotClaim} {actor : String} {completion : Completion}
    (h : store.Drains next claim actor completion) (hValid : store.Valid) :
    ∃ rest, store.live.Perm (claim.checkpoint :: rest) ∧ next.live.Perm rest := by
  obtain ⟨row, hRow, rfl⟩ := h.stored
  refine ⟨_, live_split hValid h.mode hRow, ?_⟩
  rw [live_candidate h.checkpoint, h.claims, hValid.shaped.index row hRow]

theorem completeClaim_ok {version : Nat} {claim : SlotClaim} {progress : Progress} {actor : String} {time : DateTime}
    (hOk : store.completeClaim version claim progress actor time = .ok next) :
    next.creation = store.creation ∧ next.dispatches = store.dispatches ∧ next.generations = store.generations ∧
    next.semantics = store.semantics ∧
    next.claims = store.claims.filter (·.slot ≠ claim.checkpoint.slot) ∧ next.checkpoint = none ∧
    ∃ plan, next.candidatePlan progress (next.claims.map (·.claim)) 32 = .ok plan ∧
      candidateCompletionProgress claim progress actor time (next.claims.map (·.claim)) plan
        (fun cause => blockedExecution next.generations next.semantics progress cause plan.blocked) =
          .ok next.progress := by
  simp only [completeClaim, releaseClaim, bind_ok, pure_ok] at hOk
  obtain ⟨released, ⟨_, _, rfl⟩, active, hActive, plan, hPlan, final, hFinal, saved, hSave, rfl⟩ := hOk
  obtain ⟨_, rfl⟩ := activeClaims_ok.mp hActive
  obtain ⟨_, rfl⟩ := saveCheckpoint_ok hSave
  exact ⟨rfl, rfl, rfl, rfl, rfl, rfl, plan, hPlan, hFinal⟩

theorem completionOwner_ok {claim current : SlotClaim} {version : Nat}
    (hOk : store.completionOwner claim = .ok (version, current)) :
    store.creation.mode = .candidateV2 ∧ store.Current claim current ∧
    (store.progress.status = .collecting ∨ store.progress.status = .blocked) := by
  simp only [completionOwner, bind_ok, require_ok, exists_const, pure_ok, Prod.mk.injEq] at hOk
  obtain ⟨_, hLock, _, _, _, hCurrent, hStatus, _, rfl⟩ := hOk
  exact ⟨(lockRun_ok hLock).1, requireClaim_ok hCurrent, hStatus⟩

/-- An accepted generation of a claim. -/
theorem completeClaimedGeneration_ok (h : store.Valid) {claim : SlotClaim} {owner : String}
    {completion : GenerationCompletion} {candidateId : String} {assertions : List AssertionReceipt}
    (hOk : store.completeClaimedGeneration claim owner completion candidateId assertions = .ok next) :
    ∃ current, store.Current claim current ∧ store.Ended next current.checkpoint (.generation completion) ∧
      store.Drains next current owner (.generation completion) := by
  simp only [completeClaimedGeneration, bind_ok, require_ok, exists_const] at hOk
  obtain ⟨candidate, hCandidate, ⟨version, current⟩, hOwner, hMatches, _, _, inserted, hInsert, hComplete⟩ := hOk
  obtain ⟨hMode, hCurrent, hRunning⟩ := completionOwner_ok hOwner
  simp only [insertGeneration, bind_ok, require_ok, exists_const, pure_ok] at hInsert
  obtain ⟨_, _, hNew, _, rfl⟩ := hInsert
  obtain ⟨hCreation, hDispatches, hGenerations, hSemantics, hClaims, hCheckpoint, hAggregated⟩ :=
    completeClaim_ok hComplete
  rw [generationCompletionProgress, completionProgress_claim] at hAggregated
  obtain ⟨row, hRow, _, hStored⟩ := hCurrent.stored
  have hDrains : store.Drains next current owner (.generation completion) :=
    ⟨hMode, hRunning, ⟨row, hRow, hStored⟩, hCreation, hClaims, hCheckpoint, hAggregated⟩
  obtain ⟨rest, hLive, hNext⟩ := hDrains.live h
  exact ⟨current, hCurrent, ended_generation hCandidate hLive hNext (Completion.ends_of_generation hMatches) hNew
    hDrains.moves ⟨hCreation, hDispatches, hGenerations, hSemantics⟩, hDrains⟩

/-- An accepted judge call of a claim. -/
theorem completeClaimedSemantic_ok (h : store.Valid) {claim : SlotClaim} {owner : String}
    {completion : SemanticCompletion} (hOk : store.completeClaimedSemantic claim owner completion = .ok next) :
    ∃ current, store.Current claim current ∧ store.Ended next current.checkpoint (.semantic completion) ∧
      store.Drains next current owner (.semantic completion) := by
  simp only [completeClaimedSemantic, bind_ok] at hOk
  obtain ⟨⟨version, current⟩, hOwner, accepted, hAccept, stored, hStore, hComplete⟩ := hOk
  obtain ⟨hMode, hCurrent, hRunning⟩ := completionOwner_ok hOwner
  obtain ⟨source, hSource, hId, hGenerated, hMatches, candidate, hCandidate, hJudged, _, hKept⟩ :=
    readSemanticAcceptance_ok h hAccept
  have hStored := storeSemantic_ok h hSource hGenerated hCandidate hKept hStore
  subst hStored
  obtain ⟨hCreation, hDispatches, hGenerations, hSemantics, hClaims, hCheckpoint, hAggregated⟩ :=
    completeClaim_ok hComplete
  rw [semanticCompletionProgress, completionProgress_claim] at hAggregated
  obtain ⟨row, hRow, _, hStored⟩ := hCurrent.stored
  have hDrains : store.Drains next current owner (.semantic completion) :=
    ⟨hMode, hRunning, ⟨row, hRow, hStored⟩, hCreation, hClaims, hCheckpoint, hAggregated⟩
  obtain ⟨rest, hLive, hNext⟩ := hDrains.live h
  exact ⟨current, hCurrent, ended_semantic hSource hId hCandidate hJudged hMatches.2.2.2.2.2.2.2.1 hLive hNext
    (Completion.ends_of_semantic hMatches) hDrains.moves ⟨hCreation, hDispatches, hGenerations, hSemantics⟩, hDrains⟩

/-! Serial completions. -/

/-- The coordinator gave its checkpoint back, and nothing else was claimed. -/
structure Settles (store next : Store) (cp : ExecutionCheckpoint) : Prop where
  collecting : store.progress.status = .collecting
  checkpoint : store.checkpoint = some cp
  released : next.checkpoint = none
  creation : next.creation = store.creation
  claims : next.claims = store.claims

theorem Settles.serial {cp : ExecutionCheckpoint} (h : store.Settles next cp) (hValid : store.Valid) :
    store.creation.mode = .serialV1 := by
  cases hMode : store.creation.mode with
  | serialV1 => rfl
  | candidateV2 =>
      have hNone := hValid.shaped.candidate hMode
      rw [h.checkpoint] at hNone
      cases hNone

theorem Settles.shaped {cp : ExecutionCheckpoint} (h : store.Settles next cp) (hValid : store.Valid) :
    next.Shaped := by
  refine ⟨?_, fun _ => h.released, ?_⟩
  · rw [h.creation, h.claims]
    exact hValid.shaped.serial
  · rw [h.claims]
    exact hValid.shaped.index

theorem Settles.live {cp : ExecutionCheckpoint} (h : store.Settles next cp) (hValid : store.Valid) :
    store.live = [cp] ∧ next.live = [] := by
  have hClaims := hValid.shaped.serial (h.serial hValid)
  refine ⟨?_, ?_⟩
  · rw [live_serial hClaims, h.checkpoint]
    rfl
  · rw [live_serial (h.claims.trans hClaims), h.released]
    rfl

theorem serialVersion_ok {expectedVersion version : Nat} (hOk : store.serialVersion expectedVersion = .ok version) :
    store.progress.status = .collecting ∧ version = store.version := by
  simp only [serialVersion, bind_ok, require_ok, exists_const, pure_ok] at hOk
  exact ⟨hOk.1, hOk.2.2.symm⟩

/-- An accepted generation of the serial checkpoint. -/
theorem completeSerialGeneration_ok (h : store.Valid) {expectedVersion : Nat} {owner : String}
    {completion : GenerationCompletion} {candidateId : String} {assertions : List AssertionReceipt}
    (hOk : store.completeSerialGeneration expectedVersion owner completion candidateId assertions = .ok next) :
    ∃ cp, store.Settles next cp ∧ cp.owner = strip owner ∧ store.Ended next cp (.generation completion) ∧
      next.progress = completionProgress store.progress (.generation completion) store.creation.policy owner false := by
  simp only [completeSerialGeneration, loadSerialGenerationSource, bind_ok, require_ok, exists_const, demand_ok,
    pure_ok] at hOk
  obtain ⟨candidate, hCandidate, ⟨version, cp⟩, ⟨cp, hCp, hMatches, _, hVersion, hPair⟩, _, _, inserted, hInsert, saved,
    hSave, rfl⟩ := hOk
  rw [Prod.mk.injEq] at hPair
  obtain ⟨rfl, rfl⟩ := hPair
  simp only [insertGeneration, bind_ok, require_ok, exists_const, pure_ok] at hInsert
  obtain ⟨_, _, hNew, _, rfl⟩ := hInsert
  obtain ⟨_, rfl⟩ := saveCheckpoint_ok hSave
  refine ⟨cp, ⟨(serialVersion_ok hVersion).1, hCp, rfl, rfl, rfl⟩, hMatches.2.2.1, ?_, rfl⟩
  have hSettles : store.Settles { store with
      version := store.version + 1
      checkpoint := none
      generations := store.generations ++ [generationTerminalValues completion candidate]
      progress := generationCompletionProgress store.progress completion store.creation.policy owner false } cp :=
    ⟨(serialVersion_ok hVersion).1, hCp, rfl, rfl, rfl⟩
  obtain ⟨hLive, hNext⟩ := hSettles.live h
  exact ended_generation hCandidate (List.Perm.of_eq hLive) (List.Perm.of_eq hNext)
    (Completion.ends_of_generation hMatches) hNew (completionProgress_moves ..) ⟨rfl, rfl, rfl, rfl⟩

theorem projectSemanticProgress_moves {completion : SemanticCompletion} {accepted : SemanticAcceptance}
    {owner : String} {progress final : Progress}
    (hOk : store.projectSemanticProgress completion accepted owner progress = .ok final) : progress.Moves final := by
  unfold projectSemanticProgress at hOk
  split at hOk
  · rw [pure_ok] at hOk
    subst hOk
    rfl
  · simp only [bind_ok, demand_ok, pure_ok] at hOk
    obtain ⟨_, _, _, _, _, _, rfl⟩ := hOk
    split <;> rfl

theorem Progress.Moves.trans {first second third : Progress} (h : first.Moves second) (h' : second.Moves third) :
    first.Moves third := by
  unfold Progress.Moves at h h' ⊢
  rw [h', h]

/-- An accepted judge call of the serial checkpoint. -/
theorem completeSerialSemantic_ok (h : store.Valid) {expectedVersion : Nat} {owner : String}
    {completion : SemanticCompletion} (hOk : store.completeSerialSemantic expectedVersion owner completion = .ok next) :
    ∃ cp, store.Settles next cp ∧ cp.owner = strip owner ∧ store.Ended next cp (.semantic completion) ∧
      ∃ accepted, (accepted.result = none ↔ completion.status ≠ .succeeded) ∧
        next.projectSemanticProgress completion accepted owner
          (completionProgress store.progress (.semantic completion) store.creation.policy owner false) =
            .ok next.progress := by
  simp only [completeSerialSemantic, loadSerialSemanticState, bind_ok, demand_ok, pure_ok] at hOk
  obtain ⟨⟨version, cp⟩, ⟨_, hVersion, cp, hCp, hPair⟩, accepted, hAccept, stored, hStore, final, hFinal, saved, hSave,
    rfl⟩ := hOk
  rw [Prod.mk.injEq] at hPair
  obtain ⟨rfl, rfl⟩ := hPair
  obtain ⟨source, hSource, hId, hGenerated, hMatches, candidate, hCandidate, hJudged, hResult, hKept⟩ :=
    readSemanticAcceptance_ok h hAccept
  have hStored := storeSemantic_ok h hSource hGenerated hCandidate hKept hStore
  subst hStored
  obtain ⟨_, rfl⟩ := saveCheckpoint_ok hSave
  refine ⟨cp, ⟨(serialVersion_ok hVersion).1, hCp, rfl, rfl, rfl⟩, hMatches.2.2.1, ?_, accepted, ?_, hFinal⟩
  · have hSettles : store.Settles { store with
        version := store.version + 1
        checkpoint := none
        generations := store.generations.map (·.withCandidate source.executionId accepted.candidate)
        semantics := store.semantics ++ [semanticTerminalValues completion accepted]
        progress := final } cp :=
      ⟨(serialVersion_ok hVersion).1, hCp, rfl, rfl, rfl⟩
    obtain ⟨hLive, hNext⟩ := hSettles.live h
    exact ended_semantic hSource hId hCandidate hJudged hMatches.2.2.2.2.2.2.2.1 (List.Perm.of_eq hLive)
      (List.Perm.of_eq hNext) (Completion.ends_of_semantic hMatches)
      (Progress.Moves.trans (completionProgress_moves ..) (projectSemanticProgress_moves hFinal)) ⟨rfl, rfl, rfl, rfl⟩
  · rw [Ne, ← hResult]
    cases accepted.result <;> simp

end Store

/-! Expired ownership. -/

/-- The completion records a call that was interrupted at the given time. -/
structure Interrupted (cp : ExecutionCheckpoint) (time : DateTime) (completion : Completion) : Prop where
  unknown : completion.status = .resultUnknown
  started : cp.dispatchStartedAt = some completion.startedAt
  finished : completion.finishedAt = time

theorem interruptedGeneration_ok {cp : ExecutionCheckpoint} {time : DateTime} {completion : GenerationCompletion}
    (h : interruptedGeneration cp time = .ok completion) : Interrupted cp time (.generation completion) := by
  simp only [interruptedGeneration, bind_ok, demand_ok] at h
  obtain ⟨started, hStarted, failure, _, hMake⟩ := h
  have hFields := GenerationCompletion.make_ok hMake
  refine ⟨?_, ?_, ?_⟩
  · simp only [Completion.status, hFields]
  · simp only [hStarted, Completion.startedAt, hFields]
  · simp only [Completion.finishedAt, hFields]

theorem interruptedSemantic_ok {cp : ExecutionCheckpoint} {time : DateTime} {fingerprint : String}
    {completion : SemanticCompletion} (h : interruptedSemantic cp time fingerprint = .ok completion) :
    Interrupted cp time (.semantic completion) := by
  simp only [interruptedSemantic, bind_ok, demand_ok] at h
  obtain ⟨started, hStarted, failure, _, hMake⟩ := h
  have hFields := SemanticCompletion.make_ok hMake
  refine ⟨?_, ?_, ?_⟩
  · simp only [Completion.status, hFields]
  · simp only [hStarted, Completion.startedAt, hFields]
  · simp only [Completion.finishedAt, hFields]

namespace Store

variable {store next : Store}

theorem releaseClaim_ok {claim : SlotClaim} (hOk : store.releaseClaim claim = .ok next) :
    next = store.deleteClaim claim.checkpoint.slot := by
  simp only [releaseClaim, bind_ok, pure_ok] at hOk
  obtain ⟨_, _, rfl⟩ := hOk
  rfl

/-- An expired claim is released when it was only prepared, and ends as unknown
when it was dispatched. -/
theorem expireCandidate_ok (h : store.Valid) {claim : SlotClaim} {time : DateTime}
    (hOk : store.expireCandidate claim time = .ok next) :
    (store.creation.mode = .candidateV2 ∧ ∃ row ∈ store.claims, row.claim.checkpoint.phase = .prepared ∧
      next = { store.deleteClaim row.slot with version := store.version + 1, checkpoint := none }) ∨
    (claim.checkpoint.phase = .dispatching ∧ ∃ current completion,
      Interrupted current.checkpoint time completion ∧ store.Ended next current.checkpoint completion ∧
      store.Drains next current current.checkpoint.owner completion) := by
  simp only [expireCandidate, bind_ok, require_ok, exists_const] at hOk
  obtain ⟨version, hLock, _, _, current, hCurrent, _, hOk⟩ := hOk
  obtain ⟨hMode, _, rfl⟩ := lockRun_ok hLock
  obtain ⟨row, hRow, _, rfl⟩ := (requireClaim_ok hCurrent).stored
  have hSame : ∀ other, store.Current row.claim other → other = row.claim := by
    intro other hOther
    obtain ⟨found, hFound, hSlot, rfl⟩ := hOther.stored
    rw [h.shaped.index row hRow] at hSlot
    rw [h.claims_unique.eq_of_key hFound hRow hSlot]
  have hHeld := (requireClaim_ok hCurrent).phase
  split at hOk
  · rename_i hPhase
    simp only [bind_ok, require_ok, exists_const] at hOk
    obtain ⟨_, released, hRelease, hSave⟩ := hOk
    have hReleased := releaseClaim_ok hRelease
    subst hReleased
    obtain ⟨_, rfl⟩ := saveCheckpoint_ok hSave
    refine .inl ⟨hMode, row, hRow, hPhase, ?_⟩
    rw [h.shaped.index row hRow]
    rfl
  · rename_i hPhase _
    simp only [bind_ok] at hOk
    obtain ⟨completion, hCompletion, hComplete⟩ := hOk
    obtain ⟨other, hOther, hEnded, hDrains⟩ := completeClaimedGeneration_ok h hComplete
    rw [hSame other hOther] at hEnded hDrains
    exact .inr ⟨hHeld ▸ hPhase, row.claim, _, interruptedGeneration_ok hCompletion, hEnded, hDrains⟩
  · rename_i hPhase _
    simp only [bind_ok] at hOk
    obtain ⟨fingerprint, _, completion, hCompletion, hComplete⟩ := hOk
    obtain ⟨other, hOther, hEnded, hDrains⟩ := completeClaimedSemantic_ok h hComplete
    rw [hSame other hOther] at hEnded hDrains
    exact .inr ⟨hHeld ▸ hPhase, row.claim, _, interruptedSemantic_ok hCompletion, hEnded, hDrains⟩

/-- The record with one more recovery event. -/
def withRecovery (store : Store) (event : RecoveryEvent) : Store :=
  { store with progress := { store.progress with recoveries := store.progress.recoveries ++ [event] } }

/-- An expired serial checkpoint is dropped when it was only prepared, and ends
as unknown when it was dispatched. -/
theorem recoverExpired_ok (h : store.Valid) {expectedVersion : Nat} {invocationId : String}
    {observedExpiry time : DateTime} {actor : String}
    (hOk : store.recoverExpired expectedVersion invocationId observedExpiry time actor = .ok next) :
    ∃ cp settled event, store.Settles settled cp ∧ next = settled.withRecovery event ∧
      ((cp.phase = .prepared ∧ settled = { store with version := store.version + 1, checkpoint := none }) ∨
        (∃ completion, Interrupted cp time (.generation completion) ∧
          store.Ended settled cp (.generation completion) ∧
          settled.progress =
            completionProgress store.progress (.generation completion) store.creation.policy cp.owner false) ∨
        ∃ completion, Interrupted cp time (.semantic completion) ∧ store.Ended settled cp (.semantic completion) ∧
          settled.progress =
            completionProgress store.progress (.semantic completion) store.creation.policy cp.owner false) := by
  simp only [recoverExpired, bind_ok, require_ok, exists_const, demand_ok] at hOk
  obtain ⟨_, rfl, cp, hCp, _, hStatus, hOk⟩ := hOk
  split at hOk
  · rename_i hPhase
    simp only [bind_ok, require_ok, exists_const, pure_ok] at hOk
    obtain ⟨_, settled, hSave, rfl⟩ := hOk
    obtain ⟨_, rfl⟩ := saveCheckpoint_ok hSave
    exact ⟨cp, { store with version := store.version + 1, checkpoint := none }, _, ⟨hStatus, hCp, rfl, rfl, rfl⟩, rfl,
      .inl ⟨hPhase, rfl⟩⟩
  · simp only [bind_ok, pure_ok] at hOk
    obtain ⟨completion, hCompletion, settled, hComplete, rfl⟩ := hOk
    obtain ⟨other, hSettles, _, hEnded, hProgress⟩ := completeSerialGeneration_ok h hComplete
    obtain rfl : other = cp := Option.some.inj (hSettles.checkpoint.symm.trans hCp)
    exact ⟨other, settled, _, hSettles, rfl,
      .inr (.inl ⟨completion, interruptedGeneration_ok hCompletion, hEnded, hProgress⟩)⟩
  · simp only [bind_ok, pure_ok] at hOk
    obtain ⟨fingerprint, _, completion, hCompletion, settled, hComplete, rfl⟩ := hOk
    obtain ⟨other, hSettles, _, hEnded, accepted, hResult, hProgress⟩ := completeSerialSemantic_ok h hComplete
    obtain rfl : other = cp := Option.some.inj (hSettles.checkpoint.symm.trans hCp)
    have hInterrupted := interruptedSemantic_ok hCompletion
    refine ⟨other, settled, _, hSettles, rfl, .inr (.inr ⟨completion, hInterrupted, hEnded, ?_⟩)⟩
    have hNone : accepted.result = none := by
      rw [hResult]
      intro hSucceeded
      have hUnknown : completion.status = .resultUnknown := hInterrupted.unknown
      rw [hUnknown] at hSucceeded
      cases hSucceeded
    rw [projectSemanticProgress, if_pos (.inl hNone), pure_ok] at hProgress
    exact hProgress.symm

/-! Decisions. -/

theorem requireIdle_ok {expectedVersion : Nat} {done : Unit} (hOk : store.requireIdle expectedVersion = .ok done) :
    store.version = expectedVersion ∧ store.checkpoint = none := by
  simpa [requireIdle] using hOk

theorem loadResolutionEvidence_ok {unknowns : List UnknownExecution}
    (hOk : store.loadResolutionEvidence = .ok unknowns) :
    unknowns = unknownExecutions store.generations store.semantics := by
  simp only [loadResolutionEvidence, bind_ok, require_ok, exists_const, pure_ok] at hOk
  obtain ⟨_, _, _, _, _, rfl⟩ := hOk
  rfl

/-- Starting or canceling a requested Run touches nothing but its progress. -/
theorem transitionRequested_ok {expectedVersion : Nat} {target : RunStatus} {actor reason : String} {time : DateTime}
    (hOk : store.transitionRequested expectedVersion target actor reason time = .ok next) :
    store.checkpoint = none ∧ store.progress.status = .requested ∧ (target = .collecting ∨ target = .canceled) ∧
    validId actor = true ∧
    next = { store with
      version := store.version + 1
      progress := { store.progress with
        status := target
        transitions := store.progress.transitions ++
          [{ source := some .requested, target, actor, time
             cause := if target = .collecting then .evaluationStarted else .evaluationCanceled
             reason := some reason }]
        canceledAt := if target = .canceled then some time else store.progress.canceledAt } } := by
  simp only [transitionRequested, bind_ok, require_ok, exists_const, pure_ok] at hOk
  obtain ⟨hTarget, hActor, _, _, hIdle, hStatus, _, saved, hSave, rfl⟩ := hOk
  obtain ⟨_, hNone⟩ := requireIdle_ok hIdle
  obtain ⟨_, rfl⟩ := saveCheckpoint_ok hSave
  refine ⟨hNone, hStatus, hTarget, hActor, ?_⟩
  rw [← hNone]

/-- Preflight evidence is accepted once, by a collecting Run. -/
theorem completePreflight_ok {expectedVersion : Nat} {evidence : PreflightEvidence}
    (hOk : store.completePreflight expectedVersion evidence = .ok next) :
    store.checkpoint = none ∧ store.progress.status = .collecting ∧ store.progress.preflight = none ∧
    evidence.caseId = store.creation.preflightCaseId ∧
    next = { store with
      version := store.version + 1
      progress := if evidence.status = .failed then
          { store.progress with
            preflight := some evidence
            status := .blocked
            transitions := store.progress.transitions ++
              [{ source := some .collecting, target := .blocked, cause := .preflightFailed
                 actor := "system:runner", time := evidence.evaluatedAt, evidenceRefs := [evidence.caseId] }] }
        else { store.progress with preflight := some evidence } } := by
  simp only [completePreflight, bind_ok, require_ok, exists_const, pure_ok] at hOk
  obtain ⟨_, hIdle, ⟨hStatus, hPreflight⟩, ⟨hCase, _⟩, saved, hSave, rfl⟩ := hOk
  obtain ⟨_, hNone⟩ := requireIdle_ok hIdle
  obtain ⟨_, rfl⟩ := saveCheckpoint_ok hSave
  refine ⟨hNone, hStatus, hPreflight, hCase, ?_⟩
  rw [← hNone]

/-- A decision about an unknown execution of an idle, blocked Run. -/
theorem acceptResolution_ok {expectedVersion : Nat} {value : ResultUnknownResolution} {confirm : Bool}
    (hOk : store.acceptResolution expectedVersion value confirm = .ok next) :
    store.checkpoint = none ∧ (store.creation.mode = .candidateV2 → store.claims = []) ∧
    store.progress.status = .blocked ∧ ∃ result,
      resolveUnknown .blocked (unknownExecutions store.generations store.semantics)
        store.progress.resultUnknownResolutions value store.creation.policy = .ok result ∧
      (store.progress.cancelRequested ≠ none → result.status = .canceled → result.unresolvedCount = 0) ∧
      next = { store with
        version := store.version + 1
        progress := { store.progress with
          status := result.status
          unresolvedResultUnknownCount := result.unresolvedCount
          resultUnknownResolutions := result.resolutions
          transitions := if result.status = .blocked then store.progress.transitions
            else store.progress.transitions ++
              [{ source := some .blocked, target := result.status
                 cause := if result.status = .canceled then .resultUnknownRunCanceled else .manualRecoveryApproved
                 actor := value.actor, time := value.resolvedAt, evidenceRefs := [value.executionId] }]
          canceledAt := if result.status = .canceled then some value.resolvedAt else store.progress.canceledAt } } := by
  simp only [acceptResolution, bind_ok, require_ok, exists_const, pure_ok] at hOk
  obtain ⟨_, _, hIdle, hClaims, unknowns, hEvidence, result, hResult, hDrained, _, saved, hSave, rfl⟩ := hOk
  obtain ⟨_, hNone⟩ := requireIdle_ok hIdle
  obtain ⟨_, rfl⟩ := saveCheckpoint_ok hSave
  have hUnknowns := loadResolutionEvidence_ok hEvidence
  subst hUnknowns
  have hStatus : store.progress.status = .blocked := (resolveUnknown_ok.mp hResult).1
  rw [hStatus] at hResult
  refine ⟨hNone, hClaims, hStatus, result, hResult, hDrained, ?_⟩
  simp only [hStatus]
  rw [← hNone]

theorem decodeSemantics_ok {rows : List SemanticRow} {semantics : List SemanticCompletion}
    (h : rows.mapM decodeSemanticCompletion = .ok semantics) : semantics = rows.map (·.evidence) := by
  rw [mapM_ok] at h
  induction h with
  | nil => rfl
  | cons hRow _ ih =>
      simp only [decodeSemanticCompletion, bind_ok, require_ok, exists_const, pure_ok] at hRow
      rw [List.map_cons, hRow.2, ih]

/-- The exception that lifts the block of one failed judge call. -/
structure Recovers (store next : Store) (value : ContractRecovery) (block : Transition)
    (target : SemanticCompletion) : Prop where
  idle : store.checkpoint = none
  blocked : store.progress.status = .blocked
  last : store.progress.transitions.getLast? = some block
  cause : block.cause = .semanticRecoveryNotAllowed ∧ block.evidenceRefs = [value.executionId]
  after : block.time ≤ value.resolvedAt
  judged : target ∈ store.semantics.map (·.evidence) ∧ target.executionId = value.executionId
  evidence : target.finishedAt.same (block.evidenceAt.getD block.time) ∧
    block.evidenceAt.getD block.time ≤ block.time
  excepted : ∃ recovered, validateRecoveries (store.progress.semanticContractRecoveries ++ [value])
    (store.semantics.map (·.evidence)) store.creation.policy = .ok recovered
  planned : ∃ slots preflight action, projectSlots store.creation.slots store.generations store.dispatches
      store.semantics store.progress.resultUnknownResolutions
      (store.progress.semanticContractRecoveries ++ [value]) store.creation.policy = .ok slots ∧
    store.progress.preflight = some preflight ∧
    nextAction .collecting preflight.status preflight.caseId slots store.creation.policy none 0 = .ok action ∧
    action.kind = .semantic
  resolved : store.progress.unresolvedResultUnknownCount = 0
  next : next = { store with
    version := store.version + 1
    progress := { store.progress with
      status := .collecting
      semanticContractRecoveries := store.progress.semanticContractRecoveries ++ [value]
      transitions := store.progress.transitions ++
        [{ source := some .blocked, target := .collecting, cause := .semanticContractRecoveryApproved
           actor := value.actor, time := value.resolvedAt, evidenceRefs := [value.executionId] }] } }

theorem authorizeContractRecovery_ok (h : store.Valid) {expectedVersion : Nat} {expectedReleaseFingerprint : String}
    {value : ContractRecovery} {confirm : Bool}
    (hOk : store.authorizeContractRecovery expectedVersion expectedReleaseFingerprint value confirm = .ok next) :
    ∃ block target, store.Recovers next value block target := by
  simp only [authorizeContractRecovery, contractBlock, bind_ok, require_ok, exists_const, demand_ok, pure_ok] at hOk
  obtain ⟨_, _, hIdle, _, block, ⟨_, hLast, ⟨hStatus, hCause, hRefs, hAfter⟩, rfl⟩, unknowns, hUnknowns, hResolved,
    semantics, hDecode, recovered, hValid, target, hTarget, hEvidence, _, slots, hSlots, preflight, hPreflight, action,
    hAction, ⟨hKind, _⟩, saved, hSave, rfl⟩ := hOk
  obtain ⟨_, hNone⟩ := requireIdle_ok hIdle
  obtain ⟨_, rfl⟩ := saveCheckpoint_ok hSave
  have hSemantics := decodeSemantics_ok hDecode
  subst hSemantics
  obtain ⟨hMem, hId⟩ := lookup_some hTarget
  have hUnknowns := loadResolutionEvidence_ok hUnknowns
  have hCounted := h.counted
  rw [← hUnknowns] at hCounted
  refine ⟨_, target, hNone, hStatus, hLast, ⟨hCause, hRefs⟩, hAfter, ⟨hMem, hId⟩, hEvidence, ⟨recovered, hValid⟩,
    ⟨slots, preflight, action, hSlots, hPreflight, hAction, hKind⟩, ?_, ?_⟩
  · rcases hResolved with hNil | hLength
    · rw [hNil, List.length_nil] at hCounted
      omega
    · omega
  · rw [← hNone]

/-- The Run asks its work to drain. -/
structure Requests (store next : Store) (decision : CancellationDecision) : Prop where
  uncanceled : store.progress.cancelRequested = none
  running : store.progress.status = .collecting ∨ store.progress.status = .blocked
  drains : decision.discard = false
  busy : store.claims ≠ [] ∨ (∃ cp ∈ store.checkpoint, cp.phase = .dispatching) ∨
    store.progress.unresolvedResultUnknownCount ≠ 0
  version : 0 < store.version
  next : next = { store with
    version := store.version + 1
    progress := { store.progress with
      cancelRequested := some ⟨store.version, store.version + 1, decision.actor, decision.reason,
        decision.canceledAt⟩ } }

/-- The Run ends without work and without unknown calls. -/
structure EndsCanceled (store next : Store) (decision : CancellationDecision) (now : DateTime)
    (record : CancellationRecord) : Prop where
  claims : store.creation.mode = .candidateV2 → store.claims = []
  prepared : ∀ cp ∈ store.checkpoint, cp.phase = .prepared
  resolved : store.progress.unresolvedResultUnknownCount = 0
  version : 0 < store.version
  derived : store.cancellationRecord store.checkpoint decision now = .ok record
  next : next = { store with
    version := store.version + 1
    checkpoint := none
    progress := { store.progress with
      status := .canceled
      canceledAt := some record.canceledAt
      cancellation := some record
      canceledCheckpoint := store.checkpoint
      transitions := store.progress.transitions ++ [cancellationTransition record] } }

/-- Cancellation asks running work to drain, or ends the Run at once. -/
theorem cancel_ok {expectedVersion : Nat} {decision : CancellationDecision} {confirm : Bool} {now : DateTime}
    (hOk : store.cancel expectedVersion decision confirm now = .ok next) :
    store.Requests next decision ∨ ∃ record, store.EndsCanceled next decision now record := by
  simp only [cancel, bind_ok, require_ok, exists_const] at hOk
  obtain ⟨⟨_, hPositive, _⟩, rfl, active, hActive, hOk⟩ := hOk
  split at hOk
  · rename_i hBusy
    simp only [requestCancellation, bind_ok, require_ok, exists_const, pure_ok] at hOk
    obtain ⟨⟨hRunning, hDrains⟩, hNone, _, saved, hSave, rfl⟩ := hOk
    obtain ⟨_, rfl⟩ := saveCheckpoint_ok hSave
    refine .inl ⟨hNone, hRunning, hDrains, hBusy.imp_left fun hActives hClaims => hActives ?_, hPositive, rfl⟩
    unfold cancelClaims at hActive
    split at hActive
    · rw [(activeClaims_ok.mp hActive).2, hClaims, List.map_nil]
    · exact ((pure_ok _ _).mp hActive).symm
  · rename_i hIdle
    simp only [not_or, not_not] at hIdle
    obtain ⟨rfl, hPrepared, hResolved⟩ := hIdle
    simp only [endCanceled, bind_ok] at hOk
    obtain ⟨record, hRecord, saved, hSave, hPure⟩ := hOk
    rw [pure_ok] at hPure
    subst hPure
    obtain ⟨_, rfl⟩ := saveCheckpoint_ok hSave
    refine .inr ⟨record, ?_, ?_, hResolved, hPositive, hRecord, rfl⟩
    · intro hMode
      rw [cancelClaims, if_pos hMode] at hActive
      have hNil := (activeClaims_ok.mp hActive).2
      exact List.map_eq_nil_iff.mp hNil.symm
    · intro cp hCp
      cases hPhase : cp.phase with
      | prepared => rfl
      | dispatching => exact absurd ⟨cp, hCp, hPhase⟩ hPrepared

/-- A requested cancellation is finished, or there is nothing to finish yet. -/
theorem finishCancellation_ok {time now : DateTime} (hOk : store.finishCancellation time now = .ok next) :
    next = store ∨ ∃ intent decision record, store.progress.cancelRequested = some intent ∧
      CancellationDecision.make intent.actor intent.reason false (DateTime.latest time [intent.requestedAt]) =
        .ok decision ∧
      store.EndsCanceled next decision now record := by
  unfold finishCancellation at hOk
  split at hOk
  · exact .inl ((pure_ok _ _).mp hOk).symm
  · rename_i intent hIntent
    split at hOk
    · exact .inl ((pure_ok _ _).mp hOk).symm
    · obtain ⟨active, _, hOk⟩ := (bind_ok _ _ _).mp hOk
      split at hOk
      · exact .inl ((pure_ok _ _).mp hOk).symm
      · obtain ⟨decision, hDecision, hOk⟩ := (bind_ok _ _ _).mp hOk
        rcases cancel_ok hOk with hRequests | ⟨record, hEnds⟩
        · rw [hRequests.uncanceled] at hIntent
          cases hIntent
        · exact .inr ⟨intent, decision, record, hIntent, hDecision, hEnds⟩

end Store

end QsAi
