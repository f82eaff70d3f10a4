import QsAi.Run.Fencing

/-! Terminal evidence that cannot be refused. A result that belongs to the owned
call and is sound by itself passes every check against the records of the Run:
the slot, the dispatch and the earlier evidence are always in its favour. -/
namespace QsAi

open Guarded Keyed Numbered

/-! Ownership does not depend on the lease. -/

theorem GenerationCompletion.matches_of_call {completion : GenerationCompletion} {a b : ExecutionCheckpoint}
    {owner : String} (h : completion.matchesCheckpoint a owner) (hCall : a.call = b.call) :
    completion.matchesCheckpoint b owner := by
  simp only [ExecutionCheckpoint.call, CheckpointFields.mk.injEq] at hCall
  obtain ⟨hExecution, hKind, hCase, hSlot, _, hOrdinal, hOwner, hInvocation, hPhase, _, _, hStarted⟩ := hCall
  unfold matchesCheckpoint at h ⊢
  rw [← hExecution, ← hKind, ← hCase, ← hSlot, ← hOrdinal, ← hOwner, ← hInvocation, ← hPhase, ← hStarted]
  exact h

theorem SemanticCompletion.matches_of_call {completion : SemanticCompletion} {a b : ExecutionCheckpoint}
    {owner fingerprint : String} (h : completion.matchesCheckpoint a owner fingerprint) (hCall : a.call = b.call) :
    completion.matchesCheckpoint b owner fingerprint := by
  simp only [ExecutionCheckpoint.call, CheckpointFields.mk.injEq] at hCall
  obtain ⟨hExecution, hKind, _, _, hCandidate, hOrdinal, hOwner, hInvocation, hPhase, _, _, hStarted⟩ := hCall
  unfold matchesCheckpoint at h ⊢
  rw [← hExecution, ← hKind, ← hCandidate, ← hOrdinal, ← hOwner, ← hInvocation, ← hPhase, ← hStarted]
  exact h

namespace Store

variable {store next : Store} {cp : ExecutionCheckpoint} {owner : String}

/-- The owner of a dispatched generation reports its outcome: the evidence keeps
to the frozen assets and a success brings a new candidate. -/
structure ReportsGeneration (store : Store) (cp : ExecutionCheckpoint) (owner : String)
    (completion : GenerationCompletion) (candidateId : String) (assertions : List AssertionReceipt) : Prop where
  owned : completion.matchesCheckpoint cp owner
  assets : validateGenerationCompletion store.creation.assets completion = .ok ()
  candidate : if completion.status = .succeeded then validId candidateId = true ∧ assertions ≠ []
    else candidateId = "" ∧ assertions = []
  fresh : some candidateId ∉ store.generations.map (·.candidateId)

/-- The owner of a dispatched judge call reports its outcome: the evidence keeps
to the frozen route, and the judgement of a success covers the candidate. -/
structure ReportsSemantic (store : Store) (cp : ExecutionCheckpoint) (owner : String)
    (completion : SemanticCompletion) : Prop where
  kind : cp.kind = .semantic
  owned : ∀ row ∈ store.generations, row.candidateId = some cp.candidateId →
    completion.matchesCheckpoint cp owner row.evidence.normalizedFingerprint
  route : ∀ receipt ∈ completion.receipt, receipt.provider = store.creation.assets.judge.provider ∧
    receipt.model = store.creation.assets.judge.model
  judged : completion.status = .succeeded → ∀ row ∈ store.generations, row.candidateId = some cp.candidateId →
    ∀ stored ∈ row.candidate, ∀ receipt ∈ completion.receipt,
      ∃ accepted, acceptJudgement store.creation.assets completion receipt row.evidence stored = .ok accepted

/-! The records of an owned call. -/

/-- The dispatch of a live call is found by its invocation. -/
theorem Valid.dispatched (h : store.Valid) (hLive : cp ∈ store.live) (hPhase : cp.phase = .dispatching) :
    ∃ entry, lookup (·.invocationId) store.dispatches cp.invocationId = some entry ∧ entry.checkpoint.call = cp.call := by
  obtain ⟨entry, hEntry, hCall⟩ := (h.sound.live cp hLive).owned hPhase
  refine ⟨entry, UniqueOn.lookup_iff h.sound.calls.invocations |>.mpr ⟨hEntry, ?_⟩, hCall⟩
  rw [congrArg DispatchRow.invocationId (h.sound.calls.recorded entry hEntry).1]
  exact (ExecutionCheckpoint.same_of_call hCall).1

/-- A live call has no outcome yet, under any of its identities. -/
theorem Valid.unsettled (h : store.Valid) (hLive : cp ∈ store.live) (hPhase : cp.phase = .dispatching)
    {completion : Completion} (hMem : completion ∈ store.book.completions) :
    completion.invocationId ≠ cp.invocationId ∧ completion.executionId ≠ cp.executionId := by
  have hOpen : cp.invocationId ∈ store.book.openInvocations :=
    List.mem_map.mpr ⟨cp, List.mem_filter.mpr ⟨hLive, decide_eq_true hPhase⟩, rfl⟩
  have hInvocation : completion.invocationId ≠ cp.invocationId := by
    intro hSame
    refine h.sound.calls.balanced.not_settled_of_live hOpen ?_
    exact List.mem_map.mpr ⟨completion, hMem, hSame⟩
  refine ⟨hInvocation, ?_⟩
  intro hSame
  obtain ⟨row, hRow, hEnds⟩ := h.sound.calls.ended completion hMem
  obtain ⟨entry, hEntry, hCall⟩ := (h.sound.live cp hLive).owned hPhase
  have hExecution : entry.checkpoint.executionId = cp.executionId := by
    simp only [ExecutionCheckpoint.call, CheckpointFields.mk.injEq] at hCall
    exact hCall.1
  have hRecords : row.executionId = entry.executionId := by
    rw [congrArg DispatchRow.executionId (h.sound.calls.recorded row hRow).1,
      congrArg DispatchRow.executionId (h.sound.calls.recorded entry hEntry).1]
    exact hEnds.executionId.symm.trans (hSame.trans hExecution.symm)
  have hEq := h.sound.calls.executions.eq_of_key hRow hEntry hRecords
  refine hInvocation (hEnds.invocationId.trans ?_)
  rw [hEq]
  exact (ExecutionCheckpoint.same_of_call hCall).1

/-! Generations. -/

/-- The earlier generations of a slot that is worked on. -/
theorem Valid.previous_generations (h : store.Valid) (hLive : cp ∈ store.live) (hKind : cp.kind = .generation) :
    (∀ row ∈ store.generations.filter (·.slot = cp.slot), row.candidateId = none) ∧
    (sorted (·.executionOrdinal) (store.generations.filter (·.slot = cp.slot))).map (·.executionOrdinal) =
      List.range' 1 (cp.executionOrdinal - 1) := by
  have hHolds := h.sound.live cp hLive
  have hTarget : cp.target = .slot cp.slot := by simp only [ExecutionCheckpoint.target, hKind]
  have hHistory : store.book.history cp.target = (store.generations.filter (·.slot = cp.slot)).map
      fun row => Completion.generation row.evidence := by
    rw [hTarget]
    exact h.sound.candidates.history_slot cp.slot
  have hComplete : Complete (·.executionOrdinal) (store.generations.filter (·.slot = cp.slot)) :=
    (h.sound.slotGenerations_eq cp.slot).1
  refine ⟨?_, ?_⟩
  · intro row hRow
    have hMem : Completion.generation row.evidence ∈ store.book.history cp.target := by
      rw [hHistory]
      exact List.mem_map_of_mem hRow
    have hOpen := (hHolds.permitted _ hMem).not_succeeded
    exact ((h.sound.candidates.outcome row (List.mem_filter.mp hRow).1).otherwise hOpen).2
  · rw [hComplete.map_sorted, hHolds.next, hHistory, List.length_map, Nat.add_sub_cancel]

theorem Valid.readGenerationAcceptance_total (h : store.Valid) (hLive : cp ∈ store.live)
    {completion : GenerationCompletion} (hOwned : completion.matchesCheckpoint cp owner)
    (hAssets : validateGenerationCompletion store.creation.assets completion = .ok ()) :
    store.readGenerationAcceptance cp owner completion = .ok () := by
  obtain ⟨hPhase, hKind, _, _, hInvocation, hCase, hSlot, hOrdinal, _⟩ := id hOwned
  obtain ⟨entry, hEntry, hCall⟩ := h.dispatched hLive hPhase
  obtain ⟨hOpen, hNumbers⟩ := h.previous_generations hLive hKind
  have hIdentity : (completion.caseId, completion.slotOrdinal) = cp.slot := by
    rw [hCase, hSlot]
    rfl
  have hPlanned : cp.slot ∈ store.creation.slots := (h.sound.live cp hLive).planned
  simp only [readGenerationAcceptance, bind_ok, require_ok, exists_const, demand_ok]
  refine ⟨hOwned, hIdentity ▸ hPlanned, entry, hInvocation ▸ hEntry,
    GenerationCompletion.matches_of_call hOwned hCall.symm, ⟨?_, ?_⟩, hAssets⟩
  · intro row hRow
    rw [hIdentity] at hRow
    exact hOpen row (mem_sorted.mp hRow)
  · rw [hIdentity, hOrdinal]
    exact hNumbers

/-- The row of a live generation can be inserted. -/
theorem Valid.insertGeneration_total (h : store.Valid) (hLive : cp ∈ store.live) {completion : GenerationCompletion}
    (hOwned : completion.matchesCheckpoint cp owner) {candidate : Option Candidate}
    (hFresh : ∀ stored ∈ candidate, some stored.id ∉ store.generations.map (·.candidateId)) :
    store.insertGeneration (generationTerminalValues completion candidate) =
      .ok { store with generations := store.generations ++ [generationTerminalValues completion candidate] } := by
  obtain ⟨hPhase, hKind, _, hExecution, hInvocation, hCase, hSlot, hOrdinal, _⟩ := id hOwned
  have hIndex := h.sound.candidates.generationIndex
  simp only [insertGeneration, bind_ok, require_ok, exists_const, pure_ok, and_true]
  refine ⟨?_, ?_, ?_, ?_⟩
  · intro hMem
    obtain ⟨row, hRow, hSame⟩ := List.mem_map.mp hMem
    have hOther : row.evidence.executionId = cp.executionId := (hIndex row hRow).1.trans (hSame.trans hExecution)
    exact (h.unsettled hLive hPhase (Book.generation_mem hRow)).2 hOther
  · intro hMem
    obtain ⟨row, hRow, hSame⟩ := List.mem_map.mp hMem
    have hOther : row.evidence.invocationId = cp.invocationId := (hIndex row hRow).2.1.trans (hSame.trans hInvocation)
    exact (h.unsettled hLive hPhase (Book.generation_mem hRow)).1 hOther
  · cases candidate with
    | none => exact .inl rfl
    | some stored => exact .inr (hFresh stored rfl)
  · intro hMem
    obtain ⟨row, hRow, hSame⟩ := List.mem_map.mp hMem
    obtain ⟨hSameSlot, hSameOrdinal⟩ := Prod.mk.inj hSame
    have hFiltered : row ∈ store.generations.filter (·.slot = cp.slot) := by
      refine List.mem_filter.mpr ⟨hRow, decide_eq_true ?_⟩
      rw [hSameSlot]
      change (completion.caseId, completion.slotOrdinal) = (cp.caseId, cp.slotOrdinal)
      rw [hCase, hSlot]
    have hNumber : row.executionOrdinal ∈ List.range' 1 (cp.executionOrdinal - 1) := by
      rw [← (h.previous_generations hLive hKind).2]
      exact List.mem_map_of_mem (mem_sorted.mpr hFiltered)
    have hSameOrdinal : row.executionOrdinal = cp.executionOrdinal := hSameOrdinal.trans hOrdinal
    rw [List.mem_range'_1] at hNumber
    omega

/-- The candidate that a report brings. -/
theorem ReportsGeneration.candidate_total {completion : GenerationCompletion} {candidateId : String}
    {assertions : List AssertionReceipt} (hReports : store.ReportsGeneration cp owner completion candidateId assertions) :
    ∃ candidate, generationCandidate completion candidateId assertions = .ok candidate ∧
      ∀ stored ∈ candidate, some stored.id ∉ store.generations.map (·.candidateId) := by
  have hCandidate := hReports.candidate
  by_cases hStatus : completion.status = .succeeded
  · rw [if_pos hStatus] at hCandidate
    have hMade : generationCandidate completion candidateId assertions = .ok (some
        { id := candidateId
          generationExecutionId := completion.executionId
          normalizedOutputFingerprint := completion.normalizedFingerprint
          acceptedAt := completion.finishedAt.isoformat
          assertions
          reviewReady := false }) := by
      rw [generationCandidate, if_pos hStatus, require_bind_pos hCandidate]
      rfl
    refine ⟨_, hMade, ?_⟩
    rintro stored ⟨rfl⟩
    exact hReports.fresh
  · rw [if_neg hStatus] at hCandidate
    refine ⟨none, ?_, fun stored hStored => by cases hStored⟩
    rw [generationCandidate, if_neg hStatus, require_bind_pos hCandidate]
    rfl

/-! Judge calls. -/

/-- The candidate that a live judge call works on. -/
theorem Valid.judged_candidate (h : store.Valid) (hLive : cp ∈ store.live) (hKind : cp.kind = .semantic) :
    ∃ row ∈ store.generations, ∃ stored, lookup (·.candidateId) store.generations (some cp.candidateId) = some row ∧
      row.candidateId = some cp.candidateId ∧ row.slot = cp.slot ∧ row.candidate = some stored ∧
      row.evidence.status = .succeeded ∧ stored.id = cp.candidateId ∧ stored.reviewReady = false ∧
      stored.generationExecutionId = row.evidence.executionId ∧
      stored.normalizedOutputFingerprint = row.evidence.normalizedFingerprint := by
  have hHolds := h.sound.live cp hLive
  obtain ⟨source, hSource, hId, hSlot⟩ := hHolds.accepted hKind
  have hFind : lookup (·.candidateId) store.generations (some cp.candidateId) = some source := by
    cases hFound : lookup (·.candidateId) store.generations (some cp.candidateId) with
    | none => exact absurd hId (lookup_eq_none.mp hFound source hSource)
    | some row =>
        obtain ⟨hMem, hKey⟩ := lookup_some hFound
        rw [h.sound.source_unique hMem hSource hKey hId]
  have hOutcome := h.sound.candidates.outcome source hSource
  have hStatus : source.evidence.status = .succeeded := by
    by_contra hNot
    rw [(hOutcome.otherwise hNot).2] at hId
    cases hId
  obtain ⟨stored, hStored, hStoredId, _, hExecution, hFingerprint, _⟩ := hOutcome.succeeded hStatus
  have hSame : stored.id = cp.candidateId := Option.some.inj (hStoredId.symm.trans hId)
  refine ⟨source, hSource, stored, hFind, hId, hSlot, hStored, hStatus, hSame, ?_, hExecution, hFingerprint⟩
  -- a judge call that may follow leaves no accepted one before it
  have hReviewed := h.sound.candidates.reviewed source hSource stored hStored
  rw [hReviewed.ready]
  cases hAccepted : stored.acceptedSemanticExecutionId with
  | none => rfl
  | some id =>
      obtain ⟨row, hRow, hOf, hSucceeded, _⟩ := (hReviewed.accepted id).mp hAccepted
      have hTarget : (Completion.semantic row.evidence).target = cp.target := by
        simp only [Completion.target, ExecutionCheckpoint.target, hKind, Target.candidate.injEq]
        exact (h.sound.candidates.semanticIndex row hRow).2.2.2.1.trans (hOf.trans hSame)
      have hMem := Book.mem_history.mpr ⟨Book.semantic_mem hRow, hTarget⟩
      exact absurd hSucceeded (hHolds.permitted _ hMem).not_succeeded

/-- The earlier judge calls of a candidate that is worked on. -/
theorem Valid.previous_semantics (h : store.Valid) (hLive : cp ∈ store.live) (hKind : cp.kind = .semantic) :
    (∀ row ∈ store.semantics.filter (·.candidateId = cp.candidateId), row.result = none) ∧
    (sorted (·.executionOrdinal) (store.semantics.filter (·.candidateId = cp.candidateId))).map (·.executionOrdinal) =
      List.range' 1 (cp.executionOrdinal - 1) := by
  have hHolds := h.sound.live cp hLive
  have hTarget : cp.target = .candidate cp.candidateId := by simp only [ExecutionCheckpoint.target, hKind]
  have hHistory : store.book.history cp.target =
      (store.semantics.filter (·.candidateId = cp.candidateId)).map fun row => Completion.semantic row.evidence := by
    rw [hTarget]
    exact h.sound.candidates.history_candidate cp.candidateId
  have hComplete : Complete (·.executionOrdinal) (store.semantics.filter (·.candidateId = cp.candidateId)) :=
    (h.sound.judgements_eq cp.candidateId).1
  refine ⟨?_, ?_⟩
  · intro row hRow
    have hMem : Completion.semantic row.evidence ∈ store.book.history cp.target := by
      rw [hHistory]
      exact List.mem_map_of_mem hRow
    have hOpen := (hHolds.permitted _ hMem).not_succeeded
    obtain ⟨hSemantic, hOf⟩ := List.mem_filter.mp hRow
    obtain ⟨source, hSource, stored, _, _, _, hStored, _, hSame, _⟩ := h.judged_candidate hLive hKind
    have hReviewed := h.sound.candidates.reviewed source hSource stored hStored
    have hResult := hReviewed.results row hSemantic ((of_decide_eq_true hOf).trans hSame.symm)
    exact (Book.checkSemanticResult_open hOpen).mp hResult
  · rw [hComplete.map_sorted, hHolds.next, hHistory, List.length_map, Nat.add_sub_cancel]

theorem Valid.readSemanticAcceptance_total (h : store.Valid) (hLive : cp ∈ store.live)
    {completion : SemanticCompletion} (hReports : store.ReportsSemantic cp owner completion) :
    ∃ accepted, store.readSemanticAcceptance cp owner completion = .ok accepted := by
  have hKind := hReports.kind
  obtain ⟨source, hSource, stored, hFind, hId, hSlot, hStored, hStatus, hSame, hReady, hExecution, hFingerprint⟩ :=
    h.judged_candidate hLive hKind
  have hOwned := hReports.owned source hSource hId
  obtain ⟨_, hPhase, _, _, hCandidate, hOrdinal, hInvocation, _, _⟩ := id hOwned
  obtain ⟨entry, hEntry, hCall⟩ := h.dispatched hLive hPhase
  obtain ⟨hResults, hNumbers⟩ := h.previous_semantics hLive hKind
  have hIndex := h.sound.candidates.generationIndex source hSource
  have hSourceSlot : cp.slot = (source.evidence.caseId, source.evidence.slotOrdinal) := by
    rw [← hSlot, GenerationRow.slot, hIndex.2.2.1, hIndex.2.2.2.1]
  have hJudged : ∃ accepted, (if completion.status = .succeeded then do
        let receipt ← demand completion.receipt (.invalid "AssertionError")
        acceptJudgement store.creation.assets completion receipt source.evidence stored
      else pure ⟨source.evidence, stored, none⟩ : Except Rejection SemanticAcceptance) = .ok accepted := by
    by_cases hSucceeded : completion.status = .succeeded
    · obtain ⟨receipt, hReceipt⟩ := Option.ne_none_iff_exists'.mp (completion.status_facts.1 hSucceeded).1
      obtain ⟨accepted, hAccepted⟩ := hReports.judged hSucceeded source hSource hId stored hStored receipt hReceipt
      refine ⟨accepted, ?_⟩
      rw [if_pos hSucceeded, hReceipt]
      exact hAccepted
    · exact ⟨_, by rw [if_neg hSucceeded]; rfl⟩
  obtain ⟨accepted, hAccepted⟩ := hJudged
  refine ⟨accepted, ?_⟩
  simp only [readSemanticAcceptance, decodeCompletion, bind_ok, require_ok, exists_const, demand_ok, pure_ok]
  rw [hCandidate, hInvocation, hOrdinal]
  exact ⟨source, hFind, stored, hStored, _, ⟨hIndex, rfl⟩, ⟨hStatus, hReady, hOwned, hSourceSlot⟩,
    ⟨hSame, hExecution, hFingerprint⟩, entry, hEntry, ⟨SemanticCompletion.matches_of_call hOwned hCall.symm,
      ExecutionCheckpoint.slot_of_call hCall⟩, ⟨hNumbers, fun row hRow => hResults row (mem_sorted.mp hRow)⟩,
    hReports.route, hAccepted⟩

/-- The row of a live judge call can be stored. -/
theorem Valid.storeSemantic_total (h : store.Valid) (hLive : cp ∈ store.live) {completion : SemanticCompletion}
    {fingerprint : String} (hOwned : completion.matchesCheckpoint cp owner fingerprint)
    (accepted : SemanticAcceptance) : ∃ stored, store.storeSemantic completion accepted = .ok stored := by
  obtain ⟨hKind, hPhase, _, hExecution, hCandidate, hOrdinal, hInvocation, _, _⟩ := hOwned
  have hIndex := h.sound.candidates.semanticIndex
  simp only [storeSemantic, insertSemantic, bind_ok, require_ok, exists_const, pure_ok]
  refine ⟨_, _, ⟨?_, ?_, ?_, rfl⟩, rfl⟩
  · intro hMem
    obtain ⟨row, hRow, hSame⟩ := List.mem_map.mp hMem
    have hOther : row.evidence.executionId = cp.executionId := (hIndex row hRow).2.1.trans (hSame.trans hExecution)
    exact (h.unsettled hLive hPhase (Book.semantic_mem hRow)).2 hOther
  · intro hMem
    obtain ⟨row, hRow, hSame⟩ := List.mem_map.mp hMem
    have hOther : row.evidence.invocationId = cp.invocationId :=
      (hIndex row hRow).2.2.1.trans (hSame.trans hInvocation)
    exact (h.unsettled hLive hPhase (Book.semantic_mem hRow)).1 hOther
  · intro hMem
    obtain ⟨row, hRow, hSame⟩ := List.mem_map.mp hMem
    obtain ⟨hSameCandidate, hSameOrdinal⟩ := Prod.mk.inj hSame
    have hFiltered : row ∈ store.semantics.filter (·.candidateId = cp.candidateId) :=
      List.mem_filter.mpr ⟨hRow, decide_eq_true (hSameCandidate.trans hCandidate)⟩
    have hNumber : row.executionOrdinal ∈ List.range' 1 (cp.executionOrdinal - 1) := by
      rw [← (h.previous_semantics hLive hKind).2]
      exact List.mem_map_of_mem (mem_sorted.mpr hFiltered)
    have hSameOrdinal : row.executionOrdinal = cp.executionOrdinal := hSameOrdinal.trans hOrdinal
    rw [List.mem_range'_1] at hNumber
    omega

end Store

end QsAi
