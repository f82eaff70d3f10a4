import QsAi.Run.Slots

/-! Reading a sound book. The slots are reconstructed without a refusal, and
each of them is the planner's view of its own history. -/
namespace QsAi

open Guarded Keyed Numbered

namespace Completion

theorem generation_of_ends {value : GenerationCompletion} {cp : ExecutionCheckpoint}
    (h : (Completion.generation value).Ends cp) : value.matchesCheckpoint cp cp.owner := by
  have hKind : cp.kind = .generation := h.kind.symm
  have hTarget := h.target
  simp only [target, ExecutionCheckpoint.target, hKind, ExecutionCheckpoint.slot, Target.slot.injEq,
    Prod.mk.injEq] at hTarget
  exact ⟨h.phase, hKind, (strip_of_validId cp.facts.owner).symm, h.executionId, h.invocationId, hTarget.1, hTarget.2,
    h.executionOrdinal, h.started⟩

theorem semantic_of_ends {value : SemanticCompletion} {cp : ExecutionCheckpoint}
    (h : (Completion.semantic value).Ends cp) :
    value.matchesCheckpoint cp cp.owner value.candidateOutputFingerprint := by
  have hKind : cp.kind = .semantic := h.kind.symm
  have hTarget := h.target
  simp only [target, ExecutionCheckpoint.target, hKind, Target.candidate.injEq] at hTarget
  exact ⟨hKind, h.phase, (strip_of_validId cp.facts.owner).symm, h.executionId, hTarget, h.executionOrdinal,
    h.invocationId, rfl, h.started⟩

theorem failure_of_succeeded {completion : Completion} (h : completion.status = .succeeded) :
    completion.failure = none := by
  cases completion with
  | generation value => exact (value.status_facts.1 h).2.2
  | semantic value => exact (value.status_facts.1 h).2.2

end Completion

theorem DispatchRow.record_matches (cp : ExecutionCheckpoint) : (DispatchRow.record cp).IndexMatches :=
  ⟨rfl, rfl, rfl, rfl, rfl, rfl⟩

theorem mem_replacedExecutions {resolutions : List ResultUnknownResolution} {id : String} :
    id ∈ replacedExecutions resolutions ↔
      ∃ r ∈ resolutions, r.decision = .authorizeReplacement ∧ r.executionId = id := by
  simp [replacedExecutions, and_assoc]

theorem Creation.slots_nodup (creation : Creation) : creation.slots.Nodup := by
  rw [Creation.slots, List.nodup_flatMap]
  constructor
  · intro caseId _
    exact List.Nodup.map (fun a b hab => congrArg Prod.snd hab) List.nodup_range'
  · refine creation.cases.2.imp ?_
    intro first second hNe slot hFirst hSecond
    obtain ⟨_, _, rfl⟩ := List.mem_map.mp hFirst
    obtain ⟨_, _, hEq⟩ := List.mem_map.mp hSecond
    exact hNe (congrArg Prod.fst hEq).symm

theorem rowJudgements_mem {records : List SemanticRow} {row : GenerationRow} {judgement : SemanticRow} :
    judgement ∈ rowJudgements records row ↔
      judgement ∈ records ∧ ∃ stored, row.candidate = some stored ∧ judgement.candidateId = stored.id := by
  cases hCandidate : row.candidate with
  | none => simp [rowJudgements, hCandidate]
  | some stored => simp [rowJudgements, hCandidate, judgements_mem]

namespace Book

variable {b : Book} {completion : Completion}

theorem generationFields_eq (b : Book) (value : GenerationCompletion) :
    generationFields b.authorizations value = b.resultOf (.generation value) := by
  simp [generationFields, resultOf, authorizations, Completion.status, Completion.failure, Completion.executionId,
    Completion.kind]
  rfl

theorem judgementFields_eq (b : Book) (value : SemanticCompletion) :
    judgementFields b.authorizations value = b.resultOf (.semantic value) := by
  simp [judgementFields, resultOf, authorizations, Completion.status, Completion.failure, Completion.executionId,
    Completion.kind]
  rfl

namespace Sound

variable (h : b.Sound)
include h

/-- A replaced execution is one whose result was unknown. -/
theorem unknown_of_replaced (hMem : completion ∈ b.completions)
    (hReplaced : completion.executionId ∈ replacedExecutions b.resolutions) : completion.status = .resultUnknown := by
  obtain ⟨r, hr, _, hId⟩ := mem_replacedExecutions.mp hReplaced
  obtain ⟨e, he, hSame, _⟩ := h.decisions.resolved.decides r hr
  rw [h.candidates.unknownExecutions_eq] at he
  obtain ⟨other, hOther, rfl⟩ := List.mem_map.mp he
  obtain ⟨hOtherMem, hStatus⟩ := List.mem_filter.mp hOther
  have hEq := h.calls.executions_unique.eq_of_key hOtherMem hMem (hSame.trans hId)
  rw [← hEq]
  exact of_decide_eq_true hStatus

/-- A repeated judge call is one that broke its contract. -/
theorem excepted_of_recovered {value : SemanticCompletion} (hMem : Completion.semantic value ∈ b.completions)
    (hRecovered : value.executionId ∈ b.recoveries.map (·.executionId)) :
    value.status = .failed ∧ contractFailure value.failure = true := by
  obtain ⟨recovery, hRecovery, hId⟩ := List.mem_map.mp hRecovered
  obtain ⟨target, hTarget, hSame, hTargets, _⟩ := h.decisions.excepted recovery hRecovery
  obtain ⟨row, hRow, rfl⟩ := List.mem_map.mp hTarget
  have hEq := h.calls.executions_unique.eq_of_key (semantic_mem hRow) hMem (hSame.trans hId)
  cases hEq
  exact ⟨hTargets.1, hTargets.2.1⟩

theorem resultOf_check (hMem : completion ∈ b.completions) : (b.resultOf completion).check = .ok () := by
  simp only [ResultFields.check, bind_ok, require_ok, exists_const]
  simp only [resultOf, decide_eq_true_eq]
  refine ⟨h.unknown_of_replaced hMem, ?_, Completion.failure_of_succeeded⟩
  rintro ⟨hKind, hRecovered⟩
  cases completion with
  | generation value => cases hKind
  | semantic value => exact h.excepted_of_recovered hMem hRecovered

omit h in
theorem mem_settledDispatches {row : DispatchRow} (hRow : row ∈ b.dispatches) (hMem : completion ∈ b.completions)
    (hSame : row.invocationId = completion.invocationId) : row ∈ b.settledDispatches := by
  refine List.mem_filter.mpr ⟨hRow, decide_eq_true ?_⟩
  rw [hSame]
  exact List.mem_map_of_mem hMem

/-- Every completion finds its call among the settled ones. -/
theorem lookup_entry (hMem : completion ∈ b.completions) :
    ∃ entry ∈ b.dispatches, lookup (·.invocationId) b.settledDispatches completion.invocationId = some entry ∧
      completion.Ends entry.checkpoint ∧ entry.IndexMatches ∧ entry.kind = completion.kind := by
  obtain ⟨row, hRow, hInvocation, hEnds⟩ := h.calls.entry hMem
  have hRecorded := (h.calls.recorded row hRow).1
  refine ⟨row, hRow, ?_, hEnds, ?_, ?_⟩
  · refine UniqueOn.lookup_iff (h.calls.invocations.sublist List.filter_sublist) |>.mpr ?_
    exact ⟨mem_settledDispatches hRow hMem hInvocation, hInvocation⟩
  · rw [hRecorded]
    exact DispatchRow.record_matches _
  · rw [hRecorded]
    exact hEnds.kind.symm

theorem candidate_stored {row : GenerationRow} {stored : Candidate} (hRow : row ∈ b.generations)
    (hStored : row.candidate = some stored) : row.candidateId = some stored.id := by
  have hOutcome := h.candidates.outcome row hRow
  obtain ⟨other, hOther, hId, _⟩ := hOutcome.succeeded (hOutcome.succeeded_of_candidate hStored)
  rw [hStored] at hOther
  cases hOther
  exact hId

/-- The generation that a candidate came from is determined by the candidate. -/
theorem source_unique {row other : GenerationRow} {candidateId : String} (hRow : row ∈ b.generations)
    (hOther : other ∈ b.generations) (hId : row.candidateId = some candidateId)
    (hOtherId : other.candidateId = some candidateId) : row = other :=
  h.candidates.unique row hRow other hOther (hId.trans hOtherId.symm) (by rw [hId]; simp)

theorem judgement_reads {row : GenerationRow} {stored : Candidate} {judgement : SemanticRow}
    (hRow : row ∈ b.generations) (hStored : row.candidate = some stored) (hJudgement : judgement ∈ b.semantics)
    (hOf : judgement.candidateId = stored.id) :
    JudgementReads stored row.evidence b.settledDispatches b.authorizations judgement := by
  have hMem := semantic_mem hJudgement
  have hIndex := h.candidates.semanticIndex judgement hJudgement
  have hId := h.candidate_stored hRow hStored
  obtain ⟨entry, hEntry, hFind, hEnds, hEntryIndex, _⟩ := h.lookup_entry hMem
  obtain ⟨source, hSource, hSourceId, hFingerprint⟩ := h.candidates.judged judgement hJudgement
  have hSame := h.source_unique hSource hRow (hSourceId.trans (by rw [hOf])) hId
  subst hSame
  have hKind : entry.checkpoint.kind = .semantic := hEnds.kind.symm
  obtain ⟨accepting, hAccepting, hAcceptedId, hSlot⟩ := h.candidates.issued entry hEntry hKind
  have hCandidate : entry.checkpoint.candidateId = stored.id := by
    have hTarget := hEnds.target
    simp only [Completion.target, ExecutionCheckpoint.target, hKind, Target.candidate.injEq] at hTarget
    rw [← hTarget, hIndex.2.2.2.1, hOf]
  have hAcceptingEq := h.source_unique hAccepting hSource (hAcceptedId.trans (by rw [hCandidate])) hId
  subst hAcceptingEq
  obtain ⟨_, _, hCase, hOrdinal, _⟩ := h.candidates.generationIndex accepting hAccepting
  refine ⟨hIndex, ⟨entry, hFind, ?_, ?_, hEntryIndex⟩, ?_, ?_⟩
  · rw [hFingerprint]
    exact Completion.semantic_of_ends hEnds
  · rw [hCase, hOrdinal, ← hSlot]
    rfl
  · exact (h.candidates.reviewed accepting hAccepting stored hStored).results judgement hJudgement hOf
  · rw [judgementFields_eq]
    exact h.resultOf_check hMem

/-- The judge calls of a candidate, in order, as completions. -/
theorem judgements_eq (candidateId : String) :
    Complete (·.executionOrdinal) (b.semantics.filter (·.candidateId = candidateId)) ∧
    (judgements b.semantics candidateId).map (fun row => Completion.semantic row.evidence) =
      sorted (·.executionOrdinal) (b.history (.candidate candidateId)) := by
  have hNumbers : ∀ row ∈ b.semantics.filter (·.candidateId = candidateId),
      (Completion.semantic row.evidence).executionOrdinal = row.executionOrdinal :=
    fun row hRow => (h.candidates.semanticIndex row (List.mem_filter.mp hRow).1).2.2.2.2
  have hComplete : Complete (·.executionOrdinal) (b.semantics.filter (·.candidateId = candidateId)) := by
    have hHistory := h.numbering.histories (.candidate candidateId)
    rw [h.candidates.history_candidate] at hHistory
    unfold Complete at hHistory ⊢
    rw [List.map_map, List.length_map] at hHistory
    rw [List.map_congr_left (g := fun row => row.executionOrdinal) hNumbers] at hHistory
    exact hHistory
  refine ⟨hComplete, ?_⟩
  rw [h.candidates.history_candidate]
  exact (sorted_map hNumbers hComplete).2.symm

theorem slotGenerations_eq (slot : String × Nat) :
    Complete (·.executionOrdinal) (b.generations.filter (·.slot = slot)) ∧
    (slotGenerations b.generations slot).map (fun row => Completion.generation row.evidence) =
      sorted (·.executionOrdinal) (b.history (.slot slot)) := by
  have hNumbers : ∀ row ∈ b.generations.filter (·.slot = slot),
      (Completion.generation row.evidence).executionOrdinal = row.executionOrdinal :=
    fun row hRow => (h.candidates.generationIndex row (List.mem_filter.mp hRow).1).2.2.2.2
  have hComplete : Complete (·.executionOrdinal) (b.generations.filter (·.slot = slot)) := by
    have hHistory := h.numbering.histories (.slot slot)
    rw [h.candidates.history_slot] at hHistory
    unfold Complete at hHistory ⊢
    rw [List.map_map, List.length_map] at hHistory
    rw [List.map_congr_left (g := fun row => row.executionOrdinal) hNumbers] at hHistory
    exact hHistory
  refine ⟨hComplete, ?_⟩
  rw [h.candidates.history_slot]
  exact (sorted_map hNumbers hComplete).2.symm

theorem semantics_unique : UniqueOn (·.invocationId) b.semantics := by
  have hSub : (b.semantics.map fun row => Completion.semantic row.evidence).Sublist b.completions :=
    List.sublist_append_right _ _
  exact (h.calls.completions_unique.sublist hSub).of_map fun row hRow =>
    (h.candidates.semanticIndex row hRow).2.2.1

theorem generations_unique : UniqueOn (·.invocationId) b.generations := by
  have hSub : (b.generations.map fun row => Completion.generation row.evidence).Sublist b.completions :=
    List.sublist_append_left _ _
  exact (h.calls.completions_unique.sublist hSub).of_map fun row hRow =>
    (h.candidates.generationIndex row hRow).2.1

/-- Only the last execution of a history can have succeeded. -/
theorem open_of_dropLast {target : Target}
    (hMem : completion ∈ (sorted (·.executionOrdinal) (b.history target)).dropLast) :
    completion.status ≠ .succeeded := by
  have hHistory : completion ∈ b.history target := mem_sorted.mp (List.mem_of_mem_dropLast hMem)
  obtain ⟨hCompletion, hTarget⟩ := mem_history.mp hHistory
  have hOrdinal := (h.numbering.histories target).number_lt_of_mem_dropLast hMem
  intro hStatus
  have hLast := h.succeeded_last hCompletion hStatus
  rw [hTarget] at hLast
  omega

theorem getLast_of_succeeded {target : Target} (hMem : completion ∈ b.history target)
    (hStatus : completion.status = .succeeded) :
    (sorted (·.executionOrdinal) (b.history target)).getLast? = some completion := by
  obtain ⟨hCompletion, hTarget⟩ := mem_history.mp hMem
  have hLast := h.succeeded_last hCompletion hStatus
  rw [hTarget] at hLast
  exact (h.numbering.histories target).getLast?_of_number hMem hLast

/-- The accepted judge call of a candidate is the successful one of its history. -/
theorem acceptedJudgement_iff {candidateId id : String} :
    acceptedJudgement (judgements b.semantics candidateId) = some id ↔
      ∃ row ∈ b.semantics, row.candidateId = candidateId ∧ row.evidence.status = .succeeded ∧
        row.executionId = id := by
  constructor
  · intro hSome
    obtain ⟨row, hRow, hStatus⟩ := Option.bind_eq_some_iff.mp hSome
    obtain ⟨hMem, hOf⟩ := judgements_mem.mp (List.mem_of_getLast? hRow)
    split at hStatus
    · rename_i hSucceeded
      refine ⟨row, hMem, hOf, hSucceeded, ?_⟩
      rw [← (h.candidates.semanticIndex row hMem).2.1]
      exact Option.some.inj hStatus
    · cases hStatus
  · rintro ⟨row, hRow, hOf, hStatus, rfl⟩
    have hIndex := h.candidates.semanticIndex row hRow
    have hHistory : Completion.semantic row.evidence ∈ b.history (.candidate candidateId) := by
      refine mem_history.mpr ⟨semantic_mem hRow, ?_⟩
      simp only [Completion.target, hIndex.2.2.2.1, hOf]
    have hLast := h.getLast_of_succeeded hHistory hStatus
    rw [← (h.judgements_eq candidateId).2, List.getLast?_map] at hLast
    obtain ⟨last, hGetLast, hSame⟩ := Option.map_eq_some_iff.mp hLast
    have hEvidence : last.evidence = row.evidence := Completion.semantic.inj hSame
    rw [acceptedJudgement, hGetLast]
    simp only [Option.bind_some, hEvidence, hStatus, if_true, hIndex.2.1]

theorem candidate_reads {row : GenerationRow} {stored : Candidate} (hRow : row ∈ b.generations)
    (hStored : row.candidate = some stored) :
    CandidateReads stored row.evidence b.semantics b.settledDispatches b.authorizations := by
  have hOutcome := h.candidates.outcome row hRow
  have hReviewed := h.candidates.reviewed row hRow stored hStored
  obtain ⟨other, hOther, _, hValid, _⟩ := hOutcome.succeeded (hOutcome.succeeded_of_candidate hStored)
  rw [hStored] at hOther
  cases hOther
  obtain ⟨hComplete, hOrder⟩ := h.judgements_eq stored.id
  refine ⟨hValid, hComplete, fun judgement hMem hOf => h.judgement_reads hRow hStored hMem hOf, h.semantics_unique,
    ?_, ?_, hReviewed.ready⟩
  · intro judgement hMem
    have hDrop : Completion.semantic judgement.evidence ∈
        (sorted (·.executionOrdinal) (b.history (.candidate stored.id))).dropLast := by
      rw [← hOrder, ← List.map_dropLast]
      exact List.mem_map_of_mem hMem
    exact h.open_of_dropLast hDrop
  · refine Option.ext fun id => ?_
    rw [hReviewed.accepted, h.acceptedJudgement_iff]

theorem generation_reads {row : GenerationRow} (hRow : row ∈ b.generations) :
    GenerationReads b.semantics b.settledDispatches b.authorizations row := by
  refine ⟨h.candidates.outcome row hRow, fun stored hStored => h.candidate_reads hRow hStored, ?_⟩
  rw [generationFields_eq]
  exact h.resultOf_check (generation_mem hRow)

omit h in
theorem slot_valid {slot : String × Nat} (hSlot : slot ∈ b.creation.slots) :
    validId slot.1 = true ∧ 1 ≤ slot.2 := by
  simp only [Creation.slots, List.mem_flatMap, List.mem_map, List.mem_range'_1] at hSlot
  obtain ⟨caseId, hCase, ordinal, hOrdinal, rfl⟩ := hSlot
  exact ⟨b.creation.identities.2.2 caseId hCase, hOrdinal.1⟩

theorem slot_reads {slot : String × Nat} (hSlot : slot ∈ b.creation.slots) :
    SlotReads b.generations b.semantics b.settledDispatches b.authorizations slot := by
  obtain ⟨hComplete, hOrder⟩ := h.slotGenerations_eq slot
  refine ⟨slot_valid hSlot, hComplete, fun row hRow _ => h.generation_reads hRow, ?_⟩
  intro row hMem
  have hDrop : Completion.generation row.evidence ∈
      (sorted (·.executionOrdinal) (b.history (.slot slot))).dropLast := by
    rw [← hOrder, ← List.map_dropLast]
    exact List.mem_map_of_mem hMem
  exact h.open_of_dropLast hDrop

theorem record_reads {row : GenerationRow} (hRow : row ∈ b.generations) :
    RecordReads b.creation.slots b.settledDispatches row := by
  obtain ⟨entry, hEntry, hFind, hEnds, hIndex, hKind⟩ := h.lookup_entry (generation_mem hRow)
  refine ⟨h.candidates.generationIndex row hRow, ⟨entry, hFind, hKind, Completion.generation_of_ends hEnds, hIndex⟩,
    ?_⟩
  have hPlanned := h.calls.planned entry hEntry
  have hMatches := Completion.generation_of_ends hEnds
  rw [hMatches.2.2.2.2.2.1, hMatches.2.2.2.2.2.2.1]
  exact hPlanned

/-- A row with a candidate is the last one of its slot. -/
theorem getLast_of_candidate {row : GenerationRow} {stored : Candidate} (hRow : row ∈ b.generations)
    (hStored : row.candidate = some stored) :
    (slotGenerations b.generations row.slot).getLast? = some row := by
  have hIndex := h.candidates.generationIndex row hRow
  have hStatus := (h.candidates.outcome row hRow).succeeded_of_candidate hStored
  have hHistory : Completion.generation row.evidence ∈ b.history (.slot row.slot) := by
    refine mem_history.mpr ⟨generation_mem hRow, ?_⟩
    simp only [Completion.target, GenerationRow.slot, hIndex.2.2.1, hIndex.2.2.2.1]
  have hLast := h.getLast_of_succeeded hHistory hStatus
  rw [← (h.slotGenerations_eq row.slot).2, List.getLast?_map] at hLast
  obtain ⟨last, hGetLast, hSame⟩ := Option.map_eq_some_iff.mp hLast
  obtain ⟨hMem, _⟩ := slotGenerations_mem.mp (List.mem_of_getLast? hGetLast)
  have hEvidence : last.evidence = row.evidence := Completion.generation.inj hSame
  have hInvocation : last.invocationId = row.invocationId := by
    rw [← (h.candidates.generationIndex last hMem).2.1, ← hIndex.2.1, hEvidence]
  rw [hGetLast, h.generations_unique.eq_of_key hMem hRow hInvocation]

theorem projects_of_view {slot : String × Nat} {progress : SlotProgress}
    (hView : SlotView b.generations b.semantics b.authorizations slot progress) : b.Projects slot progress := by
  refine ⟨hView.identity, ?_, ?_, ?_⟩
  · rw [hView.generation, results, ← (h.slotGenerations_eq slot).2, List.map_map]
    exact List.map_congr_left fun row _ => generationFields_eq b row.evidence
  · intro hNone row hRow hSlot
    cases hStored : row.candidate with
    | none => rfl
    | some stored =>
        have hLast := h.getLast_of_candidate hRow hStored
        have hRel := hView.candidate
        rw [hSlot] at hLast
        rw [hLast, hNone, Option.bind_some, hStored] at hRel
        cases hRel
  · intro candidate hCandidate
    have hRel := hView.candidate
    rw [hCandidate] at hRel
    generalize hOrigin : (slotGenerations b.generations slot).getLast?.bind (·.candidate) = origin at hRel
    cases hRel with
    | @some stored _ hReads =>
        obtain ⟨row, hRow, hStored⟩ := Option.bind_eq_some_iff.mp hOrigin
        obtain ⟨hMem, hSlot⟩ := slotGenerations_mem.mp (List.mem_of_getLast? hRow)
        refine ⟨row, hMem, hSlot, stored, hStored, hReads.candidateId, hReads.reviewReady, ?_⟩
        rw [hReads.semantic, results, ← (h.judgements_eq stored.id).2, List.map_map]
        exact List.map_congr_left fun judgement _ => judgementFields_eq b judgement.evidence

/-- No judge call is found under two slots. -/
theorem plan_judgements_nodup :
    ((b.creation.slots.flatMap (slotJudgements b.generations b.semantics)).map (·.invocationId)).Nodup := by
  have hRows : (b.creation.slots.flatMap (slotGenerations b.generations)).Nodup := by
    rw [List.nodup_flatMap]
    constructor
    · intro slot _
      have hUnique := h.generations_unique.sublist
        (List.filter_sublist (p := fun row => decide (row.slot = slot)))
      exact (sorted_perm _ _).nodup_iff.mpr (List.Nodup.of_map _ hUnique)
    · refine b.creation.slots_nodup.imp ?_
      intro first second hNe row hFirst hSecond
      exact hNe ((slotGenerations_mem.mp hFirst).2.symm.trans (slotGenerations_mem.mp hSecond).2)
  have hSplit : b.creation.slots.flatMap (slotJudgements b.generations b.semantics) =
      (b.creation.slots.flatMap (slotGenerations b.generations)).flatMap (rowJudgements b.semantics) := by
    rw [List.flatMap_assoc]
    rfl
  rw [hSplit]
  refine List.Nodup.map_on ?_ ?_
  · intro first hFirst second hSecond hSame
    obtain ⟨_, _, hFirst⟩ := List.mem_flatMap.mp hFirst
    obtain ⟨_, _, hSecond⟩ := List.mem_flatMap.mp hSecond
    exact h.semantics_unique.eq_of_key (rowJudgements_mem.mp hFirst).1 (rowJudgements_mem.mp hSecond).1 hSame
  · rw [List.nodup_flatMap]
    constructor
    · intro row _
      unfold rowJudgements
      cases row.candidate with
      | none => exact List.nodup_nil
      | some stored => exact List.Nodup.of_map _ (judgements_nodup h.semantics_unique stored.id)
    · refine hRows.imp_of_mem ?_
      intro row other hRow hOther hNe judgement hFirst hSecond
      obtain ⟨_, _, hRow⟩ := List.mem_flatMap.mp hRow
      obtain ⟨_, _, hOther⟩ := List.mem_flatMap.mp hOther
      have hRow := (slotGenerations_mem.mp hRow).1
      have hOther := (slotGenerations_mem.mp hOther).1
      obtain ⟨_, stored, hStored, hOf⟩ := rowJudgements_mem.mp hFirst
      obtain ⟨_, second, hSecondStored, hSecondOf⟩ := rowJudgements_mem.mp hSecond
      refine hNe (h.source_unique hRow hOther (h.candidate_stored hRow hStored) ?_)
      rw [h.candidate_stored hOther hSecondStored, ← hSecondOf, hOf]

/-- Every judge call is found under the slot of its candidate. -/
theorem judgement_planned {judgement : SemanticRow} (hMem : judgement ∈ b.semantics) :
    judgement ∈ b.creation.slots.flatMap (slotJudgements b.generations b.semantics) := by
  obtain ⟨source, hSource, hId, _⟩ := h.candidates.judged judgement hMem
  have hOutcome := h.candidates.outcome source hSource
  have hStatus : source.evidence.status = .succeeded := by
    by_contra hNot
    rw [(hOutcome.otherwise hNot).2] at hId
    cases hId
  obtain ⟨stored, hStored, hStoredId, _⟩ := hOutcome.succeeded hStatus
  have hOf : judgement.candidateId = stored.id := by
    rw [hStoredId] at hId
    exact (Option.some.inj hId).symm
  obtain ⟨hIndex, _, hPlanned⟩ := h.record_reads hSource
  rw [hIndex.2.2.1, hIndex.2.2.2.1] at hPlanned
  refine List.mem_flatMap.mpr ⟨source.slot, hPlanned, List.mem_flatMap.mpr ⟨source, ?_, ?_⟩⟩
  · exact slotGenerations_mem.mpr ⟨hSource, rfl⟩
  · exact rowJudgements_mem.mpr ⟨hMem, stored, hStored, hOf⟩

theorem settledDispatches_length :
    b.generations.length + b.semantics.length = b.settledDispatches.length := by
  have hPerm := h.calls.balanced.filter_settled
  rw [List.filter_map] at hPerm
  have hLength := hPerm.length_eq
  rw [List.length_map, settledInvocations, List.length_map, completions, List.length_append, List.length_map,
    List.length_map] at hLength
  exact hLength.symm

/-- When no call is open, every call is settled. -/
theorem settledDispatches_idle (hIdle : b.openInvocations = []) : b.settledDispatches = b.dispatches := by
  refine List.filter_eq_self.mpr ?_
  intro row hRow
  refine decide_eq_true (h.calls.balanced.settled_of_not_live (List.mem_map_of_mem hRow) ?_)
  rw [hIdle]
  simp

theorem semantic_executions : UniqueOn (·.executionId) (b.semantics.map (·.evidence)) := by
  have hSub : (b.semantics.map fun row => Completion.semantic row.evidence).Sublist b.completions :=
    List.sublist_append_right _ _
  have hKeyed : UniqueOn Completion.executionId ((b.semantics.map (·.evidence)).map Completion.semantic) := by
    rw [List.map_map]
    exact h.calls.executions_unique.sublist hSub
  exact hKeyed.of_map fun _ _ => rfl

theorem recoveries_ok : validateRecoveries b.recoveries (b.semantics.map (·.evidence)) b.creation.policy =
    .ok (b.recoveries.map (·.executionId)) :=
  (validateRecoveries_ok h.semantic_executions).mpr ⟨rfl, h.decisions.recoveries, h.decisions.excepted⟩

/-- The reader accepts a sound book and returns its slots. -/
theorem projectSlots_ok : ∃ slots, projectSlots b.creation.slots b.generations b.settledDispatches b.semantics
      b.resolutions b.recoveries b.creation.policy = .ok slots ∧
    List.Forall₂ b.Projects b.creation.slots slots := by
  have hDecode : b.semantics.mapM decodeSemanticCompletion = .ok (b.semantics.map (·.evidence)) := by
    rw [mapM_ok, List.forall₂_map_right_iff, List.forall₂_same]
    intro row hRow
    rw [decodeSemanticCompletion, require_bind_pos (h.candidates.semanticIndex row hRow)]
    rfl
  have hReplay : replayResolutions (unknownExecutions b.generations b.semantics) b.creation.policy []
      b.resolutions = .ok () :=
    (replayResolutions_ok (Resolved.nil _ _)).mpr h.decisions.resolved
  have hUnseen : ∀ row ∈ b.generations, row.invocationId ∉ ([] : List String) := by simp
  have hRecords := projectRecords_ok (fun row hRow => h.record_reads hRow) h.generations_unique hUnseen
  rw [List.append_nil] at hRecords
  have hNew : ∀ judgement ∈ b.creation.slots.flatMap (slotJudgements b.generations b.semantics),
      judgement.invocationId ∉ (b.generations.map (·.invocationId)).reverse := by
    intro judgement hMem hSeen
    obtain ⟨row, hRow, hSame⟩ := List.mem_map.mp (List.mem_reverse.mp hSeen)
    obtain ⟨_, _, hSlot⟩ := List.mem_flatMap.mp hMem
    obtain ⟨_, _, hJudgement⟩ := List.mem_flatMap.mp hSlot
    have hJudgement := (rowJudgements_mem.mp hJudgement).1
    have hEq := h.calls.completions_unique.eq_of_key (generation_mem hRow) (semantic_mem hJudgement) (by
      change row.evidence.invocationId = judgement.evidence.invocationId
      rw [(h.candidates.generationIndex row hRow).2.1, (h.candidates.semanticIndex judgement hJudgement).2.2.1, hSame])
    cases hEq
  obtain ⟨slots, hSlots, hViews⟩ :=
    projectPlan_ok (fun slot hSlot => h.slot_reads hSlot) h.plan_judgements_nodup hNew
  have hSeen : ∀ row ∈ b.settledDispatches, row.invocationId ∈
      ((b.creation.slots.flatMap (slotJudgements b.generations b.semantics)).map (·.invocationId)).reverse ++
        (b.generations.map (·.invocationId)).reverse := by
    intro row hRow
    obtain ⟨completion, hMem, hSame⟩ := List.mem_map.mp (of_decide_eq_true (List.mem_filter.mp hRow).2)
    rw [← hSame, List.mem_append, List.mem_reverse, List.mem_reverse]
    rcases mem_completions.mp hMem with ⟨source, hSource, rfl⟩ | ⟨judgement, hJudgement, rfl⟩
    · refine .inr (List.mem_map.mpr ⟨source, hSource, ?_⟩)
      exact (h.candidates.generationIndex source hSource).2.1.symm
    · refine .inl (List.mem_map.mpr ⟨judgement, h.judgement_planned hJudgement, ?_⟩)
      exact (h.candidates.semanticIndex judgement hJudgement).2.2.1.symm
  refine ⟨slots, ?_, hViews.imp fun slot progress => h.projects_of_view⟩
  rw [projectSlots, hDecode, ok_bind, h.recoveries_ok, ok_bind, hReplay, ok_bind,
    require_bind_pos ⟨h.calls.invocations.sublist List.filter_sublist, h.settledDispatches_length⟩, hRecords, ok_bind]
  change (projectPlan b.generations b.semantics b.settledDispatches b.authorizations
    (b.generations.map (·.invocationId)).reverse b.creation.slots >>= _) = _
  rw [hSlots, ok_bind]
  exact require_bind_pos hSeen _ _

end Sound

end Book

end QsAi
