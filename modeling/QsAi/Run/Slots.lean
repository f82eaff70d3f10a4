import QsAi.Run.Book

/-! The slots of a sound book. The reader of the evidence walks over every slot
and candidate and refuses anything it cannot reconcile; from a sound book it
never refuses, and what it returns does not depend on the order of the rows. -/
namespace QsAi

open Guarded Keyed Numbered

/-! One candidate. -/

/-- The planner's view of a judge call. -/
def judgementFields (authorized : Authorizations) (value : SemanticCompletion) : ResultFields :=
  ⟨value.status, value.failure, decide (value.executionId ∈ authorized.replaced),
    decide (value.executionId ∈ authorized.recovered)⟩

/-- Everything the reader asks of one stored judge call. -/
structure JudgementReads (stored : Candidate) (generated : GenerationCompletion) (ledger : List DispatchRow)
    (authorized : Authorizations) (row : SemanticRow) : Prop where
  index : row.IndexMatches
  entry : ∃ entry, lookup (·.invocationId) ledger row.evidence.invocationId = some entry ∧
    row.evidence.matchesCheckpoint entry.checkpoint entry.checkpoint.owner generated.normalizedFingerprint ∧
    entry.checkpoint.slot = (generated.caseId, generated.slotOrdinal) ∧ entry.IndexMatches
  result : checkSemanticResult stored row.evidence row.result = .ok ()
  execution : (judgementFields authorized row.evidence).check = .ok ()

/-- The accepted judge call of a history, if its last one succeeded. -/
def acceptedJudgement (rows : List SemanticRow) : Option String :=
  rows.getLast?.bind fun row => if row.evidence.status = .succeeded then some row.evidence.executionId else none

section Walks

variable {stored : Candidate} {generated : GenerationCompletion} {ledger : List DispatchRow}
  {authorized : Authorizations}

theorem projectJudgeCall_ok {walk : JudgeWalk} {row : SemanticRow} (hWalk : walk.accepted = none)
    (hRow : JudgementReads stored generated ledger authorized row) (hNew : row.invocationId ∉ walk.seen) :
    ∃ next, projectJudgeCall stored generated ledger authorized walk row = .ok next ∧
      next.accepted = acceptedJudgement [row] ∧ next.seen = row.invocationId :: walk.seen ∧
      next.executions.map (·.toResultFields) =
        walk.executions.map (·.toResultFields) ++ [judgementFields authorized row.evidence] := by
  obtain ⟨hIndex, ⟨entry, hFind, hMatches, hSlot, hEntry⟩, hResult, hFields⟩ := hRow
  have hInvocation : row.evidence.invocationId = row.invocationId := hIndex.2.2.1
  refine ⟨⟨acceptedJudgement [row], row.invocationId :: walk.seen,
    walk.executions ++ [⟨judgementFields authorized row.evidence, hFields⟩]⟩, ?_, rfl, rfl, by simp⟩
  have hSeen : row.evidence.invocationId ∉ walk.seen := hInvocation ▸ hNew
  have hMake : ExecutionResult.make (judgementFields authorized row.evidence) =
      .ok ⟨judgementFields authorized row.evidence, hFields⟩ := (certify_ok _ _ _).mpr ⟨hFields, rfl⟩
  simp only [judgementFields] at hMake
  simp only [projectJudgeCall, decodeSemanticCompletion, require_bind_pos hWalk, require_bind_pos hIndex, hFind,
    demand, ok_bind, require_bind_pos (And.intro hMatches (And.intro hSlot hSeen)), require_bind_pos hEntry,
    hResult, hMake, pure, Except.pure]
  simp [acceptedJudgement, judgementFields, hInvocation]

/-- The walk over a judge history reads every call and stops at an acceptance. -/
theorem projectJudgeCalls_ok {walk : JudgeWalk} {rows : List SemanticRow} (hWalk : walk.accepted = none)
    (hRows : ∀ row ∈ rows, JudgementReads stored generated ledger authorized row)
    (hNodup : (rows.map (·.invocationId)).Nodup) (hNew : ∀ row ∈ rows, row.invocationId ∉ walk.seen)
    (hOpen : ∀ row ∈ rows.dropLast, row.evidence.status ≠ .succeeded) :
    ∃ next, projectJudgeCalls stored generated ledger authorized walk rows = .ok next ∧
      next.accepted = acceptedJudgement rows ∧ next.seen = (rows.map (·.invocationId)).reverse ++ walk.seen ∧
      next.executions.map (·.toResultFields) = walk.executions.map (·.toResultFields) ++
        rows.map fun row => judgementFields authorized row.evidence := by
  induction rows generalizing walk with
  | nil => exact ⟨walk, rfl, hWalk, rfl, by simp⟩
  | cons row rest ih =>
      obtain ⟨hRow, hRest⟩ := List.forall_mem_cons.mp hRows
      obtain ⟨hHead, hTail⟩ := List.nodup_cons.mp hNodup
      obtain ⟨hRowNew, hRestNew⟩ := List.forall_mem_cons.mp hNew
      obtain ⟨next, hNext, hAccepted, hSeen, hExecutions⟩ := projectJudgeCall_ok hWalk hRow hRowNew
      cases rest with
      | nil =>
          refine ⟨next, ?_, hAccepted, by simpa using hSeen, by simpa using hExecutions⟩
          simp [projectJudgeCalls, hNext, pure, Except.pure]
      | cons second rest =>
          have hContinue : next.accepted = none := by
            rw [hAccepted]
            simp [acceptedJudgement, hOpen row (by simp)]
          have hFresh : ∀ other ∈ second :: rest, other.invocationId ∉ next.seen := by
            intro other hOther hMem
            rw [hSeen] at hMem
            rcases List.mem_cons.mp hMem with hEq | hMem
            · exact hHead (List.mem_map.mpr ⟨other, hOther, hEq⟩)
            · exact hRestNew other hOther hMem
          obtain ⟨final, hFinal, hLast, hFinalSeen, hFinalExecutions⟩ := ih hContinue hRest hTail hFresh
            fun other hOther => hOpen other (by simp [List.dropLast, hOther])
          refine ⟨final, ?_, ?_, ?_, ?_⟩
          · rw [projectJudgeCalls, hNext, ok_bind]
            exact hFinal
          · rw [hLast]
            simp [acceptedJudgement]
          · rw [hFinalSeen, hSeen]
            simp
          · rw [hFinalExecutions, hExecutions]
            simp

/-- The judge calls of one candidate, in order. -/
def judgements (records : List SemanticRow) (candidateId : String) : List SemanticRow :=
  sorted (·.executionOrdinal) (records.filter (·.candidateId = candidateId))

/-- A candidate whose judge history is complete, readable and accepted only at
its end. -/
structure CandidateReads (stored : Candidate) (generated : GenerationCompletion) (records : List SemanticRow)
    (ledger : List DispatchRow) (authorized : Authorizations) : Prop where
  identity : validId stored.id = true
  numbered : Complete (·.executionOrdinal) (records.filter (·.candidateId = stored.id))
  reads : ∀ row ∈ records, row.candidateId = stored.id → JudgementReads stored generated ledger authorized row
  invocations : UniqueOn (·.invocationId) records
  final : ∀ row ∈ (judgements records stored.id).dropLast, row.evidence.status ≠ .succeeded
  accepted : stored.acceptedSemanticExecutionId = acceptedJudgement (judgements records stored.id)
  ready : stored.reviewReady = stored.acceptedSemanticExecutionId.isSome

theorem judgements_mem {records : List SemanticRow} {candidateId : String} {row : SemanticRow} :
    row ∈ judgements records candidateId ↔ row ∈ records ∧ row.candidateId = candidateId := by
  simp [judgements]

theorem judgements_nodup {records : List SemanticRow} (h : UniqueOn (·.invocationId) records)
    (candidateId : String) : ((judgements records candidateId).map (·.invocationId)).Nodup :=
  (h.sublist List.filter_sublist).perm (sorted_perm _ _).symm

theorem projectCandidate_ok {records : List SemanticRow} {seen : List String}
    (hReads : CandidateReads stored generated records ledger authorized)
    (hNew : ∀ row ∈ records, row.candidateId = stored.id → row.invocationId ∉ seen) :
    ∃ candidate, projectCandidate stored generated records ledger seen authorized = .ok
        (candidate, ((judgements records stored.id).map (·.invocationId)).reverse ++ seen) ∧
      candidate.candidateId = stored.id ∧ candidate.reviewReady = stored.reviewReady ∧
      candidate.semantic.map (·.toResultFields) =
        (judgements records stored.id).map fun row => judgementFields authorized row.evidence := by
  obtain ⟨hId, hNumbered, hRows, hInvocations, hFinal, hAccepted, hReady⟩ := hReads
  have hOrder : (judgements records stored.id).map (·.executionOrdinal) =
      List.range' 1 (judgements records stored.id).length := by
    rw [judgements, hNumbered.map_sorted, length_sorted]
  have hStart : (JudgeWalk.mk none seen []).accepted = none := rfl
  obtain ⟨walk, hWalk, hLast, hSeen, hExecutions⟩ := projectJudgeCalls_ok hStart
    (fun row hRow => hRows row (judgements_mem.mp hRow).1 (judgements_mem.mp hRow).2)
    (judgements_nodup hInvocations stored.id)
    (fun row hRow => hNew row (judgements_mem.mp hRow).1 (judgements_mem.mp hRow).2) hFinal
  have hEvidence : stored.reviewReady = true → ∃ result ∈ walk.executions, result.status = .succeeded := by
    intro hTrue
    rw [hReady, hAccepted] at hTrue
    obtain ⟨id, hSome⟩ := Option.isSome_iff_exists.mp hTrue
    obtain ⟨row, hRow, hStatus⟩ := Option.bind_eq_some_iff.mp hSome
    have hMem : judgementFields authorized row.evidence ∈ walk.executions.map (·.toResultFields) := by
      rw [hExecutions]
      simp only [List.map_nil, List.nil_append]
      exact List.mem_map_of_mem (List.mem_of_getLast? hRow)
    obtain ⟨result, hResult, hFields⟩ := List.mem_map.mp hMem
    refine ⟨result, hResult, ?_⟩
    rw [hFields]
    change row.evidence.status = .succeeded
    by_contra hNot
    rw [if_neg hNot] at hStatus
    cases hStatus
  have hCheck : CandidateFields.check ⟨stored.id, stored.reviewReady, walk.executions⟩ = .ok () := by
    simp only [CandidateFields.check, bind_ok, require_ok, exists_const]
    exact ⟨hId, hEvidence⟩
  have hMake : CandidateProgress.make ⟨stored.id, stored.reviewReady, walk.executions⟩ =
      .ok ⟨⟨stored.id, stored.reviewReady, walk.executions⟩, hCheck⟩ := (certify_ok _ _ _).mpr ⟨hCheck, rfl⟩
  refine ⟨⟨⟨stored.id, stored.reviewReady, walk.executions⟩, hCheck⟩, ?_, rfl, rfl, by simpa using hExecutions⟩
  simp only [projectCandidate]
  rw [require_bind_pos (by exact hOrder)]
  change (projectJudgeCalls stored generated ledger authorized ⟨none, seen, []⟩ (judgements records stored.id) >>=
    fun walk => _) = _
  rw [hWalk, ok_bind, require_bind_pos ⟨by rw [hLast, hReady, hAccepted], by rw [hLast, hAccepted]⟩, hMake, ok_bind,
    hSeen]
  rfl

end Walks

/-! One slot. -/

/-- The planner's view of a generation. -/
def generationFields (authorized : Authorizations) (value : GenerationCompletion) : ResultFields :=
  ⟨value.status, value.failure, decide (value.executionId ∈ authorized.replaced), false⟩

/-- Everything the reader asks of one stored generation. -/
structure GenerationReads (records : List SemanticRow) (ledger : List DispatchRow) (authorized : Authorizations)
    (row : GenerationRow) : Prop where
  outcome : row.Outcome
  candidate : ∀ stored, row.candidate = some stored →
    CandidateReads stored row.evidence records ledger authorized
  execution : (generationFields authorized row.evidence).check = .ok ()

/-- The judge calls that follow one generation. -/
def rowJudgements (records : List SemanticRow) (row : GenerationRow) : List SemanticRow :=
  (row.candidate.map fun stored => judgements records stored.id).getD []

/-- The planner's view of a stored candidate. -/
structure ReadsAs (records : List SemanticRow) (authorized : Authorizations) (stored : Candidate)
    (candidate : CandidateProgress) : Prop where
  candidateId : candidate.candidateId = stored.id
  reviewReady : candidate.reviewReady = stored.reviewReady
  semantic : candidate.semantic.map (·.toResultFields) =
    (judgements records stored.id).map fun row => judgementFields authorized row.evidence

theorem GenerationRow.Outcome.candidate_none {row : GenerationRow} (h : row.Outcome)
    (hStatus : row.evidence.status ≠ .succeeded) : row.candidate = none := (h.otherwise hStatus).1

theorem GenerationRow.Outcome.succeeded_of_candidate {row : GenerationRow} {stored : Candidate} (h : row.Outcome)
    (hStored : row.candidate = some stored) : row.evidence.status = .succeeded := by
  by_contra hNot
  rw [h.candidate_none hNot] at hStored
  cases hStored

section SlotWalks

variable {records : List SemanticRow} {ledger : List DispatchRow} {authorized : Authorizations}

theorem projectOutcome_ok {seen : List String} {row : GenerationRow}
    (hReads : GenerationReads records ledger authorized row)
    (hNew : ∀ judgement ∈ rowJudgements records row, judgement.invocationId ∉ seen) :
    ∃ candidate, projectOutcome records ledger authorized seen row row.evidence =
        .ok (candidate, ((rowJudgements records row).map (·.invocationId)).reverse ++ seen) ∧
      Option.Rel (ReadsAs records authorized) row.candidate candidate := by
  by_cases hStatus : row.evidence.status = .succeeded
  · obtain ⟨stored, hStored, hId, _, hExecution, hFingerprint, hAccepted, hAssertions⟩ :=
      hReads.outcome.succeeded hStatus
    have hRows : rowJudgements records row = judgements records stored.id := by simp [rowJudgements, hStored]
    rw [hRows] at hNew ⊢
    obtain ⟨candidate, hCandidate, hView⟩ := projectCandidate_ok (hReads.candidate stored hStored)
      fun judgement hMem hOf => hNew judgement (judgements_mem.mpr ⟨hMem, hOf⟩)
    refine ⟨some candidate, ?_, ?_⟩
    · rw [projectOutcome, if_pos hStatus, hStored, demand, ok_bind,
        require_bind_pos ⟨hId.symm, hExecution, hFingerprint, hAccepted, hAssertions⟩, hCandidate]
      rfl
    · rw [hStored]
      exact .some ⟨hView.1, hView.2.1, hView.2.2⟩
  · obtain ⟨hCandidate, hId⟩ := hReads.outcome.otherwise hStatus
    refine ⟨none, ?_, ?_⟩
    · rw [projectOutcome, if_neg hStatus, require_bind_pos ⟨hCandidate, hId⟩]
      simp [rowJudgements, hCandidate, pure, Except.pure]
    · rw [hCandidate]
      exact .none

theorem projectGeneration_ok {walk : SlotWalk} {row : GenerationRow} (hWalk : walk.candidate = none)
    (hReads : GenerationReads records ledger authorized row)
    (hNew : ∀ judgement ∈ rowJudgements records row, judgement.invocationId ∉ walk.seen) :
    ∃ next, projectGeneration records ledger authorized walk row = .ok next ∧
      Option.Rel (ReadsAs records authorized) row.candidate next.candidate ∧
      next.seen = ((rowJudgements records row).map (·.invocationId)).reverse ++ walk.seen ∧
      next.executions.map (·.toResultFields) =
        walk.executions.map (·.toResultFields) ++ [generationFields authorized row.evidence] := by
  obtain ⟨candidate, hOutcome, hView⟩ := projectOutcome_ok hReads hNew
  have hMake : ExecutionResult.make (generationFields authorized row.evidence) =
      .ok ⟨generationFields authorized row.evidence, hReads.execution⟩ :=
    (certify_ok _ _ _).mpr ⟨hReads.execution, rfl⟩
  refine ⟨⟨candidate, ((rowJudgements records row).map (·.invocationId)).reverse ++ walk.seen,
    walk.executions ++ [⟨generationFields authorized row.evidence, hReads.execution⟩]⟩, ?_, hView, rfl, by simp⟩
  simp only [generationFields] at hMake
  simp only [projectGeneration, require_bind_pos hWalk, hOutcome, ok_bind, hMake]
  rfl

/-- The walk over the generations of a slot; only the last may own a candidate. -/
theorem projectGenerations_ok {walk : SlotWalk} {rows : List GenerationRow} (hWalk : walk.candidate = none)
    (hRows : ∀ row ∈ rows, GenerationReads records ledger authorized row)
    (hNew : ∀ row ∈ rows, ∀ judgement ∈ rowJudgements records row, judgement.invocationId ∉ walk.seen)
    (hOpen : ∀ row ∈ rows.dropLast, row.evidence.status ≠ .succeeded) :
    ∃ next, projectGenerations records ledger authorized walk rows = .ok next ∧
      Option.Rel (ReadsAs records authorized) (rows.getLast?.bind (·.candidate)) next.candidate ∧
      next.seen = ((rows.flatMap (rowJudgements records)).map (·.invocationId)).reverse ++ walk.seen ∧
      next.executions.map (·.toResultFields) = walk.executions.map (·.toResultFields) ++
        rows.map fun row => generationFields authorized row.evidence := by
  induction rows generalizing walk with
  | nil =>
      refine ⟨walk, rfl, ?_, rfl, by simp⟩
      rw [hWalk]
      exact .none
  | cons row rest ih =>
      obtain ⟨hRow, hRest⟩ := List.forall_mem_cons.mp hRows
      obtain ⟨hRowNew, hRestNew⟩ := List.forall_mem_cons.mp hNew
      obtain ⟨next, hNext, hView, hSeen, hExecutions⟩ := projectGeneration_ok hWalk hRow hRowNew
      cases rest with
      | nil =>
          refine ⟨next, ?_, hView, by simpa using hSeen, by simpa using hExecutions⟩
          simp [projectGenerations, hNext, pure, Except.pure]
      | cons second rest =>
          have hNone : row.candidate = none := hRow.outcome.candidate_none (hOpen row (by simp))
          have hEmpty : rowJudgements records row = [] := by simp [rowJudgements, hNone]
          have hSame : next.seen = walk.seen := by simpa [hEmpty] using hSeen
          have hContinue : next.candidate = none := by
            rw [hNone] at hView
            generalize next.candidate = found at hView
            cases hView
            rfl
          obtain ⟨final, hFinal, hLast, hFinalSeen, hFinalExecutions⟩ := ih hContinue hRest
            (fun other hOther judgement hJudgement => hSame ▸ hRestNew other hOther judgement hJudgement)
            fun other hOther => hOpen other (by simp [List.dropLast, hOther])
          refine ⟨final, ?_, ?_, ?_, ?_⟩
          · rw [projectGenerations, hNext, ok_bind]
            exact hFinal
          · simpa using hLast
          · rw [hFinalSeen, hSame]
            simp [List.flatMap_cons, hEmpty]
          · rw [hFinalExecutions, hExecutions]
            simp

/-- The generations of one slot, in order. -/
def slotGenerations (generations : List GenerationRow) (slot : String × Nat) : List GenerationRow :=
  sorted (·.executionOrdinal) (generations.filter (·.slot = slot))

theorem slotGenerations_mem {generations : List GenerationRow} {slot : String × Nat} {row : GenerationRow} :
    row ∈ slotGenerations generations slot ↔ row ∈ generations ∧ row.slot = slot := by
  simp [slotGenerations]

/-- A slot whose generation history is complete, readable and accepted only at
its end. -/
structure SlotReads (generations : List GenerationRow) (records : List SemanticRow) (ledger : List DispatchRow)
    (authorized : Authorizations) (slot : String × Nat) : Prop where
  identity : validId slot.1 = true ∧ 1 ≤ slot.2
  numbered : Complete (·.executionOrdinal) (generations.filter (·.slot = slot))
  reads : ∀ row ∈ generations, row.slot = slot → GenerationReads records ledger authorized row
  final : ∀ row ∈ (slotGenerations generations slot).dropLast, row.evidence.status ≠ .succeeded

/-- The planner's view of a slot. -/
structure SlotView (generations : List GenerationRow) (records : List SemanticRow) (authorized : Authorizations)
    (slot : String × Nat) (progress : SlotProgress) : Prop where
  identity : progress.identity = slot
  generation : progress.generation.map (·.toResultFields) =
    (slotGenerations generations slot).map fun row => generationFields authorized row.evidence
  candidate : Option.Rel (ReadsAs records authorized)
    ((slotGenerations generations slot).getLast?.bind (·.candidate)) progress.candidate

/-- The judge calls of a slot. -/
def slotJudgements (generations : List GenerationRow) (records : List SemanticRow) (slot : String × Nat) :
    List SemanticRow :=
  (slotGenerations generations slot).flatMap (rowJudgements records)

theorem projectSlot_ok {generations : List GenerationRow} {seen : List String} {slot : String × Nat}
    (hReads : SlotReads generations records ledger authorized slot)
    (hNew : ∀ judgement ∈ slotJudgements generations records slot, judgement.invocationId ∉ seen) :
    ∃ progress, projectSlot generations records ledger authorized seen slot = .ok
        (progress, ((slotJudgements generations records slot).map (·.invocationId)).reverse ++ seen) ∧
      SlotView generations records authorized slot progress := by
  obtain ⟨hId, hNumbered, hRows, hFinal⟩ := hReads
  have hOrder : (slotGenerations generations slot).map (·.executionOrdinal) =
      List.range' 1 (slotGenerations generations slot).length := by
    rw [slotGenerations, hNumbered.map_sorted, length_sorted]
  have hStart : (SlotWalk.mk none seen []).candidate = none := rfl
  obtain ⟨walk, hWalk, hCandidate, hSeen, hExecutions⟩ := projectGenerations_ok hStart
    (fun row hRow => hRows row (slotGenerations_mem.mp hRow).1 (slotGenerations_mem.mp hRow).2)
    (fun row hRow judgement hJudgement => hNew judgement (List.mem_flatMap.mpr ⟨row, hRow, hJudgement⟩)) hFinal
  have hEvidence : walk.candidate ≠ none → ∃ result ∈ walk.executions, result.status = .succeeded := by
    intro hSome
    obtain ⟨candidate, hWalkCandidate⟩ := Option.ne_none_iff_exists'.mp hSome
    rw [hWalkCandidate] at hCandidate
    generalize hOrigin : (slotGenerations generations slot).getLast?.bind (·.candidate) = origin at hCandidate
    cases hCandidate with
    | @some stored _ hView =>
        obtain ⟨row, hRow, hStored⟩ := Option.bind_eq_some_iff.mp hOrigin
        have hMemRow := List.mem_of_getLast? hRow
        have hMem : generationFields authorized row.evidence ∈ walk.executions.map (·.toResultFields) := by
          rw [hExecutions]
          simp only [List.map_nil, List.nil_append]
          exact List.mem_map_of_mem hMemRow
        obtain ⟨result, hResult, hFields⟩ := List.mem_map.mp hMem
        refine ⟨result, hResult, ?_⟩
        rw [hFields]
        have hReadsRow := hRows row (slotGenerations_mem.mp hMemRow).1 (slotGenerations_mem.mp hMemRow).2
        exact hReadsRow.outcome.succeeded_of_candidate hStored
  have hCheck : SlotFields.check ⟨slot.1, slot.2, walk.executions, walk.candidate⟩ = .ok () := by
    simp only [SlotFields.check, bind_ok, require_ok, exists_const]
    exact ⟨hId, hEvidence⟩
  have hMake : SlotProgress.make ⟨slot.1, slot.2, walk.executions, walk.candidate⟩ =
      .ok ⟨⟨slot.1, slot.2, walk.executions, walk.candidate⟩, hCheck⟩ := (certify_ok _ _ _).mpr ⟨hCheck, rfl⟩
  refine ⟨⟨⟨slot.1, slot.2, walk.executions, walk.candidate⟩, hCheck⟩, ?_, ⟨rfl, by simpa using hExecutions,
    hCandidate⟩⟩
  simp only [projectSlot]
  rw [require_bind_pos (by exact hOrder)]
  change (projectGenerations records ledger authorized ⟨none, seen, []⟩ (slotGenerations generations slot) >>=
    fun walk => _) = _
  rw [hWalk, ok_bind, hMake, ok_bind, hSeen]
  rfl

end SlotWalks

/-! The whole plan. -/

section Plans

variable {generations : List GenerationRow} {records : List SemanticRow} {ledger : List DispatchRow}
  {authorized : Authorizations}

theorem projectPlan_ok {plan : List (String × Nat)} {seen : List String}
    (hReads : ∀ slot ∈ plan, SlotReads generations records ledger authorized slot)
    (hNodup : ((plan.flatMap (slotJudgements generations records)).map (·.invocationId)).Nodup)
    (hNew : ∀ judgement ∈ plan.flatMap (slotJudgements generations records), judgement.invocationId ∉ seen) :
    ∃ slots, projectPlan generations records ledger authorized seen plan = .ok
        (slots, ((plan.flatMap (slotJudgements generations records)).map (·.invocationId)).reverse ++ seen) ∧
      List.Forall₂ (SlotView generations records authorized) plan slots := by
  induction plan generalizing seen with
  | nil => exact ⟨[], rfl, .nil⟩
  | cons slot rest ih =>
      obtain ⟨hSlot, hRest⟩ := List.forall_mem_cons.mp hReads
      simp only [List.flatMap_cons, List.map_append, List.nodup_append, List.mem_append] at hNodup hNew
      obtain ⟨_, hTail, hApart⟩ := hNodup
      obtain ⟨progress, hProgress, hView⟩ := projectSlot_ok hSlot fun judgement hMem => hNew judgement (.inl hMem)
      have hFresh : ∀ judgement ∈ rest.flatMap (slotJudgements generations records),
          judgement.invocationId ∉
            ((slotJudgements generations records slot).map (·.invocationId)).reverse ++ seen := by
        intro judgement hMem hSeen
        rcases List.mem_append.mp hSeen with hOwn | hSeen
        · exact hApart _ (List.mem_reverse.mp hOwn) _ (List.mem_map_of_mem hMem) rfl
        · exact hNew judgement (.inr hMem) hSeen
      obtain ⟨slots, hSlots, hViews⟩ := ih hRest hTail hFresh
      refine ⟨progress :: slots, ?_, .cons hView hViews⟩
      rw [projectPlan, hProgress, ok_bind]
      simp only [hSlots, ok_bind, List.flatMap_cons, List.map_append, List.reverse_append, List.append_assoc]
      rfl

/-- Everything the reader asks of one generation and its dispatch. -/
structure RecordReads (plan : List (String × Nat)) (ledger : List DispatchRow) (row : GenerationRow) : Prop where
  index : row.IndexMatches
  entry : ∃ entry, lookup (·.invocationId) ledger row.evidence.invocationId = some entry ∧
    entry.kind = .generation ∧ row.evidence.matchesCheckpoint entry.checkpoint entry.checkpoint.owner ∧
    entry.IndexMatches
  planned : (row.evidence.caseId, row.evidence.slotOrdinal) ∈ plan

theorem projectRecords_ok {plan : List (String × Nat)} {seen : List String} {rows : List GenerationRow}
    (hRows : ∀ row ∈ rows, RecordReads plan ledger row) (hNodup : (rows.map (·.invocationId)).Nodup)
    (hNew : ∀ row ∈ rows, row.invocationId ∉ seen) :
    projectRecords plan ledger seen rows = .ok ((rows.map (·.invocationId)).reverse ++ seen) := by
  induction rows generalizing seen with
  | nil => rfl
  | cons row rest ih =>
      obtain ⟨⟨hIndex, ⟨entry, hFind, hKind, hMatches, hEntry⟩, hPlanned⟩, hRest⟩ := List.forall_mem_cons.mp hRows
      obtain ⟨hHead, hTail⟩ := List.nodup_cons.mp hNodup
      obtain ⟨hRowNew, hRestNew⟩ := List.forall_mem_cons.mp hNew
      have hInvocation : row.evidence.invocationId = row.invocationId := hIndex.2.1
      rw [hInvocation] at hFind
      have hRecord : projectRecord plan ledger seen row = .ok row.invocationId := by
        simp only [projectRecord, decodeCompletion, require_bind_pos hIndex, pure, Except.pure, ok_bind, hFind, demand,
          require_bind_pos (And.intro hKind hRowNew), require_bind_pos hMatches,
          require_bind_pos hEntry, require_bind_pos hPlanned, hInvocation]
      have hFresh : ∀ other ∈ rest, other.invocationId ∉ row.invocationId :: seen := by
        intro other hOther hMem
        rcases List.mem_cons.mp hMem with hEq | hMem
        · exact hHead (List.mem_map.mpr ⟨other, hOther, hEq⟩)
        · exact hRestNew other hOther hMem
      rw [projectRecords, hRecord, ok_bind, ih hRest hTail hFresh]
      simp

end Plans

namespace Book

variable (b : Book)

/-- The calls that have terminal evidence. -/
def settledDispatches : List DispatchRow := b.dispatches.filter (·.invocationId ∈ b.settledInvocations)

/-- The planner's view of an execution. -/
def resultOf (completion : Completion) : ResultFields :=
  ⟨completion.status, completion.failure, decide (completion.executionId ∈ replacedExecutions b.resolutions),
    decide (completion.kind = .semantic ∧ completion.executionId ∈ b.recoveries.map (·.executionId))⟩

/-- The history of a slot or candidate as the planner sees it. -/
def results (target : Target) : List ResultFields :=
  (sorted (·.executionOrdinal) (b.history target)).map b.resultOf

/-- The planner's view of a slot, in terms of the book. -/
structure Projects (slot : String × Nat) (progress : SlotProgress) : Prop where
  identity : progress.identity = slot
  generation : progress.generation.map (·.toResultFields) = b.results (.slot slot)
  missing : progress.candidate = none → ∀ row ∈ b.generations, row.slot = slot → row.candidate = none
  accepted : ∀ candidate, progress.candidate = some candidate → ∃ row ∈ b.generations, row.slot = slot ∧
    ∃ stored, row.candidate = some stored ∧ candidate.candidateId = stored.id ∧
      candidate.reviewReady = stored.reviewReady ∧
      candidate.semantic.map (·.toResultFields) = b.results (.candidate stored.id)

end Book

end QsAi
