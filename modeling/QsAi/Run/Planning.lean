import QsAi.Run.Reading

/-! Planning over a sound book. The slots that the reader returns form a plan
both planners accept, and what they propose for a slot says what its history
permits. -/
namespace QsAi

open Guarded Keyed Numbered

namespace SlotProgress

/-- What the executions of the current stage of a slot belong to. -/
def target (slot : SlotProgress) : Target :=
  match slot.candidate with
  | none => .slot slot.identity
  | some candidate => .candidate candidate.candidateId

@[simp] theorem kind_target (slot : SlotProgress) : slot.target.kind = slot.kind := by
  cases hCandidate : slot.candidate with
  | none => simp [target, kind, hCandidate, Target.kind]
  | some candidate => simp [target, kind, hCandidate, Target.kind]

end SlotProgress

namespace Book

variable {b : Book} {id : String × Nat} {slot : SlotProgress}

namespace Projects

theorem executions (h : b.Projects id slot) :
    slot.executions.map (·.toResultFields) = b.results slot.target := by
  cases hCandidate : slot.candidate with
  | none => simpa [SlotProgress.executions, SlotProgress.target, hCandidate, h.identity] using h.generation
  | some candidate =>
      obtain ⟨_, _, _, stored, _, hId, _, hSemantic⟩ := h.accepted candidate hCandidate
      simpa [SlotProgress.executions, SlotProgress.target, hCandidate, hId] using hSemantic

theorem executions_length (h : b.Projects id slot) : slot.executions.length = (b.history slot.target).length := by
  have hLength := congrArg List.length h.executions
  rw [List.length_map, results, List.length_map, length_sorted] at hLength
  exact hLength

/-- The last execution of a slot is the last completion of its history. -/
theorem last (h : b.Projects id slot) {result : ExecutionResult} (hLast : slot.executions.getLast? = some result) :
    ∃ completion, (sorted (·.executionOrdinal) (b.history slot.target)).getLast? = some completion ∧
      result.toResultFields = b.resultOf completion := by
  have hMap := congrArg List.getLast? h.executions
  rw [List.getLast?_map, hLast, results, List.getLast?_map] at hMap
  obtain ⟨completion, hCompletion, hFields⟩ := Option.map_eq_some_iff.mp hMap.symm
  exact ⟨completion, hCompletion, hFields.symm⟩

end Projects

variable {completion : Completion} {action : NextAction}

namespace Sound

variable (h : b.Sound)
include h

/-- The candidate that a projected slot shows is the stored one of its slot. -/
theorem projected_source (hSlot : b.Projects id slot) {candidate : CandidateProgress}
    (hCandidate : slot.candidate = some candidate) :
    ∃ row ∈ b.generations, row.slot = id ∧ row.candidateId = some candidate.candidateId ∧
      ∃ stored, row.candidate = some stored ∧ stored.id = candidate.candidateId ∧
        stored.reviewReady = candidate.reviewReady := by
  obtain ⟨row, hRow, hOf, stored, hStored, hId, hReady, _⟩ := hSlot.accepted candidate hCandidate
  exact ⟨row, hRow, hOf, hId ▸ h.candidate_stored hRow hStored, stored, hStored, hId.symm, hReady.symm⟩

/-- A slot is reviewable exactly when an execution of its stage succeeded. -/
theorem reviewReady_iff (hSlot : b.Projects id slot) :
    slot.reviewReady = true ↔ ∃ completion ∈ b.history slot.target, completion.status = .succeeded := by
  cases hCandidate : slot.candidate with
  | none =>
      simp only [SlotProgress.reviewReady, hCandidate, Option.any_none, Bool.false_eq_true, false_iff]
      rintro ⟨completion, hMem, hStatus⟩
      rw [SlotProgress.target, hCandidate] at hMem
      rw [h.candidates.history_slot, hSlot.identity] at hMem
      obtain ⟨row, hRow, rfl⟩ := List.mem_map.mp hMem
      obtain ⟨hMemRow, hOf⟩ := List.mem_filter.mp hRow
      obtain ⟨stored, hStored, _⟩ := (h.candidates.outcome row hMemRow).succeeded hStatus
      rw [hSlot.missing hCandidate row hMemRow (of_decide_eq_true hOf)] at hStored
      cases hStored
  | some candidate =>
      obtain ⟨row, hRow, _, _, stored, hStored, hId, hReady⟩ := h.projected_source hSlot hCandidate
      have hReviewed := h.candidates.reviewed row hRow stored hStored
      simp only [SlotProgress.reviewReady, SlotProgress.target, hCandidate, Option.any_some]
      rw [← hReady, hReviewed.ready, Option.isSome_iff_exists, h.candidates.history_candidate]
      constructor
      · rintro ⟨execution, hAccepted⟩
        obtain ⟨judgement, hJudgement, hOf, hStatus, _⟩ := (hReviewed.accepted execution).mp hAccepted
        refine ⟨.semantic judgement.evidence, List.mem_map.mpr ⟨judgement, ?_, rfl⟩, hStatus⟩
        exact List.mem_filter.mpr ⟨hJudgement, decide_eq_true (hOf.trans hId)⟩
      · rintro ⟨completion, hMem, hStatus⟩
        obtain ⟨judgement, hJudgement, rfl⟩ := List.mem_map.mp hMem
        obtain ⟨hMemJudgement, hOf⟩ := List.mem_filter.mp hJudgement
        exact ⟨judgement.executionId, (hReviewed.accepted _).mpr
          ⟨judgement, hMemJudgement, (of_decide_eq_true hOf).trans hId.symm, hStatus, rfl⟩⟩

/-- The last completion of a history has the highest ordinal. -/
theorem last_ordinal {target : Target}
    (hLast : (sorted (·.executionOrdinal) (b.history target)).getLast? = some completion) :
    completion ∈ b.completions ∧ completion.target = target ∧
      completion.executionOrdinal = (b.history target).length := by
  obtain ⟨hMem, hTarget⟩ := mem_history.mp (mem_sorted.mp (List.mem_of_getLast? hLast))
  exact ⟨hMem, hTarget, (h.numbering.histories target).getLast_number hLast⟩

/-- The permissions of a whole history follow from that of its last execution. -/
theorem permits_history {target : Target}
    (hLast : ∀ completion, (sorted (·.executionOrdinal) (b.history target)).getLast? = some completion →
      b.Permits completion) : ∀ completion ∈ b.history target, b.Permits completion := by
  intro completion hMem
  obtain ⟨hCompletion, hTarget⟩ := mem_history.mp hMem
  have hBound := (h.numbering.histories target).number_le hMem
  rcases Nat.lt_or_ge completion.executionOrdinal (b.history target).length with hLess | hGreater
  · exact h.permitted completion hCompletion (by rw [hTarget]; exact hLess)
  · refine hLast completion ((h.numbering.histories target).getLast?_of_number hMem ?_)
    exact Nat.le_antisymm hBound.2 hGreater

/-- What the slot planner proposes after the last completion, in its terms. -/
theorem afterLast_eq (hSlot : b.Projects id slot) {result : ExecutionResult}
    (hResult : result.toResultFields = b.resultOf completion) (hMem : completion ∈ b.history slot.target)
    (hOpen : completion.status ≠ .succeeded) (hOrdinal : completion.executionOrdinal = (b.history slot.target).length)
    (hAction : afterLast slot b.creation.policy result = .ok action) :
    (action.kind = slot.kind.action ∧ b.Permits completion) ∨
    (action.kind = .block ∧ ¬ b.Permits completion) := by
  obtain ⟨hCompletion, hTarget⟩ := mem_history.mp hMem
  have hKind : completion.kind = slot.kind := by
    rw [← completion.kind_target, hTarget, slot.kind_target]
  have hLength := hSlot.executions_length
  have hStatus : result.status = completion.status := congrArg ResultFields.status hResult
  have hFailure : result.failure = completion.failure := congrArg ResultFields.failure hResult
  have hReplaced : result.replacementAuthorized = true ↔
      completion.executionId ∈ replacedExecutions b.resolutions := by
    rw [congrArg ResultFields.replacementAuthorized hResult]
    exact decide_eq_true_iff
  have hRecovered : result.contractRecoveryAuthorized = true ↔
      completion.kind = .semantic ∧ completion.executionId ∈ b.recoveries.map (·.executionId) := by
    rw [congrArg ResultFields.contractRecoveryAuthorized hResult]
    exact decide_eq_true_iff
  have hUnknown : result.replacementAuthorized = true → completion.status = .resultUnknown := fun hTrue =>
    h.unknown_of_replaced hCompletion (hReplaced.mp hTrue)
  have hFailed : result.contractRecoveryAuthorized = true → completion.status = .failed := by
    intro hTrue
    obtain ⟨hSemantic, hId⟩ := hRecovered.mp hTrue
    cases completion with
    | generation value => cases hSemantic
    | semantic value => exact (h.excepted_of_recovered hCompletion hId).1
  unfold afterLast at hAction
  unfold Permits
  rw [hStatus, hLength, ← hKind, hFailure] at hAction
  rw [hOrdinal]
  split_ifs at hAction with hPending hBudget hContract hSemantic hReplacement hRecovery
  · cases hAction
    refine .inr ⟨rfl, ?_⟩
    rintro ⟨_, hMatch⟩
    rw [hPending.1] at hMatch
    rw [hReplaced.mpr hMatch] at hPending
    cases hPending.2
  · cases hAction
    refine .inr ⟨rfl, fun hPermits => ?_⟩
    have := hPermits.1
    omega
  · cases hAction
    refine .inl ⟨by rw [hKind]; rfl, by omega, ?_⟩
    rw [hFailed hContract]
    exact .inr (hRecovered.mp hContract)
  · cases hAction
    refine .inl ⟨by rw [hKind]; rfl, by omega, ?_⟩
    rw [hUnknown hReplacement]
    exact hReplaced.mp hReplacement
  · cases hAction
    refine .inl ⟨by rw [hKind]; rfl, by omega, ?_⟩
    cases hCase : completion.status with
    | succeeded => exact absurd hCase hOpen
    | failed => exact .inl hRecovery
    | resultUnknown => exact absurd hCase fun hCase => hPending ⟨hCase, by simpa using hReplacement⟩
  · cases hAction
    refine .inr ⟨rfl, ?_⟩
    rintro ⟨_, hMatch⟩
    cases hCase : completion.status with
    | succeeded => exact hOpen hCase
    | failed =>
        rw [hCase] at hMatch
        rcases hMatch with hMatch | hMatch
        · exact hRecovery hMatch
        · exact hContract (hRecovered.mpr hMatch)
    | resultUnknown => exact hPending ⟨hCase, by simpa using hReplacement⟩

/-- A slot that still has something to do either runs its stage again, which
its whole history permits, or stops at a last execution that does not. -/
theorem slotAction_some_iff (hSlot : b.Projects id slot)
    (hAction : slotAction slot b.creation.policy = .ok (some action)) :
    (action.kind = slot.kind.action ∧ ∀ completion ∈ b.history slot.target, b.Permits completion) ∨
    (action.kind = .block ∧ ∃ completion,
      (sorted (·.executionOrdinal) (b.history slot.target)).getLast? = some completion ∧
      completion.status ≠ .succeeded ∧ ¬ b.Permits completion) := by
  have hReady := (slotAction_some hAction).1
  have hOpen : ∀ completion ∈ b.history slot.target, completion.status ≠ .succeeded := by
    intro completion hMem hStatus
    rw [(h.reviewReady_iff hSlot).mpr ⟨completion, hMem, hStatus⟩] at hReady
    cases hReady
  unfold slotAction at hAction
  rw [if_neg (by simp [hReady])] at hAction
  cases hLast : slot.executions.getLast? with
  | none =>
      rw [hLast] at hAction
      cases hAction
      refine .inl ⟨rfl, ?_⟩
      have hLength := hSlot.executions_length
      rw [List.getLast?_eq_none_iff.mp hLast, List.length_nil] at hLength
      rw [List.eq_nil_of_length_eq_zero hLength.symm]
      simp
  | some result =>
      simp only [hLast, bind_ok, pure_ok, Option.some.injEq, exists_eq_right] at hAction
      obtain ⟨completion, hCompletion, hResult⟩ := hSlot.last hLast
      have hMem : completion ∈ b.history slot.target := mem_sorted.mp (List.mem_of_getLast? hCompletion)
      rcases h.afterLast_eq hSlot hResult hMem (hOpen completion hMem) (h.last_ordinal hCompletion).2.2 hAction with
        ⟨hKind, hPermits⟩ | ⟨hKind, hNot⟩
      · refine .inl ⟨hKind, h.permits_history fun other hOther => ?_⟩
        rw [hCompletion] at hOther
        cases hOther
        exact hPermits
      · exact .inr ⟨hKind, completion, hCompletion, hOpen completion hMem, hNot⟩

/-- The slot planner never refuses a projected slot. -/
theorem slotAction_accepted (hSlot : b.Projects id slot) :
    ∃ planned, slotAction slot b.creation.policy = .ok planned := by
  refine slotAction_ok b.creation.policy ?_
  intro last hLast hKind
  obtain ⟨completion, hCompletion, hResult⟩ := hSlot.last hLast
  have hTarget := (h.last_ordinal hCompletion).2.1
  rw [congrArg ResultFields.contractRecoveryAuthorized hResult]
  refine decide_eq_false ?_
  rintro ⟨hSemantic, _⟩
  rw [← completion.kind_target, hTarget, slot.kind_target, hKind] at hSemantic
  cases hSemantic

end Sound

end Book

/-! The frozen plan. -/

theorem checkCandidates_of_nodup {group : List SlotProgress} {seen : List String}
    (hNodup : (candidateIds group).Nodup) (hNew : ∀ id ∈ candidateIds group, id ∉ seen) :
    ∃ result, checkCandidates group seen = .ok result ∧
      ∀ id, id ∈ result ↔ id ∈ candidateIds group ∨ id ∈ seen := by
  have hOk : ∃ result, checkCandidates group seen = .ok result := by
    induction group generalizing seen with
    | nil => exact ⟨seen, rfl⟩
    | cons slot rest ih =>
        cases hCandidate : slot.candidate with
        | none =>
            have hIds : candidateIds (slot :: rest) = candidateIds rest := by simp [candidateIds, hCandidate]
            rw [hIds] at hNodup hNew
            rw [checkCandidates, hCandidate]
            exact ih hNodup hNew
        | some candidate =>
            have hIds : candidateIds (slot :: rest) = candidate.candidateId :: candidateIds rest := by
              simp [candidateIds, hCandidate]
            rw [hIds] at hNodup hNew
            obtain ⟨hHead, hTail⟩ := List.nodup_cons.mp hNodup
            obtain ⟨hHeadNew, hTailNew⟩ := List.forall_mem_cons.mp hNew
            simp only [checkCandidates, hCandidate, require_bind_pos hHeadNew]
            refine ih hTail ?_
            intro id hId hSeen
            rcases List.mem_cons.mp hSeen with rfl | hSeen
            · exact hHead hId
            · exact hTailNew id hId hSeen
  obtain ⟨result, hResult⟩ := hOk
  exact ⟨result, hResult, (checkCandidates_ok hResult).2.2⟩

/-- Slots that repeat every case for each candidate pass the walk over the plan. -/
theorem checkGroups_of_cases {size : Nat} (hSize : 1 ≤ size) {cases : List String} {slots : List SlotProgress}
    {seenCases seenCandidates : List String}
    (hSlots : slots.map SlotProgress.identity =
      cases.flatMap fun caseId => (List.range' 1 size).map fun ordinal => (caseId, ordinal))
    (hCases : cases.Nodup) (hNew : ∀ caseId ∈ cases, caseId ∉ seenCases)
    (hCandidates : (candidateIds slots).Nodup) (hFresh : ∀ id ∈ candidateIds slots, id ∉ seenCandidates) :
    checkGroups size cases.length slots seenCases seenCandidates = .ok () := by
  induction cases generalizing slots seenCases seenCandidates with
  | nil => rfl
  | cons caseId rest ih =>
      obtain ⟨hCase, hRest⟩ := List.nodup_cons.mp hCases
      obtain ⟨hCaseNew, hRestNew⟩ := List.forall_mem_cons.mp hNew
      rw [List.flatMap_cons] at hSlots
      have hTake : (slots.take size).map SlotProgress.identity =
          (List.range' 1 size).map fun ordinal => (caseId, ordinal) := by
        rw [List.map_take, hSlots, List.take_left' (by simp)]
      have hDrop : (slots.drop size).map SlotProgress.identity =
          rest.flatMap fun caseId => (List.range' 1 size).map fun ordinal => (caseId, ordinal) := by
        rw [List.map_drop, hSlots, List.drop_left' (by simp)]
      have hLength : (slots.take size).length = size := by
        have h := congrArg List.length hTake
        simpa using h
      have hSplit : candidateIds slots = candidateIds (slots.take size) ++ candidateIds (slots.drop size) := by
        rw [candidateIds, candidateIds, candidateIds, ← List.filterMap_append, List.take_append_drop]
      rw [hSplit, List.nodup_append] at hCandidates
      rw [hSplit] at hFresh
      obtain ⟨hGroup, hLater, hApart⟩ := hCandidates
      obtain ⟨seen, hSeen, hMem⟩ := checkCandidates_of_nodup hGroup fun id hId =>
        hFresh id (List.mem_append_left _ hId)
      obtain ⟨first, tail, hGroupEq⟩ : ∃ first tail, slots.take size = first :: tail := by
        cases hTakeEq : slots.take size with
        | nil =>
            rw [hTakeEq, List.length_nil] at hLength
            omega
        | cons first tail => exact ⟨first, tail, rfl⟩
      have hFirst : first.caseId = caseId := by
        have hIds := hTake
        obtain ⟨n, rfl⟩ : ∃ n, size = n + 1 := ⟨size - 1, by omega⟩
        rw [hGroupEq, List.range'_succ, List.map_cons, List.map_cons, List.cons.injEq] at hIds
        exact congrArg Prod.fst hIds.1
      have hOtherCases : ∀ other ∈ rest, other ∉ caseId :: seenCases := by
        intro other hOther hSeenCase
        rcases List.mem_cons.mp hSeenCase with rfl | hSeenCase
        · exact hCase hOther
        · exact hRestNew other hOther hSeenCase
      have hOtherIds : ∀ id ∈ candidateIds (slots.drop size), id ∉ seen := by
        intro id hId hSeenId
        rcases (hMem id).mp hSeenId with hEarlier | hEarlier
        · exact hApart id hEarlier id hId rfl
        · exact hFresh id (List.mem_append_right _ hId) hEarlier
      have hRestOk := ih hDrop hRest hOtherCases hLater hOtherIds
      rw [List.length_cons, checkGroups]
      simp only [hGroupEq, List.head?_cons, demand, ok_bind]
      rw [← hGroupEq, hLength, hFirst, require_bind_pos ⟨hCaseNew, hTake⟩, hSeen, ok_bind]
      exact hRestOk

theorem nextAction_of_plan {status : RunStatus} {preflightStatus : PreflightStatus} {preflightCaseId : String}
    {slots : List SlotProgress} {policy : ExecutionPolicy} {unresolvedUnknown : Nat}
    (hPlan : checkPlan slots policy = .ok ()) (hSlots : SlotsAccepted slots policy) :
    ∃ first, nextAction status preflightStatus preflightCaseId slots policy none unresolvedUnknown = .ok first := by
  simp only [nextAction, hPlan, ok_bind]
  have hFirst : ∃ first, firstAction policy slots = .ok first := ⟨_, firstAction_eq policy hSlots⟩
  split_ifs
  all_goals first | exact ⟨_, rfl⟩ | exact hFirst

namespace Book

variable {b : Book} {slots : List SlotProgress} {slot : SlotProgress} {completion : Completion}

/-- The slots of the book, in frozen order. -/
def Slots (b : Book) (slots : List SlotProgress) : Prop := List.Forall₂ b.Projects b.creation.slots slots

namespace Slots

theorem identities (hSlots : b.Slots slots) : slots.map SlotProgress.identity = b.creation.slots := by
  unfold Slots at hSlots
  generalize b.creation.slots = plan at hSlots
  induction hSlots with
  | nil => rfl
  | cons hSlot _ ih => rw [List.map_cons, hSlot.identity, ih]

theorem projects (hSlots : b.Slots slots) (hMem : slot ∈ slots) : b.Projects slot.identity slot := by
  unfold Slots at hSlots
  generalize b.creation.slots = plan at hSlots
  induction hSlots with
  | nil => cases hMem
  | cons hSlot _ ih =>
      rcases List.mem_cons.mp hMem with rfl | hMem
      · rw [hSlot.identity]
        exact hSlot
      · exact ih hMem

theorem exists_slot (hSlots : b.Slots slots) {id : String × Nat} (hId : id ∈ b.creation.slots) :
    ∃ slot ∈ slots, slot.identity = id := by
  rw [← hSlots.identities] at hId
  exact List.mem_map.mp hId

end Slots

namespace Sound

variable (h : b.Sound)
include h

theorem candidateIds_nodup (hSlots : b.Slots slots) : (candidateIds slots).Nodup := by
  unfold candidateIds List.Nodup
  rw [List.pairwise_filterMap]
  have hNodup : slots.Pairwise fun first second => first.identity ≠ second.identity := by
    rw [← List.pairwise_map, hSlots.identities]
    exact b.creation.slots_nodup
  refine hNodup.imp_of_mem ?_
  intro first second hFirst hSecond hNe firstId hFirstId secondId hSecondId hSame
  obtain ⟨candidate, hCandidate, rfl⟩ := Option.map_eq_some_iff.mp hFirstId
  obtain ⟨other, hOther, rfl⟩ := Option.map_eq_some_iff.mp hSecondId
  obtain ⟨row, hRow, hOf, hId, _⟩ := h.projected_source (hSlots.projects hFirst) hCandidate
  obtain ⟨otherRow, hOtherRow, hOtherOf, hOtherId, _⟩ := h.projected_source (hSlots.projects hSecond) hOther
  have hEq := h.source_unique hRow hOtherRow hId (hOtherId.trans (by rw [hSame]))
  exact hNe (by rw [← hOf, ← hOtherOf, hEq])

theorem checkPlan_slots (hSlots : b.Slots slots) : checkPlan slots b.creation.policy = .ok () := by
  have hFrozen := b.creation.frozen
  have hLength : slots.length = b.creation.policy.generationCases * b.creation.policy.candidatesPerCase := by
    have hIds := congrArg List.length hSlots.identities
    rw [List.length_map, Creation.slots, List.length_flatMap] at hIds
    simpa [b.creation.cases.1] using hIds
  have hSize : b.creation.policy.candidatesPerCase ≠ 0 := by
    rw [hFrozen.candidatesPerCase]
    decide
  have hCases : ∀ caseId ∈ b.creation.generationCaseIds, caseId ∉ ([] : List String) := by simp
  have hCandidates : ∀ id ∈ candidateIds slots, id ∉ ([] : List String) := by simp
  have hGroups := checkGroups_of_cases (Nat.pos_of_ne_zero hSize) hSlots.identities b.creation.cases.2 hCases
    (h.candidateIds_nodup hSlots) hCandidates
  rw [checkPlan, require_bind_pos hLength, require_bind_pos hSize, ← b.creation.cases.1]
  exact hGroups

theorem slotsAccepted (hSlots : b.Slots slots) : SlotsAccepted slots b.creation.policy :=
  fun _ hMem => h.slotAction_accepted (hSlots.projects hMem)

theorem nextAction_exists (hSlots : b.Slots slots) (status : RunStatus) (preflightStatus : PreflightStatus)
    (preflightCaseId : String) (unresolvedUnknown : Nat) :
    ∃ first, nextAction status preflightStatus preflightCaseId slots b.creation.policy none unresolvedUnknown =
      .ok first :=
  nextAction_of_plan (h.checkPlan_slots hSlots) (h.slotsAccepted hSlots)

/-- Executions of one target are told apart by their ordinal. -/
theorem eq_of_ordinal {first second : Completion} (hFirst : first ∈ b.completions) (hSecond : second ∈ b.completions)
    (hTarget : first.target = second.target) (hOrdinal : first.executionOrdinal = second.executionOrdinal) :
    first = second := by
  have hNodup := (h.numbering.histories second.target).nodup
  exact List.inj_on_of_nodup_map hNodup (mem_history.mpr ⟨hFirst, hTarget⟩) (mem_history.mpr ⟨hSecond, rfl⟩) hOrdinal

theorem generation_planned {row : GenerationRow} (hRow : row ∈ b.generations) : row.slot ∈ b.creation.slots := by
  obtain ⟨entry, hEntry, hEnds⟩ := h.calls.ended _ (generation_mem hRow)
  obtain ⟨_, _, hCase, hSlot, _⟩ := h.candidates.generationIndex row hRow
  have hKind : entry.checkpoint.kind = .generation := hEnds.kind.symm
  have hTarget := hEnds.target
  simp only [Completion.target, ExecutionCheckpoint.target, hKind, Target.slot.injEq] at hTarget
  rw [GenerationRow.slot, ← hCase, ← hSlot, hTarget]
  exact h.calls.planned entry hEntry

/-- An accepted generation is the last one of its slot. -/
theorem accepted_last {row : GenerationRow} {candidateId : String} (hRow : row ∈ b.generations)
    (hId : row.candidateId = some candidateId) :
    row.evidence.status = .succeeded ∧ (Completion.generation row.evidence).target = .slot row.slot ∧
    (Completion.generation row.evidence).executionOrdinal = (b.history (.slot row.slot)).length := by
  have hSucceeded : row.evidence.status = .succeeded := by
    by_contra hNot
    rw [((h.candidates.outcome row hRow).otherwise hNot).2] at hId
    cases hId
  obtain ⟨_, _, hCase, hSlot, _⟩ := h.candidates.generationIndex row hRow
  have hTarget : (Completion.generation row.evidence).target = .slot row.slot := by
    simp only [Completion.target, GenerationRow.slot, hCase, hSlot]
  refine ⟨hSucceeded, hTarget, ?_⟩
  rw [← hTarget]
  exact h.succeeded_last (generation_mem hRow) hSucceeded

/-- The slot of an accepted generation is in the stage of its candidate. -/
theorem accepted_slot (hSlots : b.Slots slots) {row : GenerationRow} {candidateId : String}
    (hRow : row ∈ b.generations) (hId : row.candidateId = some candidateId) :
    ∃ slot ∈ slots, slot.identity = row.slot ∧ slot.target = .candidate candidateId := by
  obtain ⟨hSucceeded, hTarget, hLast⟩ := h.accepted_last hRow hId
  obtain ⟨slot, hMem, hIdentity⟩ := hSlots.exists_slot (h.generation_planned hRow)
  refine ⟨slot, hMem, hIdentity, ?_⟩
  have hSlot := hSlots.projects hMem
  cases hCandidate : slot.candidate with
  | none =>
      obtain ⟨stored, hStored, _⟩ := (h.candidates.outcome row hRow).succeeded hSucceeded
      rw [hSlot.missing hCandidate row hRow hIdentity.symm] at hStored
      cases hStored
  | some candidate =>
      obtain ⟨other, hOther, hOf, hOtherId, _⟩ := h.projected_source hSlot hCandidate
      obtain ⟨_, hOtherTarget, hOtherLast⟩ := h.accepted_last hOther hOtherId
      have hSame : other.slot = row.slot := hOf.trans hIdentity
      rw [hSame] at hOtherTarget hOtherLast
      have hEq := h.eq_of_ordinal (generation_mem hOther) (generation_mem hRow) (hOtherTarget.trans hTarget.symm)
        (hOtherLast.trans hLast.symm)
      have hRows : other = row := by
        refine h.generations_unique.eq_of_key hOther hRow ?_
        rw [← (h.candidates.generationIndex other hOther).2.1, ← (h.candidates.generationIndex row hRow).2.1]
        exact congrArg Completion.invocationId hEq
      rw [hRows, hId] at hOtherId
      simp only [SlotProgress.target, hCandidate, Option.some.inj hOtherId]

/-- The last execution of a target that did not succeed belongs to the current
stage of a slot. -/
theorem open_slot (hSlots : b.Slots slots) (hMem : completion ∈ b.completions)
    (hLast : completion.executionOrdinal = (b.history completion.target).length)
    (hOpen : completion.status ≠ .succeeded) : ∃ slot ∈ slots, slot.target = completion.target := by
  cases completion with
  | generation value =>
      obtain ⟨row, hRow, hValue⟩ : ∃ row ∈ b.generations, Completion.generation value = .generation row.evidence := by
        rcases mem_completions.mp hMem with hRow | ⟨_, _, hNot⟩
        · exact hRow
        · cases hNot
      obtain ⟨slot, hSlotMem, hIdentity⟩ := hSlots.exists_slot (h.generation_planned hRow)
      have hTarget : (Completion.generation value).target = .slot row.slot := by
        obtain ⟨_, _, hCase, hSlot, _⟩ := h.candidates.generationIndex row hRow
        rw [hValue]
        simp only [Completion.target, GenerationRow.slot, hCase, hSlot]
      refine ⟨slot, hSlotMem, ?_⟩
      cases hCandidate : slot.candidate with
      | none => rw [SlotProgress.target, hCandidate, hTarget, hIdentity]
      | some candidate =>
          obtain ⟨other, hOther, hOf, hOtherId, _⟩ := h.projected_source (hSlots.projects hSlotMem) hCandidate
          obtain ⟨hSucceeded, hOtherTarget, hOtherLast⟩ := h.accepted_last hOther hOtherId
          rw [hOf.trans hIdentity] at hOtherTarget hOtherLast
          rw [hTarget] at hLast
          have hEq := h.eq_of_ordinal (generation_mem hOther) hMem (hOtherTarget.trans hTarget.symm)
            (hOtherLast.trans hLast.symm)
          exact absurd ((congrArg Completion.status hEq).symm.trans hSucceeded) hOpen
  | semantic value =>
      obtain ⟨row, hRow, hValue⟩ : ∃ row ∈ b.semantics, Completion.semantic value = .semantic row.evidence := by
        rcases mem_completions.mp hMem with ⟨_, _, hNot⟩ | hRow
        · cases hNot
        · exact hRow
      obtain ⟨source, hSource, hId, _⟩ := h.candidates.judged row hRow
      obtain ⟨slot, hSlotMem, _, hTarget⟩ := h.accepted_slot hSlots hSource hId
      refine ⟨slot, hSlotMem, ?_⟩
      rw [hTarget, hValue, Completion.target, (h.candidates.semanticIndex row hRow).2.2.2.1]

/-- A slot whose whole history permits another execution runs. -/
theorem slot_runs (hSlots : b.Slots slots) (hMem : slot ∈ slots)
    (hPermits : ∀ completion ∈ b.history slot.target, b.Permits completion) :
    ∃ action, slotAction slot b.creation.policy = .ok (some action) ∧ action.kind ≠ .block := by
  have hSlot := hSlots.projects hMem
  obtain ⟨planned, hPlanned⟩ := h.slotAction_accepted hSlot
  cases planned with
  | none =>
      obtain ⟨completion, hHistory, hSucceeded⟩ := (h.reviewReady_iff hSlot).mp (slotAction_none hPlanned)
      exact absurd hSucceeded (hPermits completion hHistory).not_succeeded
  | some action =>
      refine ⟨action, hPlanned, ?_⟩
      rcases h.slotAction_some_iff hSlot hPlanned with ⟨hKind, _⟩ | ⟨_, completion, hLast, _, hNot⟩
      · rw [hKind]
        cases slot.kind <;> decide
      · exact absurd (hPermits completion (mem_sorted.mp (List.mem_of_getLast? hLast))) hNot

omit h in
/-- An unresolved execution in the plan is an unresolved completion of the book. -/
theorem unresolved_of_historical (hSlots : b.Slots slots) (hUnknown : historicalUnknown slots = true) :
    ∃ completion ∈ b.completions, completion.status = .resultUnknown ∧
      completion.executionId ∉ replacedExecutions b.resolutions := by
  have hFields : ∀ target (result : ExecutionResult), result.toResultFields ∈ b.results target →
      result.unresolved = true → ∃ completion ∈ b.completions, completion.status = .resultUnknown ∧
        completion.executionId ∉ replacedExecutions b.resolutions := by
    intro target result hMem hUnresolved
    obtain ⟨completion, hCompletion, hResult⟩ := List.mem_map.mp hMem
    simp only [ExecutionResult.unresolved, Bool.and_eq_true, beq_iff_eq, Bool.not_eq_true', ← hResult, resultOf,
      decide_eq_false_iff_not] at hUnresolved
    exact ⟨completion, (mem_history.mp (mem_sorted.mp hCompletion)).1, hUnresolved⟩
  obtain ⟨slot, hMem, hSlot⟩ := List.any_eq_true.mp hUnknown
  obtain ⟨result, hResult, hUnresolved⟩ := List.any_eq_true.mp hSlot
  have hProjects := hSlots.projects hMem
  rcases List.mem_append.mp hResult with hResult | hResult
  · refine hFields (.slot slot.identity) result ?_ hUnresolved
    rw [← hProjects.generation]
    exact List.mem_map_of_mem hResult
  · cases hCandidate : slot.candidate with
    | none =>
        rw [hCandidate] at hResult
        cases hResult
    | some candidate =>
        rw [hCandidate] at hResult
        refine hFields slot.target result ?_ hUnresolved
        rw [← hProjects.executions, SlotProgress.executions, hCandidate]
        exact List.mem_map_of_mem hResult

end Sound

end Book

/-! Proposed executions. -/

section Proposals

variable {status : RunStatus} {preflightStatus : PreflightStatus} {preflightCaseId : String}
  {slots : List SlotProgress} {policy : ExecutionPolicy} {active : Finset (String × Nat)}
  {limit unresolvedUnknown : Nat} {plan : ParallelPlan} {action : NextAction}

theorem planParallel_ok
    (h : planParallel status preflightStatus preflightCaseId slots policy active limit unresolvedUnknown = .ok plan) :
    (1 ≤ limit ∧ limit ≤ 32) ∧ active ⊆ (slots.map SlotProgress.identity).toFinset ∧
    ∃ first, nextAction status preflightStatus preflightCaseId slots policy none unresolvedUnknown = .ok first := by
  simp only [planParallel, bind_ok, require_ok, exists_const] at h
  obtain ⟨hLimit, first, hFirst, hActive, _⟩ := h
  exact ⟨hLimit, hActive, first, hFirst⟩

/-- A ready action passed every guard and runs a stage of a free slot. -/
theorem planParallel_ready (hSlots : SlotsAccepted slots policy)
    (h : planParallel status preflightStatus preflightCaseId slots policy active limit unresolvedUnknown = .ok plan)
    (hAction : action ∈ plan.ready) :
    ¬ guarded status preflightStatus slots unresolvedUnknown ∧
    ∃ slot ∈ slots, slot.identity ∉ active ∧ slotAction slot policy = .ok (some action) ∧ action.kind ≠ .block := by
  obtain ⟨hLimit, hActive, first, hFirst⟩ := planParallel_ok h
  obtain ⟨hGuarded, hOpen⟩ := planParallel_eq hFirst hSlots hActive hLimit
  by_cases hGuard : guarded status preflightStatus slots unresolvedUnknown
  · rw [hGuarded hGuard] at h
    cases h
    cases hAction
  · rw [hOpen hGuard] at h
    cases h
    obtain ⟨hMem, hRuns⟩ := List.mem_filter.mp (List.mem_of_mem_take hAction)
    obtain ⟨slot, hSlot, hFree, hPlanned⟩ := openActions_mem hMem
    exact ⟨hGuard, slot, hSlot, hFree, hPlanned, by simpa [NextAction.blocks] using hRuns⟩

/-- A serial action that runs a stage passed every guard and is that of a slot. -/
theorem nextAction_runs (hSlots : SlotsAccepted slots policy)
    (h : nextAction status preflightStatus preflightCaseId slots policy none unresolvedUnknown = .ok action)
    (hKind : action.kind = .generation ∨ action.kind = .semantic) :
    ¬ guarded status preflightStatus slots unresolvedUnknown ∧
    ∃ slot ∈ slots, slotAction slot policy = .ok (some action) := by
  have hOpen : ¬ guarded status preflightStatus slots unresolvedUnknown := by
    intro hGuard
    obtain ⟨_, hGeneration, hSemantic, _⟩ := nextAction_guarded h hGuard
    exact hKind.elim hGeneration hSemantic
  refine ⟨hOpen, ?_⟩
  rcases nextAction_head h hSlots hOpen with ⟨_, rfl⟩ | ⟨rest, hActions⟩
  · rcases hKind with hKind | hKind <;> cases hKind
  · obtain ⟨slot, hSlot, _, hPlanned⟩ :=
      openActions_mem (hActions ▸ List.mem_cons_self : action ∈ openActions policy ∅ slots)
    exact ⟨slot, hSlot, hPlanned⟩

end Proposals

/-- The checkpoint takes over a planned action. -/
structure ExecutionCheckpoint.Takes (cp : ExecutionCheckpoint) (action : NextAction) : Prop where
  kind : action.kind.execution = some cp.kind
  caseId : cp.caseId = action.caseId
  slotOrdinal : cp.slotOrdinal = action.slotOrdinal
  candidateId : cp.candidateId = action.candidateId
  executionOrdinal : cp.executionOrdinal = action.executionOrdinal

theorem ActionKind.execution_eq {kind : ActionKind} {stage : ExecutionKind} (h : kind.execution = some stage) :
    kind = stage.action := by
  cases kind <;> cases h <;> rfl

/-- What an execution of the stage belongs to. -/
def NextAction.target (action : NextAction) : ExecutionKind → Target
  | .generation => .slot action.slot
  | .semantic => .candidate action.candidateId

/-- A proposed action runs the stage of its slot and continues its history. -/
structure Book.Follows (b : Book) (slot : SlotProgress) (kind : ExecutionKind) (action : NextAction) : Prop where
  identity : action.slot = slot.identity
  stage : kind = slot.kind
  target : slot.target = action.target kind
  permitted : ∀ completion ∈ b.history slot.target, b.Permits completion
  next : action.executionOrdinal = (b.history slot.target).length + 1
  unjudged : kind = .generation → action.candidateId = ""
  accepted : kind = .semantic → b.Accepts action.slot action.candidateId

theorem Book.Sound.follows_of_action {b : Book} (h : b.Sound) {slots : List SlotProgress} {slot : SlotProgress}
    {action : NextAction} {kind : ExecutionKind} (hSlots : b.Slots slots) (hMem : slot ∈ slots)
    (hAction : slotAction slot b.creation.policy = .ok (some action)) (hRuns : action.kind.execution = some kind) :
    b.Follows slot kind action := by
  have hProjects := hSlots.projects hMem
  obtain ⟨_, planned, cause, hShape, _⟩ := slotAction_some hAction
  have hRuns := ActionKind.execution_eq hRuns
  have hKind : kind = slot.kind ∧ ∀ completion ∈ b.history slot.target, b.Permits completion := by
    rcases h.slotAction_some_iff hProjects hAction with ⟨hKind, hPermits⟩ | ⟨hKind, _⟩
    · rw [hRuns] at hKind
      refine ⟨?_, hPermits⟩
      cases kind <;> cases hSlotCase : slot.kind <;> simp_all [ExecutionKind.action]
    · rw [hRuns] at hKind
      cases kind <;> cases hKind
  have hSlot : action.slot = slot.identity := by
    rw [hShape]
    rfl
  have hCandidate : action.candidateId = slot.candidateId := by
    rw [hShape]
    rfl
  have hNext : action.executionOrdinal = (b.history slot.target).length + 1 := by
    rw [← hProjects.executions_length, hShape]
    rfl
  cases hCase : slot.candidate with
  | none =>
      have hStage : kind = .generation := by simp [hKind.1, SlotProgress.kind, hCase]
      subst hStage
      refine ⟨hSlot, hKind.1, by simp only [SlotProgress.target, hCase, NextAction.target, hSlot], hKind.2, hNext,
        fun _ => ?_, ?_⟩
      · rw [hCandidate, SlotProgress.candidateId, hCase]
      · exact fun hSemantic => by cases hSemantic
  | some candidate =>
      have hStage : kind = .semantic := by simp [hKind.1, SlotProgress.kind, hCase]
      subst hStage
      have hId : action.candidateId = candidate.candidateId := by rw [hCandidate, SlotProgress.candidateId, hCase]
      refine ⟨hSlot, hKind.1, by simp only [SlotProgress.target, hCase, NextAction.target, hId], hKind.2, hNext, ?_, fun _ => ?_⟩
      · exact fun hGeneration => by cases hGeneration
      · obtain ⟨row, hRow, hOf, hRowId, _⟩ := h.projected_source hProjects hCase
        exact ⟨row, hRow, hRowId.trans (by rw [hId]), hOf.trans hSlot.symm⟩

/-- A checkpoint that takes over a proposed action holds the next execution of
the slot. -/
theorem Book.Sound.holds_of_action {b : Book} (h : b.Sound) {slots : List SlotProgress} {slot : SlotProgress}
    {action : NextAction} {cp : ExecutionCheckpoint} (hSlots : b.Slots slots) (hMem : slot ∈ slots)
    (hAction : slotAction slot b.creation.policy = .ok (some action)) (hTakes : cp.Takes action)
    (hPhase : cp.phase = .prepared) (hClaimed : ∀ value ∈ b.recoveries, value.resolvedAt ≤ cp.claimedAt) :
    b.Holds cp ∧ cp.slot = slot.identity := by
  have hFollows := h.follows_of_action hSlots hMem hAction hTakes.kind
  have hSlot : cp.slot = action.slot := by
    rw [ExecutionCheckpoint.slot, hTakes.caseId, hTakes.slotOrdinal, NextAction.slot]
  have hTarget : cp.target = slot.target := by
    rw [hFollows.target, ExecutionCheckpoint.target]
    cases cp.kind with
    | generation => simp only [NextAction.target, hSlot]
    | semantic => simp only [NextAction.target, hTakes.candidateId]
  have hIdentity : cp.slot = slot.identity := hSlot.trans hFollows.identity
  refine ⟨⟨?_, ?_, ?_, ?_, ?_, hClaimed⟩, hIdentity⟩
  · rw [hIdentity, ← hSlots.identities]
    exact List.mem_map_of_mem hMem
  · intro hDispatching
    rw [hPhase] at hDispatching
    cases hDispatching
  · rw [hTarget, hTakes.executionOrdinal]
    exact hFollows.next
  · rw [hTarget]
    exact hFollows.permitted
  · rw [hSlot, hTakes.candidateId]
    exact hFollows.accepted

end QsAi
