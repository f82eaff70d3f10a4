import QsAi.Run.SerialCompletion
import QsAi.Run.Script

/-! Contract recoveries. An accepted exception flags one failed judge call; the
projection of every other candidate, all evidence and every call stay as they
were, and the flag lets one more call of its candidate follow. -/
namespace QsAi

open Guarded Keyed Numbered

namespace Store

variable {store next : Store}

/-- The slots of an idle Run as they are projected from its rows. -/
def slots (store : Store) : Except Rejection (List SlotProgress) :=
  projectSlots store.creation.slots store.generations store.dispatches store.semantics
    store.progress.resultUnknownResolutions store.progress.semanticContractRecoveries store.creation.policy

end Store

/-! Slots under one more exception. -/

namespace Book

variable {b : Book}

/-- The book with one more exception. -/
def excepting (b : Book) (value : ContractRecovery) : Book := { b with recoveries := b.recoveries ++ [value] }

/-- The exception flags the execution that it names. -/
theorem resultOf_excepting {value : ContractRecovery} {completion : Completion}
    (hOther : completion.kind = .semantic → completion.executionId ≠ value.executionId) :
    (b.excepting value).resultOf completion = b.resultOf completion := by
  have hFlag : (completion.kind = .semantic ∧ completion.executionId ∈ (b.recoveries ++ [value]).map (·.executionId)) ↔
      (completion.kind = .semantic ∧ completion.executionId ∈ b.recoveries.map (·.executionId)) := by
    rw [List.map_append, List.mem_append]
    constructor
    · rintro ⟨hKind, hMem | hMem⟩
      · exact ⟨hKind, hMem⟩
      · exact absurd (List.mem_singleton.mp hMem) (hOther hKind)
    · exact fun ⟨hKind, hMem⟩ => ⟨hKind, .inl hMem⟩
  simp only [resultOf, excepting]
  congr 1
  exact decide_eq_decide.mpr hFlag

theorem results_excepting {value : ContractRecovery} {target : Target}
    (hOther : ∀ completion ∈ b.history target, completion.kind = .semantic → completion.executionId ≠ value.executionId) :
    (b.excepting value).results target = b.results target :=
  List.map_congr_left fun completion hMem => resultOf_excepting (hOther completion (mem_sorted.mp hMem))

/-- Executions with the same fields are the same. -/
theorem executions_ext {a b : List ExecutionResult} (h : a.map (·.toResultFields) = b.map (·.toResultFields)) :
    a = b := by
  refine List.map_injective_iff.mpr ?_ h
  rintro ⟨_, _⟩ ⟨_, _⟩ hFields
  cases hFields
  rfl

namespace Sound

variable (h : b.Sound)
include h

/-- A slot shows the one candidate of its generations. -/
theorem stored_unique {row other : GenerationRow} {stored found : Candidate} (hRow : row ∈ b.generations)
    (hOther : other ∈ b.generations) (hSlot : row.slot = other.slot) (hStored : row.candidate = some stored)
    (hFound : other.candidate = some found) : stored = found := by
  have hId := h.candidate_stored hRow hStored
  have hOtherId := h.candidate_stored hOther hFound
  obtain ⟨_, hTarget, hLast⟩ := h.accepted_last hRow hId
  obtain ⟨_, hOtherTarget, hOtherLast⟩ := h.accepted_last hOther hOtherId
  rw [hSlot] at hTarget hLast
  have hEq := h.eq_of_ordinal (generation_mem hRow) (generation_mem hOther) (hTarget.trans hOtherTarget.symm)
    (hLast.trans hOtherLast.symm)
  have hRows : row = other := by
    refine h.generations_unique.eq_of_key hRow hOther ?_
    rw [← (h.candidates.generationIndex row hRow).2.1, ← (h.candidates.generationIndex other hOther).2.1]
    exact congrArg Completion.invocationId hEq
  rw [hRows, hFound] at hStored
  exact (Option.some.inj hStored).symm

/-- A slot of another candidate is projected as it was. -/
theorem projects_excepting {value : ContractRecovery} {id : String × Nat} {old new : SlotProgress}
    (hOld : b.Projects id old) (hNew : (b.excepting value).Projects id new)
    (hTarget : ∀ completion ∈ b.completions, completion.kind = .semantic → completion.executionId = value.executionId →
      completion.target = .candidate value.candidateId)
    (hOther : old.candidateId ≠ value.candidateId) : new = old := by
  have hGeneration : new.generation = old.generation := by
    refine executions_ext ?_
    rw [hOld.generation, hNew.generation]
    refine results_excepting fun completion hMem hKind hId => ?_
    obtain ⟨hCompletion, hSlot⟩ := mem_history.mp hMem
    rw [hTarget completion hCompletion hKind hId] at hSlot
    cases hSlot
  have hIdentity : new.identity = old.identity := hNew.identity.trans hOld.identity.symm
  have hCandidate : new.candidate = old.candidate := by
    cases hOldCandidate : old.candidate with
    | none =>
        cases hNewCandidate : new.candidate with
        | none => rfl
        | some candidate =>
            obtain ⟨row, hRow, hSlot, stored, hStored, _⟩ := hNew.accepted candidate hNewCandidate
            have hNone := hOld.missing hOldCandidate row hRow hSlot
            rw [hNone] at hStored
            cases hStored
    | some candidate =>
        obtain ⟨row, hRow, hSlot, stored, hStored, hId, hReady, hSemantic⟩ := hOld.accepted candidate hOldCandidate
        cases hNewCandidate : new.candidate with
        | none =>
            have hNone := hNew.missing hNewCandidate row hRow hSlot
            rw [hNone] at hStored
            cases hStored
        | some other =>
            obtain ⟨otherRow, hOtherRow, hOtherSlot, found, hFound, hOtherId, hOtherReady, hOtherSemantic⟩ :=
              hNew.accepted other hNewCandidate
            obtain rfl := h.stored_unique hRow hOtherRow (hSlot.trans hOtherSlot.symm) hStored hFound
            have hNamed : stored.id ≠ value.candidateId := by
              rw [← hId]
              rw [SlotProgress.candidateId, hOldCandidate] at hOther
              exact hOther
            have hResults : other.semantic = candidate.semantic := by
              refine executions_ext ?_
              rw [hSemantic, hOtherSemantic]
              refine results_excepting fun completion hMem hKind hExecution => ?_
              obtain ⟨hCompletion, hOf⟩ := mem_history.mp hMem
              rw [hTarget completion hCompletion hKind hExecution] at hOf
              exact hNamed (Target.candidate.inj hOf).symm
            obtain ⟨⟨_, _, _⟩, _⟩ := candidate
            obtain ⟨⟨_, _, _⟩, _⟩ := other
            cases hId.trans hOtherId.symm
            cases hReady.trans hOtherReady.symm
            cases hResults
            rfl
  obtain ⟨⟨_, _, _, _⟩, _⟩ := old
  obtain ⟨⟨_, _, _, _⟩, _⟩ := new
  cases hIdentity
  cases hGeneration
  cases hCandidate
  rfl

end Sound

end Book

namespace Store

variable {store next : Store}

/-! The recovery. -/

/-- What an accepted exception was checked to resume. -/
theorem authorizeContractRecovery_planned {expectedVersion : Nat} {expectedReleaseFingerprint : String}
    {value : ContractRecovery} {confirm : Bool}
    (hOk : store.authorizeContractRecovery expectedVersion expectedReleaseFingerprint value confirm = .ok next) :
    ∃ target ∈ store.semantics.map (·.evidence), target.executionId = value.executionId ∧
      ∃ after preflight action, next.slots = .ok after ∧ next.progress.preflight = some preflight ∧
        nextAction .collecting preflight.status preflight.caseId after next.creation.policy none 0 = .ok action ∧
        action.kind = .semantic ∧ action.candidateId = value.candidateId ∧
        action.executionOrdinal = target.executionOrdinal + 1 ∧ action.cause = .semanticContractRecoveryApproved := by
  simp only [authorizeContractRecovery, bind_ok, require_ok, exists_const, demand_ok, pure_ok] at hOk
  obtain ⟨_, _, _, _, _, _, _, _, _, semantics, hDecode, _, _, target, hTarget, _, _, slots, hSlots, preflight,
    hPreflight, action, hAction, hPlanned, saved, hSave, rfl⟩ := hOk
  obtain ⟨_, rfl⟩ := saveCheckpoint_ok hSave
  obtain rfl := decodeSemantics_ok hDecode
  obtain ⟨hMem, hId⟩ := lookup_some hTarget
  exact ⟨target, hMem, hId, slots, preflight, action, hSlots, hPreflight, hAction, hPlanned⟩

/-- The exception names the execution by its id and its candidate. -/
theorem Recovers.named {value : ContractRecovery} {block : Transition} {target : SemanticCompletion}
    (hRecovers : store.Recovers next value block target) (h : store.Valid) :
    target.candidateId = value.candidateId ∧ target.executionOrdinal < store.creation.policy.semanticPerCandidate ∧
    ∀ completion ∈ store.book.completions, completion.kind = .semantic → completion.executionId = value.executionId →
      completion.target = .candidate value.candidateId := by
  obtain ⟨recovered, hExcepted⟩ := hRecovers.excepted
  obtain ⟨_, _, hExcepts⟩ := (validateRecoveries_ok h.sound.semantic_executions).mp hExcepted
  obtain ⟨found, hFound, hFoundId, hTargets, _⟩ := hExcepts value (by simp)
  obtain ⟨hTarget, hTargetId⟩ := hRecovers.judged
  obtain rfl := h.sound.semantic_executions.eq_of_key hFound hTarget (hFoundId.trans hTargetId.symm)
  obtain ⟨_, _, _, _, _, hCandidate, _, _, _, hBudget⟩ := hTargets
  refine ⟨hCandidate, hBudget, fun completion hMem hKind hId => ?_⟩
  obtain ⟨row, hRow, hEvidence⟩ := List.mem_map.mp hFound
  have hSame := h.sound.calls.executions_unique.eq_of_key hMem (Book.semantic_mem hRow) (by
    change completion.executionId = row.evidence.executionId
    rw [hId, hEvidence, hFoundId])
  rw [hSame, Completion.target, hEvidence, hCandidate]

/-- Only the named candidate is projected anew. -/
theorem Recovers.projected {value : ContractRecovery} {block : Transition} {target : SemanticCompletion}
    (hRecovers : store.Recovers next value block target) (h : store.Coherent) (hNext : next.Coherent)
    {after : List SlotProgress} (hAfter : next.slots = .ok after) :
    ∃ before, store.slots = .ok before ∧ next.book.Slots after ∧
      List.Forall₂ (fun old new : SlotProgress => old.candidateId ≠ value.candidateId → new = old) before after := by
  have hIdle : store.live = [] := h.idle (by rw [hRecovers.blocked]; decide)
  have hNextIdle : next.live = [] := by
    rw [hRecovers.next]
    exact hIdle
  obtain ⟨before, hBefore, hOld⟩ := h.toValid.projectSlots_ok (open_of_live_nil hIdle)
  obtain ⟨found, hFound, hNew⟩ := hNext.toValid.projectSlots_ok (open_of_live_nil hNextIdle)
  obtain rfl : found = after := Except.ok.inj (hFound.symm.trans hAfter)
  refine ⟨before, hBefore, hNew, ?_⟩
  clear hAfter hFound hBefore
  have hBook : next.book = store.book.excepting value := by
    rw [hRecovers.next]
    rfl
  have hNamed := (hRecovers.named h.toValid).2.2
  rw [hBook] at hNew
  unfold Book.Slots at hOld hNew
  change List.Forall₂ _ store.book.creation.slots _ at hNew
  generalize store.book.creation.slots = plan at hOld hNew
  induction hOld generalizing found with
  | nil =>
      cases hNew
      exact .nil
  | cons hFirst _ ih =>
      cases hNew with
      | cons hSecond hRest =>
          exact .cons (fun hOther => h.sound.projects_excepting hFirst hSecond hNamed hOther) (ih _ hRest)

/-- The planners offer the named execution first. -/
theorem planParallel_resumes {slots : List SlotProgress} {preflight : PreflightEvidence} {action : NextAction}
    (h : store.Valid) (hSlots : store.book.Slots slots) (hKind : action.kind = .semantic)
    (hAction : nextAction .collecting preflight.status preflight.caseId slots store.creation.policy none 0 = .ok action)
    {limit : Nat} (hLimit : 1 ≤ limit ∧ limit ≤ 32) :
    ∃ plan, planParallel .collecting preflight.status preflight.caseId slots store.creation.policy ∅ limit 0 =
        .ok plan ∧ plan.ready.head? = some action := by
  have hAccepted := h.sound.slotsAccepted hSlots
  obtain ⟨hOpen, _⟩ := nextAction_runs hAccepted hAction (.inr hKind)
  obtain ⟨rest, hActions⟩ : ∃ rest, openActions store.creation.policy ∅ slots = action :: rest := by
    rcases nextAction_head hAction hAccepted hOpen with ⟨_, rfl⟩ | hRest
    · cases hKind
    · exact hRest
  refine ⟨_, (planParallel_eq hAction hAccepted (Finset.empty_subset _) hLimit).2 hOpen, ?_⟩
  have hRuns : action.blocks = false := by simp [NextAction.blocks, hKind]
  obtain ⟨room, rfl⟩ : ∃ room, limit = room + 1 := ⟨limit - 1, by omega⟩
  simp [hActions, hRuns]

/-! What follows. -/

/-- No change withdraws an exception. -/
theorem Change.recoveries {event : Event} (hChange : store.Change event next) :
    store.progress.semanticContractRecoveries <+: next.progress.semanticContractRecoveries := by
  have hSame : ∀ {a b : List ContractRecovery}, b = a → a <+: b := fun hEq => hEq ▸ List.prefix_rfl
  cases hChange with
  | preflight => exact hSame (by split <;> rfl)
  | prepare _ hKeeps => exact hSame (by rw [hKeeps.progress])
  | dispatch _ _ _ _ _ _ _ hKeeps => exact hSame (by rw [hKeeps.progress])
  | renew _ hKeeps => exact hSame (by rw [hKeeps.progress])
  | release _ _ hKeeps => exact hSame (by rw [hKeeps.progress])
  | drain hEnded => exact hSame (by rw [hEnded.kept])
  | settle _ _ hEnded => exact hSame (by rw [hEnded.kept])
  | recover hRecovers =>
      rw [hRecovers.next]
      exact List.prefix_append _ _
  | requestCancel hRequests => exact hSame (by rw [hRequests.next])
  | endCanceled _ hEnds => exact hSame (by rw [hEnds.next])
  | review hReviews => exact hSame (by rw [hReviews.reviewed.next])
  | _ => exact hSame rfl

theorem Changes.recoveries {events : List Event} (hChanges : Changes store events next) :
    store.progress.semanticContractRecoveries <+: next.progress.semanticContractRecoveries := by
  induction hChanges with
  | nil => exact List.prefix_rfl
  | cons hChange _ ih => exact hChange.recoveries.trans ih

/-- No change removes a recorded call. -/
theorem Change.calls {event : Event} (hChange : store.Change event next) : store.dispatches <+: next.dispatches := by
  have hSame : ∀ {a b : List DispatchRow}, b = a → a <+: b := fun hEq => hEq ▸ List.prefix_rfl
  cases hChange with
  | prepare _ _ hDispatches => exact hSame hDispatches
  | dispatch _ _ _ _ _ _ _ _ hRecorded =>
      rw [hRecorded]
      exact List.prefix_append _ _
  | renew _ _ hDispatches => exact hSame hDispatches
  | release _ _ _ hDispatches => exact hSame hDispatches
  | drain hEnded => exact hSame hEnded.dispatches
  | settle _ _ hEnded => exact hSame hEnded.dispatches
  | recover hRecovers => exact hSame (by rw [hRecovers.next])
  | requestCancel hRequests => exact hSame (by rw [hRequests.next])
  | endCanceled _ hEnds => exact hSame (by rw [hEnds.next])
  | review hReviews => exact hSame (by rw [hReviews.reviewed.next])
  | _ => exact hSame rfl

theorem Changes.calls {events : List Event} (hChanges : Changes store events next) :
    store.dispatches <+: next.dispatches := by
  induction hChanges with
  | nil => exact List.prefix_rfl
  | cons hChange _ ih => exact hChange.calls.trans ih

/-- An exception is accepted once for its execution. -/
theorem Valid.recovers_once (h : store.Valid) {value other : ContractRecovery} {block : Transition}
    {target : SemanticCompletion} (hPrior : value ∈ store.progress.semanticContractRecoveries)
    (hRecovers : store.Recovers next other block target) : other.executionId ≠ value.executionId := by
  obtain ⟨recovered, hExcepted⟩ := hRecovers.excepted
  obtain ⟨_, hUnique, _⟩ := (validateRecoveries_ok h.sound.semantic_executions).mp hExcepted
  intro hSame
  refine hUnique.of_snoc.2 ?_
  rw [hSame]
  exact List.mem_map_of_mem hPrior

/-- A later call of a candidate whose failed execution was the last one has the
next ordinal, and no other one follows it. -/
theorem Valid.called_once (h : store.Valid) {later : Store} (hLater : later.Valid) {value : SemanticCompletion}
    (hMem : Completion.semantic value ∈ store.book.completions) (hCalls : store.dispatches <+: later.dispatches) :
    ∃ added, later.semanticCalls value.candidateId = store.semanticCalls value.candidateId ++ added ∧
      added.length ≤ 1 ∧ ∀ row ∈ added, row.checkpoint.executionOrdinal = value.executionOrdinal + 1 := by
  obtain ⟨more, hMore⟩ := hCalls
  have hSplit : later.semanticCalls value.candidateId = store.semanticCalls value.candidateId ++
      more.filter fun row => row.kind = .semantic ∧ row.candidateId = value.candidateId := by
    rw [semanticCalls, semanticCalls, ← hMore, List.filter_append]
  refine ⟨_, hSplit, ?_⟩
  generalize more.filter (fun row => row.kind = .semantic ∧ row.candidateId = value.candidateId) = added at hSplit
  have hNumbered : Complete (·.checkpoint.executionOrdinal) (later.semanticCalls value.candidateId) := by
    rw [hLater.semanticCalls_eq]
    exact hLater.sound.numbering.issued _
  have hBefore : Complete (·.checkpoint.executionOrdinal) (store.semanticCalls value.candidateId) := by
    rw [h.semanticCalls_eq]
    exact h.sound.numbering.issued _
  -- A checkpoint is the first or the second execution of its candidate.
  have hBound : ∀ row : DispatchRow, row.checkpoint.executionOrdinal ≤ 2 := by
    intro row
    exact row.checkpoint.facts.executionOrdinal.2
  obtain ⟨entry, hEntry, hEnds⟩ := h.sound.calls.ended _ hMem
  have hOwn : entry ∈ store.semanticCalls value.candidateId := by
    rw [h.semanticCalls_eq]
    exact List.mem_filter.mpr ⟨hEntry, decide_eq_true hEnds.target.symm⟩
  have hOrdinal : value.executionOrdinal = entry.checkpoint.executionOrdinal := hEnds.executionOrdinal
  have hLength : (later.semanticCalls value.candidateId).length ≤ 2 := by
    rcases Nat.eq_zero_or_pos (later.semanticCalls value.candidateId).length with hZero | hPos
    · omega
    · obtain ⟨last, _, hLast⟩ := hNumbered.exists_number hPos le_rfl
      have := hBound last
      omega
  have hSome := (hBefore.number_le hOwn)
  have hFew : (store.semanticCalls value.candidateId).length + added.length ≤ 2 := by
    rw [hSplit, List.length_append] at hLength
    exact hLength
  refine ⟨by omega, fun row hRow => ?_⟩
  have hPos : 0 < added.length := List.length_pos_of_mem hRow
  have hLaterRow : row ∈ later.semanticCalls value.candidateId := by
    rw [hSplit]
    exact List.mem_append_right _ hRow
  have hRowNumber := hNumbered.number_le hLaterRow
  have hDistinct : row.checkpoint.executionOrdinal ≠ entry.checkpoint.executionOrdinal := by
    have hNodup := hNumbered.nodup
    rw [hSplit, List.map_append, List.nodup_append] at hNodup
    exact fun hSame => hNodup.2.2 _ (List.mem_map_of_mem hOwn) _ (List.mem_map_of_mem hRow) hSame.symm
  have := hBound row
  omega

end Store

/-- Calls and exceptions are only added. -/
theorem Continues.extends {allowed : Operation → Prop} {store later : Store} (hLater : Continues allowed store later)
    (h : store.Coherent) : later.Coherent ∧ later.creation = store.creation ∧ store.dispatches <+: later.dispatches ∧
      store.progress.semanticContractRecoveries <+: later.progress.semanticContractRecoveries := by
  induction hLater with
  | refl => exact ⟨h, rfl, List.prefix_rfl, List.prefix_rfl⟩
  | step _ _ hOp ih =>
      obtain ⟨hMiddle, hCreation, hCalls, hRecoveries⟩ := ih
      have hChanges := Store.perform_changes hMiddle hOp
      obtain ⟨hLast, hSame⟩ := hChanges.coherent hMiddle
      exact ⟨hLast, hSame.trans hCreation, hCalls.trans hChanges.calls, hRecoveries.trans hChanges.recoveries⟩

/-- An accepted exception resumes the named candidate with the ordinal after the
failed one, under either planner; nothing but its projection changes. In every
later state of the Run at most that one call of the candidate was added, the
same execution is not excepted again, and the budgets of the judge are kept. -/
theorem contract_recovery_exact {creation : Creation} {now : DateTime} {store next later : Store}
    (hReaches : Reaches (fun _ _ _ => True) creation now store) {expectedVersion : Nat}
    {expectedReleaseFingerprint : String} {value : ContractRecovery} {confirm : Bool}
    (hOk : store.authorizeContractRecovery expectedVersion expectedReleaseFingerprint value confirm = .ok next)
    (hLater : Continues (fun _ => True) next later) :
    ∃ target ∈ store.semantics.map (·.evidence), target.executionId = value.executionId ∧
      target.candidateId = value.candidateId ∧
      (∃ before after preflight action, store.slots = .ok before ∧ next.slots = .ok after ∧
        next.progress.preflight = some preflight ∧
        nextAction next.progress.status preflight.status preflight.caseId after creation.policy none
          next.progress.unresolvedResultUnknownCount = .ok action ∧
        action.kind = .semantic ∧ action.candidateId = value.candidateId ∧
        action.executionOrdinal = target.executionOrdinal + 1 ∧ action.cause = .semanticContractRecoveryApproved ∧
        (∀ limit, 1 ≤ limit ∧ limit ≤ 32 → ∃ plan, planParallel next.progress.status preflight.status
            preflight.caseId after creation.policy ∅ limit next.progress.unresolvedResultUnknownCount = .ok plan ∧
          plan.ready.head? = some action) ∧
        List.Forall₂ (fun old new : SlotProgress => old.candidateId ≠ value.candidateId → new = old) before after) ∧
      (next.generations = store.generations ∧ next.semantics = store.semantics ∧
        next.dispatches = store.dispatches ∧ next.live = [] ∧ store.live = []) ∧
      (∃ added, later.semanticCalls value.candidateId = store.semanticCalls value.candidateId ++ added ∧
        added.length ≤ 1 ∧ ∀ row ∈ added, row.checkpoint.executionOrdinal = target.executionOrdinal + 1) ∧
      (∀ version fingerprint other confirm final, other.executionId = value.executionId →
        later.authorizeContractRecovery version fingerprint other confirm ≠ .ok final) ∧
      (∀ candidateId, (later.semanticCalls candidateId).length ≤ creation.policy.semanticPerCandidate) ∧
      (later.dispatches.filter (·.kind = .semantic)).length ≤ creation.policy.semanticPerRun := by
  obtain ⟨hCoherent, rfl⟩ := hReaches.coherent
  obtain ⟨block, found, hRecovers⟩ := Store.authorizeContractRecovery_ok hCoherent.toValid hOk
  obtain ⟨target, hTarget, hId, after, preflight, action, hAfter, hPreflight, hAction, hKind, hCandidate, hOrdinal,
    hCause⟩ := Store.authorizeContractRecovery_planned hOk
  obtain rfl : found = target := hCoherent.sound.semantic_executions.eq_of_key hRecovers.judged.1 hTarget
    (hRecovers.judged.2.trans hId.symm)
  have hOp : store.perform (.authorizeContractRecovery expectedVersion expectedReleaseFingerprint value confirm) =
      .ok next := hOk
  have hChanges := Store.perform_changes hCoherent hOp
  obtain ⟨hNext, hCreation⟩ := hChanges.coherent hCoherent
  obtain ⟨before, hBefore, hSlots, hOthers⟩ := hRecovers.projected hCoherent hNext hAfter
  have hNamed := (hRecovers.named hCoherent.toValid).1
  have hIdle : store.live = [] := hCoherent.idle (by rw [hRecovers.blocked]; decide)
  have hStored := hRecovers.next
  have hStatus : next.progress.status = .collecting := by rw [hStored]
  have hResolved : next.progress.unresolvedResultUnknownCount = 0 := by
    rw [hStored]
    exact hRecovers.resolved
  have hKept : value ∈ next.progress.semanticContractRecoveries := by
    rw [hStored]
    exact List.mem_append_right _ (List.mem_singleton_self value)
  obtain ⟨hCoherentLater, hCreationLater, hCalls, hRecoveries⟩ := hLater.extends hNext
  have hDispatches : next.dispatches = store.dispatches := by rw [hStored]
  rw [hDispatches] at hCalls
  obtain ⟨row, hRow, hEvidence⟩ := List.mem_map.mp hTarget
  have hMem : Completion.semantic found ∈ store.book.completions := hEvidence ▸ Book.semantic_mem hRow
  have hPolicy : later.creation.policy = store.creation.policy := by rw [hCreationLater, hCreation]
  refine ⟨found, hTarget, hId, hNamed, ?_, ?_, ?_, ?_, ?_, ?_⟩
  · rw [hStatus, hResolved, ← hCreation]
    exact ⟨before, after, preflight, action, hBefore, hAfter, hPreflight, hAction, hKind, hCandidate, hOrdinal, hCause,
      fun limit hLimit => Store.planParallel_resumes hNext.toValid hSlots hKind hAction hLimit, hOthers⟩
  · rw [hStored]
    exact ⟨rfl, rfl, rfl, hIdle, hIdle⟩
  · rw [← hNamed]
    exact hCoherent.toValid.called_once hCoherentLater.toValid hMem hCalls
  · intro version fingerprint other confirm final hSame hAgain
    obtain ⟨_, _, hOther⟩ := Store.authorizeContractRecovery_ok hCoherentLater.toValid hAgain
    exact hCoherentLater.toValid.recovers_once (hRecoveries.subset hKept) hOther hSame
  · intro candidateId
    rw [hCoherentLater.toValid.semanticCalls_eq, ← hPolicy]
    exact hCoherentLater.sound.numbering.limits (.candidate candidateId)
  · rw [← hPolicy]
    exact hCoherentLater.sound.numbering.totals .semantic

namespace Pilot

/-- The judge left its contract. -/
def contractBroken : ClassifiedFailure where
  stage := .semanticEvaluation
  kind := .semanticExecution
  code := contractInvalidCode
  retryable := false
  resultUnknown := false
  disposition := .retrySemantic
  safeMessage := "decisions do not cover the assertions"
  evidenceRefs := ["s1"]
  checked := by decide +kernel

/-- The live judge call failed with its contract broken. -/
def brokenBy (store : Store) (time : DateTime) : Except Rejection SemanticCompletion := do
  let cp ← identified store
  SemanticCompletion.make { judgedFields cp.1.toCheckpointFields time explanation (identified_valid cp) with
    status := .failed
    failure := some contractBroken }

def breakContract (seconds : Fin 60) : ScriptStep :=
  ⟨clock seconds, fun store => do
    let completion ← brokenBy store (clock seconds)
    pure (.completeSerialSemantic store.version "worker" completion)⟩

/-- The operator excepts the failed call. -/
def exception : ContractRecovery where
  executionId := "s1"
  candidateId := "c1"
  candidateFingerprint := explanation.fingerprint
  outputFingerprint := explanation.fingerprint
  actor := "operator"
  reason := "contract"
  resolvedAt := clock 5
  audit := by decide +kernel

end Pilot

/-- A serial Run whose first judge call left its contract. -/
theorem contract_recovery_exact_pilot : ∃ now store next target,
    Reaches (fun _ _ _ => True) (Pilot.creation .serialV1) now store ∧
    store.authorizeContractRecovery store.version "release" Pilot.exception true = .ok next ∧
    target ∈ store.semantics.map (·.evidence) ∧ target.candidateId = "c1" ∧
    ∃ added, next.semanticCalls "c1" = store.semanticCalls "c1" ++ added ∧ added.length ≤ 1 := by
  obtain ⟨now, store, hReaches, hCheck⟩ := exists_reaches (fun _ _ _ => True) (Pilot.creation .serialV1)
    (Pilot.start ++ [Pilot.prepare 1 "e1", Pilot.reserve 1, Pilot.explain 2 "c1", Pilot.prepare 3 "s1",
      Pilot.reserve 3, Pilot.breakContract 4])
    (fun store => (store.authorizeContractRecovery store.version "release" Pilot.exception true).toOption.isSome)
    (by decide +kernel)
  obtain ⟨next, hNext⟩ := Option.isSome_iff_exists.mp hCheck
  have hOk := toOption_some.mp hNext
  obtain ⟨target, hTarget, _, hCandidate, _, _, ⟨added, hCalls, hFew, _⟩, _⟩ :=
    contract_recovery_exact hReaches hOk .refl
  exact ⟨now, store, next, target, hReaches, hOk, hTarget, hCandidate, added, hCalls, hFew⟩

end QsAi
