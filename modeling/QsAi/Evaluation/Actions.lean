import QsAi.Evaluation.Completion

/-! Serial planning. From the terminal evidence of every frozen slot the planner
answers with the next automatic action of the Run, or with the reason why there
is none. -/
namespace QsAi

open Guarded

inductive RunStatus
  | requested
  | collecting
  | blocked
  | awaitingReview
  | approved
  | rejected
  | canceled
deriving DecidableEq, Repr

inductive PreflightStatus
  | pending
  | passed
  | failed
deriving DecidableEq, Repr

inductive ActionKind
  | none
  | block
  | preflight
  | generation
  | semantic
  | awaitReview
deriving DecidableEq, Repr

def ExecutionKind.action : ExecutionKind → ActionKind
  | .generation => .generation
  | .semantic => .semantic

/-- Every cause code of a planned action or of a recorded Run transition. -/
inductive Cause
  | runBlocked
  | runNotCollecting
  | resumeActiveExecution
  | resultUnknownRequiresReview
  | preflightPending
  | preflightPassed
  | preflightFailed
  | candidateEvidenceComplete
  | candidateMissing
  | semanticEvidenceMissing
  | generationBudgetExhausted
  | semanticBudgetExhausted
  | semanticContractRecoveryApproved
  | manualRecoveryApproved
  | generationRecoveryNotAllowed
  | semanticRecoveryNotAllowed
  | generationRecoveryAllowed
  | semanticRecoveryAllowed
  | evaluationRequested
  | evaluationStarted
  | evaluationCanceled
  | resultUnknownRunCanceled
  | operatorCanceled
  | operatorDiscarded
  | humanReviewFinalized
  | semanticReviewReopened
deriving DecidableEq, Repr

/-- The code as it is stored. -/
def Cause.text : Cause → String
  | .runBlocked => "run_blocked"
  | .runNotCollecting => "run_not_collecting"
  | .resumeActiveExecution => "resume_active_execution"
  | .resultUnknownRequiresReview => "result_unknown_requires_review"
  | .preflightPending => "preflight_pending"
  | .preflightPassed => "preflight_passed"
  | .preflightFailed => "preflight_failed"
  | .candidateEvidenceComplete => "candidate_evidence_complete"
  | .candidateMissing => "candidate_missing"
  | .semanticEvidenceMissing => "semantic_evidence_missing"
  | .generationBudgetExhausted => "generation_budget_exhausted"
  | .semanticBudgetExhausted => "semantic_budget_exhausted"
  | .semanticContractRecoveryApproved => "semantic_contract_recovery_approved"
  | .manualRecoveryApproved => "manual_recovery_approved"
  | .generationRecoveryNotAllowed => "generation_recovery_not_allowed"
  | .semanticRecoveryNotAllowed => "semantic_recovery_not_allowed"
  | .generationRecoveryAllowed => "generation_recovery_allowed"
  | .semanticRecoveryAllowed => "semantic_recovery_allowed"
  | .evaluationRequested => "evaluation_requested"
  | .evaluationStarted => "evaluation_started"
  | .evaluationCanceled => "evaluation_canceled"
  | .resultUnknownRunCanceled => "result_unknown_run_canceled"
  | .operatorCanceled => "operator_canceled"
  | .operatorDiscarded => "operator_discarded"
  | .humanReviewFinalized => "human_review_finalized"
  | .semanticReviewReopened => "semantic_review_reopened"

def Cause.startsWith (cause : Cause) (start : String) : Bool :=
  start.toList.isPrefixOf cause.text.toList

def ExecutionKind.missing : ExecutionKind → Cause
  | .generation => .candidateMissing
  | .semantic => .semanticEvidenceMissing

def ExecutionKind.budgetExhausted : ExecutionKind → Cause
  | .generation => .generationBudgetExhausted
  | .semantic => .semanticBudgetExhausted

def ExecutionKind.recoveryNotAllowed : ExecutionKind → Cause
  | .generation => .generationRecoveryNotAllowed
  | .semantic => .semanticRecoveryNotAllowed

def ExecutionKind.recoveryAllowed : ExecutionKind → Cause
  | .generation => .generationRecoveryAllowed
  | .semantic => .semanticRecoveryAllowed

def PreflightStatus.cause : PreflightStatus → Cause
  | .pending => .preflightPending
  | .passed => .preflightPassed
  | .failed => .preflightFailed

def contractInvalidCode : String := "semantic_decision_contract_invalid"

/-- One terminal execution as the planner sees it, with the decisions that
authorize its replacement. -/
structure ResultFields where
  status : CompletionStatus
  failure : Option ClassifiedFailure := none
  replacementAuthorized : Bool := false
  contractRecoveryAuthorized : Bool := false
deriving DecidableEq

/-- The failure is a broken judge contract that permits a semantic retry. -/
def contractFailure (failure : Option ClassifiedFailure) : Bool :=
  failure.any fun value => value.code == contractInvalidCode && value.allowsSemanticRetry

def ResultFields.check (f : ResultFields) : Except Rejection Unit := do
  require (f.replacementAuthorized = true → f.status = .resultUnknown)
    (.invalid "Replacement authorization requires unknown evidence")
  require (f.contractRecoveryAuthorized = true → f.status = .failed ∧ contractFailure f.failure = true)
    (.invalid "Contract recovery requires a semantic contract failure")
  require (f.status = .succeeded → f.failure = none) (.invalid "Successful execution cannot carry failure")

structure ExecutionResult extends ResultFields where
  checked : toResultFields.check = .ok ()
deriving DecidableEq

namespace ExecutionResult

def make (fields : ResultFields) : Except Rejection ExecutionResult :=
  certify fields.check fun h => ⟨fields, h⟩

theorem make_ok {fields : ResultFields} {result : ExecutionResult} (h : make fields = .ok result) :
    result.toResultFields = fields := by
  obtain ⟨_, rfl⟩ := (certify_ok _ _ _).mp h
  rfl

/-- An unknown result that nobody has authorized to replace. -/
def unresolved (result : ExecutionResult) : Bool :=
  result.status == .resultUnknown && !result.replacementAuthorized

end ExecutionResult

structure CandidateFields where
  candidateId : String
  reviewReady : Bool
  semantic : List ExecutionResult := []
deriving DecidableEq

def CandidateFields.check (f : CandidateFields) : Except Rejection Unit := do
  require (validId f.candidateId = true) (.invalid "Invalid candidate identity")
  require (f.reviewReady = true → ∃ result ∈ f.semantic, result.status = .succeeded)
    (.invalid "Review ready candidate requires successful semantic evidence")

structure CandidateProgress extends CandidateFields where
  checked : toCandidateFields.check = .ok ()
deriving DecidableEq

namespace CandidateProgress

def make (fields : CandidateFields) : Except Rejection CandidateProgress :=
  certify fields.check fun h => ⟨fields, h⟩

theorem make_ok {fields : CandidateFields} {candidate : CandidateProgress}
    (h : make fields = .ok candidate) : candidate.toCandidateFields = fields := by
  obtain ⟨_, rfl⟩ := (certify_ok _ _ _).mp h
  rfl

end CandidateProgress

structure SlotFields where
  caseId : String
  ordinal : Nat
  generation : List ExecutionResult := []
  candidate : Option CandidateProgress := none
deriving DecidableEq

def SlotFields.check (f : SlotFields) : Except Rejection Unit := do
  require (validId f.caseId = true ∧ 1 ≤ f.ordinal) (.invalid "Invalid slot identity")
  require (f.candidate ≠ none → ∃ result ∈ f.generation, result.status = .succeeded)
    (.invalid "Candidate requires successful generation evidence")

structure SlotProgress extends SlotFields where
  checked : toSlotFields.check = .ok ()
deriving DecidableEq

namespace SlotProgress

def make (fields : SlotFields) : Except Rejection SlotProgress :=
  certify fields.check fun h => ⟨fields, h⟩

theorem make_ok {fields : SlotFields} {slot : SlotProgress} (h : make fields = .ok slot) :
    slot.toSlotFields = fields := by
  obtain ⟨_, rfl⟩ := (certify_ok _ _ _).mp h
  rfl

/-- The identity of a frozen slot: its case and its place in the case. -/
def identity (slot : SlotProgress) : String × Nat := (slot.caseId, slot.ordinal)

theorem ordinal_pos (slot : SlotProgress) : 1 ≤ slot.ordinal := by
  have h := slot.checked
  simp only [SlotFields.check, bind_ok, require_ok, exists_const] at h
  exact h.1.2

/-- The stage a slot is in: it is judged once a candidate is accepted. -/
def kind (slot : SlotProgress) : ExecutionKind :=
  if slot.candidate = none then .generation else .semantic

/-- The history of the stage the slot is in. -/
def executions (slot : SlotProgress) : List ExecutionResult :=
  match slot.candidate with
  | none => slot.generation
  | some candidate => candidate.semantic

def candidateId (slot : SlotProgress) : String :=
  match slot.candidate with
  | none => ""
  | some candidate => candidate.candidateId

def reviewReady (slot : SlotProgress) : Bool := slot.candidate.any (·.reviewReady)

/-- All terminal executions of the slot, of both stages. -/
def history (slot : SlotProgress) : List ExecutionResult :=
  slot.generation ++ (slot.candidate.map (·.semantic)).getD []

end SlotProgress

structure NextAction where
  kind : ActionKind
  cause : Cause
  caseId : String := ""
  slotOrdinal : Nat := 0
  candidateId : String := ""
  executionOrdinal : Nat := 0
  resume : Bool := false
deriving DecidableEq, Repr

/-- The slot an action addresses. -/
def NextAction.slot (action : NextAction) : String × Nat := (action.caseId, action.slotOrdinal)

def ExecutionPolicy.limit (policy : ExecutionPolicy) : ExecutionKind → Nat
  | .generation => policy.generationPerSlot
  | .semantic => policy.semanticPerCandidate

def ExecutionPolicy.allowsRecovery (policy : ExecutionPolicy) : ExecutionKind → ClassifiedFailure → Bool
  | .generation => policy.allowsAutomaticGenerationRecovery
  | .semantic => policy.allowsAutomaticSemanticRecovery

/-- The action of a slot: its own identity and the next ordinal of its stage. -/
def SlotProgress.action (slot : SlotProgress) (planned : ActionKind) (cause : Cause) : NextAction :=
  ⟨planned, cause, slot.caseId, slot.ordinal, slot.candidateId, slot.executions.length + 1, false⟩

/-- Plan the slot after its last execution. -/
def afterLast (slot : SlotProgress) (policy : ExecutionPolicy) (last : ExecutionResult) :
    Except Rejection NextAction :=
  if last.status = .resultUnknown ∧ last.replacementAuthorized = false then
    .ok (slot.action .block .resultUnknownRequiresReview)
  else if policy.limit slot.kind < slot.executions.length + 1 then
    .ok (slot.action .block slot.kind.budgetExhausted)
  else if last.contractRecoveryAuthorized = true then
    if slot.kind ≠ .semantic then .error (.invalid "Contract recovery cannot regenerate candidates")
    else .ok (slot.action slot.kind.action .semanticContractRecoveryApproved)
  else if last.replacementAuthorized = true then
    .ok (slot.action slot.kind.action .manualRecoveryApproved)
  else if last.failure.any (policy.allowsRecovery slot.kind) then
    .ok (slot.action slot.kind.action slot.kind.recoveryAllowed)
  else .ok (slot.action .block slot.kind.recoveryNotAllowed)

/-- Plan one slot from terminal evidence; guards of the Run belong to the caller. -/
def slotAction (slot : SlotProgress) (policy : ExecutionPolicy) : Except Rejection (Option NextAction) :=
  if slot.reviewReady then .ok none
  else
    match slot.executions.getLast? with
    | none => .ok (some (slot.action slot.kind.action slot.kind.missing))
    | some last => do
        let action ← afterLast slot policy last
        pure (some action)

/-- Every candidate identity of the group is new. -/
def checkCandidates (group : List SlotProgress) (seen : List String) : Except Rejection (List String) :=
  match group with
  | [] => pure seen
  | slot :: rest =>
      match slot.candidate with
      | none => checkCandidates rest seen
      | some candidate => do
          require (candidate.candidateId ∉ seen) (.invalid "Candidate belongs to more than one slot")
          checkCandidates rest (candidate.candidateId :: seen)

/-- Walk the plan case by case: each group is one new case in slot order. -/
def checkGroups (size : Nat) : Nat → List SlotProgress → List String → List String → Except Rejection Unit
  | 0, _, _, _ => pure ()
  | groups + 1, slots, seenCases, seenCandidates => do
      let group := slots.take size
      let first ← demand group.head? (.invalid "list index out of range")
      require (first.caseId ∉ seenCases ∧
          group.map SlotProgress.identity = (List.range' 1 group.length).map fun n => (first.caseId, n))
        (.invalid "Duplicate or disordered frozen slots")
      let seenCandidates ← checkCandidates group seenCandidates
      checkGroups size groups (slots.drop size) (first.caseId :: seenCases) seenCandidates

def checkPlan (slots : List SlotProgress) (policy : ExecutionPolicy) : Except Rejection Unit := do
  require (slots.length = policy.generationCases * policy.candidatesPerCase)
    (.invalid "Incomplete frozen slot plan")
  require (policy.candidatesPerCase ≠ 0) (.invalid "range() arg 3 must not be zero")
  checkGroups policy.candidatesPerCase policy.generationCases slots [] []

/-- The first slot with something to do decides. -/
def firstAction (policy : ExecutionPolicy) : List SlotProgress → Except Rejection NextAction
  | [] => pure { kind := .awaitReview, cause := .candidateEvidenceComplete }
  | slot :: rest => do
      match ← slotAction slot policy with
      | some planned => pure planned
      | none => firstAction policy rest

/-- Some execution of the Run is unknown and not authorized for replacement. -/
def historicalUnknown (slots : List SlotProgress) : Bool :=
  slots.any fun slot => slot.history.any (·.unresolved)

def resumeAction (cp : ExecutionCheckpoint) : NextAction :=
  ⟨cp.kind.action, .resumeActiveExecution, cp.caseId, cp.slotOrdinal, cp.candidateId, cp.executionOrdinal, true⟩

/-- The guards of the Run, then the slots in frozen order. -/
def nextAction (status : RunStatus) (preflightStatus : PreflightStatus) (preflightCaseId : String)
    (slots : List SlotProgress) (policy : ExecutionPolicy) (checkpoint : Option ExecutionCheckpoint)
    (unresolvedUnknown : Nat) : Except Rejection NextAction := do
  checkPlan slots policy
  if status = .blocked then pure { kind := .block, cause := .runBlocked }
  else if status ≠ .collecting then pure { kind := .none, cause := .runNotCollecting }
  else
    match checkpoint with
    | some cp => pure (resumeAction cp)
    | none =>
        if unresolvedUnknown ≠ 0 ∨ historicalUnknown slots = true then
          pure { kind := .block, cause := .resultUnknownRequiresReview }
        else if preflightStatus ≠ .passed then
          pure { kind := if preflightStatus = .pending then .preflight else .block
                 cause := preflightStatus.cause
                 caseId := preflightCaseId }
        else firstAction policy slots

/-! What an accepted plan and a planned action say. -/

theorem afterLast_ok {slot : SlotProgress} {policy : ExecutionPolicy} {last : ExecutionResult}
    {action : NextAction} (h : afterLast slot policy last = .ok action) :
    ∃ planned cause, action = slot.action planned cause ∧
      (planned = .block ∨ planned = slot.kind.action) := by
  unfold afterLast at h
  split_ifs at h <;> cases h
  all_goals first | exact ⟨_, _, rfl, .inl rfl⟩ | exact ⟨_, _, rfl, .inr rfl⟩

/-- A planned action addresses its own slot with the next ordinal of its stage,
and either blocks or runs that stage. -/
theorem slotAction_some {slot : SlotProgress} {policy : ExecutionPolicy} {action : NextAction}
    (h : slotAction slot policy = .ok (some action)) :
    slot.reviewReady = false ∧ ∃ planned cause, action = slot.action planned cause ∧
      (planned = .block ∨ planned = slot.kind.action) := by
  unfold slotAction at h
  split at h
  · cases h
  · rename_i hReady
    refine ⟨by simpa using hReady, ?_⟩
    split at h
    · cases h
      exact ⟨_, _, rfl, .inr rfl⟩
    · rw [bind_ok] at h
      obtain ⟨planned, hPlanned, hAction⟩ := h
      rw [pure_ok] at hAction
      cases hAction
      exact afterLast_ok hPlanned

theorem slotAction_none {slot : SlotProgress} {policy : ExecutionPolicy}
    (h : slotAction slot policy = .ok none) : slot.reviewReady = true := by
  unfold slotAction at h
  split at h
  · assumption
  · split at h
    · cases h
    · rw [bind_ok] at h
      obtain ⟨planned, _, hAction⟩ := h
      rw [pure_ok] at hAction
      cases hAction

theorem slotAction_ready {slot : SlotProgress} (policy : ExecutionPolicy) (h : slot.reviewReady = true) :
    slotAction slot policy = .ok none := by
  simp [slotAction, h]

/-- A slot is refused only when its generation history ends in an authorized
contract recovery, which no candidate can follow. -/
theorem slotAction_ok {slot : SlotProgress} (policy : ExecutionPolicy)
    (h : ∀ last ∈ slot.executions.getLast?, slot.kind = .generation →
      last.contractRecoveryAuthorized = false) :
    ∃ planned, slotAction slot policy = .ok planned := by
  unfold slotAction
  split
  · exact ⟨_, rfl⟩
  · cases hLast : slot.executions.getLast? with
    | none => exact ⟨_, rfl⟩
    | some last =>
        have hRecovery := h last (by rw [hLast]; rfl)
        have hAfter : ∃ action, afterLast slot policy last = .ok action := by
          unfold afterLast
          split_ifs with hUnknown hBudget hAuthorized hKind
          all_goals try exact ⟨_, rfl⟩
          have hGeneration : slot.kind = .generation := by
            cases hCase : slot.kind with
            | generation => rfl
            | semantic => exact absurd hCase hKind
          rw [hRecovery hGeneration] at hAuthorized
          cases hAuthorized
        obtain ⟨action, hAction⟩ := hAfter
        exact ⟨some action, by simp [hAction, pure, Except.pure]⟩

/-- The candidate identities of the slots that have one, in slot order. -/
def candidateIds (slots : List SlotProgress) : List String :=
  slots.filterMap fun slot => slot.candidate.map (·.candidateId)

theorem checkCandidates_ok {group : List SlotProgress} {seen result : List String}
    (h : checkCandidates group seen = .ok result) :
    (candidateIds group).Nodup ∧ (∀ id ∈ candidateIds group, id ∉ seen) ∧
    ∀ id, id ∈ result ↔ id ∈ candidateIds group ∨ id ∈ seen := by
  induction group generalizing seen with
  | nil =>
      rw [checkCandidates, pure_ok] at h
      subst h
      simp [candidateIds]
  | cons slot rest ih =>
      cases hCandidate : slot.candidate with
      | none =>
          rw [checkCandidates, hCandidate] at h
          have hIds : candidateIds (slot :: rest) = candidateIds rest := by simp [candidateIds, hCandidate]
          rw [hIds]
          exact ih h
      | some candidate =>
          simp only [checkCandidates, hCandidate, bind_ok, require_ok, exists_const] at h
          obtain ⟨hNew, hRest⟩ := h
          obtain ⟨hNodup, hFresh, hResult⟩ := ih hRest
          have hIds : candidateIds (slot :: rest) = candidate.candidateId :: candidateIds rest := by
            simp [candidateIds, hCandidate]
          rw [hIds]
          refine ⟨List.nodup_cons.mpr ⟨?_, hNodup⟩, ?_, ?_⟩
          · intro hMem
            exact hFresh _ hMem List.mem_cons_self
          · intro id hMem
            rcases List.mem_cons.mp hMem with rfl | hMem
            · exact hNew
            · intro hSeen
              exact hFresh id hMem (List.mem_cons_of_mem _ hSeen)
          · intro id
            rw [hResult, List.mem_cons, List.mem_cons]
            tauto

/-- An accepted plan names each slot once and gives no candidate to two slots. -/
theorem checkGroups_ok {size groups : Nat} {slots : List SlotProgress} {seenCases seenCandidates : List String}
    (hLength : slots.length = groups * size)
    (h : checkGroups size groups slots seenCases seenCandidates = .ok ()) :
    (slots.map SlotProgress.identity).Nodup ∧ (∀ slot ∈ slots, slot.caseId ∉ seenCases) ∧
    (candidateIds slots).Nodup ∧ (∀ id ∈ candidateIds slots, id ∉ seenCandidates) := by
  induction groups generalizing slots seenCases seenCandidates with
  | zero =>
      obtain rfl : slots = [] := List.eq_nil_of_length_eq_zero (by simpa using hLength)
      simp [candidateIds]
  | succ groups ih =>
      simp only [checkGroups, bind_ok, demand_ok, require_ok, exists_const] at h
      obtain ⟨first, hFirst, ⟨hCase, hOrder⟩, seen, hCandidates, hRest⟩ := h
      have hDrop : (slots.drop size).length = groups * size := by
        rw [List.length_drop, hLength, Nat.succ_mul, Nat.add_sub_cancel]
      obtain ⟨hNodup, hCases, hIds, hFresh⟩ := ih hDrop hRest
      obtain ⟨hGroupIds, hGroupFresh, hSeen⟩ := checkCandidates_ok hCandidates
      have hGroupCase : ∀ slot ∈ slots.take size, slot.caseId = first.caseId := by
        intro slot hSlot
        have hMem : slot.identity ∈ (slots.take size).map SlotProgress.identity := List.mem_map_of_mem hSlot
        rw [hOrder] at hMem
        obtain ⟨n, _, hEq⟩ := List.mem_map.mp hMem
        exact (congrArg Prod.fst hEq).symm
      have hSplit : slots = slots.take size ++ slots.drop size := (List.take_append_drop size slots).symm
      have hIdsSplit : candidateIds slots = candidateIds (slots.take size) ++ candidateIds (slots.drop size) := by
        rw [candidateIds, candidateIds, candidateIds, ← List.filterMap_append, ← hSplit]
      refine ⟨?_, ?_, ?_, ?_⟩
      · rw [hSplit, List.map_append, List.nodup_append]
        refine ⟨?_, hNodup, ?_⟩
        · rw [hOrder]
          exact List.Nodup.map (fun a b hab => congrArg Prod.snd hab) List.nodup_range'
        · intro a ha b hb hab
          obtain ⟨slot, hSlot, rfl⟩ := List.mem_map.mp ha
          obtain ⟨other, hOther, rfl⟩ := List.mem_map.mp hb
          apply hCases other hOther
          have hEq : slot.caseId = other.caseId := congrArg Prod.fst hab
          rw [← hEq, hGroupCase slot hSlot]
          exact List.mem_cons_self
      · intro slot hSlot
        rw [hSplit, List.mem_append] at hSlot
        rcases hSlot with hSlot | hSlot
        · rw [hGroupCase slot hSlot]
          exact hCase
        · exact fun hMem => hCases slot hSlot (List.mem_cons_of_mem _ hMem)
      · rw [hIdsSplit, List.nodup_append]
        refine ⟨hGroupIds, hIds, ?_⟩
        intro a ha b hb hab
        subst hab
        exact hFresh a hb ((hSeen a).mpr (.inl ha))
      · intro id hId
        rw [hIdsSplit, List.mem_append] at hId
        rcases hId with hId | hId
        · exact hGroupFresh id hId
        · exact fun hMem => hFresh id hId ((hSeen id).mpr (.inr hMem))

theorem checkPlan_ok {slots : List SlotProgress} {policy : ExecutionPolicy} (h : checkPlan slots policy = .ok ()) :
    (slots.map SlotProgress.identity).Nodup ∧ (candidateIds slots).Nodup := by
  simp only [checkPlan, bind_ok, require_ok, exists_const] at h
  obtain ⟨hNodup, _, hIds, _⟩ := checkGroups_ok h.1 h.2.2
  exact ⟨hNodup, hIds⟩

end QsAi
