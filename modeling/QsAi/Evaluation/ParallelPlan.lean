import Mathlib.Data.Finset.Card
import QsAi.Evaluation.Actions

/-! Parallel planning and its agreement with the serial planner. The parallel
planner reuses the serial guards, then plans every slot that no worker holds. -/
namespace QsAi

open Guarded

structure ParallelPlan where
  ready : List NextAction
  blocked : List NextAction
  control : Option NextAction
  complete : Bool
deriving DecidableEq, Repr

/-- One pass over the slots; `ready` stops growing at the free capacity. -/
def planSlots (policy : ExecutionPolicy) (active : Finset (String × Nat)) (available : Nat) :
    List SlotProgress → List NextAction → List NextAction → Bool →
      Except Rejection (List NextAction × List NextAction × Bool)
  | [], ready, blocked, pending => pure (ready, blocked, pending)
  | slot :: rest, ready, blocked, pending =>
      if slot.identity ∈ active then planSlots policy active available rest ready blocked pending
      else do
        match ← slotAction slot policy with
        | none => planSlots policy active available rest ready blocked pending
        | some action =>
            if action.kind = .block then
              planSlots policy active available rest ready (blocked ++ [action]) true
            else if ready.length < available then
              planSlots policy active available rest (ready ++ [action]) blocked true
            else planSlots policy active available rest ready blocked true

/-- The plan over the slots that no worker holds, past every guard. -/
def planUnclaimed (policy : ExecutionPolicy) (activeSlots : Finset (String × Nat)) (limit : Nat)
    (slots : List SlotProgress) : Except Rejection ParallelPlan := do
  let (ready, blocked, pending) ← planSlots policy activeSlots (limit - activeSlots.card) slots [] [] false
  pure ⟨ready, blocked, none, !pending && decide (activeSlots = ∅)⟩

def planParallel (status : RunStatus) (preflightStatus : PreflightStatus) (preflightCaseId : String)
    (slots : List SlotProgress) (policy : ExecutionPolicy) (activeSlots : Finset (String × Nat))
    (limit unresolvedUnknown : Nat) : Except Rejection ParallelPlan := do
  require (1 ≤ limit ∧ limit ≤ 32) (.invalid "Invalid parallel limit")
  let first ← nextAction status preflightStatus preflightCaseId slots policy none unresolvedUnknown
  require (activeSlots ⊆ (slots.map SlotProgress.identity).toFinset)
    (.invalid "Active claims must belong to frozen slots")
  if status ≠ .collecting ∨ preflightStatus ≠ .passed ∨ first.cause = .resultUnknownRequiresReview then
    pure ⟨[], [], some first, false⟩
  else planUnclaimed policy activeSlots limit slots

/-- What is left to do for a slot, when the planner accepts it. -/
def plannedAction (policy : ExecutionPolicy) (slot : SlotProgress) : Option NextAction :=
  match slotAction slot policy with
  | .ok planned => planned
  | .error _ => none

theorem plannedAction_eq {policy : ExecutionPolicy} {slot : SlotProgress} {planned : Option NextAction}
    (h : slotAction slot policy = .ok planned) : plannedAction policy slot = planned := by
  simp [plannedAction, h]

theorem slotAction_of_planned {policy : ExecutionPolicy} {slot : SlotProgress} {action : NextAction}
    (h : plannedAction policy slot = some action) : slotAction slot policy = .ok (some action) := by
  unfold plannedAction at h
  split at h
  · rename_i planned hAction
    rw [hAction, h]
  · cases h

/-- Every slot of the plan is accepted by the slot planner. -/
def SlotsAccepted (slots : List SlotProgress) (policy : ExecutionPolicy) : Prop :=
  ∀ slot ∈ slots, ∃ planned, slotAction slot policy = .ok planned

/-- The actions of the slots that no worker holds, in frozen order. -/
def openActions (policy : ExecutionPolicy) (active : Finset (String × Nat)) (slots : List SlotProgress) :
    List NextAction :=
  (slots.filter (·.identity ∉ active)).filterMap (plannedAction policy)

def NextAction.blocks (action : NextAction) : Bool := action.kind == .block

/-- The pass computes the open actions, split into blocked ones and as many of
the others as fit. -/
theorem planSlots_eq (policy : ExecutionPolicy) (active : Finset (String × Nat)) (available : Nat)
    {slots : List SlotProgress} (hSlots : SlotsAccepted slots policy) (ready blocked : List NextAction)
    (pending : Bool) :
    planSlots policy active available slots ready blocked pending =
      .ok (ready ++ ((openActions policy active slots).filter (!·.blocks)).take (available - ready.length),
        blocked ++ (openActions policy active slots).filter (·.blocks),
        pending || !(openActions policy active slots).isEmpty) := by
  induction slots generalizing ready blocked pending with
  | nil => simp [planSlots, openActions, pure, Except.pure]
  | cons slot rest ih =>
      obtain ⟨⟨planned, hPlanned⟩, hRest⟩ := List.forall_mem_cons.mp hSlots
      have ih := ih hRest
      rw [planSlots]
      by_cases hActive : slot.identity ∈ active
      · have hOpen : openActions policy active (slot :: rest) = openActions policy active rest := by
          simp [openActions, hActive]
        rw [if_pos hActive, hOpen, ih]
      · rw [if_neg hActive, hPlanned]
        cases planned with
        | none =>
            have hOpen : openActions policy active (slot :: rest) = openActions policy active rest := by
              simp [openActions, hActive, plannedAction_eq hPlanned]
            rw [hOpen]
            exact ih ready blocked pending
        | some action =>
            have hOpen : openActions policy active (slot :: rest) =
                action :: openActions policy active rest := by
              simp [openActions, hActive, plannedAction_eq hPlanned]
            rw [hOpen]
            change (if action.kind = .block then _ else _) = _
            by_cases hBlock : action.kind = .block
            · rw [if_pos hBlock, ih]
              simp [NextAction.blocks, hBlock]
            · rw [if_neg hBlock]
              have hBlocks : action.blocks = false := by simp [NextAction.blocks, hBlock]
              by_cases hRoom : ready.length < available
              · rw [if_pos hRoom, ih]
                obtain ⟨room, hRoomEq⟩ : ∃ room, available - ready.length = room + 1 :=
                  ⟨available - ready.length - 1, by omega⟩
                have hNext : available - (ready ++ [action]).length = room := by simp; omega
                rw [hNext]
                simp [hBlocks, hRoomEq]
              · rw [if_neg hRoom, ih]
                have hFull : available - ready.length = 0 := by omega
                simp [hBlocks, hFull]

/-- The first open action decides when no slot is held. -/
theorem firstAction_eq (policy : ExecutionPolicy) {slots : List SlotProgress}
    (hSlots : SlotsAccepted slots policy) :
    firstAction policy slots = .ok ((openActions policy ∅ slots).headD
      { kind := .awaitReview, cause := .candidateEvidenceComplete }) := by
  induction slots with
  | nil => rfl
  | cons slot rest ih =>
      obtain ⟨⟨planned, hPlanned⟩, hRest⟩ := List.forall_mem_cons.mp hSlots
      rw [firstAction, hPlanned]
      cases planned with
      | none =>
          have hOpen : openActions policy ∅ (slot :: rest) = openActions policy ∅ rest := by
            simp [openActions, plannedAction_eq hPlanned]
          rw [hOpen]
          exact ih hRest
      | some action =>
          have hOpen : openActions policy ∅ (slot :: rest) = action :: openActions policy ∅ rest := by
            simp [openActions, plannedAction_eq hPlanned]
          rw [hOpen]
          rfl

/-- An open action belongs to a slot of the plan that no worker holds. -/
theorem openActions_mem {policy : ExecutionPolicy} {active : Finset (String × Nat)} {slots : List SlotProgress}
    {action : NextAction} (h : action ∈ openActions policy active slots) :
    ∃ slot ∈ slots, slot.identity ∉ active ∧ slotAction slot policy = .ok (some action) := by
  obtain ⟨slot, hSlot, hPlanned⟩ := List.mem_filterMap.mp h
  obtain ⟨hMem, hActive⟩ := List.mem_filter.mp hSlot
  exact ⟨slot, hMem, by simpa using hActive, slotAction_of_planned hPlanned⟩

theorem slotAction_slot {slot : SlotProgress} {policy : ExecutionPolicy} {action : NextAction}
    (h : slotAction slot policy = .ok (some action)) : action.slot = slot.identity := by
  obtain ⟨_, planned, cause, rfl, _⟩ := slotAction_some h
  rfl

/-- An open action runs a stage or blocks. -/
theorem openActions_kind {policy : ExecutionPolicy} {active : Finset (String × Nat)} {slots : List SlotProgress}
    {action : NextAction} (h : action ∈ openActions policy active slots) :
    action.kind = .block ∨ action.kind = .generation ∨ action.kind = .semantic := by
  obtain ⟨slot, _, _, hAction⟩ := openActions_mem h
  obtain ⟨_, planned, cause, rfl, hKind⟩ := slotAction_some hAction
  rcases hKind with rfl | rfl
  · exact .inl rfl
  · cases hStage : slot.kind with
    | generation => exact .inr (.inl rfl)
    | semantic => exact .inr (.inr rfl)

/-- Distinct slots give actions on distinct slots. -/
theorem openActions_nodup {policy : ExecutionPolicy} (active : Finset (String × Nat))
    {slots : List SlotProgress} (h : (slots.map SlotProgress.identity).Nodup) :
    ((openActions policy active slots).map NextAction.slot).Nodup := by
  have hSub : ((openActions policy active slots).map NextAction.slot).Sublist
      (slots.map SlotProgress.identity) := by
    unfold openActions
    induction slots with
    | nil => simp
    | cons slot rest ih =>
        have ih := ih (List.nodup_cons.mp h).2
        by_cases hActive : slot.identity ∈ active
        · simpa [hActive] using ih.cons _
        · cases hPlanned : plannedAction policy slot with
          | none => simpa [hActive, hPlanned] using ih.cons _
          | some action =>
              have hSlot : action.slot = slot.identity := slotAction_slot (slotAction_of_planned hPlanned)
              simpa [hActive, hPlanned, hSlot] using ih.cons_cons slot.identity
  exact h.sublist hSub

/-- A slot blocks on an unknown result only when its history holds one. -/
theorem slotAction_unknown {slot : SlotProgress} {policy : ExecutionPolicy} {action : NextAction}
    (h : slotAction slot policy = .ok (some action)) (hCause : action.cause = .resultUnknownRequiresReview) :
    slot.history.any (·.unresolved) = true := by
  unfold slotAction at h
  split at h
  · cases h
  · split at h
    · cases h
      cases hKind : slot.kind <;> simp [SlotProgress.action, hKind, ExecutionKind.missing] at hCause
    · rename_i last hLast
      rw [bind_ok] at h
      obtain ⟨planned, hPlanned, hAction⟩ := h
      rw [pure_ok] at hAction
      cases hAction
      have hUnresolved : last.unresolved = true := by
        unfold afterLast at hPlanned
        split_ifs at hPlanned with hUnknown <;> cases hPlanned
        · simp [ExecutionResult.unresolved, hUnknown.1, hUnknown.2]
        all_goals cases hKind : slot.kind <;>
          simp [SlotProgress.action, hKind, ExecutionKind.budgetExhausted, ExecutionKind.recoveryAllowed,
            ExecutionKind.recoveryNotAllowed] at hCause
      have hMem : last ∈ slot.history := by
        have hExecutions : last ∈ slot.executions := List.mem_of_getLast? hLast
        unfold SlotProgress.executions at hExecutions
        unfold SlotProgress.history
        split at hExecutions
        · exact List.mem_append_left _ hExecutions
        · rename_i candidate hCandidate
          exact List.mem_append_right _ (by simpa [hCandidate] using hExecutions)
      exact List.any_eq_true.mpr ⟨last, hMem, hUnresolved⟩

/-- The guards that stop planning before any slot is looked at. -/
def guarded (status : RunStatus) (preflightStatus : PreflightStatus) (slots : List SlotProgress)
    (unresolvedUnknown : Nat) : Prop :=
  status ≠ .collecting ∨ preflightStatus ≠ .passed ∨ unresolvedUnknown ≠ 0 ∨ historicalUnknown slots = true

/-- An answer about the Run and not about one of its slots. -/
def NextAction.runLevel (action : NextAction) : Prop := action.slotOrdinal = 0 ∧ action.kind ≠ .awaitReview

/-- Past the guards the serial planner takes the first open action. -/
theorem nextAction_open {preflightCaseId : String} {slots : List SlotProgress} {policy : ExecutionPolicy}
    {unresolvedUnknown : Nat} {first : NextAction} {status : RunStatus} {preflightStatus : PreflightStatus}
    (h : nextAction status preflightStatus preflightCaseId slots policy none unresolvedUnknown = .ok first)
    (hOpen : ¬ guarded status preflightStatus slots unresolvedUnknown) :
    firstAction policy slots = .ok first := by
  simp only [guarded, not_or, not_not] at hOpen
  obtain ⟨rfl, rfl, hCount, hHistory⟩ := hOpen
  simp only [nextAction, bind_ok] at h
  obtain ⟨_, _, h⟩ := h
  simpa [hCount, hHistory] using h

/-- Under a guard the serial planner answers about the Run. -/
theorem nextAction_guarded {preflightCaseId : String} {slots : List SlotProgress} {policy : ExecutionPolicy}
    {unresolvedUnknown : Nat} {first : NextAction} {status : RunStatus} {preflightStatus : PreflightStatus}
    (h : nextAction status preflightStatus preflightCaseId slots policy none unresolvedUnknown = .ok first)
    (hGuard : guarded status preflightStatus slots unresolvedUnknown) :
    first.runLevel ∧ first.kind ≠ .generation ∧ first.kind ≠ .semantic ∧
    (status = .collecting → preflightStatus = .passed → first.cause = .resultUnknownRequiresReview) := by
  simp only [nextAction, bind_ok] at h
  obtain ⟨_, _, h⟩ := h
  by_cases hBlocked : status = .blocked
  · rw [if_pos hBlocked, pure_ok] at h
    subst h
    simp [NextAction.runLevel, hBlocked]
  · rw [if_neg hBlocked] at h
    by_cases hCollecting : status = .collecting
    · rw [if_neg (not_not.mpr hCollecting)] at h
      by_cases hUnknown : unresolvedUnknown ≠ 0 ∨ historicalUnknown slots = true
      · simp only [if_pos hUnknown, pure_ok] at h
        subst h
        simp [NextAction.runLevel]
      · have hPreflight : preflightStatus ≠ .passed := by
          rcases hGuard with hGuard | hGuard | hGuard
          · exact absurd hCollecting hGuard
          · exact hGuard
          · exact absurd hGuard hUnknown
        simp only [if_neg hUnknown, if_pos hPreflight, pure_ok] at h
        subst h
        refine ⟨⟨rfl, ?_⟩, ?_, ?_, ?_⟩
        · by_cases hPending : preflightStatus = .pending <;> simp [hPending]
        · by_cases hPending : preflightStatus = .pending <;> simp [hPending]
        · by_cases hPending : preflightStatus = .pending <;> simp [hPending]
        · exact fun _ hPassed => absurd hPassed hPreflight
    · rw [if_pos hCollecting, pure_ok] at h
      subst h
      simp [NextAction.runLevel, hCollecting]

section Agreement

variable {status : RunStatus} {preflightStatus : PreflightStatus} {preflightCaseId : String}
  {slots : List SlotProgress} {policy : ExecutionPolicy} {unresolvedUnknown : Nat} {first : NextAction}
  {active : Finset (String × Nat)} {limit : Nat}

/-- What the parallel planner answers, in terms of the serial planner's answer. -/
theorem planParallel_eq
    (hNext : nextAction status preflightStatus preflightCaseId slots policy none unresolvedUnknown = .ok first)
    (hSlots : SlotsAccepted slots policy) (hActive : active ⊆ (slots.map SlotProgress.identity).toFinset)
    (hLimit : 1 ≤ limit ∧ limit ≤ 32) :
    (guarded status preflightStatus slots unresolvedUnknown →
      planParallel status preflightStatus preflightCaseId slots policy active limit unresolvedUnknown =
        .ok ⟨[], [], some first, false⟩) ∧
    (¬ guarded status preflightStatus slots unresolvedUnknown →
      planParallel status preflightStatus preflightCaseId slots policy active limit unresolvedUnknown =
        .ok ⟨((openActions policy active slots).filter (!·.blocks)).take (limit - active.card),
          (openActions policy active slots).filter (·.blocks), none,
          (openActions policy active slots).isEmpty && decide (active = ∅)⟩) := by
  have hStart : planParallel status preflightStatus preflightCaseId slots policy active limit unresolvedUnknown =
      if status ≠ .collecting ∨ preflightStatus ≠ .passed ∨ first.cause = .resultUnknownRequiresReview then
        pure ⟨[], [], some first, false⟩
      else planUnclaimed policy active limit slots := by
    simp only [planParallel, hNext, require_bind_pos hLimit, ok_bind, require_bind_pos hActive]
  constructor
  · intro hGuard
    obtain ⟨_, _, _, hCause⟩ := nextAction_guarded hNext hGuard
    rw [hStart, if_pos]
    · rfl
    · by_cases hCollecting : status = .collecting
      · by_cases hPassed : preflightStatus = .passed
        · exact .inr (.inr (hCause hCollecting hPassed))
        · exact .inr (.inl hPassed)
      · exact .inl hCollecting
  · intro hOpen
    have hFirst := nextAction_open hNext hOpen
    simp only [guarded, not_or, not_not] at hOpen
    obtain ⟨hCollecting, hPassed, _, hHistory⟩ := hOpen
    have hCause : first.cause ≠ .resultUnknownRequiresReview := by
      intro hCause
      rw [firstAction_eq policy hSlots] at hFirst
      have hFirst := Except.ok.inj hFirst
      cases hActions : openActions policy ∅ slots with
      | nil =>
          rw [hActions] at hFirst
          subst hFirst
          cases hCause
      | cons action actions =>
          rw [hActions] at hFirst
          change action = first at hFirst
          subst hFirst
          obtain ⟨slot, hSlot, _, hAction⟩ :=
            openActions_mem (hActions ▸ List.mem_cons_self : action ∈ openActions policy ∅ slots)
          have hUnknown : historicalUnknown slots = true :=
            List.any_eq_true.mpr ⟨slot, hSlot, slotAction_unknown hAction hCause⟩
          exact hHistory hUnknown
    rw [hStart, if_neg (by simp [hCollecting, hPassed, hCause]), planUnclaimed,
      planSlots_eq policy active _ hSlots]
    simp [pure, Except.pure]

/-- Agreement of one parallel plan with the serial answer `first`. -/
structure Agreement (first : NextAction) (slots : List SlotProgress) (active : Finset (String × Nat))
    (limit : Nat) (plan : ParallelPlan) : Prop where
  complete : active = ∅ → (plan.complete = true ↔ first.kind = .awaitReview)
  proposed : active = ∅ → first.kind = .generation ∨ first.kind = .semantic → plan.ready.head? = some first
  blocked : active = ∅ → first.kind = .block → first.slotOrdinal ≠ 0 → plan.blocked.head? = some first
  control : first.runLevel → plan.control = some first ∧ plan.ready = [] ∧ plan.blocked = []
  distinct : (plan.ready.map NextAction.slot).Nodup
  idle : ∀ action ∈ plan.ready, action.slot ∈ slots.map SlotProgress.identity ∧ action.slot ∉ active
  capacity : active.card ≤ limit → plan.ready.length + active.card ≤ limit

/-- Two plans for the same slots differ only in how many ready actions fit. -/
theorem planParallel_prefix {larger : Nat} {plan extended : ParallelPlan}
    (hNext : nextAction status preflightStatus preflightCaseId slots policy none unresolvedUnknown = .ok first)
    (hSlots : SlotsAccepted slots policy) (hActive : active ⊆ (slots.map SlotProgress.identity).toFinset)
    (hLimit : 1 ≤ limit ∧ limit ≤ 32) (hLarger : limit ≤ larger ∧ larger ≤ 32)
    (hPlan : planParallel status preflightStatus preflightCaseId slots policy active limit unresolvedUnknown =
      .ok plan)
    (hExtended : planParallel status preflightStatus preflightCaseId slots policy active larger
      unresolvedUnknown = .ok extended) :
    plan.ready <+: extended.ready := by
  have hLarge : 1 ≤ larger ∧ larger ≤ 32 := ⟨le_trans hLimit.1 hLarger.1, hLarger.2⟩
  by_cases hGuard : guarded status preflightStatus slots unresolvedUnknown
  · rw [(planParallel_eq hNext hSlots hActive hLimit).1 hGuard] at hPlan
    cases hPlan
    exact List.nil_prefix
  · rw [(planParallel_eq hNext hSlots hActive hLimit).2 hGuard] at hPlan
    rw [(planParallel_eq hNext hSlots hActive hLarge).2 hGuard] at hExtended
    cases hPlan
    cases hExtended
    exact (List.take_prefix_take_left (by omega))

/-- Past the guards the serial answer is the head of the open actions, or the
review when there are none. -/
theorem nextAction_head
    (hNext : nextAction status preflightStatus preflightCaseId slots policy none unresolvedUnknown = .ok first)
    (hSlots : SlotsAccepted slots policy) (hOpen : ¬ guarded status preflightStatus slots unresolvedUnknown) :
    (openActions policy ∅ slots = [] ∧ first = { kind := .awaitReview, cause := .candidateEvidenceComplete }) ∨
    ∃ rest, openActions policy ∅ slots = first :: rest := by
  have hFirst := nextAction_open hNext hOpen
  rw [firstAction_eq policy hSlots] at hFirst
  have hFirst := Except.ok.inj hFirst
  cases hActions : openActions policy ∅ slots with
  | nil =>
      rw [hActions] at hFirst
      exact .inl ⟨rfl, hFirst.symm⟩
  | cons action rest =>
      rw [hActions] at hFirst
      exact .inr ⟨rest, by rw [show action = first from hFirst]⟩

theorem agreement_guarded
    (hNext : nextAction status preflightStatus preflightCaseId slots policy none unresolvedUnknown = .ok first)
    (hGuard : guarded status preflightStatus slots unresolvedUnknown) :
    Agreement first slots active limit ⟨[], [], some first, false⟩ := by
  obtain ⟨hLevel, hGeneration, hSemantic, _⟩ := nextAction_guarded hNext hGuard
  refine ⟨?_, ?_, ?_, fun _ => ⟨rfl, rfl, rfl⟩, List.nodup_nil, ?_, ?_⟩
  · intro _
    simp [hLevel.2]
  · rintro _ (h | h)
    · exact absurd h hGeneration
    · exact absurd h hSemantic
  · intro _ _ hSlot
    exact absurd hLevel.1 hSlot
  · intro action hAction
    cases hAction
  · intro hCard
    simpa using hCard

theorem agreement_open
    (hNext : nextAction status preflightStatus preflightCaseId slots policy none unresolvedUnknown = .ok first)
    (hSlots : SlotsAccepted slots policy) (hLimit : 1 ≤ limit ∧ limit ≤ 32)
    (hOpen : ¬ guarded status preflightStatus slots unresolvedUnknown) :
    Agreement first slots active limit
      ⟨((openActions policy active slots).filter (!·.blocks)).take (limit - active.card),
        (openActions policy active slots).filter (·.blocks), none,
        (openActions policy active slots).isEmpty && decide (active = ∅)⟩ := by
  have hHead := nextAction_head hNext hSlots hOpen
  have hNodup : (slots.map SlotProgress.identity).Nodup := by
    simp only [nextAction, bind_ok] at hNext
    obtain ⟨_, hPlan, _⟩ := hNext
    exact (checkPlan_ok hPlan).1
  have hTake : (((openActions policy active slots).filter (!·.blocks)).take (limit - active.card)).Sublist
      (openActions policy active slots) :=
    (List.take_sublist _ _).trans List.filter_sublist
  refine ⟨?_, ?_, ?_, ?_, (openActions_nodup active hNodup).sublist (hTake.map _), ?_, ?_⟩
  · rintro rfl
    rcases hHead with ⟨hNil, rfl⟩ | ⟨rest, hActions⟩
    · simp [hNil]
    · have hKind := openActions_kind (hActions ▸ List.mem_cons_self : first ∈ openActions policy ∅ slots)
      simp only [hActions, List.isEmpty_cons, Bool.false_and, Bool.false_eq_true, false_iff]
      rcases hKind with h | h | h <;> simp [h]
  · rintro rfl hKind
    rcases hHead with ⟨hNil, rfl⟩ | ⟨rest, hActions⟩
    · simp at hKind
    · have hBlocks : first.blocks = false := by
        rcases hKind with h | h <;> simp [NextAction.blocks, h]
      obtain ⟨room, rfl⟩ : ∃ room, limit = room + 1 := ⟨limit - 1, by omega⟩
      simp [hActions, hBlocks]
  · rintro rfl hKind _
    rcases hHead with ⟨hNil, rfl⟩ | ⟨rest, hActions⟩
    · simp at hKind
    · simp [hActions, NextAction.blocks, hKind]
  · intro hLevel
    rcases hHead with ⟨hNil, rfl⟩ | ⟨rest, hActions⟩
    · exact absurd rfl hLevel.2
    · obtain ⟨slot, _, _, hAction⟩ :=
        openActions_mem (hActions ▸ List.mem_cons_self : first ∈ openActions policy ∅ slots)
      have hOrdinal : first.slotOrdinal = slot.ordinal := congrArg Prod.snd (slotAction_slot hAction)
      have hPos := slot.ordinal_pos
      have hZero := hLevel.1
      omega
  · intro action hAction
    obtain ⟨slot, hSlot, hFree, hPlanned⟩ := openActions_mem (hTake.subset hAction)
    rw [slotAction_slot hPlanned]
    exact ⟨List.mem_map_of_mem hSlot, hFree⟩
  · intro hCard
    have hLength := List.length_take_le (limit - active.card) ((openActions policy active slots).filter (!·.blocks))
    calc (((openActions policy active slots).filter (!·.blocks)).take (limit - active.card)).length + active.card
        ≤ limit - active.card + active.card := Nat.add_le_add_right hLength _
      _ = limit := Nat.sub_add_cancel hCard

/-- The two planners agree on every accepted plan whose slots the slot planner
accepts: completion, first proposal, first block and guards coincide, and the
ready list stays inside the plan, the free slots and the capacity. -/
theorem planners_agree
    (hNext : nextAction status preflightStatus preflightCaseId slots policy none unresolvedUnknown = .ok first)
    (hSlots : SlotsAccepted slots policy) (hActive : active ⊆ (slots.map SlotProgress.identity).toFinset)
    (hLimit : 1 ≤ limit ∧ limit ≤ 32) :
    ∃ plan, planParallel status preflightStatus preflightCaseId slots policy active limit unresolvedUnknown =
        .ok plan ∧ Agreement first slots active limit plan ∧
      ∀ larger extended, limit ≤ larger ∧ larger ≤ 32 →
        planParallel status preflightStatus preflightCaseId slots policy active larger unresolvedUnknown =
          .ok extended → plan.ready <+: extended.ready := by
  obtain ⟨hGuarded, hOpen⟩ := planParallel_eq hNext hSlots hActive hLimit
  by_cases hGuard : guarded status preflightStatus slots unresolvedUnknown
  · exact ⟨_, hGuarded hGuard, agreement_guarded hNext hGuard, fun larger extended hLarger hExtended =>
      planParallel_prefix hNext hSlots hActive hLimit hLarger (hGuarded hGuard) hExtended⟩
  · exact ⟨_, hOpen hGuard, agreement_open hNext hSlots hLimit hGuard, fun larger extended hLarger hExtended =>
      planParallel_prefix hNext hSlots hActive hLimit hLarger (hOpen hGuard) hExtended⟩

end Agreement

/-! A plan the serial planner accepts and the parallel planner refuses: the
second slot's generation history ends in an authorized contract recovery. -/

def brokenContract : ClassifiedFailure where
  stage := .semanticEvaluation
  kind := .semanticExecution
  code := contractInvalidCode
  retryable := true
  resultUnknown := false
  disposition := .retrySemantic
  safeMessage := "Semantic decision evidence invalid"
  evidenceRefs := ["execution-1"]
  checked := by decide +kernel

def emptySlot : SlotProgress where
  caseId := "case-1"
  ordinal := 1
  checked := by decide +kernel

def recoveredGenerationSlot : SlotProgress where
  caseId := "case-2"
  ordinal := 1
  generation := [{ status := .failed, failure := some brokenContract, contractRecoveryAuthorized := true,
                   checked := by decide +kernel }]
  checked := by decide +kernel

def twoCasePolicy : ExecutionPolicy where
  generationCases := 2
  candidatesPerCase := 1
  preflightCases := 1
  generationPerSlot := 2
  generationPerRun := 10
  semanticPerCandidate := 2
  semanticPerRun := 10
  automaticSelectors := ∅

theorem parallel_refuses_accepted_plan :
    nextAction .collecting .passed "preflight" [emptySlot, recoveredGenerationSlot] twoCasePolicy none 0 =
      .ok (emptySlot.action .generation .candidateMissing) ∧
    planParallel .collecting .passed "preflight" [emptySlot, recoveredGenerationSlot] twoCasePolicy ∅ 1 0 =
      .error (.invalid "Contract recovery cannot regenerate candidates") := by
  decide +kernel

def blockedSlot : SlotProgress where
  caseId := "case-2"
  ordinal := 1
  generation := [{ status := .failed, failure := some brokenContract, checked := by decide +kernel }]
  checked := by decide +kernel

/-- The agreement at a plan with one untouched and one blocked slot. -/
theorem planners_agree_two_cases :
    nextAction .collecting .passed "preflight" [emptySlot, blockedSlot] twoCasePolicy none 0 =
      .ok (emptySlot.action .generation .candidateMissing) ∧
    ∃ plan, planParallel .collecting .passed "preflight" [emptySlot, blockedSlot] twoCasePolicy ∅ 4 0 = .ok plan ∧
      Agreement (emptySlot.action .generation .candidateMissing) [emptySlot, blockedSlot] ∅ 4 plan := by
  have hNext : nextAction .collecting .passed "preflight" [emptySlot, blockedSlot] twoCasePolicy none 0 =
      .ok (emptySlot.action .generation .candidateMissing) := by decide +kernel
  have hSlots : SlotsAccepted [emptySlot, blockedSlot] twoCasePolicy := by
    intro slot hSlot
    rcases List.mem_pair.mp hSlot with rfl | rfl
    · exact ⟨some (emptySlot.action .generation .candidateMissing), by decide +kernel⟩
    · exact ⟨some (blockedSlot.action .block .generationRecoveryNotAllowed), by decide +kernel⟩
  obtain ⟨plan, hPlan, hAgree, _⟩ :=
    planners_agree hNext hSlots (Finset.empty_subset _) (by decide : 1 ≤ 4 ∧ 4 ≤ 32)
  exact ⟨hNext, plan, hPlan, hAgree⟩

end QsAi
