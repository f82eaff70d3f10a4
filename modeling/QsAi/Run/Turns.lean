import QsAi.Run.DispatchLedger

/-! Candidate Runs whose workers claim and dispatch in one transaction. Every
live claim of such a Run is dispatched, so its records can always be read and
planned, and a Run that keeps collecting without a worker has work to offer. -/
namespace QsAi

open Guarded Keyed Numbered

/-! Reading the ledger never fails. -/

/-- Each row has terminal evidence or an owner, so no row is refused. -/
theorem filterDispatches_total {terminal : List String} {active : List SlotClaim} {dispatches : List DispatchRow}
    {seen : List String} (hUnique : UniqueOn (·.invocationId) dispatches)
    (hNew : ∀ row ∈ dispatches, row.invocationId ∉ seen)
    (hOwned : ∀ row ∈ dispatches, row.invocationId ∉ terminal →
      ∃ claim, dict (·.checkpoint.invocationId) active row.invocationId = some claim ∧
        ownsDispatch claim.checkpoint row) :
    ∃ found, filterDispatches terminal active seen dispatches =
        .ok (dispatches.filter (·.invocationId ∈ terminal), found) ∧
      (∀ id ∈ seen, id ∈ found) ∧ ∀ row ∈ dispatches, row.invocationId ∉ terminal → row.invocationId ∈ found := by
  induction dispatches generalizing seen with
  | nil => exact ⟨seen, rfl, fun _ hId => hId, by simp⟩
  | cons row rest ih =>
      obtain ⟨hFirst, hRest⟩ := uniqueOn_cons.mp hUnique
      obtain ⟨hRowNew, hRestNew⟩ := List.forall_mem_cons.mp hNew
      obtain ⟨hRowOwned, hRestOwned⟩ := List.forall_mem_cons.mp hOwned
      by_cases hTerminal : row.invocationId ∈ terminal
      · obtain ⟨found, hFilter, hSeen, hFound⟩ := ih hRest hRestNew hRestOwned
        refine ⟨found, ?_, hSeen, List.forall_mem_cons.mpr ⟨fun hNot => absurd hTerminal hNot, hFound⟩⟩
        rw [filterDispatches, if_pos hTerminal, hFilter, List.filter_cons_of_pos (by simpa using hTerminal)]
        rfl
      · obtain ⟨claim, hClaim, hOwns⟩ := hRowOwned hTerminal
        have hLater : ∀ other ∈ rest, other.invocationId ∉ row.invocationId :: seen := by
          intro other hOther hMem
          rcases List.mem_cons.mp hMem with hSame | hMem
          · exact hFirst (hSame ▸ List.mem_map_of_mem hOther)
          · exact hRestNew other hOther hMem
        obtain ⟨found, hFilter, hSeen, hFound⟩ := ih hRest hLater hRestOwned
        refine ⟨found, ?_, fun id hId => hSeen id (List.mem_cons_of_mem _ hId),
          List.forall_mem_cons.mpr ⟨fun _ => hSeen _ List.mem_cons_self, hFound⟩⟩
        rw [filterDispatches, if_neg hTerminal, hClaim, demand, ok_bind, require_bind_pos hOwns,
          require_bind_pos hRowNew, hFilter, List.filter_cons_of_neg (by simpa using hTerminal)]

namespace Store

variable {store next : Store}

/-- Nobody holds a slot without having dispatched its call. -/
def AllDispatched (store : Store) : Prop := ∀ cp ∈ store.live, cp.phase = .dispatching

/-- A dispatched checkpoint and the record of its call. -/
theorem ownsDispatch_of_call {cp : ExecutionCheckpoint} {row : DispatchRow} (hPhase : cp.phase = .dispatching)
    (hRecorded : row = DispatchRow.record row.checkpoint) (hDispatched : row.checkpoint.phase = .dispatching)
    (hCall : row.checkpoint.call = cp.call) : ownsDispatch cp row := by
  simp only [ExecutionCheckpoint.call, CheckpointFields.mk.injEq] at hCall
  obtain ⟨hExecution, hKind, hCase, hSlot, hCandidate, hOrdinal, hOwner, _, _, _, _, hStarted⟩ := hCall
  refine ⟨hPhase, hDispatched, ?_, ?_, ?_, ?_, ?_, ?_, hExecution.symm, hOwner.symm, hKind.symm, hCase.symm,
    hSlot.symm, hCandidate.symm, hOrdinal.symm, hStarted.symm⟩
  all_goals rw [hRecorded]; rfl

/-- No two owners use one invocation. -/
def Distinct (store : Store) : Prop := UniqueOn (·.invocationId) store.live

theorem AllDispatched.distinct (hDispatched : store.AllDispatched) (h : store.Valid) : store.Distinct := by
  have hAll : store.live.filter (·.phase = .dispatching) = store.live :=
    List.filter_eq_self.mpr fun cp hCp => decide_eq_true (hDispatched cp hCp)
  have hNodup : ((store.live.filter (·.phase = .dispatching)).map (·.invocationId)).Nodup :=
    h.sound.calls.balanced.live_nodup
  rw [hAll] at hNodup
  exact hNodup

/-- The ledger of a Run with distinct owners reads as its settled calls. -/
theorem Valid.terminalDispatches_total (h : store.Valid) (hMode : store.creation.mode = .candidateV2)
    (hDistinct : store.Distinct) :
    terminalDispatches store.dispatches (terminalInvocations store.generations store.semantics)
      (store.claims.map (·.claim)) = .ok store.book.settledDispatches := by
  have hTerminal : terminalInvocations store.generations store.semantics = store.book.settledInvocations :=
    h.sound.candidates.terminalInvocations_eq
  have hLive : store.live = (store.claims.map (·.claim)).map (·.checkpoint) := by
    rw [live_candidate (h.shaped.candidate hMode), List.map_map]
    rfl
  have hBalanced := h.sound.calls.balanced
  have hUnique : UniqueOn (·.checkpoint.invocationId) (store.claims.map (·.claim)) := by
    have hNodup : (store.live.map (·.invocationId)).Nodup := hDistinct
    rw [hLive, List.map_map] at hNodup
    exact hNodup
  have hMem : ∀ claim ∈ store.claims.map (·.claim), claim.checkpoint ∈ store.live := by
    intro claim hClaim
    rw [hLive]
    exact List.mem_map_of_mem hClaim
  have hOwned : ∀ row ∈ store.dispatches, row.invocationId ∉ store.book.settledInvocations →
      ∃ claim, dict (·.checkpoint.invocationId) (store.claims.map (·.claim)) row.invocationId = some claim ∧
        ownsDispatch claim.checkpoint row := by
    intro row hRow hOther
    have hIssued : row.invocationId ∈ store.book.openInvocations :=
      hBalanced.live_of_not_settled (List.mem_map_of_mem hRow) hOther
    obtain ⟨cp, hOpen, hInvocation⟩ := List.mem_map.mp hIssued
    obtain ⟨hOwner, hPhase⟩ := List.mem_filter.mp hOpen
    have hOwner : cp ∈ store.live := hOwner
    obtain ⟨claim, hClaim, rfl⟩ := List.mem_map.mp (hLive ▸ hOwner)
    have hPhase := of_decide_eq_true hPhase
    obtain ⟨hRecorded, hRowPhase⟩ := h.sound.calls.recorded row hRow
    exact ⟨claim, hUnique.dict_iff.mpr ⟨hClaim, hInvocation⟩,
      ownsDispatch_of_call hPhase hRecorded hRowPhase (h.owned hOwner hPhase hRow hInvocation)⟩
  have hUnseen : ∀ row ∈ store.dispatches, row.invocationId ∉ ([] : List String) := by simp
  have hCalls : UniqueOn (·.invocationId) store.dispatches := h.sound.calls.invocations
  obtain ⟨found, hFilter, _, hFound⟩ := filterDispatches_total hCalls hUnseen hOwned
  rw [terminalDispatches, hTerminal, hFilter, ok_bind]
  simp only
  rw [require_bind_pos]
  · rfl
  · intro claim hClaim hPhase
    by_cases hSettled : claim.checkpoint.invocationId ∈ store.book.settledInvocations
    · exact .inl hSettled
    · obtain ⟨row, hRow, hCall⟩ := (h.sound.live _ (hMem claim hClaim)).owned hPhase
      have hInvocation : row.invocationId = claim.checkpoint.invocationId := by
        rw [congrArg DispatchRow.invocationId (h.sound.calls.recorded row hRow).1]
        exact (ExecutionCheckpoint.same_of_call hCall).1
      rw [← hInvocation] at hSettled ⊢
      exact .inr (hFound row hRow hSettled)

/-- The plan of a Run with distinct owners is that of its slots. -/
theorem Valid.candidatePlan_total (h : store.Valid) (hMode : store.creation.mode = .candidateV2)
    (hDistinct : store.Distinct) (progress : Progress)
    (hResolutions : progress.resultUnknownResolutions = store.progress.resultUnknownResolutions)
    (hRecoveries : progress.semanticContractRecoveries = store.progress.semanticContractRecoveries) :
    ∃ slots, projectSlots store.creation.slots store.generations store.book.settledDispatches store.semantics
        store.progress.resultUnknownResolutions store.progress.semanticContractRecoveries store.creation.policy =
        .ok slots ∧
      store.book.Slots slots ∧ ∀ limit, store.candidatePlan progress (store.claims.map (·.claim)) limit =
      planParallel progress.status ((progress.preflight.map (·.status)).getD .pending)
        ((progress.preflight.map (·.caseId)).getD store.creation.preflightCaseId) slots store.creation.policy
        (store.live.map (·.slot)).toFinset limit progress.unresolvedResultUnknownCount := by
  obtain ⟨slots, hProject, hSlots⟩ := h.sound.projectSlots_ok
  have hProject : projectSlots store.creation.slots store.generations store.book.settledDispatches store.semantics
      store.progress.resultUnknownResolutions store.progress.semanticContractRecoveries store.creation.policy =
      .ok slots := hProject
  refine ⟨slots, hProject, hSlots, fun limit => ?_⟩
  rw [candidatePlan, projectCandidateRecords, h.terminalDispatches_total hMode hDistinct, ok_bind, hResolutions,
    hRecoveries, hProject, ok_bind, live_candidate (h.shaped.candidate hMode), List.map_map, List.map_map]
  rfl

end Store

/-- The operations of workers that claim and dispatch in one transaction. -/
def Operation.Atomic : Operation → Prop
  | .transitionRequested .. => True
  | .completePreflight .. => True
  | .claimAndDispatch .. => True
  | .renewClaim .. => True
  | .completeClaimedGeneration .. => True
  | .completeClaimedSemantic .. => True
  | .expireCandidate claim _ => claim.checkpoint.phase = .dispatching
  | .acceptResolution .. => True
  | .authorizeContractRecovery .. => True
  | .cancel .. => True
  | .finishCancellation .. => True
  | .acceptReviews .. => True
  | .correctReview .. => True
  | .finalize .. => True
  | .reopen .. => True
  | _ => False

instance : (op : Operation) → Decidable op.Atomic
  | .expireCandidate claim _ => inferInstanceAs (Decidable (claim.checkpoint.phase = .dispatching))
  | .transitionRequested .. | .completePreflight .. | .claimAndDispatch .. | .renewClaim ..
  | .completeClaimedGeneration .. | .completeClaimedSemantic .. | .acceptResolution ..
  | .authorizeContractRecovery .. | .cancel .. | .finishCancellation .. | .acceptReviews .. | .correctReview ..
  | .finalize .. | .reopen .. => inferInstanceAs (Decidable True)
  | .prepareCandidate .. | .dispatchClaim .. | .prepareExecution .. | .reserveDispatch ..
  | .completeSerialGeneration .. | .completeSerialSemantic .. | .recoverExpired .. => inferInstanceAs (Decidable False)

namespace Store

variable {store next : Store}

/-- A worker took a free slot and dispatched its call. -/
structure Claims (store : Store) (cp dispatched : ExecutionCheckpoint) (next : Store) : Prop where
  opens : store.Opens cp
  dispatches : cp.Dispatches dispatched
  keeps : store.Keeps next
  recorded : next.dispatches = store.dispatches ++ [DispatchRow.record dispatched]
  live : next.live.Perm (dispatched :: store.live)

/-- One operation of such a worker. -/
inductive Turn (store : Store) (op : Operation) (next : Store) : Prop
  | claim {cp dispatched : ExecutionCheckpoint} {time : DateTime}
      (hEvents : op.events = [.prepared cp.claimedAt, .dispatched time])
      (hStarted : dispatched.dispatchStartedAt = some time) (hClaims : store.Claims cp dispatched next)
  | other {event : Event} (hEvents : op.events = [event]) (hChange : store.Change event next)
      (hNext : next.AllDispatched)

/-- A change that takes no new call keeps every owner dispatched. -/
theorem Change.allDispatched {event : Event} (hChange : store.Change event next) (h : store.Valid)
    (hAll : store.AllDispatched) (hEvent : ∀ time, event ≠ .prepared time) : next.AllDispatched := by
  cases hChange with
  | start => exact hAll
  | preflight => exact hAll
  | prepare => exact absurd rfl (hEvent _)
  | dispatch _ _ _ _ hDispatches _ _ _ _ hLive _ =>
      have hPhase := hAll _ (hLive.mem_iff.mpr List.mem_cons_self)
      rw [hDispatches.prepared] at hPhase
      cases hPhase
  | renew hCall _ _ hLive hNext =>
      intro cp hCp
      rcases List.mem_cons.mp (hNext.mem_iff.mp hCp) with rfl | hRest
      · rw [(ExecutionCheckpoint.same_of_call hCall).2.1]
        exact hAll _ (hLive.mem_iff.mpr List.mem_cons_self)
      · exact hAll cp (hLive.mem_iff.mpr (List.mem_cons_of_mem _ hRest))
  | release _ hPhase _ _ hLive _ =>
      have hOther := hAll _ (hLive.mem_iff.mpr List.mem_cons_self)
      rw [hPhase] at hOther
      cases hOther
  | drain _ hDrains =>
      obtain ⟨rest, hLive, hNext⟩ := hDrains.live h
      exact fun cp hCp => hAll cp (hLive.mem_iff.mpr (List.mem_cons_of_mem _ (hNext.mem_iff.mp hCp)))
  | settle _ hSettles =>
      intro cp hCp
      rw [(hSettles.live h).2] at hCp
      cases hCp
  | resolve => exact hAll
  | recover hRecovers =>
      rw [hRecovers.next]
      exact hAll
  | requestCancel hRequests =>
      rw [hRequests.next]
      exact hAll
  | endCanceled _ hEnds =>
      intro cp hCp
      rw [hEnds.live h] at hCp
      cases hCp
  | review hReviews =>
      rw [hReviews.reviewed.next]
      exact hAll
  | unchanged => exact hAll

/-- Preparing and dispatching in one transaction takes one slot. -/
theorem claims_of_changes {middle : Store} {claimedAt time : DateTime} (hAll : store.AllDispatched)
    (hPrepare : store.Change (.prepared claimedAt) middle) (hDispatch : middle.Change (.dispatched time) next) :
    ∃ cp dispatched, cp.claimedAt = claimedAt ∧ dispatched.dispatchStartedAt = some time ∧
      store.Claims cp dispatched next := by
  have hOwners : ∀ cp ∈ store.live, cp.phase ≠ .prepared := by
    intro cp hCp hPhase
    rw [hAll cp hCp] at hPhase
    cases hPhase
  cases hPrepare with
  | release hEvent => rcases hEvent with hEvent | hEvent <;> cases hEvent
  | endCanceled hEvent => obtain hEvent | ⟨_, _, hEvent, _⟩ := hEvent <;> cases hEvent
  | unchanged hEvent => obtain ⟨_, hEvent | hEvent⟩ := hEvent <;> cases hEvent
  | @prepare cp _ hOpens hKeeps hDispatches hLive =>
      cases hDispatch with
      | release hEvent => rcases hEvent with hEvent | hEvent <;> cases hEvent
      | endCanceled hEvent => obtain hEvent | ⟨_, _, hEvent, _⟩ := hEvent <;> cases hEvent
      | unchanged hEvent => obtain ⟨_, hEvent | hEvent⟩ := hEvent <;> cases hEvent
      | @dispatch own dispatched rest _ _ _ _ _ _ hDispatched hStarted _ hThen hRecorded hMiddle hNext =>
          -- the only prepared owner is the one that was just prepared
          have hOwn : own = cp := by
            have hMem := hLive.mem_iff.mp (hMiddle.mem_iff.mpr List.mem_cons_self)
            exact (List.mem_cons.mp hMem).resolve_right fun hMem => hOwners own hMem hDispatched.prepared
          subst hOwn
          have hRest : rest.Perm store.live := (List.perm_cons own).mp (hMiddle.symm.trans hLive)
          refine ⟨own, dispatched, rfl, hStarted, hOpens, hDispatched, ?_, ?_, hNext.trans (hRest.cons _)⟩
          · refine ⟨hThen.shaped, hThen.creation.trans hKeeps.creation, hThen.generations.trans hKeeps.generations,
              hThen.semantics.trans hKeeps.semantics, ?_⟩
            rw [hThen.progress, hKeeps.progress]
          · rw [hRecorded, hDispatches]

/-- What an atomic operation does to a Run without prepared claims. -/
theorem perform_turn (h : store.Coherent) (hAll : store.AllDispatched) {op : Operation} (hAtomic : op.Atomic)
    (hOp : store.perform op = .ok next) : store.Turn op next ∧ next.AllDispatched := by
  have hChanges := perform_changes h hOp
  have hOther : ∀ event, op.events = [event] → (∀ time, event ≠ .prepared time) →
      store.Turn op next ∧ next.AllDispatched := by
    intro event hEvents hEvent
    rw [hEvents] at hChanges
    cases hChanges with
    | cons hChange hRest =>
        cases hRest
        have hNext := hChange.allDispatched h.toValid hAll hEvent
        exact ⟨.other hEvents hChange hNext, hNext⟩
  cases op with
  | claimAndDispatch owner executionId invocationId claimedAt expiresAt limit time =>
      cases hChanges with
      | cons hPrepare hRest =>
          cases hRest with
          | cons hDispatch hRest =>
              cases hRest
              obtain ⟨cp, dispatched, rfl, hStarted, hClaims⟩ := claims_of_changes hAll hPrepare hDispatch
              refine ⟨.claim rfl hStarted hClaims, ?_⟩
              intro other hOther
              rcases List.mem_cons.mp (hClaims.live.mem_iff.mp hOther) with rfl | hOther
              · exact hClaims.dispatches.phase
              · exact hAll other hOther
  | expireCandidate claim time =>
      have hPhase : claim.checkpoint.phase = .dispatching := hAtomic
      refine hOther _ rfl ?_
      rw [if_pos hPhase]
      exact fun _ hEvent => by cases hEvent
  | acceptReviews expectedVersion actor values =>
      obtain ⟨time, hTime, _⟩ := acceptReviews_ok hOp
      exact hOther (.reviewed time) (by rw [Operation.events, hTime]; rfl) fun _ hEvent => by cases hEvent
  | prepareCandidate => exact absurd hAtomic (by simp [Operation.Atomic])
  | dispatchClaim => exact absurd hAtomic (by simp [Operation.Atomic])
  | prepareExecution => exact absurd hAtomic (by simp [Operation.Atomic])
  | reserveDispatch => exact absurd hAtomic (by simp [Operation.Atomic])
  | completeSerialGeneration => exact absurd hAtomic (by simp [Operation.Atomic])
  | completeSerialSemantic => exact absurd hAtomic (by simp [Operation.Atomic])
  | recoverExpired => exact absurd hAtomic (by simp [Operation.Atomic])
  | _ => exact hOther _ rfl fun _ hEvent => by cases hEvent

end Store

end QsAi
