import QsAi.Run.Changes

/-! Runs. A Run is created and then takes one transaction after the other, each
serialized by its coordinator; a refused transaction leaves no trace. -/
namespace QsAi

open Guarded Keyed Numbered

/-- The transactions on one Run with their arguments. -/
inductive Operation
  | transitionRequested (expectedVersion : Nat) (target : RunStatus) (actor reason : String) (time : DateTime)
  | completePreflight (expectedVersion : Nat) (evidence : PreflightEvidence)
  | prepareCandidate (owner executionId invocationId : String) (time expiresAt : DateTime) (limit : Nat)
  | dispatchClaim (claim : SlotClaim) (time : DateTime)
  | claimAndDispatch (owner executionId invocationId : String) (claimedAt expiresAt : DateTime) (limit : Nat)
      (time : DateTime)
  | renewClaim (claim : SlotClaim) (time expiresAt : DateTime)
  | completeClaimedGeneration (claim : SlotClaim) (owner : String) (completion : GenerationCompletion)
      (candidateId : String) (assertions : List AssertionReceipt)
  | completeClaimedSemantic (claim : SlotClaim) (owner : String) (completion : SemanticCompletion)
  | expireCandidate (claim : SlotClaim) (time : DateTime)
  | prepareExecution (expectedVersion : Nat) (owner executionId invocationId : String)
      (time leaseExpiresAt : DateTime)
  | reserveDispatch (expectedVersion : Nat) (owner : String) (time : DateTime)
  | completeSerialGeneration (expectedVersion : Nat) (owner : String) (completion : GenerationCompletion)
      (candidateId : String) (assertions : List AssertionReceipt)
  | completeSerialSemantic (expectedVersion : Nat) (owner : String) (completion : SemanticCompletion)
  | recoverExpired (expectedVersion : Nat) (invocationId : String) (observedExpiry time : DateTime) (actor : String)
  | acceptResolution (expectedVersion : Nat) (value : ResultUnknownResolution) (confirm : Bool)
  | authorizeContractRecovery (expectedVersion : Nat) (expectedReleaseFingerprint : String)
      (value : ContractRecovery) (confirm : Bool)
  | cancel (expectedVersion : Nat) (decision : CancellationDecision) (confirm : Bool) (now : DateTime)
  | finishCancellation (time now : DateTime)
  | acceptReviews (expectedVersion : Nat) (actor : String) (values : List CandidateHumanReview)
  | correctReview (expectedVersion : Nat) (actor commandId previousReviewFingerprint candidateOutputFingerprint : String)
      (value : CandidateHumanReview)
  | finalize (expectedVersion : Nat) (actor : String) (expectedPassed : Bool) (reason : String) (time : DateTime)
      (confirm : Bool)
  | reopen (expectedVersion : Nat) (actor reason : String) (time : DateTime) (confirm : Bool)

def Store.perform (store : Store) : Operation → Except Rejection Store
  | .transitionRequested expectedVersion target actor reason time =>
      store.transitionRequested expectedVersion target actor reason time
  | .completePreflight expectedVersion evidence => store.completePreflight expectedVersion evidence
  | .prepareCandidate owner executionId invocationId time expiresAt limit => do
      let (_, claimed) ← store.prepareCandidate owner executionId invocationId time expiresAt limit
      pure claimed
  | .dispatchClaim claim time => store.dispatchClaim claim time
  | .claimAndDispatch owner executionId invocationId claimedAt expiresAt limit time =>
      store.claimAndDispatch owner executionId invocationId claimedAt expiresAt limit time
  | .renewClaim claim time expiresAt => store.renewClaim claim time expiresAt
  | .completeClaimedGeneration claim owner completion candidateId assertions =>
      store.completeClaimedGeneration claim owner completion candidateId assertions
  | .completeClaimedSemantic claim owner completion => store.completeClaimedSemantic claim owner completion
  | .expireCandidate claim time => store.expireCandidate claim time
  | .prepareExecution expectedVersion owner executionId invocationId time leaseExpiresAt =>
      store.prepareExecution expectedVersion owner executionId invocationId time leaseExpiresAt
  | .reserveDispatch expectedVersion owner time => store.reserveDispatch expectedVersion owner time
  | .completeSerialGeneration expectedVersion owner completion candidateId assertions =>
      store.completeSerialGeneration expectedVersion owner completion candidateId assertions
  | .completeSerialSemantic expectedVersion owner completion =>
      store.completeSerialSemantic expectedVersion owner completion
  | .recoverExpired expectedVersion invocationId observedExpiry time actor =>
      store.recoverExpired expectedVersion invocationId observedExpiry time actor
  | .acceptResolution expectedVersion value confirm => store.acceptResolution expectedVersion value confirm
  | .authorizeContractRecovery expectedVersion expectedReleaseFingerprint value confirm =>
      store.authorizeContractRecovery expectedVersion expectedReleaseFingerprint value confirm
  | .cancel expectedVersion decision confirm now => store.cancel expectedVersion decision confirm now
  | .finishCancellation time now => store.finishCancellation time now
  | .acceptReviews expectedVersion actor values => store.acceptReviews expectedVersion actor values
  | .correctReview expectedVersion actor commandId previousReviewFingerprint candidateOutputFingerprint value =>
      store.correctReview expectedVersion actor commandId previousReviewFingerprint candidateOutputFingerprint value
  | .finalize expectedVersion actor expectedPassed reason time confirm =>
      store.finalize expectedVersion actor expectedPassed reason time confirm
  | .reopen expectedVersion actor reason time confirm => store.reopen expectedVersion actor reason time confirm

/-- What an accepted operation does. An expiry ends a dispatched call as unknown
or releases a call that was only prepared. -/
def Operation.events : Operation → List Event
  | .transitionRequested _ _ _ _ time => [.decided time]
  | .completePreflight _ evidence => [.decided evidence.evaluatedAt]
  | .prepareCandidate _ _ _ time _ _ => [.prepared time]
  | .dispatchClaim _ time => [.dispatched time]
  | .claimAndDispatch _ _ _ claimedAt _ _ time => [.prepared claimedAt, .dispatched time]
  | .renewClaim .. => [.renewed]
  | .completeClaimedGeneration _ _ completion _ _ => [(Completion.generation completion).event]
  | .completeClaimedSemantic _ _ completion => [(Completion.semantic completion).event]
  | .expireCandidate claim time =>
      [if claim.checkpoint.phase = .dispatching then .ended .resultUnknown time else .released time]
  | .prepareExecution _ _ _ _ time _ => [.prepared time]
  | .reserveDispatch _ _ time => [.dispatched time]
  | .completeSerialGeneration _ _ completion _ _ => [(Completion.generation completion).event]
  | .completeSerialSemantic _ _ completion => [(Completion.semantic completion).event]
  | .recoverExpired _ _ _ time _ => [.ended .resultUnknown time]
  | .acceptResolution _ value _ => [.decided value.resolvedAt]
  | .authorizeContractRecovery _ _ value _ => [.decided value.resolvedAt]
  | .cancel _ decision _ _ => [.canceled decision.canceledAt]
  | .finishCancellation time _ => [.drained time]
  | .acceptReviews _ _ values => (Store.latestReview values).toList.map .reviewed
  | .correctReview _ _ _ _ _ value => [.reviewed value.reviewedAt]
  | .finalize _ _ _ _ time _ => [.reviewed time]
  | .reopen _ _ _ time _ => [.reviewed time]

/-- The clock shows `now`: decisions and dispatches carry its reading, a claim,
a result, a cancellation or a review was timed at the latest now. -/
def Event.Timely (now : DateTime) : Event → Prop
  | .decided time => time = now
  | .prepared time => time ≤ now
  | .dispatched time => time = now
  | .renewed => True
  | .released time => time ≤ now
  | .ended _ time => time ≤ now
  | .canceled time => time ≤ now
  | .drained time => time ≤ now
  | .reviewed time => time ≤ now

instance (now : DateTime) (event : Event) : Decidable (event.Timely now) := by
  cases event <;> unfold Event.Timely <;> infer_instance

def Operation.Timely (now : DateTime) (op : Operation) : Prop := ∀ event ∈ op.events, event.Timely now

instance (now : DateTime) (op : Operation) : Decidable (op.Timely now) :=
  inferInstanceAs (Decidable (∀ event ∈ op.events, _))

/-- The stores a Run can reach while a clock that never goes back shows the
given time, when it takes allowed operations only. -/
inductive Reaches (allowed : DateTime → Store → Operation → Prop) (creation : Creation) : DateTime → Store → Prop
  | create {now : DateTime} (hCreated : creation.createdAt ≤ now) : Reaches allowed creation now (createRun creation)
  | step {before now : DateTime} {store next : Store} {op : Operation} (hReaches : Reaches allowed creation before store)
      (hClock : before ≤ now) (hAllowed : allowed now store op) (hOp : store.perform op = .ok next) :
      Reaches allowed creation now next

namespace Store

variable {store next : Store} {event : Event}

/-- One change after the other. -/
inductive Changes : Store → List Event → Store → Prop
  | nil {store : Store} : Changes store [] store
  | cons {store middle next : Store} {event : Event} {events : List Event} (hChange : store.Change event middle)
      (hRest : Changes middle events next) : Changes store (event :: events) next

theorem Change.once (h : store.Change event next) : Changes store [event] next := .cons h .nil

theorem prepareCandidate_change (h : store.Valid) {owner executionId invocationId : String}
    {time expiresAt : DateTime} {limit : Nat} {claim : SlotClaim}
    (hOk : store.prepareCandidate owner executionId invocationId time expiresAt limit = .ok (claim, next)) :
    store.Change (.prepared time) next := by
  obtain ⟨hMode, hOpens, rfl, _, _, rfl⟩ := prepareCandidate_ok h hOk
  refine .prepare hOpens ⟨⟨?_, h.shaped.candidate, ?_⟩, rfl, rfl, rfl, rfl⟩ rfl ?_
  · intro hSerial
    rw [show store.creation.mode = .serialV1 from hSerial] at hMode
    cases hMode
  · intro row hRow
    rcases List.mem_append.mp hRow with hRow | hRow
    · exact h.shaped.index row hRow
    · rw [List.mem_singleton.mp hRow]
      rfl
  · simp only [Store.live, List.map_append, List.map_cons, List.map_nil, List.append_assoc, List.cons_append,
      List.nil_append]
    exact List.perm_middle

theorem dispatchClaim_change (h : store.Valid) {claim : SlotClaim} {time : DateTime}
    (hOk : store.dispatchClaim claim time = .ok next) : store.Change (.dispatched time) next := by
  obtain ⟨hMode, hStatus, hUncanceled, hResolved, hPassed, row, hRow, dispatched, hSlot, hDispatches, hStarted,
    hRecord, rfl⟩ := dispatchClaim_ok h hOk
  refine .dispatch hStatus hUncanceled hPassed (fun _ => hResolved) hDispatches hStarted hRecord ?_ rfl
    (live_split h hMode hRow) (live_updateClaim h hMode hRow dispatched)
  have hSame : dispatched.slot = row.slot := by rw [hDispatches.same.1, h.shaped.index row hRow]
  have hShaped := h.shaped.update hRow hSame
  exact ⟨⟨hShaped.serial, hShaped.candidate, hShaped.index⟩, rfl, rfl, rfl, rfl⟩

theorem renewClaim_change (h : store.Valid) {claim : SlotClaim} {time expiresAt : DateTime}
    (hOk : store.renewClaim claim time expiresAt = .ok next) : store.Change .renewed next := by
  obtain ⟨row, hRow, renewed, hSlot, hCall, rfl⟩ := renewClaim_ok hOk
  have hMode : store.creation.mode = .candidateV2 := by
    cases hMode : store.creation.mode with
    | candidateV2 => rfl
    | serialV1 =>
        rw [h.shaped.serial hMode] at hRow
        cases hRow
  have hSame : renewed.slot = row.slot := by
    rw [ExecutionCheckpoint.slot_of_call hCall, h.shaped.index row hRow]
  exact .renew hCall ⟨h.shaped.update hRow hSame, rfl, rfl, rfl, rfl⟩ rfl (live_split h hMode hRow)
    (live_updateClaim h hMode hRow renewed)

/-- An expired claim that was only prepared. -/
theorem release_change (h : store.Valid) (hMode : store.creation.mode = .candidateV2) {row : ClaimRow}
    (hRow : row ∈ store.claims) (hPhase : row.claim.checkpoint.phase = .prepared) {event : Event} {time : DateTime}
    (hEvent : event = .released time ∨ event = .ended .resultUnknown time) :
    store.Change event { store.deleteClaim row.slot with version := store.version + 1, checkpoint := none } := by
  refine .release hEvent hPhase ⟨⟨?_, fun _ => rfl, ?_⟩, rfl, rfl, rfl, rfl⟩ rfl (live_split h hMode hRow) ?_
  · intro hSerial
    rw [show store.creation.mode = .serialV1 from hSerial] at hMode
    cases hMode
  · exact fun other hOther => h.shaped.index other (List.mem_filter.mp hOther).1
  · simp only [Store.live, deleteClaim, Option.toList_none, List.append_nil]
    exact List.Perm.refl _

theorem expireCandidate_change (h : store.Valid) {claim : SlotClaim} {time : DateTime}
    (hOk : store.expireCandidate claim time = .ok next) :
    store.Change (if claim.checkpoint.phase = .dispatching then .ended .resultUnknown time else .released time)
      next := by
  rcases expireCandidate_ok h hOk with
    ⟨hMode, row, hRow, hPrepared, rfl⟩ | ⟨hPhase, current, completion, hInterrupted, hEnded, hDrains⟩
  · have hEvent : (if claim.checkpoint.phase = .dispatching then Event.ended .resultUnknown time else .released time) =
        .released time ∨ (if claim.checkpoint.phase = .dispatching then Event.ended .resultUnknown time
          else .released time) = .ended .resultUnknown time := by
      split
      · exact .inr rfl
      · exact .inl rfl
    exact release_change h hMode hRow hPrepared hEvent
  · have hChange := Change.drain hEnded hDrains
    rw [Completion.event, hInterrupted.unknown, hInterrupted.finished] at hChange
    rw [if_pos hPhase]
    exact hChange

/-! Serial transactions. -/

theorem prepareExecution_change (h : store.Valid) {expectedVersion : Nat} {owner executionId invocationId : String}
    {time leaseExpiresAt : DateTime}
    (hOk : store.prepareExecution expectedVersion owner executionId invocationId time leaseExpiresAt = .ok next) :
    store.Change (.prepared time) next := by
  obtain ⟨hMode, hNone, cp, hOpens, rfl, _, _, rfl⟩ := prepareExecution_ok h hOk
  have hClaims := h.shaped.serial hMode
  refine .prepare hOpens ⟨⟨h.shaped.serial, ?_, h.shaped.index⟩, rfl, rfl, rfl, rfl⟩ rfl ?_
  · intro hCandidate
    rw [show store.creation.mode = .candidateV2 from hCandidate] at hMode
    cases hMode
  · simp [Store.live, hClaims, hNone]

theorem reserveDispatch_change (h : store.Valid) {expectedVersion : Nat} {owner : String} {time : DateTime}
    (hOk : store.reserveDispatch expectedVersion owner time = .ok next) : store.Change (.dispatched time) next := by
  obtain ⟨hMode, hStatus, hUncanceled, hPassed, cp, dispatched, hCp, hDispatches, hStarted, hRecord, rfl⟩ :=
    reserveDispatch_ok h hOk
  have hClaims := h.shaped.serial hMode
  have hSerial : store.creation.mode ≠ .candidateV2 := by
    rw [hMode]
    decide
  have hLive : store.live.Perm [cp] := by simp [Store.live, hClaims, hCp]
  refine .dispatch hStatus hUncanceled hPassed (fun hCandidate => absurd hCandidate hSerial) hDispatches hStarted
    hRecord ⟨⟨h.shaped.serial, fun hCandidate => absurd hCandidate hSerial, h.shaped.index⟩, rfl, rfl, rfl, rfl⟩ rfl
    hLive ?_
  simp [Store.live, hClaims]

/-- The serial progress after a completion that closes nothing. -/
theorem concludes_of_progress {owner : String} {completion : Completion}
    (hProgress : next.progress = completionProgress store.progress completion store.creation.policy owner false) :
    store.Concludes next owner completion := by
  unfold completionProgress at hProgress
  cases hCause : completionCause store.creation.policy completion with
  | none =>
      rw [hCause] at hProgress
      refine .continues hCause ?_ ?_
      · rw [hProgress]
        simp only
        split <;> rfl
      · rw [hProgress]
        simp only
        split <;> rfl
  | some cause =>
      simp only [hCause, Bool.false_eq_true, if_false] at hProgress
      refine .blocks hCause ?_ ?_
      · rw [hProgress]
      · rw [hProgress]
        simp only
        split <;> rfl

/-- The serial progress after a judge call. -/
theorem concludes_of_semantic {owner : String} {completion : SemanticCompletion} {accepted : SemanticAcceptance}
    (hStatus : store.progress.status = .collecting)
    (hResult : accepted.result = none ↔ completion.status ≠ .succeeded)
    (hProgress : next.projectSemanticProgress completion accepted owner
      (completionProgress store.progress (.semantic completion) store.creation.policy owner false) =
        .ok next.progress) : store.Concludes next owner (.semantic completion) := by
  unfold projectSemanticProgress at hProgress
  split at hProgress
  · rw [pure_ok] at hProgress
    exact concludes_of_progress hProgress.symm
  · rename_i hOpen
    simp only [not_or, hResult, not_not] at hOpen
    have hCause : completionCause store.creation.policy (.semantic completion) = none := by
      simp only [completionCause, Completion.status, hOpen.1]
    have hSame : completionProgress store.progress (.semantic completion) store.creation.policy owner false =
        store.progress := by
      have hKnown : (Completion.semantic completion).status ≠ .resultUnknown := by
        simp only [Completion.status, hOpen.1]
        decide
      simp only [completionProgress, hCause, if_neg hKnown]
    rw [hSame] at hProgress hOpen
    simp only [bind_ok, demand_ok, pure_ok] at hProgress
    obtain ⟨slots, hSlots, preflight, hPreflight, action, hAction, hEq⟩ := hProgress
    rw [hStatus] at hAction
    split at hEq
    · rename_i hReview
      have hProjected : projectSlots next.creation.slots next.generations next.dispatches next.semantics
          next.progress.resultUnknownResolutions next.progress.semanticContractRecoveries next.creation.policy =
          .ok slots := by
        rw [← hEq]
        exact hSlots
      have hPassed : next.progress.preflight = some preflight := by
        rw [← hEq]
        exact hPreflight
      have hNext : nextAction .collecting preflight.status preflight.caseId slots next.creation.policy none
          next.progress.unresolvedResultUnknownCount = .ok action := by
        rw [← hEq]
        exact hAction
      exact .closes hOpen.1 rfl hOpen.2 hProjected hPassed hNext hReview (by rw [← hEq]) (by rw [← hEq]; rfl)
    · exact .continues hCause (by rw [← hEq]) (by rw [← hEq])

/-- The list of expiries is not read by any change. -/
theorem Concludes.withRecovery {owner : String} {completion : Completion} (h : store.Concludes next owner completion)
    (event : RecoveryEvent) : store.Concludes (next.withRecovery event) owner completion := by
  cases h with
  | continues hCause hStatus hTransitions => exact .continues hCause hStatus hTransitions
  | blocks hCause hStatus hTransitions => exact .blocks hCause hStatus hTransitions
  | closes hSucceeded hKind hUncanceled hSlots hPreflight hAction hReview hStatus hTransitions =>
      exact .closes hSucceeded hKind hUncanceled hSlots hPreflight hAction hReview hStatus hTransitions

theorem recoverExpired_change (h : store.Valid) {expectedVersion : Nat} {invocationId : String}
    {observedExpiry time : DateTime} {actor : String}
    (hOk : store.recoverExpired expectedVersion invocationId observedExpiry time actor = .ok next) :
    store.Change (.ended .resultUnknown time) next := by
  obtain ⟨cp, settled, event, hSettles, rfl, hCases⟩ := recoverExpired_ok h hOk
  have hRecorded : store.Settles (settled.withRecovery event) cp :=
    ⟨hSettles.collecting, hSettles.checkpoint, hSettles.released, hSettles.creation, hSettles.claims⟩
  obtain ⟨hLive, hNext⟩ := hRecorded.live h
  -- the owner that expired is the owner the completion is recorded for
  have hOwner : cp.owner = strip cp.owner := (strip_of_validId cp.facts.owner).symm
  have hSettle : ∀ completion, Interrupted cp time completion → store.Ended settled cp completion →
      settled.progress = completionProgress store.progress completion store.creation.policy cp.owner false →
      store.Change (.ended .resultUnknown time) (settled.withRecovery event) := by
    intro completion hInterrupted hEnded hProgress
    have hConcludes := (concludes_of_progress hProgress).withRecovery event
    have hKept := hEnded.kept
    have hChange := Change.settle hOwner hRecorded
      ⟨hEnded.step, hEnded.completed, hEnded.preflight, hEnded.cancelRequested, hEnded.unresolved, by
        rw [withRecovery, hKept]⟩ hConcludes
    rw [Completion.event, hInterrupted.unknown, hInterrupted.finished] at hChange
    exact hChange
  rcases hCases with ⟨hPhase, hEq⟩ | ⟨completion, hInterrupted, hEnded, hProgress⟩ |
    ⟨completion, hInterrupted, hEnded, hProgress⟩
  · refine .release (.inr rfl) hPhase ⟨hRecorded.shaped h, hSettles.creation, ?_, ?_, ?_⟩ ?_ (List.Perm.of_eq hLive)
      (List.Perm.of_eq hNext)
    all_goals rw [hEq]; rfl
  · exact hSettle _ hInterrupted hEnded hProgress
  · exact hSettle _ hInterrupted hEnded hProgress

/-- An accepted operation is exactly its changes. -/
theorem perform_changes (h : store.Coherent) {op : Operation} (hOp : store.perform op = .ok next) :
    Changes store op.events next := by
  cases op with
  | transitionRequested expectedVersion target actor reason time =>
      obtain ⟨hIdle, hStatus, hTarget, hActor, rfl⟩ := transitionRequested_ok hOp
      exact (Change.start hIdle hStatus hTarget hActor).once
  | completePreflight expectedVersion evidence =>
      obtain ⟨hIdle, hStatus, hNone, hCase, rfl⟩ := completePreflight_ok hOp
      exact (Change.preflight hIdle hStatus hNone hCase).once
  | prepareCandidate owner executionId invocationId time expiresAt limit =>
      simp only [perform, bind_ok] at hOp
      obtain ⟨⟨claim, claimed⟩, hPrepare, hPure⟩ := hOp
      rw [pure_ok] at hPure
      subst hPure
      exact (prepareCandidate_change h.toValid hPrepare).once
  | dispatchClaim claim time => exact (dispatchClaim_change h.toValid hOp).once
  | claimAndDispatch owner executionId invocationId claimedAt expiresAt limit time =>
      simp only [perform, claimAndDispatch, bind_ok] at hOp
      obtain ⟨⟨claim, claimed⟩, hPrepare, hDispatch⟩ := hOp
      have hPrepared := prepareCandidate_change h.toValid hPrepare
      exact .cons hPrepared (dispatchClaim_change (hPrepared.coherent h).toValid hDispatch).once
  | renewClaim claim time expiresAt => exact (renewClaim_change h.toValid hOp).once
  | completeClaimedGeneration claim owner completion candidateId assertions =>
      obtain ⟨_, _, hEnded, hDrains⟩ := completeClaimedGeneration_ok h.toValid hOp
      exact (Change.drain hEnded hDrains).once
  | completeClaimedSemantic claim owner completion =>
      obtain ⟨_, _, hEnded, hDrains⟩ := completeClaimedSemantic_ok h.toValid hOp
      exact (Change.drain hEnded hDrains).once
  | expireCandidate claim time => exact (expireCandidate_change h.toValid hOp).once
  | prepareExecution expectedVersion owner executionId invocationId time leaseExpiresAt =>
      exact (prepareExecution_change h.toValid hOp).once
  | reserveDispatch expectedVersion owner time => exact (reserveDispatch_change h.toValid hOp).once
  | completeSerialGeneration expectedVersion owner completion candidateId assertions =>
      obtain ⟨_, hSettles, hOwner, hEnded, hProgress⟩ := completeSerialGeneration_ok h.toValid hOp
      exact (Change.settle hOwner hSettles hEnded (concludes_of_progress hProgress)).once
  | completeSerialSemantic expectedVersion owner completion =>
      obtain ⟨_, hSettles, hOwner, hEnded, _, hResult, hProgress⟩ := completeSerialSemantic_ok h.toValid hOp
      exact (Change.settle hOwner hSettles hEnded (concludes_of_semantic hSettles.collecting hResult hProgress)).once
  | recoverExpired expectedVersion invocationId observedExpiry time actor =>
      exact (recoverExpired_change h.toValid hOp).once
  | acceptResolution expectedVersion value confirm =>
      obtain ⟨hIdle, hClaims, hStatus, _, hResult, hDrained, rfl⟩ := acceptResolution_ok hOp
      exact (Change.resolve hIdle hClaims hStatus hResult hDrained).once
  | authorizeContractRecovery expectedVersion expectedReleaseFingerprint value confirm =>
      obtain ⟨_, _, hRecovers⟩ := authorizeContractRecovery_ok h.toValid hOp
      exact (Change.recover hRecovers).once
  | cancel expectedVersion decision confirm now =>
      rcases cancel_ok hOp with hRequests | ⟨record, hEnds⟩
      · exact (Change.requestCancel hRequests).once
      · exact (Change.endCanceled (.inl rfl) hEnds).once
  | finishCancellation time now =>
      rcases finishCancellation_ok hOp with rfl | ⟨intent, decision, record, hIntent, hDecision, hEnds⟩
      · exact (Change.unchanged ⟨time, .inl rfl⟩).once
      · have hTime := (CancellationDecision.make_ok hDecision).2.2.2
        exact (Change.endCanceled (.inr ⟨time, intent, rfl, hIntent, hTime⟩) hEnds).once
  | acceptReviews expectedVersion actor values =>
      obtain ⟨time, hTime, hSigns⟩ := acceptReviews_ok hOp
      rw [Operation.events, hTime]
      exact (Change.review (.signs hSigns)).once
  | correctReview expectedVersion actor commandId previousReviewFingerprint candidateOutputFingerprint value =>
      rcases correctReview_ok hOp with rfl | ⟨entry, hCorrects⟩
      · exact (Change.unchanged ⟨value.reviewedAt, .inr rfl⟩).once
      · exact (Change.review (.corrects hCorrects)).once
  | finalize expectedVersion actor expectedPassed reason time confirm =>
      obtain ⟨_, _, hFinalizes⟩ := finalize_ok hOp
      exact (Change.review (.finalizes hFinalizes)).once
  | reopen expectedVersion actor reason time confirm =>
      obtain ⟨_, hReopens⟩ := reopen_ok hOp
      exact (Change.review (.reopens hReopens)).once

theorem createRun_coherent (creation : Creation) : (createRun creation).Coherent := by
  refine ⟨⟨⟨fun _ => rfl, fun _ => rfl, ?_⟩, Book.start_sound creation, rfl⟩, fun hLive => absurd rfl hLive,
    fun hSome => absurd rfl hSome, ?_⟩
  · intro row hRow
    cases hRow
  · intro _ r hr
    cases hr

theorem Changes.coherent {events : List Event} (hChanges : Changes store events next) (h : store.Coherent) :
    next.Coherent ∧ next.creation = store.creation := by
  induction hChanges with
  | nil => exact ⟨h, rfl⟩
  | cons hChange _ ih =>
      obtain ⟨hNext, hCreation⟩ := ih (hChange.coherent h)
      exact ⟨hNext, hCreation.trans hChange.creation⟩

/-- A property that every admitted change keeps. -/
theorem Changes.keeps {P : Store → Prop} {admitted : Event → Prop} {events : List Event}
    (hChanges : Changes store events next) (h : store.Coherent) (hEvents : ∀ event ∈ events, admitted event)
    (hKeeps : ∀ {store next : Store} {event : Event}, store.Coherent → admitted event → store.Change event next →
      P store → P next)
    (hStore : P store) : P next := by
  induction hChanges with
  | nil => exact hStore
  | cons hChange _ ih =>
      obtain ⟨hEvent, hRest⟩ := List.forall_mem_cons.mp hEvents
      exact ih (hChange.coherent h) hRest (hKeeps h hEvent hChange hStore)

end Store

namespace Reaches

variable {allowed : DateTime → Store → Operation → Prop} {creation : Creation} {now : DateTime} {store : Store}

theorem coherent (h : Reaches allowed creation now store) : store.Coherent ∧ store.creation = creation := by
  induction h with
  | create _ => exact ⟨Store.createRun_coherent creation, rfl⟩
  | step _ _ _ hOp ih =>
      obtain ⟨hNext, hCreation⟩ := (Store.perform_changes ih.1 hOp).coherent ih.1
      exact ⟨hNext, hCreation.trans ih.2⟩

/-- What holds of a new Run, lasts while the clock runs and is kept by every
allowed operation holds of every Run. -/
theorem invariant {P : DateTime → Store → Prop} (h : Reaches allowed creation now store)
    (hCreate : ∀ {now : DateTime}, creation.createdAt ≤ now → P now (createRun creation))
    (hWait : ∀ {before now : DateTime} {store : Store}, before ≤ now → P before store → P now store)
    (hStep : ∀ {now : DateTime} {store next : Store} {op : Operation}, store.Coherent → store.creation = creation →
      allowed now store op → Store.Changes store op.events next → P now store → P now next) : P now store := by
  induction h with
  | create hCreated => exact hCreate hCreated
  | step hReaches hClock hAllowed hOp ih =>
      obtain ⟨hCoherent, hCreation⟩ := hReaches.coherent
      exact hStep hCoherent hCreation hAllowed (Store.perform_changes hCoherent hOp) (hWait hClock ih)

/-- What holds of a new Run and is kept by every change holds of every Run. -/
theorem keeps {P : Store → Prop} (h : Reaches allowed creation now store) (hCreate : P (createRun creation))
    (hChange : ∀ {store next : Store} {event : Event}, store.Coherent → store.Change event next → P store → P next) :
    P store := by
  induction h with
  | create _ => exact hCreate
  | step hReaches _ _ hOp ih =>
      have hCoherent := hReaches.coherent.1
      exact (Store.perform_changes hCoherent hOp).keeps hCoherent (fun _ _ => trivial)
        (fun hStore _ hStep hBefore => hChange hStore hStep hBefore) ih

/-- Fewer operations reach less. -/
theorem mono {more : DateTime → Store → Operation → Prop} (h : Reaches allowed creation now store)
    (hMore : ∀ {now : DateTime} {store : Store} {op : Operation}, allowed now store op → more now store op) :
    Reaches more creation now store := by
  induction h with
  | create hCreated => exact .create hCreated
  | step _ hClock hAllowed hOp ih => exact .step ih hClock (hMore hAllowed) hOp

end Reaches

end QsAi
