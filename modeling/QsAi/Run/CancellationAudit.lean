import QsAi.Run.Cancellation
import QsAi.Run.ReviewReading

/-! The audit of a cancellation. The record that a cancellation writes is derived
again from the Run as it was before, whatever was recorded since the request. -/
namespace QsAi

open Guarded Keyed Numbered

theorem CancellationDecision.make_valid (decision : CancellationDecision) :
    CancellationDecision.make decision.actor decision.reason decision.discard decision.canceledAt = .ok decision := by
  rw [CancellationDecision.make, dif_pos decision.valid]
  rfl

/-- A request as the audit expects it. -/
structure CancelRequest.Intended (intent : CancelRequest) : Prop where
  source : 1 ≤ intent.sourceVersion
  version : intent.version = intent.sourceVersion + 1
  decided : ∃ decision, CancellationDecision.make intent.actor intent.reason false intent.requestedAt = .ok decision

namespace Store

variable {store next : Store}

/-! The version of a Run never goes back. -/

theorem completeClaim_version {version : Nat} {claim : SlotClaim} {progress : Progress} {actor : String}
    {time : DateTime} (hOk : store.completeClaim version claim progress actor time = .ok next) :
    next.version = store.version + 1 := by
  simp only [completeClaim, releaseClaim, bind_ok, pure_ok] at hOk
  obtain ⟨released, ⟨_, _, rfl⟩, _, _, _, _, _, _, saved, hSave, rfl⟩ := hOk
  obtain ⟨_, rfl⟩ := saveCheckpoint_ok hSave
  rfl

theorem insertGeneration_version {row : GenerationRow} (hOk : store.insertGeneration row = .ok next) :
    next.version = store.version := by
  simp only [insertGeneration, bind_ok, require_ok, exists_const, pure_ok] at hOk
  obtain ⟨_, _, _, _, rfl⟩ := hOk
  rfl

theorem storeSemantic_version {completion : SemanticCompletion} {accepted : SemanticAcceptance}
    (hOk : store.storeSemantic completion accepted = .ok next) : next.version = store.version := by
  simp only [storeSemantic, insertSemantic, bind_ok, require_ok, exists_const, pure_ok] at hOk
  obtain ⟨inserted, ⟨_, _, _, rfl⟩, rfl⟩ := hOk
  split <;> rfl

theorem completeClaimedGeneration_version {claim : SlotClaim} {owner : String} {completion : GenerationCompletion}
    {candidateId : String} {assertions : List AssertionReceipt}
    (hOk : store.completeClaimedGeneration claim owner completion candidateId assertions = .ok next) :
    next.version = store.version + 1 := by
  simp only [completeClaimedGeneration, bind_ok, require_ok, exists_const] at hOk
  obtain ⟨_, _, _, _, _, _, _, inserted, hInsert, hComplete⟩ := hOk
  rw [completeClaim_version hComplete, insertGeneration_version hInsert]

theorem completeClaimedSemantic_version {claim : SlotClaim} {owner : String} {completion : SemanticCompletion}
    (hOk : store.completeClaimedSemantic claim owner completion = .ok next) : next.version = store.version + 1 := by
  simp only [completeClaimedSemantic, bind_ok] at hOk
  obtain ⟨_, _, _, _, stored, hStore, hComplete⟩ := hOk
  rw [completeClaim_version hComplete, storeSemantic_version hStore]

theorem completeSerialGeneration_version {expectedVersion : Nat} {owner : String} {completion : GenerationCompletion}
    {candidateId : String} {assertions : List AssertionReceipt}
    (hOk : store.completeSerialGeneration expectedVersion owner completion candidateId assertions = .ok next) :
    next.version = store.version + 1 := by
  simp only [completeSerialGeneration, bind_ok, pure_ok] at hOk
  obtain ⟨_, _, _, _, _, _, inserted, hInsert, saved, hSave, rfl⟩ := hOk
  obtain ⟨_, rfl⟩ := saveCheckpoint_ok hSave
  exact congrArg (· + 1) (insertGeneration_version hInsert)

theorem completeSerialSemantic_version {expectedVersion : Nat} {owner : String} {completion : SemanticCompletion}
    (hOk : store.completeSerialSemantic expectedVersion owner completion = .ok next) :
    next.version = store.version + 1 := by
  simp only [completeSerialSemantic, bind_ok, pure_ok] at hOk
  obtain ⟨_, _, _, _, stored, hStore, _, _, saved, hSave, rfl⟩ := hOk
  obtain ⟨_, rfl⟩ := saveCheckpoint_ok hSave
  exact congrArg (· + 1) (storeSemantic_version hStore)

theorem recoverExpired_version {expectedVersion : Nat} {invocationId actor : String} {observedExpiry time : DateTime}
    (hOk : store.recoverExpired expectedVersion invocationId observedExpiry time actor = .ok next) :
    next.version = store.version + 1 := by
  simp only [recoverExpired, bind_ok, require_ok, exists_const, demand_ok] at hOk
  obtain ⟨_, rfl, cp, _, _, _, hOk⟩ := hOk
  split at hOk
  · simp only [bind_ok, require_ok, exists_const, pure_ok] at hOk
    obtain ⟨_, settled, hSave, rfl⟩ := hOk
    obtain ⟨_, rfl⟩ := saveCheckpoint_ok hSave
    rfl
  · simp only [bind_ok, pure_ok] at hOk
    obtain ⟨_, _, settled, hComplete, rfl⟩ := hOk
    have hVersion := completeSerialGeneration_version hComplete
    exact hVersion
  · simp only [bind_ok, pure_ok] at hOk
    obtain ⟨_, _, _, _, settled, hComplete, rfl⟩ := hOk
    have hVersion := completeSerialSemantic_version hComplete
    exact hVersion

theorem expireCandidate_version {claim : SlotClaim} {time : DateTime}
    (hOk : store.expireCandidate claim time = .ok next) : next.version = store.version + 1 := by
  simp only [expireCandidate, bind_ok, require_ok, exists_const] at hOk
  obtain ⟨version, _, _, _, current, _, _, hOk⟩ := hOk
  split at hOk
  · simp only [bind_ok, require_ok, exists_const] at hOk
    obtain ⟨_, released, hRelease, hSave⟩ := hOk
    obtain ⟨_, rfl⟩ := saveCheckpoint_ok hSave
    simp only [releaseClaim, bind_ok, pure_ok] at hRelease
    obtain ⟨_, _, rfl⟩ := hRelease
    rfl
  · simp only [bind_ok] at hOk
    obtain ⟨_, _, hComplete⟩ := hOk
    exact completeClaimedGeneration_version hComplete
  · simp only [bind_ok] at hOk
    obtain ⟨_, _, _, _, hComplete⟩ := hOk
    exact completeClaimedSemantic_version hComplete

theorem Reviews.version {time : DateTime} (h : store.Reviews next time) : next.version = store.version + 1 := by
  rw [h.reviewed.next]

/-- An operation moves the version forward or leaves it. -/
theorem perform_version (h : store.Coherent) {op : Operation} (hOp : store.perform op = .ok next) :
    store.version ≤ next.version := by
  cases op with
  | transitionRequested expectedVersion target actor reason time =>
      obtain ⟨_, _, _, _, rfl⟩ := transitionRequested_ok hOp
      exact Nat.le_succ _
  | completePreflight expectedVersion evidence =>
      obtain ⟨_, _, _, _, rfl⟩ := completePreflight_ok hOp
      exact Nat.le_succ _
  | prepareCandidate owner executionId invocationId time expiresAt limit =>
      simp only [perform, bind_ok] at hOp
      obtain ⟨⟨claim, claimed⟩, hPrepare, hPure⟩ := hOp
      rw [pure_ok] at hPure
      subst hPure
      obtain ⟨_, _, _, _, _, rfl⟩ := prepareCandidate_ok h.toValid hPrepare
      exact Nat.le_succ _
  | dispatchClaim claim time =>
      obtain ⟨_, _, _, _, _, _, _, _, _, _, _, _, rfl⟩ := dispatchClaim_ok h.toValid hOp
      exact le_rfl
  | claimAndDispatch owner executionId invocationId claimedAt expiresAt limit time =>
      simp only [perform, claimAndDispatch, bind_ok] at hOp
      obtain ⟨⟨claim, claimed⟩, hPrepare, hDispatch⟩ := hOp
      have hClaimed := ((prepareCandidate_change h.toValid hPrepare).coherent h).toValid
      obtain ⟨_, _, _, _, _, _, _, _, _, _, _, _, rfl⟩ := dispatchClaim_ok hClaimed hDispatch
      obtain ⟨_, _, _, _, _, rfl⟩ := prepareCandidate_ok h.toValid hPrepare
      exact Nat.le_succ _
  | renewClaim claim time expiresAt =>
      obtain ⟨_, _, _, _, _, rfl⟩ := renewClaim_ok hOp
      exact le_rfl
  | completeClaimedGeneration claim owner completion candidateId assertions =>
      rw [completeClaimedGeneration_version hOp]
      exact Nat.le_succ _
  | completeClaimedSemantic claim owner completion =>
      rw [completeClaimedSemantic_version hOp]
      exact Nat.le_succ _
  | expireCandidate claim time =>
      rw [expireCandidate_version hOp]
      exact Nat.le_succ _
  | prepareExecution expectedVersion owner executionId invocationId time leaseExpiresAt =>
      obtain ⟨_, _, _, _, _, _, _, rfl⟩ := prepareExecution_ok h.toValid hOp
      exact Nat.le_succ _
  | reserveDispatch expectedVersion owner time =>
      obtain ⟨_, _, _, _, _, _, _, _, _, _, rfl⟩ := reserveDispatch_ok h.toValid hOp
      exact Nat.le_succ _
  | completeSerialGeneration expectedVersion owner completion candidateId assertions =>
      rw [completeSerialGeneration_version hOp]
      exact Nat.le_succ _
  | completeSerialSemantic expectedVersion owner completion =>
      rw [completeSerialSemantic_version hOp]
      exact Nat.le_succ _
  | recoverExpired expectedVersion invocationId observedExpiry time actor =>
      rw [recoverExpired_version hOp]
      exact Nat.le_succ _
  | acceptResolution expectedVersion value confirm =>
      obtain ⟨_, _, _, _, _, _, rfl⟩ := acceptResolution_ok hOp
      exact Nat.le_succ _
  | authorizeContractRecovery expectedVersion expectedReleaseFingerprint value confirm =>
      obtain ⟨_, _, hRecovers⟩ := authorizeContractRecovery_ok h.toValid hOp
      rw [hRecovers.next]
      exact Nat.le_succ _
  | cancel expectedVersion decision confirm now =>
      rcases cancel_ok hOp with hRequests | ⟨record, hEnds⟩
      · rw [hRequests.next]
        exact Nat.le_succ _
      · rw [hEnds.next]
        exact Nat.le_succ _
  | finishCancellation time now =>
      rcases finishCancellation_ok hOp with rfl | ⟨_, _, _, _, _, hEnds⟩
      · exact le_rfl
      · rw [hEnds.next]
        exact Nat.le_succ _
  | acceptReviews expectedVersion actor values =>
      obtain ⟨_, _, hSigns⟩ := acceptReviews_ok hOp
      rw [(Reviews.signs hSigns).version]
      exact Nat.le_succ _
  | correctReview expectedVersion actor commandId previousReviewFingerprint candidateOutputFingerprint value =>
      rcases correctReview_ok hOp with rfl | ⟨entry, hCorrects⟩
      · exact le_rfl
      · rw [(Reviews.corrects hCorrects).version]
        exact Nat.le_succ _
  | finalize expectedVersion actor expectedPassed reason time confirm =>
      obtain ⟨_, _, hFinalizes⟩ := finalize_ok hOp
      rw [(Reviews.finalizes hFinalizes).version]
      exact Nat.le_succ _
  | reopen expectedVersion actor reason time confirm =>
      obtain ⟨_, hReopens⟩ := reopen_ok hOp
      rw [(Reviews.reopens hReopens).version]
      exact Nat.le_succ _

/-! The record. -/

/-- The record of a cancellation, and that it is derived again at every later
time from the Run without its checkpoint. -/
theorem cancellationRecord_ok {checkpoint : Option ExecutionCheckpoint} {decision : CancellationDecision}
    {now : DateTime} {record : CancellationRecord}
    (h : store.cancellationRecord checkpoint decision now = .ok record) :
    (store.progress.cancellation = none ∧ store.progress.canceledAt = none) ∧
    record = ⟨store.version, store.version + 1, store.progress.status, store.creation.releaseFingerprint,
      decision.actor, decision.reason, decision.discard, decision.canceledAt,
      (checkpoint.map (·.executionId)).getD "", (checkpoint.map (·.invocationId)).getD ""⟩ ∧
    ∀ reading, now ≤ reading →
      Store.cancellationRecord { store with checkpoint := none } checkpoint decision reading = .ok record := by
  simp only [cancellationRecord, bind_ok, require_ok, exists_const, pure_ok] at h ⊢
  obtain ⟨hCurrent, cause, hCause, unknowns, hUnknowns, hTimes, hRequested, planned, hPlanned, final, hFinal, rfl⟩ := h
  have hRunning : store.progress.status = .requested ∨ store.progress.status = .collecting ∨
      store.progress.status = .blocked ∨ store.progress.status = .awaitingReview := by
    simp only [CancellationDecision.cause, bind_ok, require_ok, exists_const] at hCause
    exact hCause.1.1
  have hOther : store.progress.status ≠ .approved ∧ store.progress.status ≠ .rejected := by
    rcases hRunning with hStatus | hStatus | hStatus | hStatus <;> rw [hStatus] <;> decide
  refine ⟨hCurrent, rfl, fun reading hTime => ?_⟩
  exact ⟨hCurrent, cause, hCause, unknowns, hUnknowns, hTimes, hRequested, planned, hPlanned, (none, false),
    readFinalization_later hTime hOther.1 hOther.2 hFinal, rfl⟩

/-- What the audit of a Run rests on: its request is valid, and only a recorded
cancellation keeps a checkpoint. -/
structure Audited (store : Store) : Prop where
  intended : ∀ intent ∈ store.progress.cancelRequested, intent.Intended ∧ intent.version ≤ store.version
  kept : store.progress.cancellation = none → store.progress.canceledCheckpoint = none

theorem Audited.checkRequest (h : store.Audited) :
    store.progress.cancelRequested.forM store.checkCancelRequest = .ok () := by
  cases hIntent : store.progress.cancelRequested with
  | none => rfl
  | some intent =>
      obtain ⟨hIntended, hVersion⟩ := h.intended intent hIntent
      obtain ⟨decision, hDecision⟩ := hIntended.decided
      change store.checkCancelRequest intent = .ok ()
      rw [checkCancelRequest, require_bind_pos ⟨hIntended.source, hIntended.version, hVersion⟩, hDecision]
      rfl

/-- A Run without a recorded cancellation reads as its request. -/
theorem Audited.read_requested (h : store.Audited) (hNone : store.progress.cancellation = none) (reading : DateTime) :
    store.readCancellation reading =
      .ok ((store.progress.cancelRequested.map .requested).getD .unrequested, store) := by
  rw [readCancellation, h.checkRequest, ok_bind, hNone]
  simp only
  rw [require_bind_pos (h.kept hNone)]
  rfl

/-- The Run before its cancellation is found again. -/
theorem EndsCanceled.uncanceled {decision : CancellationDecision} {now : DateTime} {record : CancellationRecord}
    (hEnds : store.EndsCanceled next decision now record) (hKept : store.progress.canceledCheckpoint = none) :
    next.uncanceled record = { store with checkpoint := none } := by
  obtain ⟨⟨hCancellation, hCanceledAt⟩, hRecord, _⟩ := cancellationRecord_ok hEnds.derived
  rw [hEnds.next, hRecord]
  simp only [Store.uncanceled, List.dropLast_concat]
  rw [← hCancellation, ← hCanceledAt, ← hKept]

/-- A recorded cancellation reads as it was decided, now and at every later
time. -/
theorem EndsCanceled.read {decision : CancellationDecision} {now : DateTime} {record : CancellationRecord}
    (hEnds : store.EndsCanceled next decision now record) (h : store.Audited) (hNext : next.Audited)
    {reading : DateTime} (hTime : now ≤ reading) :
    next.readCancellation reading = .ok (.canceled record, { store with checkpoint := none }) := by
  obtain ⟨⟨hCancellation, _⟩, hRecord, hAgain⟩ := cancellationRecord_ok hEnds.derived
  have hUncanceled := hEnds.uncanceled (h.kept hCancellation)
  have hChecks := hNext.checkRequest
  have hResult := hEnds.next
  have hStored : next.progress.cancellation = some record := by rw [hResult]
  have hCheckpoint : next.progress.canceledCheckpoint = store.checkpoint := by rw [hResult]
  have hDecision : CancellationDecision.make record.actor record.reason record.discard record.canceledAt =
      .ok decision := by
    rw [hRecord]
    exact CancellationDecision.make_valid decision
  have hAudit : next.progress.status = .canceled ∧ next.checkpoint = none ∧
      record.sourceVersion + 1 = next.version ∧ 1 ≤ record.sourceVersion ∧ record.version = next.version ∧
      next.progress.canceledAt = some record.canceledAt ∧
      next.progress.transitions.getLast? = some (cancellationTransition record) := by
    rw [hResult]
    refine ⟨rfl, rfl, ?_, ?_, ?_, rfl, List.getLast?_concat⟩
    · rw [hRecord]
    · rw [hRecord]
      exact hEnds.version
    · rw [hRecord]
  rw [readCancellation, hChecks, ok_bind, hStored]
  simp only
  rw [require_bind_pos hAudit, hDecision, ok_bind, hUncanceled, hCheckpoint, hAgain reading hTime, ok_bind,
    require_bind_pos rfl]
  rfl

/-! Every Run can be audited. -/

theorem Change.kept {event : Event} (hChange : store.Change event next)
    (hKept : store.progress.cancellation = none → store.progress.canceledCheckpoint = none) :
    next.progress.cancellation = none → next.progress.canceledCheckpoint = none := by
  cases hChange with
  | preflight =>
      split
      · exact hKept
      · exact hKept
  | prepare _ hKeeps =>
      rw [hKeeps.progress]
      exact hKept
  | dispatch _ _ _ _ _ _ _ hKeeps =>
      rw [hKeeps.progress]
      exact hKept
  | renew _ hKeeps =>
      rw [hKeeps.progress]
      exact hKept
  | release _ _ hKeeps =>
      rw [hKeeps.progress]
      exact hKept
  | drain hEnded =>
      rw [hEnded.kept]
      exact hKept
  | settle _ _ hEnded =>
      rw [hEnded.kept]
      exact hKept
  | recover hRecovers =>
      rw [hRecovers.next]
      exact hKept
  | requestCancel hRequests =>
      rw [hRequests.next]
      exact hKept
  | endCanceled _ hEnds =>
      rw [hEnds.next]
      exact fun hNone => by cases hNone
  | review hReviews =>
      rw [hReviews.reviewed.next]
      exact hKept
  | _ => exact hKept

theorem Requests.intended {decision : CancellationDecision} (hRequests : store.Requests next decision) :
    ∀ intent ∈ next.progress.cancelRequested, intent.Intended ∧ intent.version ≤ next.version := by
  have hNext := hRequests.next
  subst hNext
  rintro intent ⟨rfl⟩
  refine ⟨⟨hRequests.version, rfl, decision, ?_⟩, le_rfl⟩
  rw [← hRequests.drains]
  exact decision.make_valid

theorem Audited.same (h : store.Audited) (hRequest : next.progress.cancelRequested = store.progress.cancelRequested)
    (hVersion : store.version ≤ next.version)
    (hKept : next.progress.cancellation = none → next.progress.canceledCheckpoint = none) : next.Audited := by
  refine ⟨?_, hKept⟩
  rw [hRequest]
  intro intent hIntent
  obtain ⟨hIntended, hBound⟩ := h.intended intent hIntent
  exact ⟨hIntended, hBound.trans hVersion⟩

theorem perform_audited (h : store.Coherent) {op : Operation} (hOp : store.perform op = .ok next)
    (hAudited : store.Audited) : next.Audited := by
  have hChanges := perform_changes h hOp
  have hVersion := perform_version h hOp
  have hKept := hChanges.keeps (P := fun store => store.progress.cancellation = none →
    store.progress.canceledCheckpoint = none) h (fun _ _ => trivial) (fun _ _ hChange hKept => hChange.kept hKept)
    hAudited.kept
  have hOther : (∀ event ∈ op.events, ∀ time, event ≠ .canceled time) → next.Audited := by
    intro hEvents
    refine hAudited.same ?_ hVersion hKept
    refine hChanges.keeps (P := fun later => later.progress.cancelRequested = store.progress.cancelRequested) h hEvents
      ?_ rfl
    intro before after event _ hEvent hChange hSame
    rcases hChange.request with hNext | ⟨_, hCanceled, _⟩
    · exact hNext.trans hSame
    · exact absurd hCanceled (hEvent _)
  cases op with
  | cancel expectedVersion decision confirm now =>
      rcases cancel_ok hOp with hRequests | ⟨record, hEnds⟩
      · exact ⟨hRequests.intended, hKept⟩
      · exact hAudited.same (by rw [hEnds.next]) hVersion hKept
  | expireCandidate claim time =>
      refine hOther fun event hEvent time => ?_
      obtain rfl := List.mem_singleton.mp hEvent
      split <;> exact fun hSame => by cases hSame
  | acceptReviews expectedVersion actor values =>
      refine hOther fun event hEvent time => ?_
      obtain ⟨_, _, rfl⟩ := List.mem_map.mp hEvent
      exact fun hSame => by cases hSame
  | _ => exact hOther (by simp [Operation.events, Completion.event])

/-- A recorded cancellation is final. -/
theorem Change.final {event : Event} (hChange : store.Change event next) (h : store.Coherent)
    (hCanceled : store.progress.status = .canceled) {record : CancellationRecord}
    (hRecord : store.progress.cancellation = some record) : next = store := by
  have hIdle : store.live = [] := h.idle (by rw [hCanceled]; decide)
  have hOwned : ∀ {cp : ExecutionCheckpoint} {rest : List ExecutionCheckpoint}, ¬ store.live.Perm (cp :: rest) := by
    intro cp rest hPerm
    rw [hIdle] at hPerm
    exact absurd hPerm.symm.eq_nil (by simp)
  cases hChange with
  | start _ hStatus => rw [hStatus] at hCanceled; cases hCanceled
  | preflight _ hStatus => rw [hStatus] at hCanceled; cases hCanceled
  | prepare hOpens => rw [hOpens.collecting] at hCanceled; cases hCanceled
  | dispatch hStatus => rw [hStatus] at hCanceled; cases hCanceled
  | renew _ _ _ hLive => exact absurd hLive hOwned
  | release _ _ _ _ hLive => exact absurd hLive hOwned
  | drain _ hDrains =>
      obtain ⟨_, hLive, _⟩ := hDrains.live h.toValid
      exact absurd hLive hOwned
  | settle _ hSettles => rw [hSettles.collecting] at hCanceled; cases hCanceled
  | resolve _ _ hStatus => rw [hStatus] at hCanceled; cases hCanceled
  | recover hRecovers => rw [hRecovers.blocked] at hCanceled; cases hCanceled
  | requestCancel hRequests =>
      rcases hRequests.running with hStatus | hStatus <;> rw [hStatus] at hCanceled <;> cases hCanceled
  | endCanceled _ hEnds =>
      rw [(cancellationRecord_ok hEnds.derived).1.1] at hRecord
      cases hRecord
  | review hReviews =>
      rcases hReviews.reviewed.before with hStatus | hStatus <;> rw [hStatus] at hCanceled <;> cases hCanceled
  | unchanged => rfl

/-- The recorded cancellation of the Run is found again in its evidence at every
time from the given one on. -/
def ReadsCanceled (store : Store) (moment : DateTime) (record : CancellationRecord) (source : Store) : Prop :=
  store.progress.cancellation = some record ∧
    ∀ reading, moment ≤ reading → store.readCancellation reading = .ok (.canceled record, source)

theorem EndsCanceled.readsCanceled {decision : CancellationDecision} {now : DateTime} {record : CancellationRecord}
    (hEnds : store.EndsCanceled next decision now record) (h : store.Audited) (hNext : next.Audited) :
    next.ReadsCanceled now record { store with checkpoint := none } := by
  refine ⟨?_, fun reading hTime => hEnds.read h hNext hTime⟩
  rw [hEnds.next]

end Store

theorem Continues.keepsRequest {allowed : Operation → Prop} {store later : Store}
    (hLater : Continues allowed store later) (h : store.Coherent) {request : CancelRequest}
    (hRequested : store.progress.cancelRequested = some request) :
    later.progress.cancelRequested = some request := by
  induction hLater with
  | refl => exact hRequested
  | step hFirst _ hOp ih =>
      have hMiddle := (hFirst.kept h).1
      exact (Store.perform_changes hMiddle hOp).keeps (P := fun later => later.progress.cancelRequested = some request)
        hMiddle (fun _ _ => trivial) (fun _ _ hChange hKept => hChange.keepsRequest hKept) ih

theorem Reaches.audited {allowed : DateTime → Store → Operation → Prop} {creation : Creation} {now : DateTime}
    {store : Store} (hReaches : Reaches allowed creation now store) : store.Audited := by
  induction hReaches with
  | create _ =>
      refine ⟨?_, fun _ => rfl⟩
      intro intent hIntent
      cases hIntent
  | step hReaches _ _ hOp ih => exact Store.perform_audited hReaches.coherent.1 hOp ih

theorem Continues.audited {allowed : Operation → Prop} {store later : Store} (hLater : Continues allowed store later)
    (h : store.Coherent) (hAudited : store.Audited) : later.Audited := by
  induction hLater with
  | refl => exact hAudited
  | step hFirst _ hOp ih => exact Store.perform_audited (hFirst.kept h).1 hOp ih

/-- Nothing happens to a Run after its recorded cancellation. -/
theorem Continues.final {allowed : Operation → Prop} {store later : Store} (hLater : Continues allowed store later)
    (h : store.Coherent) (hCanceled : store.progress.status = .canceled) {record : CancellationRecord}
    (hRecord : store.progress.cancellation = some record) : later = store := by
  induction hLater with
  | refl => rfl
  | step hFirst _ hOp ih =>
      rw [ih] at hOp
      refine (Store.perform_changes h hOp).keeps (P := fun later => later = store) h (fun _ _ => trivial) ?_ rfl
      rintro before after event - - hChange rfl
      exact hChange.final h hCanceled hRecord

namespace Store

variable {store next : Store}

/-- Only a cancellation or its drain records a cancellation. -/
theorem Change.recorded {event : Event} (hChange : store.Change event next)
    (hEvent : ∀ time, event ≠ .canceled time ∧ event ≠ .drained time) :
    next.progress.cancellation = store.progress.cancellation := by
  cases hChange with
  | preflight =>
      split
      · rfl
      · rfl
  | prepare _ hKeeps => rw [hKeeps.progress]
  | dispatch _ _ _ _ _ _ _ hKeeps => rw [hKeeps.progress]
  | renew _ hKeeps => rw [hKeeps.progress]
  | release _ _ hKeeps => rw [hKeeps.progress]
  | drain hEnded => rw [hEnded.kept]
  | settle _ _ hEnded => rw [hEnded.kept]
  | recover hRecovers => rw [hRecovers.next]
  | requestCancel hRequests => rw [hRequests.next]
  | endCanceled hSource =>
      rcases hSource with hSame | ⟨time, _, hSame, _⟩
      · exact absurd hSame (hEvent _).1
      · exact absurd hSame (hEvent time).2
  | review hReviews => rw [hReviews.reviewed.next]
  | _ => rfl

theorem perform_recorded (h : store.Coherent) {op : Operation} (hOp : store.perform op = .ok next)
    (hNone : store.progress.cancellation = none) :
    next.progress.cancellation = none ∨ ∃ decision now record, store.EndsCanceled next decision now record := by
  have hOther : (∀ event ∈ op.events, ∀ time, event ≠ .canceled time ∧ event ≠ .drained time) →
      next.progress.cancellation = none := fun hEvents =>
    (perform_changes h hOp).keeps (P := fun later => later.progress.cancellation = none) h hEvents
      (fun _ hEvent hChange hBefore => (hChange.recorded hEvent).trans hBefore) hNone
  cases op with
  | cancel expectedVersion decision confirm now =>
      rcases cancel_ok hOp with hRequests | ⟨record, hEnds⟩
      · rw [hRequests.next]
        exact .inl hNone
      · exact .inr ⟨decision, now, record, hEnds⟩
  | finishCancellation time now =>
      rcases finishCancellation_ok hOp with rfl | ⟨_, decision, record, _, _, hEnds⟩
      · exact .inl hNone
      · exact .inr ⟨decision, now, record, hEnds⟩
  | expireCandidate claim time =>
      refine .inl (hOther fun event hEvent time => ?_)
      obtain rfl := List.mem_singleton.mp hEvent
      constructor <;> split <;> exact fun hSame => by cases hSame
  | acceptReviews expectedVersion actor values =>
      refine .inl (hOther fun event hEvent time => ?_)
      obtain ⟨_, _, rfl⟩ := List.mem_map.mp hEvent
      constructor <;> exact fun hSame => by cases hSame
  | _ => exact .inl (hOther (by simp [Operation.events, Completion.event]))

theorem ReadsCanceled.canceled {moment : DateTime} {record : CancellationRecord} {source : Store}
    (h : store.ReadsCanceled moment record source) : store.progress.status = .canceled := by
  have hRead := h.2 moment le_rfl
  simp only [readCancellation, bind_ok, h.1, require_ok, exists_const] at hRead
  obtain ⟨_, _, ⟨hStatus, _⟩, _⟩ := hRead
  exact hStatus

end Store

/-- Only a canceled Run has a recorded cancellation. -/
theorem Reaches.canceled {allowed : DateTime → Store → Operation → Prop} {creation : Creation} {now : DateTime}
    {store : Store} (hReaches : Reaches allowed creation now store) {record : CancellationRecord}
    (hRecord : store.progress.cancellation = some record) : store.progress.status = .canceled := by
  induction hReaches generalizing record with
  | create _ => cases hRecord
  | @step before now store next op hReaches _ _ hOp ih =>
      have hCoherent := hReaches.coherent.1
      cases hBefore : store.progress.cancellation with
      | none =>
          rcases Store.perform_recorded hCoherent hOp hBefore with hNone | ⟨_, _, _, hEnds⟩
          · rw [hNone] at hRecord
            cases hRecord
          · rw [hEnds.next]
      | some earlier =>
          have hFinal : Continues (fun _ => True) store next := .step .refl trivial hOp
          rw [hFinal.final hCoherent (ih hBefore) hBefore]
          exact ih hBefore

/-- Every later state of a Run without a recorded cancellation has none either, or
its cancellation was recorded since and reads as it was recorded. -/
theorem Continues.reads {allowed : Operation → Prop} {store later : Store} (hLater : Continues allowed store later)
    (h : store.Coherent) (hAudited : store.Audited) (hNone : store.progress.cancellation = none) :
    later.progress.cancellation = none ∨ ∃ moment record source, later.ReadsCanceled moment record source := by
  induction hLater with
  | refl => exact .inl hNone
  | @step middle next op hFirst hAllowed hOp ih =>
      have hMiddle := (hFirst.kept h).1
      have hBefore := hFirst.audited h hAudited
      rcases ih with hOpen | ⟨moment, record, source, hReads⟩
      · rcases Store.perform_recorded hMiddle hOp hOpen with hOpen | ⟨decision, now, record, hEnds⟩
        · exact .inl hOpen
        · exact .inr ⟨now, record, _, hEnds.readsCanceled hBefore (Store.perform_audited hMiddle hOp hBefore)⟩
      · have hCanceled : middle.progress.status = .canceled := hReads.canceled
        have hSame : next = middle := (Continues.step (.refl) hAllowed hOp).final hMiddle hCanceled hReads.1
        exact .inr ⟨moment, record, source, hSame ▸ hReads⟩

/-- An accepted cancellation of a reachable Run can be read back for good. When it
ends the Run, every later state gives the record with the operator, the reason,
the time and the version of the command, and the Run it was decided about. When
it asks running work to drain, every later state gives the request of the command
until the cancellation is recorded; the drain records it under the operator and
the reason of the request, no earlier than the request, and the record is found
again in the evidence of the drained Run. -/
theorem cancellation_round_trip {allowed : DateTime → Store → Operation → Prop} {creation : Creation}
    {clock : DateTime} {store next : Store} {expectedVersion : Nat} {decision : CancellationDecision} {confirm : Bool}
    {now : DateTime} (hReaches : Reaches allowed creation clock store)
    (hCancel : store.perform (.cancel expectedVersion decision confirm now) = .ok next) :
    (∃ record, record.actor = decision.actor ∧ record.reason = decision.reason ∧ record.discard = decision.discard ∧
      record.canceledAt = decision.canceledAt ∧ record.sourceVersion = expectedVersion ∧
      record.sourceStatus = store.progress.status ∧ next.progress.status = .canceled ∧
      ∀ later, Continues (fun _ => True) next later →
        later.ReadsCanceled now record { store with checkpoint := none }) ∨
    (next.progress.status = store.progress.status ∧ ∀ later, Continues (fun _ => True) next later →
      (∃ moment record source, later.ReadsCanceled moment record source) ∨
      (∀ reading, later.readCancellation reading = .ok (.requested ⟨expectedVersion, expectedVersion + 1,
        decision.actor, decision.reason, decision.canceledAt⟩, later)) ∧
      ∀ time moment drained, later.perform (.finishCancellation time moment) = .ok drained → drained = later ∨
        ∃ record, record.actor = decision.actor ∧ record.reason = decision.reason ∧ record.discard = false ∧
          record.canceledAt = DateTime.latest time [decision.canceledAt] ∧
          record.sourceVersion = later.version ∧ record.sourceStatus = later.progress.status ∧
          drained.ReadsCanceled moment record { later with checkpoint := none }) := by
  have hCoherent := hReaches.coherent.1
  have hAudited := hReaches.audited
  have hNext := ((Store.perform_changes hCoherent hCancel).coherent hCoherent).1
  have hNextAudited := Store.perform_audited hCoherent hCancel hAudited
  have hVersion : store.version = expectedVersion := by
    simp only [Store.perform, Store.cancel, bind_ok, require_ok, exists_const] at hCancel
    exact hCancel.2.1
  rcases Store.cancel_ok hCancel with hRequests | ⟨record, hEnds⟩
  · right
    have hResult := hRequests.next
    have hRequested : next.progress.cancelRequested = some ⟨expectedVersion, expectedVersion + 1, decision.actor,
        decision.reason, decision.canceledAt⟩ := by
      rw [hResult, hVersion]
    have hNone : next.progress.cancellation = none := by
      rw [hResult]
      by_contra hSome
      obtain ⟨record, hRecord⟩ := Option.ne_none_iff_exists'.mp hSome
      have hCanceled := hReaches.canceled hRecord
      rcases hRequests.running with hStatus | hStatus <;> rw [hStatus] at hCanceled <;> cases hCanceled
    refine ⟨by rw [hResult], fun later hLater => ?_⟩
    have hLaterCoherent := (hLater.kept hNext).1
    have hLaterAudited := hLater.audited hNext hNextAudited
    have hKept := hLater.keepsRequest hNext hRequested
    rcases hLater.reads hNext hNextAudited hNone with hOpen | hReads
    · refine .inr ⟨fun reading => ?_, fun time moment drained hDrain => ?_⟩
      · rw [hLaterAudited.read_requested hOpen reading, hKept]
        rfl
      · rcases Store.finishCancellation_ok hDrain with rfl | ⟨intent, drain, record, hIntent, hDecision, hEnds⟩
        · exact .inl rfl
        · rw [hKept] at hIntent
          cases hIntent
          obtain ⟨hActor, hReason, hDiscard, hTime⟩ := CancellationDecision.make_ok hDecision
          obtain ⟨_, hRecord, _⟩ := Store.cancellationRecord_ok hEnds.derived
          refine .inr ⟨record, ?_, ?_, ?_, ?_, ?_, ?_, hEnds.readsCanceled hLaterAudited
            (Store.perform_audited hLaterCoherent hDrain hLaterAudited)⟩
          all_goals rw [hRecord]
          · exact hActor
          · exact hReason
          · exact hDiscard
          · exact hTime
    · exact .inl hReads
  · left
    obtain ⟨_, hRecord, _⟩ := Store.cancellationRecord_ok hEnds.derived
    have hReads := hEnds.readsCanceled hAudited hNextAudited
    have hCanceled : next.progress.status = .canceled := by rw [hEnds.next]
    refine ⟨record, ?_, ?_, ?_, ?_, ?_, ?_, hCanceled, fun later hLater => ?_⟩
    · rw [hRecord]
    · rw [hRecord]
    · rw [hRecord]
    · rw [hRecord]
    · rw [hRecord]
      exact hVersion
    · rw [hRecord]
    · rw [hLater.final hNext hCanceled hReads.1]
      exact hReads

/-- A request while a claimed call is out. -/
theorem cancellation_round_trip_pilot : ∃ now store next,
    Reaches (fun _ _ _ => True) (Pilot.creation .candidateV2) now store ∧ store.live ≠ [] ∧
    store.perform (.cancel 4 (Pilot.cancellation 2) true (Pilot.clock 2)) = .ok next ∧
    next.readCancellation (Pilot.clock 9) =
      .ok (.requested ⟨4, 5, "user:1", "stop", Pilot.clock 2⟩, next) := by
  obtain ⟨now, store, hReaches, hCheck⟩ := exists_reaches (fun _ _ _ => True) (Pilot.creation .candidateV2)
    (Pilot.start ++ [Pilot.lease 1 "e1" 4])
    (fun store => store.live ≠ [] ∧
      (store.perform (.cancel 4 (Pilot.cancellation 2) true (Pilot.clock 2))).toOption.any fun next =>
        next.progress.status = .collecting ∧ next.progress.cancellation = none) (by decide +kernel)
  obtain ⟨hLive, hCheck⟩ := of_decide_eq_true hCheck
  cases hCancel : store.perform (.cancel 4 (Pilot.cancellation 2) true (Pilot.clock 2)) with
  | error refusal =>
      rw [hCancel] at hCheck
      cases hCheck
  | ok next =>
      rw [hCancel] at hCheck
      obtain ⟨hStatus, hNone⟩ := of_decide_eq_true hCheck
      refine ⟨now, store, next, hReaches, hLive, hCancel, ?_⟩
      rcases cancellation_round_trip hReaches hCancel with ⟨_, _, _, _, _, _, _, hCanceled, _⟩ | ⟨_, hReads⟩
      · rw [hStatus] at hCanceled
        cases hCanceled
      · rcases hReads next .refl with ⟨_, _, _, hRecorded⟩ | ⟨hRead, _⟩
        · have hRecorded := hRecorded.1
          rw [hNone] at hRecorded
          cases hRecorded
        · exact hRead (Pilot.clock 9)

end QsAi
