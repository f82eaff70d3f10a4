import QsAi.Evaluation.ProviderFailures
import QsAi.Run.SerialCompletion

/-! Expiry and the durable response of a serial call. The response of a call is
stored in a transaction of its own before the Run takes it over, and the lease
can expire between the two. The planned recovery looks for that response under
its lock; the direct one never does. -/
namespace QsAi

open Guarded Keyed

/-- Checkpoints are equal when they name the same call at the same instants. -/
def ExecutionCheckpoint.Equals (a b : ExecutionCheckpoint) : Prop :=
  { a.toCheckpointFields with
    claimedAt := b.claimedAt, leaseExpiresAt := b.leaseExpiresAt, dispatchStartedAt := b.dispatchStartedAt } =
      b.toCheckpointFields ∧
    a.claimedAt.same b.claimedAt ∧ a.leaseExpiresAt.same b.leaseExpiresAt ∧
    a.dispatchStartedAt.isSome = b.dispatchStartedAt.isSome ∧
    ∀ started ∈ a.dispatchStartedAt, ∀ other ∈ b.dispatchStartedAt, started.same other

instance (a b : ExecutionCheckpoint) : Decidable (a.Equals b) :=
  inferInstanceAs (Decidable (_ ∧ _))

theorem ExecutionCheckpoint.Equals.identity {a b : ExecutionCheckpoint} (h : a.Equals b) :
    a.invocationId = b.invocationId ∧ a.executionId = b.executionId ∧ a.phase = b.phase := by
  have hFields := h.1
  refine ⟨?_, ?_, ?_⟩ <;> rw [← hFields]

/-- The dispatch that a serial response answers. -/
structure SerialResponseReference where
  version : Nat
  checkpoint : ExecutionCheckpoint
  identified : (0 < version ∧ version < 2 ^ 63) ∧ checkpoint.phase = .dispatching
deriving DecidableEq

def SerialResponseReference.make (version : Nat) (checkpoint : ExecutionCheckpoint) :
    Except Rejection SerialResponseReference :=
  if h : (0 < version ∧ version < 2 ^ 63) ∧ checkpoint.phase = .dispatching then pure ⟨version, checkpoint, h⟩
  else throw (.invalid "Exact original serial dispatch reference required")

/-- What the call returned: a response, or the failure of the call itself. -/
structure EvaluationResponse where
  response : Option ModelResponse
  failure : Option ClassifiedFailure
  finishedAt : DateTime
  exclusive : response.isNone ≠ failure.isNone

/-- How results are written: their text, and the bytes they take with their
reference. -/
structure ResponseCodec where
  encode : EvaluationResponse → String
  size : SerialResponseReference → EvaluationResponse → Nat

structure ResponseReceipt where
  invocationId : String
  executionId : String
  claimVersion : Nat
  reference : SerialResponseReference
  result : EvaluationResponse

/-- A Run with the receipts of its responses. -/
structure SerialRun where
  run : Store
  receipts : List ResponseReceipt

/-! The receipt. -/

namespace SerialRun

variable (codec : ResponseCodec) (state : SerialRun)

/-- What can be written about the dispatch at all. -/
def encodable (reference : SerialResponseReference) (result : EvaluationResponse) : Except Rejection Unit := do
  require (reference.checkpoint.dispatchStartedAt ≠ none ∧
      (∀ started ∈ reference.checkpoint.dispatchStartedAt, started ≤ result.finishedAt) ∧
      ∀ response ∈ result.response, response.invocationId = reference.checkpoint.invocationId)
    (.invalid "Original serial response differs from dispatch")
  require (codec.size reference result ≤ 4 * 1024 * 1024)
    (.invalid "Original serial response exceeds the explicit evidence bound")

def readSerialResponse (reference : SerialResponseReference) : Except Rejection (Option EvaluationResponse) :=
  match lookup (·.invocationId) state.receipts reference.checkpoint.invocationId with
  | none => pure none
  | some row => do
      require ((row.executionId, row.claimVersion) = (reference.checkpoint.executionId, reference.version))
        (.conflict "Serial response ownership differs")
      require (row.reference = reference) (.invalid "Invalid original serial response evidence")
      pure (some row.result)

/-- Store the response of the dispatched call; the Run itself does not move. -/
def saveSerialResponse (reference : SerialResponseReference) (result : EvaluationResponse) :
    Except Rejection SerialRun := do
  encodable codec reference result
  require (state.run.creation.mode = .serialV1) (.conflict "Original serial Run in organization required")
  match ← state.readSerialResponse reference with
  | some existing => do
      require (codec.encode existing = codec.encode result) (.conflict "Immutable serial response already recorded")
      pure state
  | none => do
      let cp ← demand state.run.checkpoint (.conflict "Original dispatched serial checkpoint required")
      require (cp.Equals reference.checkpoint) (.conflict "Original dispatched serial checkpoint required")
      -- a request to cancel moves the version under the call, and nothing else may
      require (state.run.version = reference.version ∨ ∃ intent ∈ state.run.progress.cancelRequested,
          intent.sourceVersion = reference.version ∧ intent.version = state.run.version)
        (.conflict "Original serial response version changed")
      let entry ← demand (lookup (·.invocationId) state.run.dispatches reference.checkpoint.invocationId)
        (.conflict "Exact original serial dispatch ledger required")
      require (entry.checkpoint.Equals reference.checkpoint)
        (.conflict "Exact original serial dispatch ledger required")
      pure { state with
        receipts := state.receipts ++
          [⟨reference.checkpoint.invocationId, reference.checkpoint.executionId, reference.version, reference, result⟩] }

end SerialRun

/-! The expiry. -/

/-- The expired ownership that an operator wants recovered. -/
structure ExpiredRecoveryRequest where
  version : Nat
  invocationId : String
  observedExpiry : DateTime
  bounded : (0 < version ∧ version < 2 ^ 63 - 1) ∧ validId invocationId = true
deriving DecidableEq

def ExpiredRecoveryRequest.make (version : Nat) (invocationId : String) (observedExpiry : DateTime) :
    Except Rejection ExpiredRecoveryRequest :=
  if h : (0 < version ∧ version < 2 ^ 63 - 1) ∧ validId invocationId = true then
    pure ⟨version, invocationId, observedExpiry, h⟩
  else throw (.invalid "Exact bounded original expired serial identity required")

/-- What a recovery is planned from, and the progress it would store. -/
structure ExpiredRecoveryProjection where
  version : Nat
  checkpoint : ExecutionCheckpoint
  source : Progress
  progress : Progress
deriving DecidableEq

/-- The frozen plan of a recovery: its request, its actor and time, and the
digest of what it was planned from. -/
structure ExpiredRecoveryFacts (δ : Type) where
  request : ExpiredRecoveryRequest
  actor : String
  time : DateTime
  digest : δ
  expired : request.observedExpiry ≤ time

/-- The audit event of a recovery, after everything else that it stores. -/
def recoveryProgress (progress : Progress) (cp : ExecutionCheckpoint) (expectedVersion : Nat)
    (observedExpiry time : DateTime) (actor : String) : Progress :=
  { progress with
    recoveries := progress.recoveries ++
      [⟨actor, cp.phase, cp.invocationId, cp.executionId, cp.owner, observedExpiry, time, expectedVersion,
        expectedVersion + 1⟩] }

namespace Store

variable (store : Store)

def readExpiredRecoverySource (expectedVersion : Nat) (invocationId : String) (observedExpiry time : DateTime)
    (actor : String) : Except Rejection ExecutionCheckpoint := do
  require (validId actor = true) (.invalid "Recovery actor required")
  require (store.version = expectedVersion) (.conflict "Recovery version changed")
  let cp ← demand store.checkpoint (.conflict "Exact expired checkpoint required")
  require (cp.invocationId = invocationId ∧ cp.leaseExpiresAt.same observedExpiry ∧ observedExpiry ≤ time)
    (.conflict "Exact expired checkpoint required")
  require (store.progress.status = .collecting) (.conflict "Collecting Run in organization required")
  pure cp

/-- The progress after a judge call whose row is not inserted yet. -/
def projectUninsertedSemantic (completion : SemanticCompletion) (accepted : SemanticAcceptance) (owner : String)
    (progress : Progress) : Except Rejection Progress :=
  if accepted.result = none ∨ progress.cancelRequested ≠ none then pure progress
  else do
    require ((store.generations.filter (·.executionId = accepted.generated.executionId)).length = 1 ∧
        completion.executionId ∉ store.semantics.map (·.executionId))
      (.conflict "Exact unprojected semantic source required")
    let inserted := store.updateCandidate accepted.generated.executionId accepted.candidate
    { inserted with semantics := store.semantics ++ [semanticTerminalValues completion accepted] }.projectSemanticProgress
      completion accepted owner progress

/-- The progress of a Run whose expired call is recorded as interrupted. -/
def interruptedProgress (cp : ExecutionCheckpoint) (time : DateTime) : Except Rejection Progress :=
  match cp.kind with
  | .generation => do
      let completion ← interruptedGeneration cp time
      store.readGenerationAcceptance cp cp.owner completion
      pure (generationCompletionProgress store.progress completion store.creation.policy cp.owner false)
  | .semantic => do
      let fingerprint ← store.candidateFingerprint cp.candidateId
      let completion ← interruptedSemantic cp time fingerprint
      let accepted ← store.readSemanticAcceptance cp cp.owner completion
      store.projectUninsertedSemantic completion accepted cp.owner
        (semanticCompletionProgress store.progress completion store.creation.policy cp.owner false)

end Store

namespace SerialRun

variable (state : SerialRun)

/-- What the recovery would store, computed without storing anything. -/
def projectExpiredRecovery (request : ExpiredRecoveryRequest) (actor : String) (time : DateTime) :
    Except Rejection ExpiredRecoveryProjection := do
  let cp ← state.run.readExpiredRecoverySource request.version request.invocationId request.observedExpiry time actor
  require (state.run.creation.mode = .serialV1)
    (.conflict "Expired serial recovery cannot impersonate candidate ownership")
  let progress ← match cp.phase with
    | .prepared => do
        require (cp.executionId ∉ state.run.dispatches.map (·.executionId))
          (.invalid "Prepared checkpoint has dispatch evidence")
        pure state.run.progress
    | .dispatching => do
        require (cp.invocationId ∉ state.receipts.map (·.invocationId))
          (.conflict "Original durable response requires finalization")
        state.run.interruptedProgress cp time
  pure ⟨request.version, cp, state.run.progress,
    recoveryProgress progress cp request.version request.observedExpiry time actor⟩

variable {δ : Type} [DecidableEq δ] (digest : ExpiredRecoveryProjection → δ)

/-- Freeze a recovery for a later transaction. -/
def planExpiredRecovery (request : ExpiredRecoveryRequest) (actor : String) (time : DateTime) :
    Except Rejection (ExpiredRecoveryFacts δ) := do
  let projection ← state.projectExpiredRecovery request actor time
  if h : request.observedExpiry ≤ time then pure ⟨request, actor, time, digest projection, h⟩
  else throw (.invalid "Invalid frozen original expiry facts")

/-- Recover under the frozen plan, if the Run is still what was planned from. -/
def applyExpiredRecovery (facts : ExpiredRecoveryFacts δ) : Except Rejection SerialRun := do
  let current ← state.projectExpiredRecovery facts.request facts.actor facts.time
  require (digest current = facts.digest) (.conflict "Original expired recovery source differs from frozen plan")
  let run ← state.run.recoverExpired facts.request.version facts.request.invocationId facts.request.observedExpiry
    facts.time facts.actor
  pure { state with run }

end SerialRun

/-! Transactions on a serial Run. -/

/-- The operations that settle the serial checkpoint have their own commands. -/
def Operation.SettlesSerial : Operation → Prop
  | .completeSerialGeneration .. | .completeSerialSemantic .. | .recoverExpired .. => True
  | _ => False

instance : (op : Operation) → Decidable op.SettlesSerial
  | .completeSerialGeneration .. | .completeSerialSemantic .. | .recoverExpired .. => inferInstanceAs (Decidable True)
  | .transitionRequested .. | .completePreflight .. | .acceptResolution .. | .authorizeContractRecovery ..
  | .cancel .. | .finishCancellation .. | .acceptReviews .. | .correctReview .. | .finalize .. | .reopen ..
  | .prepareCandidate .. | .dispatchClaim .. | .claimAndDispatch .. | .renewClaim .. | .completeClaimedGeneration ..
  | .completeClaimedSemantic .. | .expireCandidate .. | .prepareExecution .. | .reserveDispatch .. =>
      inferInstanceAs (Decidable False)

/-- What the gateway gave back to the worker. -/
inductive CallOutcome
  | answered (response : ModelResponse)
  | failed (error : ProviderFailure)

/-- The report of a worker about its call. -/
structure WorkerReport where
  interpreter : Interpreter
  step : PreparedStep
  outcome : CallOutcome
  now : DateTime
  candidateId : Option String
  fresh : String
  assertions : List AssertionReceipt

def WorkerReport.completion (report : WorkerReport) : Except Raised StepCompletion :=
  match report.outcome with
  | .answered response =>
      report.step.prepareStepCompletion report.interpreter (some response) none report.now report.candidateId
        report.fresh
  | .failed error => do
      let failure ← raising (classifyProviderFailure report.step.cp.kind report.step.cp.executionId error)
      report.step.prepareStepCompletion report.interpreter none (some failure) report.now report.candidateId
        report.fresh

inductive SerialCommand (δ : Type)
  | saveResponse (reference : SerialResponseReference) (result : EvaluationResponse)
  | finish (report : WorkerReport) (expectedVersion : Nat) (owner : String)
  | recoverExpired (request : ExpiredRecoveryRequest) (actor : String) (time : DateTime)
  | applyExpiredRecovery (facts : ExpiredRecoveryFacts δ)
  | perform (op : Operation) (hOther : ¬ op.SettlesSerial)

namespace SerialRun

variable {δ : Type} [DecidableEq δ] (codec : ResponseCodec) (digest : ExpiredRecoveryProjection → δ)
  (state : SerialRun)

/-- Accept what the worker reports about its call. -/
def finish (report : WorkerReport) (expectedVersion : Nat) (owner : String) : Except Raised SerialRun := do
  let result ← report.completion
  match result.completion with
  | .generation completion => do
      let run ← raising (state.run.completeSerialGeneration expectedVersion owner completion result.candidateId
        report.assertions)
      pure { state with run }
  | .semantic completion => do
      let run ← raising (state.run.completeSerialSemantic expectedVersion owner completion)
      pure { state with run }

/-- One transaction. -/
def execute : SerialCommand δ → Except Raised SerialRun
  | .saveResponse reference result => raising (state.saveSerialResponse codec reference result)
  | .finish report expectedVersion owner => state.finish report expectedVersion owner
  | .recoverExpired request actor time => do
      let run ← raising (state.run.recoverExpired request.version request.invocationId request.observedExpiry time
        actor)
      pure { state with run }
  | .applyExpiredRecovery facts => raising (state.applyExpiredRecovery digest facts)
  | .perform op _ => do
      let run ← raising (state.run.perform op)
      pure { state with run }

end SerialRun

/-- A direct recovery meets no stored response of its call. -/
def SerialCommand.Respects {δ : Type} (state : SerialRun) : SerialCommand δ → Prop
  | .recoverExpired request _ _ => request.invocationId ∉ state.receipts.map (·.invocationId)
  | _ => True

/-- Accepted transactions of one sort, one after the other. -/
inductive SerialContinues {δ : Type} [DecidableEq δ] (codec : ResponseCodec) (digest : ExpiredRecoveryProjection → δ)
    (allowed : SerialRun → SerialCommand δ → Prop) (state : SerialRun) : SerialRun → Prop
  | refl : SerialContinues codec digest allowed state state
  | step {middle next : SerialRun} {command : SerialCommand δ}
      (hFirst : SerialContinues codec digest allowed state middle) (hAllowed : allowed middle command)
      (hCommand : middle.execute codec digest command = .ok next) : SerialContinues codec digest allowed state next

/-! Interrupted calls. -/

/-- The completion is the one that an expiry records for the call. -/
def Completion.ExecutionInterrupted (completion : Completion) : Prop :=
  ∃ failure ∈ completion.failure,
    interruptedFailure completion.kind.stage completion.executionId completion.invocationId = .ok failure

instance (completion : Completion) : Decidable completion.ExecutionInterrupted :=
  inferInstanceAs (Decidable (∃ failure ∈ completion.failure, _))

/-- No worker reports its own call as interrupted. -/
theorem WorkerReport.not_interrupted {report : WorkerReport} {result : StepCompletion}
    (h : report.completion = .ok result) : ¬ result.completion.ExecutionInterrupted := by
  have hRefs : ∀ value ∈ result.completion.failure, value.evidenceRefs = [result.completion.executionId] := by
    unfold completion at h
    split at h
    · exact PreparedStep.prepareStepCompletion_refs (fun value hValue => by simp at hValue) h
    · simp only [bind_ok, raising_ok] at h
      obtain ⟨failure, hClassified, hPrepared⟩ := h
      refine PreparedStep.prepareStepCompletion_refs (fun value hValue => ?_) hPrepared
      cases hValue
      exact classifyProviderFailure_refs hClassified
  rintro ⟨failure, hFailure, hInterrupted⟩
  have hNamed := hRefs failure hFailure
  simp only [interruptedFailure, ClassifiedFailure.make, certify_ok] at hInterrupted
  obtain ⟨_, rfl⟩ := hInterrupted
  simp at hNamed

namespace Store

variable {store next : Store}

/-- Evidence that appears in a change is what the change ended with. -/
theorem Change.recordedEvent {event : Event} (hChange : store.Change event next) {completion : Completion}
    (hMem : completion ∈ next.book.completions) :
    completion ∈ store.book.completions ∨ event = completion.event := by
  cases hChange with
  | prepare _ hKeeps => exact .inl (hKeeps.completions ▸ hMem)
  | dispatch _ _ _ _ _ _ _ hKeeps => exact .inl (hKeeps.completions ▸ hMem)
  | renew _ hKeeps => exact .inl (hKeeps.completions ▸ hMem)
  | release _ _ hKeeps => exact .inl (hKeeps.completions ▸ hMem)
  | drain hEnded =>
      rcases hEnded.completed.mem_completions.mp hMem with rfl | hOld
      · exact .inr rfl
      · exact .inl hOld
  | settle _ _ hEnded =>
      rcases hEnded.completed.mem_completions.mp hMem with rfl | hOld
      · exact .inr rfl
      · exact .inl hOld
  | recover hRecovers =>
      rw [hRecovers.next] at hMem
      exact .inl hMem
  | requestCancel hRequests =>
      rw [hRequests.next] at hMem
      exact .inl hMem
  | endCanceled _ hEnds =>
      rw [hEnds.next] at hMem
      exact .inl hMem
  | review hReviews =>
      rw [hReviews.reviewed.next] at hMem
      exact .inl hMem
  | _ => exact .inl hMem

theorem Changes.recordedEvents {events : List Event} (hChanges : Changes store events next) {completion : Completion}
    (hMem : completion ∈ next.book.completions) :
    completion ∈ store.book.completions ∨ completion.event ∈ events := by
  induction hChanges with
  | nil => exact .inl hMem
  | cons hChange _ ih =>
      rcases ih hMem with hMiddle | hEvent
      · rcases hChange.recordedEvent hMiddle with hOld | hFirst
        · exact .inl hOld
        · exact .inr (hFirst ▸ List.mem_cons_self)
      · exact .inr (List.mem_cons_of_mem _ hEvent)

theorem lockRun_serial (hMode : store.creation.mode = .serialV1) {version : Nat} : store.lockRun ≠ .ok version := by
  intro hLock
  have hCandidate := (lockRun_ok hLock).1
  rw [hMode] at hCandidate
  cases hCandidate

/-- In a serial Run only the operations that settle its checkpoint record
evidence. -/
theorem perform_unrecorded (h : store.Coherent) (hMode : store.creation.mode = .serialV1) {op : Operation}
    (hOther : ¬ op.SettlesSerial) (hOp : store.perform op = .ok next) {completion : Completion}
    (hMem : completion ∈ next.book.completions) : completion ∈ store.book.completions := by
  have hRecorded := (perform_changes h hOp).recordedEvents hMem
  cases op with
  | completeClaimedGeneration claim owner value candidateId assertions =>
      simp only [perform, completeClaimedGeneration, completionOwner, bind_ok] at hOp
      obtain ⟨_, _, _, ⟨_, hLock, _⟩, _⟩ := hOp
      exact absurd hLock (lockRun_serial hMode)
  | completeClaimedSemantic claim owner value =>
      simp only [perform, completeClaimedSemantic, completionOwner, bind_ok] at hOp
      obtain ⟨_, ⟨_, hLock, _⟩, _⟩ := hOp
      exact absurd hLock (lockRun_serial hMode)
  | expireCandidate claim time =>
      simp only [perform, expireCandidate, bind_ok] at hOp
      obtain ⟨_, hLock, _⟩ := hOp
      exact absurd hLock (lockRun_serial hMode)
  | completeSerialGeneration expectedVersion owner value candidateId assertions => exact absurd trivial hOther
  | completeSerialSemantic expectedVersion owner value => exact absurd trivial hOther
  | recoverExpired expectedVersion invocationId observedExpiry time actor => exact absurd trivial hOther
  | _ => simpa [Operation.events, Completion.event] using hRecorded

theorem readExpiredRecoverySource_ok {expectedVersion : Nat} {invocationId : String} {observedExpiry time : DateTime}
    {actor : String} {cp : ExecutionCheckpoint} :
    store.readExpiredRecoverySource expectedVersion invocationId observedExpiry time actor = .ok cp ↔
      validId actor = true ∧ store.version = expectedVersion ∧ store.checkpoint = some cp ∧
      (cp.invocationId = invocationId ∧ cp.leaseExpiresAt.same observedExpiry ∧ observedExpiry ≤ time) ∧
      store.progress.status = .collecting := by
  simp only [readExpiredRecoverySource, bind_ok, require_ok, exists_const, demand_ok, pure_ok]
  constructor
  · rintro ⟨hActor, hVersion, _, hCp, hExact, hStatus, rfl⟩
    exact ⟨hActor, hVersion, hCp, hExact, hStatus⟩
  · rintro ⟨hActor, hVersion, hCp, hExact, hStatus⟩
    exact ⟨hActor, hVersion, cp, hCp, hExact, hStatus, rfl⟩

/-- A recovery reads its source first. -/
theorem recoverExpired_source {expectedVersion : Nat} {invocationId : String} {observedExpiry time : DateTime}
    {actor : String} (hOk : store.recoverExpired expectedVersion invocationId observedExpiry time actor = .ok next) :
    ∃ cp, store.readExpiredRecoverySource expectedVersion invocationId observedExpiry time actor = .ok cp := by
  simp only [recoverExpired, bind_ok, require_ok, exists_const, demand_ok] at hOk
  obtain ⟨hActor, hVersion, cp, hCp, hExact, hStatus, _⟩ := hOk
  exact ⟨cp, readExpiredRecoverySource_ok.mpr ⟨hActor, hVersion, hCp, hExact, hStatus⟩⟩

/-- A recovery records nothing, or the interruption of the call it settles. -/
theorem recoverExpired_recorded (h : store.Valid) {expectedVersion : Nat} {invocationId : String}
    {observedExpiry time : DateTime} {actor : String}
    (hOk : store.recoverExpired expectedVersion invocationId observedExpiry time actor = .ok next)
    {completion : Completion} (hMem : completion ∈ next.book.completions) :
    completion ∈ store.book.completions ∨
      ∃ cp, store.checkpoint = some cp ∧ cp.phase = .dispatching ∧ completion.invocationId = cp.invocationId := by
  obtain ⟨cp, settled, event, hSettles, rfl, hCases⟩ := recoverExpired_ok h hOk
  have hSettled : completion ∈ settled.book.completions := hMem
  rcases hCases with ⟨_, rfl⟩ | ⟨ending, _, hEnded, _⟩ | ⟨ending, _, hEnded, _⟩
  · exact .inl hMem
  · rcases hEnded.completed.mem_completions.mp hSettled with rfl | hOld
    · exact .inr ⟨cp, hSettles.checkpoint, hEnded.completed.ends.phase, hEnded.completed.ends.invocationId⟩
    · exact .inl hOld
  · rcases hEnded.completed.mem_completions.mp hSettled with rfl | hOld
    · exact .inr ⟨cp, hSettles.checkpoint, hEnded.completed.ends.phase, hEnded.completed.ends.invocationId⟩
    · exact .inl hOld

/-- The progress that is projected for an interrupted call is the one that its
completion stores. -/
theorem interruptedProgress_generation (h : store.Valid) {cp : ExecutionCheckpoint} {time : DateTime}
    (hKind : cp.kind = .generation) {projected : Progress} (hProject : store.interruptedProgress cp time = .ok projected)
    {completion : GenerationCompletion} (hCompletion : interruptedGeneration cp time = .ok completion)
    {expectedVersion : Nat}
    (hOk : store.completeSerialGeneration expectedVersion cp.owner completion "" [] = .ok next) :
    next.progress = projected := by
  simp only [interruptedProgress, hKind, hCompletion, ok_bind, bind_ok, pure_ok] at hProject
  obtain ⟨_, _, rfl⟩ := hProject
  obtain ⟨_, _, _, _, hProgress⟩ := completeSerialGeneration_ok h hOk
  exact hProgress

theorem interruptedProgress_semantic (h : store.Valid) {cp : ExecutionCheckpoint} {time : DateTime}
    (hKind : cp.kind = .semantic) {projected : Progress} (hProject : store.interruptedProgress cp time = .ok projected)
    {fingerprint : String} (hFingerprint : store.candidateFingerprint cp.candidateId = .ok fingerprint)
    {completion : SemanticCompletion} (hCompletion : interruptedSemantic cp time fingerprint = .ok completion)
    {expectedVersion : Nat} (hOk : store.completeSerialSemantic expectedVersion cp.owner completion = .ok next) :
    next.progress = projected := by
  simp only [interruptedProgress, hKind, hFingerprint, hCompletion, ok_bind, bind_ok] at hProject
  obtain ⟨accepted, hAccepted, hProject⟩ := hProject
  -- an interrupted judge call has no result, so nothing is projected over its row
  have hUnknown : completion.status = .resultUnknown := (interruptedSemantic_ok hCompletion).unknown
  have hStatus : completion.status ≠ .succeeded := by
    rw [hUnknown]
    decide
  obtain ⟨_, _, _, _, _, _, _, _, hResult, _⟩ := readSemanticAcceptance_ok h hAccepted
  have hNone : accepted.result = none := Option.not_isSome_iff_eq_none.mp fun hSome => hStatus (hResult.mp hSome)
  rw [projectUninsertedSemantic, if_pos (.inl hNone), pure_ok] at hProject
  obtain ⟨_, _, _, _, stored, hStored, hProgress⟩ := completeSerialSemantic_ok h hOk
  rw [projectSemanticProgress, if_pos (.inl (hStored.mpr hStatus)), pure_ok] at hProgress
  exact hProgress.symm.trans hProject

end Store

/-! What every run of a serial Run keeps. -/

namespace SerialRun

variable {state next : SerialRun}

/-- No call has both a stored response and an interruption. -/
structure Sound (state : SerialRun) : Prop where
  coherent : state.run.Coherent
  serial : state.run.creation.mode = .serialV1
  separated : ∀ receipt ∈ state.receipts, ∀ completion ∈ state.run.book.completions,
    completion.invocationId = receipt.invocationId → ¬ completion.ExecutionInterrupted

/-- Evidence is only added. -/
structure Extends (state next : SerialRun) : Prop where
  receipts : ∀ receipt ∈ state.receipts, receipt ∈ next.receipts
  completions : ∀ completion ∈ state.run.book.completions, completion ∈ next.run.book.completions

/-- An operation keeps the Run sound when what it records is not an interruption
of an answered call. -/
theorem Sound.perform (h : state.Sound) {op : Operation} {run : Store} (hOp : state.run.perform op = .ok run)
    (hRecorded : ∀ completion ∈ run.book.completions, completion ∈ state.run.book.completions ∨
      completion.invocationId ∉ state.receipts.map (·.invocationId) ∨ ¬ completion.ExecutionInterrupted) :
    Sound { state with run } ∧ state.Extends { state with run } := by
  have hChanges := Store.perform_changes h.coherent hOp
  obtain ⟨hCoherent, hCreation⟩ := hChanges.coherent h.coherent
  refine ⟨⟨hCoherent, by rw [← h.serial, ← hCreation], ?_⟩, fun _ hMem => hMem, fun _ hMem => hChanges.completions hMem⟩
  intro receipt hReceipt completion hMem hSame
  rcases hRecorded completion hMem with hOld | hNew | hReported
  · exact h.separated receipt hReceipt completion hOld hSame
  · exact absurd (hSame ▸ List.mem_map_of_mem hReceipt) hNew
  · exact hReported

theorem Sound.recoverExpired (h : state.Sound) {expectedVersion : Nat} {invocationId : String}
    {observedExpiry time : DateTime} {actor : String} {run : Store}
    (hOk : state.run.recoverExpired expectedVersion invocationId observedExpiry time actor = .ok run)
    (hUnanswered : ∀ cp, state.run.checkpoint = some cp → cp.phase = .dispatching →
      cp.invocationId ∉ state.receipts.map (·.invocationId)) :
    Sound { state with run } ∧ state.Extends { state with run } := by
  have hOp : state.run.perform (.recoverExpired expectedVersion invocationId observedExpiry time actor) = .ok run := hOk
  refine h.perform hOp fun completion hMem => ?_
  rcases Store.recoverExpired_recorded h.coherent.toValid hOk hMem with hOld | ⟨cp, hCp, hPhase, hSame⟩
  · exact .inl hOld
  · exact .inr (.inl (hSame ▸ hUnanswered cp hCp hPhase))

theorem Sound.finish (h : state.Sound) {report : WorkerReport} {expectedVersion : Nat} {owner : String}
    (hOk : state.finish report expectedVersion owner = .ok next) : next.Sound ∧ state.Extends next := by
  simp only [SerialRun.finish, bind_ok] at hOk
  obtain ⟨result, hResult, hOk⟩ := hOk
  have hReported := WorkerReport.not_interrupted hResult
  split at hOk
  · rename_i completion hCompletion
    simp only [bind_ok, raising_ok, pure_ok] at hOk
    obtain ⟨run, hRun, rfl⟩ := hOk
    have hOp : state.run.perform (.completeSerialGeneration expectedVersion owner completion result.candidateId
      report.assertions) = .ok run := hRun
    obtain ⟨_, _, _, hEnded, _⟩ := Store.completeSerialGeneration_ok h.coherent.toValid hRun
    refine h.perform hOp fun other hMem => ?_
    rcases hEnded.completed.mem_completions.mp hMem with rfl | hOld
    · exact .inr (.inr (hCompletion ▸ hReported))
    · exact .inl hOld
  · rename_i completion hCompletion
    simp only [bind_ok, raising_ok, pure_ok] at hOk
    obtain ⟨run, hRun, rfl⟩ := hOk
    have hOp : state.run.perform (.completeSerialSemantic expectedVersion owner completion) = .ok run := hRun
    obtain ⟨_, _, _, hEnded, _⟩ := Store.completeSerialSemantic_ok h.coherent.toValid hRun
    refine h.perform hOp fun other hMem => ?_
    rcases hEnded.completed.mem_completions.mp hMem with rfl | hOld
    · exact .inr (.inr (hCompletion ▸ hReported))
    · exact .inl hOld

/-- A response is stored only for the call that is out, which has no outcome
yet. -/
theorem Sound.saveSerialResponse (h : state.Sound) {codec : ResponseCodec} {reference : SerialResponseReference}
    {result : EvaluationResponse} (hOk : state.saveSerialResponse codec reference result = .ok next) :
    next.Sound ∧ state.Extends next := by
  simp only [SerialRun.saveSerialResponse, bind_ok, require_ok, exists_const] at hOk
  obtain ⟨_, _, _, existing, _, hOk⟩ := hOk
  cases existing with
  | some existing =>
      simp only [bind_ok, require_ok, exists_const, pure_ok] at hOk
      obtain ⟨_, rfl⟩ := hOk
      exact ⟨h, fun _ hMem => hMem, fun _ hMem => hMem⟩
  | none =>
      simp only [bind_ok, require_ok, exists_const, demand_ok, pure_ok] at hOk
      obtain ⟨cp, hCp, hEquals, _, _, _, _, rfl⟩ := hOk
      obtain ⟨hInvocation, _, hPhase⟩ := hEquals.identity
      have hLive : cp ∈ state.run.live := List.mem_append_right _ (by simp [hCp])
      refine ⟨⟨h.coherent, h.serial, ?_⟩, fun _ hMem => List.mem_append_left _ hMem, fun _ hMem => hMem⟩
      intro receipt hReceipt completion hMem hSame
      rcases List.mem_append.mp hReceipt with hOld | hNew
      · exact h.separated receipt hOld completion hMem hSame
      · cases List.mem_singleton.mp hNew
        have hOut := h.coherent.toValid.unsettled hLive (hPhase.trans reference.identified.2) hMem
        exact absurd (hSame.trans hInvocation.symm) hOut.1

section Runs

variable {δ : Type} {codec : ResponseCodec} {digest : ExpiredRecoveryProjection → δ}

theorem planExpiredRecovery_ok {request : ExpiredRecoveryRequest} {actor : String} {time : DateTime}
    {facts : ExpiredRecoveryFacts δ} (hOk : state.planExpiredRecovery digest request actor time = .ok facts) :
    ∃ frozen, state.projectExpiredRecovery request actor time = .ok frozen ∧ facts.request = request ∧
      facts.actor = actor ∧ facts.time = time ∧ facts.digest = digest frozen := by
  simp only [planExpiredRecovery, bind_ok] at hOk
  obtain ⟨frozen, hProject, hOk⟩ := hOk
  split at hOk
  · rw [pure_ok] at hOk
    subst hOk
    exact ⟨frozen, hProject, rfl, rfl, rfl, rfl⟩
  · cases hOk

variable [DecidableEq δ]

/-- What an accepted plan stores is what the locked Run projects. -/
theorem applyExpiredRecovery_ok {facts : ExpiredRecoveryFacts δ} (h : state.run.Valid)
    (hOk : state.applyExpiredRecovery digest facts = .ok next) :
    ∃ current, state.projectExpiredRecovery facts.request facts.actor facts.time = .ok current ∧
      digest current = facts.digest ∧ next.run.progress = current.progress := by
  simp only [applyExpiredRecovery, bind_ok, require_ok, exists_const, pure_ok] at hOk
  obtain ⟨current, hProject, hDigest, run, hRecover, rfl⟩ := hOk
  refine ⟨current, hProject, hDigest, ?_⟩
  simp only [projectExpiredRecovery, bind_ok, require_ok, exists_const] at hProject
  obtain ⟨cp, hSource, _, hProject⟩ := hProject
  obtain ⟨_, _, hCp, _, _⟩ := Store.readExpiredRecoverySource_ok.mp hSource
  simp only [Store.recoverExpired, bind_ok, require_ok, exists_const, demand_ok, hCp, Option.some.injEq,
    exists_eq_left'] at hRecover
  obtain ⟨_, _, _, _, hRecover⟩ := hRecover
  cases hPhase : cp.phase with
  | prepared =>
      simp only [hPhase, bind_ok, require_ok, exists_const, pure_ok] at hProject hRecover
      obtain ⟨_, _, rfl, rfl⟩ := hProject
      obtain ⟨_, settled, hSave, rfl⟩ := hRecover
      obtain ⟨_, rfl⟩ := Store.saveCheckpoint_ok hSave
      simp only [recoveryProgress, hPhase]
  | dispatching =>
      simp only [hPhase, bind_ok, require_ok, exists_const, pure_ok] at hProject
      obtain ⟨_, projected, hInterrupted, rfl⟩ := hProject
      cases hKind : cp.kind with
      | generation =>
          simp only [hPhase, hKind, bind_ok, pure_ok] at hRecover
          obtain ⟨completion, hCompletion, settled, hComplete, rfl⟩ := hRecover
          have hSame := Store.interruptedProgress_generation h hKind hInterrupted hCompletion hComplete
          simp only [recoveryProgress, hPhase, hSame]
      | semantic =>
          simp only [hPhase, hKind, bind_ok, pure_ok] at hRecover
          obtain ⟨fingerprint, hFingerprint, completion, hCompletion, settled, hComplete, rfl⟩ := hRecover
          have hSame := Store.interruptedProgress_semantic h hKind hInterrupted hFingerprint hCompletion hComplete
          simp only [recoveryProgress, hPhase, hSame]

theorem Sound.execute (h : state.Sound) {command : SerialCommand δ} (hRespects : command.Respects state)
    (hOk : state.execute codec digest command = .ok next) : next.Sound ∧ state.Extends next := by
  cases command with
  | saveResponse reference result => exact h.saveSerialResponse (raising_ok.mp hOk)
  | finish report expectedVersion owner => exact h.finish hOk
  | recoverExpired request actor time =>
      simp only [SerialRun.execute, bind_ok, raising_ok, pure_ok] at hOk
      obtain ⟨run, hRun, rfl⟩ := hOk
      refine h.recoverExpired hRun fun cp hCp _ => ?_
      obtain ⟨other, hSource⟩ := Store.recoverExpired_source hRun
      obtain ⟨_, _, hOther, ⟨hInvocation, _⟩, _⟩ := Store.readExpiredRecoverySource_ok.mp hSource
      obtain rfl : other = cp := Option.some.inj (hOther.symm.trans hCp)
      exact hInvocation ▸ hRespects
  | applyExpiredRecovery facts =>
      simp only [SerialRun.execute, raising_ok, SerialRun.applyExpiredRecovery, bind_ok, require_ok, exists_const,
        pure_ok] at hOk
      obtain ⟨current, hProject, _, run, hRun, rfl⟩ := hOk
      refine h.recoverExpired hRun fun cp hCp hPhase => ?_
      simp only [projectExpiredRecovery, bind_ok] at hProject
      obtain ⟨other, hSource, _, hProject⟩ := hProject
      obtain ⟨_, _, hOther, _, _⟩ := Store.readExpiredRecoverySource_ok.mp hSource
      obtain rfl : other = cp := Option.some.inj (hOther.symm.trans hCp)
      simp only [hPhase, bind_ok, require_ok] at hProject
      obtain ⟨_, _, hUnanswered, _⟩ := hProject
      exact hUnanswered
  | perform op hOther =>
      simp only [SerialRun.execute, bind_ok, raising_ok, pure_ok] at hOk
      obtain ⟨run, hRun, rfl⟩ := hOk
      exact h.perform hRun fun completion hMem => .inl (Store.perform_unrecorded h.coherent h.serial hOther hRun hMem)

theorem Sound.continues {later : SerialRun} (h : state.Sound)
    (hLater : SerialContinues codec digest (fun middle command => command.Respects middle) state later) :
    later.Sound ∧ state.Extends later := by
  induction hLater with
  | refl => exact ⟨h, fun _ hMem => hMem, fun _ hMem => hMem⟩
  | step _ hRespects hOk ih =>
      obtain ⟨hNext, hExtends⟩ := ih.1.execute hRespects hOk
      exact ⟨hNext, fun receipt hMem => hExtends.receipts receipt (ih.2.receipts receipt hMem),
        fun completion hMem => hExtends.completions completion (ih.2.completions completion hMem)⟩

end Runs

end SerialRun

namespace Pilot

/-- The answer of the pilot's first call. -/
def answer : EvaluationResponse where
  response := some
    { invocationId := "e1:call"
      requestId := "request"
      model := "pilot"
      rawOutput := [0x7b, 0x7d]
      validationOutput := [0x7b, 0x7d]
      inputTokens := none
      outputTokens := none
      latencyMilliseconds := 1 }
  failure := none
  finishedAt := clock 3
  exclusive := by decide

def responseCodec : ResponseCodec := ⟨fun result => result.finishedAt.isoformat, fun _ _ => 512⟩

/-- Store the answer of the call that is out. -/
def answered (run : Store) : Except Raised SerialRun := do
  let cp ← raising (demand run.checkpoint (.invalid "No call"))
  let reference ← raising (SerialResponseReference.make run.version cp)
  SerialRun.execute responseCodec id ⟨run, []⟩ (.saveResponse reference answer)

/-- Recover the call, planned and applied in one go, or directly. -/
def recoveredAs (state : SerialRun) (planned : Bool) : Except Raised SerialRun := do
  let request ← raising (ExpiredRecoveryRequest.make state.run.version "e1:call" (clock 59))
  if planned then do
    let facts ← raising (state.planExpiredRecovery id request "operator" (clock 59))
    state.execute responseCodec id (.applyExpiredRecovery facts)
  else state.execute responseCodec id (.recoverExpired request "operator" (clock 59))

/-- The call of the pilot is out. -/
def called : List ScriptStep := start ++ [prepare 1 "e1", reserve 2]

end Pilot

/-- The stored answer is overwritten by a direct recovery; the planned one
refuses. -/
theorem stored_answer_overwritten : ∃ now run state next receipt completion,
    Reaches (fun _ _ _ => True) (Pilot.creation .serialV1) now run ∧
    SerialContinues Pilot.responseCodec id (fun _ _ => True) ⟨run, []⟩ state ∧ receipt ∈ state.receipts ∧
    (∃ request actor time, state.execute Pilot.responseCodec id (.recoverExpired request actor time) = .ok next) ∧
    completion ∈ next.run.book.completions ∧ completion ∉ state.run.book.completions ∧
    completion.invocationId = receipt.invocationId ∧ completion.ExecutionInterrupted := by
  obtain ⟨now, run, hReaches, hCheck⟩ := exists_reaches (fun _ _ _ => True) (Pilot.creation .serialV1) Pilot.called
    (fun run => (Pilot.answered run).toOption.any fun state => (Pilot.recoveredAs state false).toOption.any fun next =>
      state.receipts.any fun receipt => next.run.book.completions.any fun completion =>
        completion ∉ state.run.book.completions ∧ completion.invocationId = receipt.invocationId ∧
        completion.ExecutionInterrupted) (by decide)
  obtain ⟨state, hState, hCheck⟩ := Option.any_eq_true _ _ |>.mp hCheck
  obtain ⟨next, hNext, hCheck⟩ := Option.any_eq_true _ _ |>.mp hCheck
  obtain ⟨receipt, hReceipt, hCheck⟩ := List.any_eq_true.mp hCheck
  obtain ⟨completion, hCompletion, hCheck⟩ := List.any_eq_true.mp hCheck
  obtain ⟨hNew, hSame, hInterrupted⟩ := of_decide_eq_true hCheck
  rw [toOption_some] at hState hNext
  simp only [Pilot.answered, bind_ok] at hState
  obtain ⟨_, _, reference, _, hSaved⟩ := hState
  simp only [Pilot.recoveredAs, bind_ok, Bool.false_eq_true, if_false] at hNext
  obtain ⟨request, _, hRecovered⟩ := hNext
  exact ⟨now, run, state, next, receipt, completion, hReaches, .step .refl trivial hSaved, hReceipt,
    ⟨request, "operator", Pilot.clock 59, hRecovered⟩, hCompletion, hNew, hSame, hInterrupted⟩

/-- As long as no direct recovery meets a stored response, an answered call is
never recorded as interrupted and an interrupted call never gets a response; and
a planned recovery that commits stores the progress that it was planned with. -/
theorem serial_expiry_respects_responses {δ : Type} [DecidableEq δ] {codec : ResponseCodec}
    {digest : ExpiredRecoveryProjection → δ} {creation : Creation} {now : DateTime} {run : Store} {state : SerialRun}
    (hReaches : Reaches (fun _ _ _ => True) creation now run) (hSerial : creation.mode = .serialV1)
    (hRun : SerialContinues codec digest (fun middle command => command.Respects middle) ⟨run, []⟩ state) :
    (∀ later, SerialContinues codec digest (fun middle command => command.Respects middle) state later →
      (∀ receipt ∈ state.receipts, ∀ completion ∈ later.run.book.completions,
        completion.invocationId = receipt.invocationId → ¬ completion.ExecutionInterrupted) ∧
      ∀ completion ∈ state.run.book.completions, completion.ExecutionInterrupted →
        ∀ receipt ∈ later.receipts, receipt.invocationId ≠ completion.invocationId) ∧
    ∀ (planned : SerialRun) (request : ExpiredRecoveryRequest) (actor : String) (time : DateTime)
      (facts : ExpiredRecoveryFacts δ) (next : SerialRun),
      planned.planExpiredRecovery digest request actor time = .ok facts →
      state.execute codec digest (.applyExpiredRecovery facts) = .ok next →
      ∃ frozen current, planned.projectExpiredRecovery request actor time = .ok frozen ∧
        state.projectExpiredRecovery request actor time = .ok current ∧ next.run.progress = current.progress ∧
        digest current = digest frozen ∧ (next.run.progress = frozen.progress ∨ current ≠ frozen) := by
  obtain ⟨hCoherent, hCreation⟩ := hReaches.coherent
  have hStart : SerialRun.Sound ⟨run, []⟩ :=
    ⟨hCoherent, (congrArg Creation.mode hCreation).trans hSerial, fun receipt hMem => by cases hMem⟩
  have hState := (hStart.continues hRun).1
  refine ⟨fun later hLater => ?_, ?_⟩
  · obtain ⟨hSound, hExtends⟩ := hState.continues hLater
    refine ⟨fun receipt hReceipt => hSound.separated receipt (hExtends.receipts receipt hReceipt), ?_⟩
    intro completion hCompletion hInterrupted receipt hReceipt hSame
    exact hSound.separated receipt hReceipt completion (hExtends.completions completion hCompletion) hSame.symm
      hInterrupted
  · intro planned request actor time facts next hPlan hApply
    obtain ⟨frozen, hFrozen, rfl, rfl, rfl, hDigest⟩ := SerialRun.planExpiredRecovery_ok hPlan
    obtain ⟨current, hCurrent, hSame, hProgress⟩ :=
      SerialRun.applyExpiredRecovery_ok hState.coherent.toValid (raising_ok.mp hApply)
    refine ⟨frozen, current, hFrozen, hCurrent, hProgress, hSame.trans hDigest, ?_⟩
    by_cases hEq : current = frozen
    · exact .inl (hEq ▸ hProgress)
    · exact .inr hEq

/-- An answered call, and a call without an answer that is recovered as planned. -/
theorem serial_expiry_respects_responses_pilot : ∃ now run state receipt,
    Reaches (fun _ _ _ => True) (Pilot.creation .serialV1) now run ∧
    SerialContinues Pilot.responseCodec id (fun middle command => command.Respects middle) ⟨run, []⟩ state ∧
    receipt ∈ state.receipts ∧
    (∀ later, SerialContinues Pilot.responseCodec id (fun middle command => command.Respects middle) state later →
      ∀ completion ∈ later.run.book.completions, completion.invocationId = receipt.invocationId →
        ¬ completion.ExecutionInterrupted) ∧
    ∃ request facts next frozen,
      (SerialRun.mk run []).planExpiredRecovery id request "operator" (Pilot.clock 59) = .ok facts ∧
      (SerialRun.mk run []).execute Pilot.responseCodec id (.applyExpiredRecovery facts) = .ok next ∧
      (SerialRun.mk run []).projectExpiredRecovery request "operator" (Pilot.clock 59) = .ok frozen ∧
      next.run.progress = frozen.progress := by
  obtain ⟨now, run, hReaches, hCheck⟩ := exists_reaches (fun _ _ _ => True) (Pilot.creation .serialV1) Pilot.called
    (fun run => (Pilot.answered run).toOption.any (fun state => !state.receipts.isEmpty) &&
      (Pilot.recoveredAs ⟨run, []⟩ true).toOption.isSome) (by decide)
  obtain ⟨hAnswered, hRecovered⟩ := Bool.and_eq_true_iff.mp hCheck
  obtain ⟨state, hState, hCheck⟩ := Option.any_eq_true _ _ |>.mp hAnswered
  obtain ⟨next, hNext⟩ := Option.isSome_iff_exists.mp hRecovered
  rw [toOption_some] at hState hNext
  simp only [Pilot.answered, bind_ok] at hState
  obtain ⟨_, _, reference, _, hSaved⟩ := hState
  simp only [Pilot.recoveredAs, bind_ok, if_true, raising_ok] at hNext
  obtain ⟨request, _, facts, hPlan, hApply⟩ := hNext
  have hRespects : (SerialCommand.saveResponse (δ := ExpiredRecoveryProjection) reference Pilot.answer).Respects
    ⟨run, []⟩ := trivial
  have hRun : SerialContinues Pilot.responseCodec id (fun middle command => command.Respects middle) ⟨run, []⟩ state :=
    .step .refl hRespects hSaved
  obtain ⟨receipt, hReceipt⟩ := List.exists_mem_of_ne_nil state.receipts fun hNil => by simp [hNil] at hCheck
  obtain ⟨frozen, current, hFrozen, _, _, hSame, hProgress⟩ :=
    (serial_expiry_respects_responses hReaches rfl .refl).2 _ request "operator" (Pilot.clock 59) facts next hPlan hApply
  refine ⟨now, run, state, receipt, hReaches, hRun, hReceipt, fun later hLater => ?_, request, facts, next, frozen, hPlan,
    hApply, hFrozen, hProgress.resolve_right (not_not.mpr hSame)⟩
  exact ((serial_expiry_respects_responses hReaches rfl hRun).1 later hLater).1 receipt hReceipt

end QsAi
