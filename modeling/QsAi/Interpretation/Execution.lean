import QsAi.Interpretation.Service

/-! The execution of runs. A worker claims the due job of a session and holds the
session under a lease with a fence; what it does later is accepted only while the
session, the job and the lease are still those of its claim. -/
namespace QsAi

namespace Interpretation

open Keyed

structure Claim where
  jobId : String
  runId : String
  session : Session
  fence : Nat
  answer : Option String
  skipped : Bool
  questionId : Option String

inductive ClaimStatus
  | miss
  | deferred
  | exhausted
  | claimed
deriving DecidableEq

structure ClaimStage where
  status : ClaimStatus
  claim : Option Claim := none

structure ArtifactCandidate where
  id : String
  sessionId : String
  runId : String
  evidenceSetId : String
  evidenceFingerprint : String
  invocationId : String
  providerRequestId : String
  contentJson : String
  contentFingerprint : String
  inputFingerprint : String
  profileId : String
  profileVersion : String
  profileFingerprint : String
  promptFingerprint : String
  routeFingerprint : String
  outputValidatorVersion : String
  safetyValidatorVersion : String
  assessmentId : String
  reportId : String
  sourceVersion : String
  schemaVersion : String
  referenceMaterialJson : String := ""
  referenceMaterialFingerprint : String := ""
deriving DecidableEq

structure WorkflowResult where
  checkpointRef : String
  question : Option String := none
  canSkip : Bool := true
  failureCode : Option String := none
  artifact : Option ArtifactCandidate := none

/-- Functions of libraries on artifacts: the identity of the request in a stored
response, the digest of a text, the payload of a candidate with its size, and the
candidate that a published configuration makes of a stored call. -/
structure ArtifactLibrary where
  requestId : String → Option String
  sha256 : String → String
  payload : ArtifactCandidate → String
  payloadSize : ArtifactCandidate → Nat
  expected : Session → Claim → EvidenceSet → ModelCall → Except Refusal ArtifactCandidate

/-- The time after so many seconds, in microseconds. -/
def expiry (clock ttlSeconds : Nat) : Nat := clock + 1000000 * ttlSeconds

/-- A job is due when it waits and may start, or when its lease is over. -/
def eligible (clock : Nat) (job : Job) : Bool :=
  (job.status == .queued && decide (job.availableAt ≤ clock)) || (job.status == .leased && job.leaseUntil.any (· ≤ clock))

def leaseLost : Refusal := .fault "Execution lease no longer owns this session"

def unknownRow : Refusal := .fault "no result found"

/-! Slots of participants. -/

namespace Database

/-- A reservation before the first call, unless the day is full. -/
def reserveLate (resources : Resources) (session : Session) : Program Database Bool :=
  tryCatch (do reserveCapacity resources session; pure true) fun refusal =>
    match refusal with
    | .rule "participant_daily_capacity_exceeded" => pure false
    | other => throw other

/-- The reservation of the active run becomes active, if the limits leave room. -/
def activate (resources : Resources) (session : Session) : Program Database Bool := do
  let db ← get
  let policy ← lift (participantPolicy db session resources.capacity resources.quotaBaseline)
  let rows := db.reservations.filter fun row => row.organizationId == session.actor.orgId && row.active
  if fits rows session policy.1.activeOrg policy.1.activeUser policy.1.activeAssessment = true then do
    let reservations := db.reservations.map fun row =>
      if session.activeRunId = some row.runId then { row with active := true, acquiredAt := some resources.time } else row
    set { db with reservations }
    pure true
  else pure false

def acquireCapacity (resources : Resources) (session : Session) : Program Database Bool := do
  let db ← get
  match ← lift (prior db session) with
  | none => do
      let reserved ← reserveLate resources session
      if reserved = true then activate resources session else pure false
  | some row =>
      if row.active = true then pure true
      else if row.releasedAt ≠ none then throw (.rule "participant_slot_already_released")
      else activate resources session

/-- Only sessions on a snapshot need a slot. -/
def acquireSnapshot (resources : Resources) (session : Session) : Program Database Bool :=
  if session.usesQsSnapshot = true then acquireCapacity resources session else pure true

def releaseSnapshot (resources : Resources) (session : Session) : Program Database Unit :=
  if session.usesQsSnapshot = true then releaseCapacity resources.time session else pure ()

/-! Claims. -/

/-- A job that was started three times ends, and its session is blocked. -/
def exhaust (resources : Resources) (session : Session) (job : Job) : Program Database ClaimStage := do
  let session ← lift session.toRunning
  let session ← lift (session.block "attempts_exhausted")
  save resources.stateEventId session
  modify fun db => { db with
    jobs := db.jobs.map fun row => if row.id = job.id then { row with status := .dead } else row
    runs := db.runs.map fun row => if row.id = job.runId then { row with status := .blocked } else row
    leases := db.leases.map fun lease =>
      if lease.threadId = session.id then { lease with fence := lease.fence + 1, expiresAt := db.clock } else lease }
  releaseSnapshot resources session
  pure ⟨.exhausted, none⟩

/-- The lease of a session, which is over when it is new. -/
def leaseOf (sessionId : String) : Program Database Lease := do
  let db ← get
  match lookup (·.threadId) db.leases sessionId with
  | some lease => pure lease
  | none => do
      let lease : Lease := ⟨sessionId, 0, db.clock⟩
      set { db with leases := db.leases ++ [lease] }
      pure lease

/-- The job, its run, its session and the lease go to the worker. -/
def take (resources : Resources) (session : Session) (job : Job) (fence ttlSeconds : Nat) : Program Database ClaimStage := do
  let session ← lift session.toRunning
  save resources.stateEventId session
  modify fun db => { db with
    leases := db.leases.map fun lease =>
      if lease.threadId = session.id then { lease with fence, expiresAt := expiry db.clock ttlSeconds } else lease
    jobs := db.jobs.map fun row =>
      if row.id = job.id then
        { row with status := .leased, fenceToken := fence, leaseUntil := some (expiry db.clock ttlSeconds), attempt := job.attempt + 1 }
      else row
    runs := db.runs.map fun row =>
      if row.id = job.runId then { row with status := .running, sessionVersion := session.version } else row }
  pure ⟨.claimed, some ⟨job.id, job.runId, session, fence, job.answer, job.skipped, job.questionId⟩⟩

/-- A job without a slot waits for another second. -/
def defer (job : Job) : Program Database ClaimStage := do
  modify fun db => { db with jobs := db.jobs.map fun row =>
    if row.id = job.id then { row with availableAt := expiry db.clock 1 } else row }
  pure ⟨.deferred, none⟩

def claimJob (resources : Resources) (session : Session) (job : Job) (ttlSeconds : Nat) : Program Database ClaimStage := do
  let lease ← leaseOf session.id
  let db ← get
  if lease.expiresAt ≤ db.clock then do
    let acquired ← acquireSnapshot resources session
    if acquired = true then take resources session job (lease.fence + 1) ttlSeconds else defer job
  else pure ⟨.miss, none⟩

/-- The due job of a session, if it is the one of its active run. -/
def dueJob (db : Database) (session : Session) (jobId : String) : Option Job :=
  (db.jobs.find? fun job => job.id == jobId && eligible db.clock job).filter fun job =>
    decide (session.activeRunId = some job.runId ∧ (session.status = .queued ∨ session.status = .running))

/-- The transaction of a claim: one candidate of the scan. -/
def claimIn (resources : Resources) (jobId sessionId : String) (ttlSeconds : Nat) : Program Database ClaimStage := do
  refuseUnless (3 ≤ ttlSeconds) .invalid
  let db ← get
  match db.row sessionId with
  | none => pure ⟨.miss, none⟩
  | some row =>
      match dueJob db row.session jobId with
      | none => pure ⟨.miss, none⟩
      | some job => if 3 ≤ job.attempt then exhaust resources row.session job else claimJob resources row.session job ttlSeconds

/-! The operations of a worker. -/

/-- The session of a claim that still owns it. -/
def readClaim (claim : Claim) : Program Database Session := do
  let session ← session claim.session.id
  let db ← get
  let job ← demand (lookup (·.id) db.jobs claim.jobId) unknownRow
  let lease ← demand (lookup (·.threadId) db.leases session.id) unknownRow
  refuseUnless (session.status = .running ∧ session.activeRunId = some claim.runId ∧ session.version = claim.session.version ∧
    job.status = .leased ∧ job.fenceToken = claim.fence ∧ lease.fence = claim.fence ∧ db.clock < lease.expiresAt) leaseLost
  pure session

/-- The lease is not over when the transaction commits. -/
def checkActive (claim : Claim) (commitAt : Nat) : Program Database Unit := do
  let db ← get
  refuseUnless (∃ lease ∈ db.leases, lease.threadId = claim.session.id ∧ lease.fence = claim.fence ∧ commitAt < lease.expiresAt)
    leaseLost

def renew (claim : Claim) (ttlSeconds : Nat) : Program Database Unit := do
  refuseUnless (3 ≤ ttlSeconds) .invalid
  let _ ← readClaim claim
  modify fun db => { db with
    leases := db.leases.map fun lease =>
      if lease.threadId = claim.session.id then { lease with expiresAt := expiry db.clock ttlSeconds } else lease
    jobs := db.jobs.map fun row =>
      if row.id = claim.jobId then { row with leaseUntil := some (expiry db.clock ttlSeconds) } else row }

def evidenceOf (db : Database) (sessionId : String) : Option EvidenceSet := lookup (·.sessionId) db.evidence sessionId

/-- The request that a retried run has to send again. -/
def originalRequest (db : Database) (claim : Claim) (session : Session) : Option String :=
  (db.retries.find? fun row => row.runId == claim.runId && row.sessionId == session.id &&
    row.organizationId == organizationNumber session.actor.orgId).bind (·.frozenRequestJson)

/-- The accepted configuration of a published snapshot allows the request. -/
def checkGeneration (db : Database) (session : Session) (requestJson : String) : Except Refusal Unit :=
  if session.usesPublishedSnapshot = true ∧ db.validGeneration session (evidenceOf db session.id) requestJson = false then
    .error (.fault "configuration_invalid")
  else .ok ⟨⟩

/-- The marker of a call, and whether it is new. Only its creator may send. -/
def beginModelCall (claim : Claim) (requestJson invocationId : String) (commitAt : Nat) : Program Database (ModelCall × Bool) := do
  let session ← readClaim claim
  let db ← get
  match callOf db claim.runId with
  | some call => do
      lift (checkGeneration db session call.requestJson)
      pure (call, false)
  | none => do
      let request := (originalRequest db claim session).getD requestJson
      lift (checkGeneration db session request)
      refuseUnless (∀ other ∈ db.calls, other.invocationId ≠ invocationId) (.fault "duplicate invocation")
      let call : ModelCall := ⟨claim.runId, invocationId, claim.fence, .dispatched, request, none, none⟩
      set { db with calls := db.calls ++ [call] }
      checkActive claim commitAt
      pure (call, true)

def receivedStatus (responseJson : Option String) (resultUnknown : Bool) : CallStatus :=
  if responseJson.isSome then .responseReceived else if resultUnknown then .unknown else .failed

/-- A response or a failure, for the call that the claim has dispatched. -/
def recordModelResponse (claim : Claim) (invocationId : String) (responseJson failureCode : Option String)
    (resultUnknown : Bool) (commitAt : Nat) : Program Database Unit := do
  refuseUnless (responseJson.isSome ≠ failureCode.isSome) .invalid
  let _ ← readClaim claim
  let db ← get
  let call ← demand (callOf db claim.runId) unknownRow
  refuseUnless (call.invocationId = invocationId ∧ call.fenceToken = claim.fence ∧ call.status = .dispatched) leaseLost
  let calls := db.calls.map fun row =>
    if row.runId = claim.runId then { row with status := receivedStatus responseJson resultUnknown, responseJson, failureCode }
    else row
  set { db with calls }
  checkActive claim commitAt

/-! The end of an execution. -/

def validateFinish (result : WorkflowResult) : Except Refusal Unit :=
  if result.artifact.isSome = true ∧ (result.question.isSome = true ∨ result.failureCode.getD "" ≠ "") then .error .invalid
  else if ∃ question ∈ result.question, strip question = "" ∨ result.checkpointRef = "" ∨ result.failureCode.isSome = true then
    .error .invalid
  else .ok ⟨⟩

/-- The candidate belongs to the evidence and the stored response of the run. -/
def checkCandidate (library : ArtifactLibrary) (db : Database) (claim : Claim) (session : Session)
    (candidate : ArtifactCandidate) : Except Refusal Unit :=
  match evidenceOf db session.id, callOf db claim.runId with
  | some evidence, some call =>
      if candidate.sessionId = session.id ∧ candidate.runId = claim.runId ∧ candidate.evidenceSetId = evidence.id ∧
          candidate.evidenceFingerprint = evidence.fingerprint ∧ call.status = .responseReceived ∧
          candidate.invocationId = call.invocationId ∧
          call.responseJson.bind library.requestId = some candidate.providerRequestId ∧
          candidate.contentFingerprint = "sha256:" ++ library.sha256 candidate.contentJson then
        if session.usesPublishedSnapshot = true then do
          checkGeneration db session call.requestJson
          let expected ← library.expected session claim evidence call
          if candidate = expected then .ok ⟨⟩ else .error .invalid
        else .ok ⟨⟩
      else .error .invalid
  | _, _ => .error .invalid

def storeArtifact (library : ArtifactLibrary) (claim : Claim) (session : Session) (candidate : ArtifactCandidate) :
    Program Database Unit := do
  let db ← get
  lift (checkCandidate library db claim session candidate)
  refuseUnless (library.payloadSize candidate ≤ 131072) .invalid
  refuseUnless (∀ other ∈ db.artifacts, other.sessionId ≠ session.id ∧ other.runId ≠ claim.runId)
    (.fault "duplicate artifact")
  let artifacts ← lift (insert (·.id) db.artifacts ⟨candidate.id, session.id, claim.runId, library.payload candidate⟩)
  set { db with artifacts }

def storeQuestion (session : Session) (questionId text : String) (canSkip : Bool) : Program Database Unit := do
  let db ← get
  let questions ← lift (insert (·.id) db.questions
    { id := questionId, sessionId := session.id, text, canSkip })
  set { db with questions }

/-- The session after its run, with what the run leaves. -/
def settle (library : ArtifactLibrary) (claim : Claim) (session : Session) (result : WorkflowResult) (questionId : String) :
    Program Database Session := do
  match result.artifact with
  | some candidate => do
      storeArtifact library claim session candidate
      lift session.complete
  | none =>
      match result.question with
      | some question => do
          storeQuestion session questionId question result.canSkip
          lift (session.awaitAnswer questionId)
      | none => lift (session.block (if result.failureCode.getD "" = "" then "model_not_connected" else result.failureCode.getD ""))

/-- The transaction at the end of an execution. -/
def finishIn (library : ArtifactLibrary) (resources : Resources) (claim : Claim) (result : WorkflowResult)
    (questionId : String) (commitAt : Nat) : Program Database Unit := do
  lift (validateFinish result)
  let session ← readClaim claim
  let session ← settle library claim session result questionId
  save resources.stateEventId session
  modify fun db => { db with
    runs := db.runs.map fun row =>
      if row.id = claim.runId then { row with status := session.status, checkpointRef := some result.checkpointRef } else row
    jobs := db.jobs.map fun row => if row.id = claim.jobId then { row with status := .done } else row }
  checkActive claim commitAt
  modify fun db => { db with leases := db.leases.map fun lease =>
    if lease.threadId = session.id then { lease with expiresAt := db.clock } else lease }
  releaseSnapshot resources session

end Database

end Interpretation

end QsAi
