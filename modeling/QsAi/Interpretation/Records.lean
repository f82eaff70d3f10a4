import QsAi.Foundation.Interrupted
import QsAi.Interpretation.Sessions

/-! The rows of interpretation and the unit of work on them. A program that
ends with an exception leaves nothing, because its transaction is rolled back. -/
namespace QsAi

namespace Interpretation

open Keyed

structure SessionRow where
  session : Session
  requestId : Option String

def SessionRow.id (row : SessionRow) : String := row.session.id

structure Question where
  id : String
  sessionId : String
  text : String
  canSkip : Bool := true
  answer : Option String := none
  skipped : Bool := false
  answeredBy : Option String := none
deriving DecidableEq

inductive JobStatus
  | queued
  | leased
  | done
  | dead
  | cancelled
deriving DecidableEq

structure Job where
  id : String
  runId : String
  sessionId : String
  status : JobStatus
  availableAt : Nat
  leaseUntil : Option Nat
  fenceToken : Nat
  attempt : Nat
  answer : Option String
  skipped : Bool
  questionId : Option String

structure Run where
  id : String
  sessionId : String
  sessionVersion : Nat
  status : Status
  checkpointRef : Option String

structure Lease where
  threadId : String
  fence : Nat
  expiresAt : Nat

structure IdempotencyRow where
  scope : String
  key : String
  requestHash : String
  response : Option Receipt
deriving DecidableEq

def IdempotencyRow.identity (row : IdempotencyRow) : String × String := (row.scope, row.key)

/-- A publication that was accepted for a session and its evidence. -/
structure PlannedConfiguration where
  sessionId : String
  evidenceSetId : String
  evidenceFingerprint : String
  publicationId : String
  publicationSha256 : String
  pointerVersion : Nat
  selectorQuery : String
deriving DecidableEq

/-- How the planning of a configuration ends without one. -/
inductive PlanRefusal
  | rule (code : String)
  | invalidInput
  | invalid
  | fault (reason : String)
deriving DecidableEq

structure Reservation where
  runId : String
  sessionId : String
  organizationId : String
  subjectId : String
  assessmentIds : List String
  budgetDay : Nat × Nat × Nat
  reservedAt : DateTime
  active : Bool
  acquiredAt : Option DateTime
  releasedAt : Option DateTime
  quotaSnapshot : Option QuotaSnapshot

structure StateEvent where
  eventId : String
  requestId : String
  sessionId : String
  actor : Actor
  testeeId : String
  version : Nat
  status : Status
  questionId : String := ""
  question : String := ""
  canSkip : Bool := false
  failureCode : String := ""
  artifactJson : String := ""
deriving DecidableEq

inductive CallStatus
  | dispatched
  | responseReceived
  | unknown
  | failed
deriving DecidableEq

structure ModelCall where
  runId : String
  invocationId : String
  fenceToken : Nat
  status : CallStatus
  requestJson : String
  responseJson : Option String
  failureCode : Option String

/-- What is on record of a retry. -/
structure RetryRow where
  organizationId : Nat
  commandId : String
  sessionId : String
  requestId : String
  sourceRunId : String
  runId : String
  operatorUserId : Nat
  expectedVersion : Nat
  reason : String
  acceptedUnknownRisk : Bool
  sourceFailureCode : Option String
  frozenRequestJson : Option String
  receipt : Receipt
deriving DecidableEq

structure Artifact where
  id : String
  sessionId : String
  runId : String
  payload : String

/-- The rows, the time of the database, and what its publications and assets
plan for evidence and accept as a request of an accepted configuration. -/
structure Database where
  sessions : List SessionRow := []
  questions : List Question := []
  runs : List Run := []
  jobs : List Job := []
  leases : List Lease := []
  evidence : List EvidenceSet := []
  configurations : List PlannedConfiguration := []
  idempotency : List IdempotencyRow := []
  reservations : List Reservation := []
  events : List StateEvent := []
  calls : List ModelCall := []
  retries : List RetryRow := []
  artifacts : List Artifact := []
  quotas : String → QuotaBook := fun _ => {}
  clock : Nat := 0
  publications : Session → EvidenceSet → Except PlanRefusal PlannedConfiguration
  validGeneration : Session → Option EvidenceSet → String → Bool

abbrev Program (σ α : Type) := EStateM Refusal σ α

/-- What the application asks of its storage. -/
structure UnitOfWork (σ : Type) where
  reserve (scope key requestHash : String) : Program σ (Option Receipt)
  receipt (scope key : String) (receipt : Receipt) : Program σ Unit
  get (sessionId : String) (lock : Bool) : Program σ Session
  bindRequest (sessionId requestId : String) : Program σ Unit
  bindConfiguration (session : Session) (evidence : EvidenceSet) : Program σ Unit
  add (session : Session) : Program σ Unit
  addEvidence (evidence : EvidenceSet) : Program σ Unit
  save (session : Session) : Program σ Unit
  question (questionId : String) : Program σ Question
  answer (question : Question) (actor : Actor) (answer : Option String) (skip : Bool) : Program σ Unit
  enqueue (session : Session) (answer : Option String) (skip : Bool) (questionId : Option String) : Program σ Unit
  rejectRun (session : Session) : Program σ Unit
  cancelJobs (session : Session) : Program σ Unit
  commit : Program σ Unit

def lift {σ α : Type} : Except Refusal α → Program σ α
  | .ok value => pure value
  | .error refusal => throw refusal

def demand {σ α : Type} (value : Option α) (refusal : Refusal) : Program σ α :=
  match value with
  | some value => pure value
  | none => throw refusal

def refuseUnless {σ : Type} (condition : Prop) [Decidable condition] (refusal : Refusal) : Program σ Unit :=
  if condition then pure () else throw refusal

/-! Capacity of participants. -/

def fits (rows : List Reservation) (session : Session) (orgLimit userLimit assessmentLimit : Nat) : Bool :=
  decide (rows.length < orgLimit) &&
    decide ((rows.filter (·.subjectId == session.actor.subjectId)).length < userLimit) &&
    session.assessmentIds.all fun assessment =>
      decide ((rows.filter (·.assessmentIds.contains assessment)).length < assessmentLimit)

/-- The reservation of the active run, if it is of this session and participant. -/
def prior (db : Database) (session : Session) : Except Refusal (Option Reservation) :=
  match db.reservations.find? fun row => session.activeRunId == some row.runId with
  | none => .ok none
  | some row =>
      if row.sessionId = session.id ∧ row.organizationId = session.actor.orgId ∧ row.subjectId = session.actor.subjectId ∧
          row.assessmentIds = session.assessmentIds then .ok (some row)
      else .error (.rule "participant_reservation_conflict")

def participantPolicy (db : Database) (session : Session) (policy : ParticipantCapacityPolicy)
    (baseline : Option QuotaBaseline) : Except Refusal (ParticipantCapacityPolicy × QuotaSnapshot) :=
  match (db.quotas session.actor.orgId).participantPolicy policy baseline with
  | .ok value => .ok value
  | .error .notFound => .error .notFound
  | .error .invalid => .error .invalid
  | .error .conflict => .error (.fault "quota")

/-- The day of a time, in UTC. -/
def budgetDay (time : DateTime) : Except Refusal (Nat × Nat × Nat) :=
  match time.astimezoneUtc with
  | none => .error (.fault "date value out of range")
  | some utc => .ok (utc.year, utc.month, utc.day)

/-- What a reservation of the active run would be: none when it is there, and a
refusal when the day has no room. -/
def previewCapacity (db : Database) (session : Session) (policy : ParticipantCapacityPolicy) (time : DateTime)
    (baseline : Option QuotaBaseline) : Except Refusal (Option Reservation) := do
  let run ← match session.activeRunId with
    | none => .error .invalid
    | some run => .ok run
  match ← prior db session with
  | some _ => pure none
  | none => do
      let (policy, snapshot) ← participantPolicy db session policy baseline
      let day ← budgetDay time
      let rows := db.reservations.filter fun row => row.organizationId == session.actor.orgId && row.budgetDay == day
      if fits rows session policy.dailyOrg policy.dailyUser policy.dailyAssessment = true then
        pure (some ⟨run, session.id, session.actor.orgId, session.actor.subjectId, session.assessmentIds, day, time,
          false, none, none, some snapshot⟩)
      else .error (.rule "participant_daily_capacity_exceeded")

/-! The unit of work of the database. -/

/-- What a unit of work is given: limits, frozen or new identities, the time and
the configuration that was planned. -/
structure Resources where
  capacity : ParticipantCapacityPolicy := { positive := ParticipantCapacityPolicy.default_positive }
  quotaBaseline : Option QuotaBaseline := none
  jobId : String
  stateEventId : String
  time : DateTime
  configuration : Option PlannedConfiguration := none

namespace Database

def row (db : Database) (sessionId : String) : Option SessionRow := lookup SessionRow.id db.sessions sessionId

/-- A row with a new primary key. -/
def insert {α : Type} (key : α → String) (rows : List α) (row : α) : Except Refusal (List α) :=
  if key row ∈ rows.map key then .error (.fault "duplicate primary key") else .ok (rows ++ [row])

def reserve (scope key requestHash : String) : Program Database (Option Receipt) := do
  let db ← get
  match lookup IdempotencyRow.identity db.idempotency (scope, key) with
  | none => do
      let row : IdempotencyRow := ⟨scope, key, requestHash, none⟩
      set { db with idempotency := db.idempotency ++ [row] }
      pure none
  | some row => do
      refuseUnless (row.requestHash = requestHash) (.rule "idempotency_conflict")
      pure row.response

def receipt (scope key : String) (receipt : Receipt) : Program Database Unit :=
  modify fun db => { db with idempotency := db.idempotency.map fun row =>
    if row.identity = (scope, key) then { row with response := some receipt } else row }

def session (sessionId : String) : Program Database Session := do
  let db ← get
  let row ← demand (db.row sessionId) .notFound
  pure row.session

/-- A session without a request gets one that no other session has. -/
def bindRequest (sessionId requestId : String) : Program Database Unit := do
  let db ← get
  let row ← demand (db.row sessionId) (.rule "idempotency_conflict")
  refuseUnless (row.requestId = none) (.rule "idempotency_conflict")
  refuseUnless (∀ other ∈ db.sessions, other.requestId ≠ some requestId) (.fault "duplicate request")
  set { db with sessions := update SessionRow.id db.sessions { row with requestId := some requestId } }

/-- Deterministic refusals of the planning are kept, other failures are not. -/
def configurationRefusals {α : Type} : Except PlanRefusal α → Except Refusal α
  | .ok value => .ok value
  | .error (.rule "configuration_unavailable") => .error (.rejected "configuration_unavailable")
  | .error (.rule _) => .error (.rejected "admission_input_invalid")
  | .error .invalidInput => .error (.rejected "admission_input_invalid")
  | .error .invalid => .error (.rejected "admission_configuration_invalid")
  | .error (.fault reason) => .error (.fault reason)

def bindConfiguration (expected : Option PlannedConfiguration) (session : Session) (evidence : EvidenceSet) :
    Program Database Unit := do
  let db ← get
  let planned ← lift (configurationRefusals (db.publications session evidence))
  refuseUnless (∀ frozen ∈ expected, planned = frozen) .planConflict
  let rows ← lift (insert (·.sessionId) db.configurations planned)
  set { db with configurations := rows }

def add (session : Session) : Program Database Unit := do
  let db ← get
  let rows ← lift (insert SessionRow.id db.sessions { session, requestId := none })
  set { db with sessions := rows }

def addEvidence (evidence : EvidenceSet) : Program Database Unit := do
  let db ← get
  refuseUnless (∀ other ∈ db.evidence, other.sessionId ≠ evidence.sessionId) (.fault "duplicate evidence")
  let rows ← lift (insert (·.id) db.evidence evidence)
  set { db with evidence := rows }

/-- The visible state of a session that has a request. -/
def stateEvent (db : Database) (session : Session) (eventId requestId : String) : Except Refusal StateEvent := do
  let question ← match session.currentQuestionId with
    | none => .ok none
    | some id => match lookup (·.id) db.questions id with
        | none => .error (.fault "no result found")
        | some question => .ok (some question)
  let artifact ← if session.status = .completed then
      match lookup (·.sessionId) db.artifacts session.id with
      | none => .error .invalid
      | some artifact => .ok artifact.payload
    else .ok ""
  pure {
    eventId, requestId, sessionId := session.id, actor := session.actor, testeeId := session.testeeId
    version := session.version, status := session.status
    questionId := (question.map (·.id)).getD "", question := (question.map (·.text)).getD ""
    canSkip := (question.map (·.canSkip)).getD false, failureCode := session.failureCode.getD ""
    artifactJson := artifact }

/-- The first event of a version stays. -/
def stageState (eventId : String) (session : Session) : Program Database Unit := do
  let db ← get
  match (db.row session.id).bind (·.requestId) with
  | none => pure ()
  | some requestId => do
      let event ← lift (db.stateEvent session eventId requestId)
      if db.events.any (fun other => other.eventId == event.eventId ||
          (other.sessionId == event.sessionId && other.version == event.version)) = true then pure ()
      else set { db with events := db.events ++ [event] }

def save (eventId : String) (session : Session) : Program Database Unit := do
  modify fun db => { db with sessions := db.sessions.map fun row => if row.id = session.id then { row with session } else row }
  stageState eventId session

def question (questionId : String) : Program Database Question := do
  let db ← get
  demand (lookup (·.id) db.questions questionId) (.fault "no result found")

def answer (question : Question) (actor : Actor) (answer : Option String) (skip : Bool) : Program Database Unit :=
  modify fun db => { db with questions := db.questions.map fun row =>
    if row.id = question.id then { row with answer, skipped := skip, answeredBy := some actor.subjectId } else row }

def reserveCapacity (resources : Resources) (session : Session) : Program Database Unit := do
  let db ← get
  match ← lift (previewCapacity db session resources.capacity resources.time resources.quotaBaseline) with
  | none => pure ()
  | some row => set { db with reservations := db.reservations ++ [row] }

/-- Only sessions on a snapshot reserve capacity. -/
def reserveSnapshot (resources : Resources) (session : Session) : Program Database Unit :=
  if session.usesQsSnapshot = true then reserveCapacity resources session else pure ()

/-- The active run of a session, with a job. -/
def enqueueRun (resources : Resources) (session : Session) (answer : Option String) (skip : Bool)
    (questionId : Option String) : Program Database Unit := do
  let db ← get
  let run ← demand session.activeRunId (.fault "run without identity")
  let runs ← lift (insert (·.id) db.runs ⟨run, session.id, session.version, .queued, none⟩)
  let jobs ← lift (insert (·.id) db.jobs ⟨resources.jobId, run, session.id, .queued, db.clock, none, 0, 0, answer, skip,
    questionId⟩)
  set { db with runs, jobs }

def enqueue (resources : Resources) (session : Session) (answer : Option String) (skip : Bool) (questionId : Option String) :
    Program Database Unit := do
  reserveSnapshot resources session
  enqueueRun resources session answer skip questionId

/-- Refusals of an admission that are kept. -/
def knownRefusals : List String :=
  ["participant_daily_capacity_exceeded", "configuration_unavailable", "admission_input_invalid",
    "admission_configuration_invalid"]

def rejectRun (session : Session) : Program Database Unit := do
  refuseUnless (session.status = .blocked ∧ ∃ code ∈ session.failureCode, code ∈ knownRefusals) .invalid
  let db ← get
  let run ← demand session.activeRunId (.fault "run without identity")
  let runs ← lift (insert (·.id) db.runs ⟨run, session.id, session.version, session.status, none⟩)
  set { db with runs }

/-- The active reservation of a run ends. -/
def releaseCapacity (time : DateTime) (session : Session) : Program Database Unit :=
  modify fun db => { db with reservations := db.reservations.map fun row =>
    if session.activeRunId = some row.runId ∧ row.organizationId = session.actor.orgId ∧ row.active = true then
      { row with active := false, releasedAt := some time }
    else row }

def cancelJobs (resources : Resources) (session : Session) : Program Database Unit := do
  modify fun db => { db with
    jobs := db.jobs.map fun job =>
      if job.sessionId = session.id ∧ (job.status = .queued ∨ job.status = .leased) then { job with status := .cancelled }
      else job
    runs := db.runs.map fun run =>
      if run.sessionId = session.id ∧ (run.status = .queued ∨ run.status = .running) then { run with status := .cancelled }
      else run
    leases := db.leases.map fun lease =>
      if lease.threadId = session.id then { lease with fence := lease.fence + 1, expiresAt := db.clock } else lease }
  if session.usesQsSnapshot = true then releaseCapacity resources.time session else pure ()

end Database

/-- The unit of work of a transaction. -/
def mysqlUnitOfWork (resources : Resources) : UnitOfWork Database where
  reserve := Database.reserve
  receipt := Database.receipt
  get sessionId _ := Database.session sessionId
  bindRequest := Database.bindRequest
  bindConfiguration := Database.bindConfiguration resources.configuration
  add := Database.add
  addEvidence := Database.addEvidence
  save := Database.save resources.stateEventId
  question := Database.question
  answer := Database.answer
  enqueue := Database.enqueue resources
  rejectRun := Database.rejectRun
  cancelJobs := Database.cancelJobs resources
  commit := pure ()

end Interpretation

end QsAi
