import QsAi.Interpretation.Records

/-! The commands of a caller and of an operator. The service runs on any unit of
work; a retry belongs to the database. -/
namespace QsAi

namespace Interpretation

open Keyed

inductive IdentityRole
  | session
  | run
  | evidence
deriving DecidableEq

/-- Functions of libraries: the fingerprint of a content, the canonical text of
an identity, the schema version of a report, and whether a stored request can be
decoded. -/
structure Library where
  fingerprint : Content → String
  uuid : String → Option String
  schemaVersion : String → Option String
  decodesRequest : String → Bool

/-- The workflow that can read the evidence. -/
def publishedWorkflowVersion (library : Library) (evidence : List EvidenceItem) : String :=
  match evidence with
  | [item] =>
      match item.facts with
      | [fact] =>
          if fact.ref = "standard_report" ∧ library.schemaVersion fact.value = some "qs-report-snapshot/v2" then
            "qs-published-snapshot-v2"
          else "qs-published-snapshot-v1"
      | _ => "qs-published-snapshot-v1"
  | _ => "qs-published-snapshot-v1"

/-! The scopes of idempotency keys. -/

def changeScope (actor : Actor) (action resource : String) : Content :=
  .array [.ofActor actor, .string action, .string resource]

def startScope : Content := .array [.string "qs-server", .string "external-start-v1"]

def retryScope (organizationId : Nat) : Content := .array [.string "participant-retry-v1", .int organizationId]

def validKey (key : String) : Bool := key != "" && decide (key.length ≤ 128) && key.toList.all fun c => c.toNat < 128

section

variable {σ : Type} (library : Library) (uow : UnitOfWork σ)

/-- The scope of a key, if the key has the form of one. -/
def keyScope (actor : Actor) (action resource key : String) : Except Refusal String :=
  if validKey key = true then .ok (library.fingerprint (changeScope actor action resource))
  else .error (.rule "invalid_idempotency_key")

/-- The session belongs to the caller, who may still read its report. -/
def owned (authorize : Actor → String → List String → Except Refusal Unit) (actor : Actor) (sessionId : String) :
    Program σ Unit := do
  let session ← uow.get sessionId false
  refuseUnless (session.actor = actor) .accessDenied
  if session.usesQsSnapshot = true then pure () else lift (authorize actor session.testeeId session.assessmentIds)

def validAnswer (command : AnswerCommand) : Bool :=
  match command.skip, command.answer with
  | true, some _ => false
  | true, none => true
  | false, none => false
  | false, some answer => strip answer != "" && decide (answer.length ≤ 4000)

def recordAnswer (session : Session) (actor : Actor) (command : AnswerCommand) : Program σ Unit := do
  refuseUnless (validAnswer command = true) (.rule "invalid_answer")
  refuseUnless (session.currentQuestionId = some command.questionId) (.rule "question_conflict")
  let question ← uow.question command.questionId
  refuseUnless (command.skip = true → question.canSkip = true) (.rule "skip_not_allowed")
  refuseUnless (question.answeredBy = none) (.rule "question_conflict")
  uow.answer question actor command.answer command.skip

/-- The session after its change, with what the change does to its work. -/
def changeSession (runId : String) (session : Session) (actor : Actor) : ChangeCommand → Program σ Session
  | .cancel _ => do
      let session ← lift session.cancel
      uow.cancelJobs session
      pure session
  | .answer command => do
      recordAnswer uow session actor command
      let session ← lift (session.queue runId (some command.questionId))
      uow.enqueue session command.answer command.skip (some command.questionId)
      pure session

def applyChange (runId : String) (actor : Actor) (sessionId : String) (command : ChangeCommand) (scope key : String) :
    Program σ Receipt := do
  let session ← uow.get sessionId true
  refuseUnless ((session.version : Int) = command.expectedVersion) (.rule "version_conflict")
  let session ← changeSession uow runId session actor command
  uow.save session
  uow.receipt scope key session.receipt
  uow.commit
  pure session.receipt

/-- The transaction of a change: an earlier receipt comes first. -/
def change (runId : String) (actor : Actor) (sessionId : String) (command : ChangeCommand) (scope key : String) :
    Program σ Receipt := do
  let previous ← uow.reserve scope key (library.fingerprint (.ofChange command))
  match previous with
  | some receipt => pure receipt
  | none => applyChange uow runId actor sessionId command scope key

/-! The start of a session. -/

/-- The identity and the values of a start have their form. -/
def checkStart (command : StartCommand) : Except Refusal Unit :=
  match library.uuid command.requestId with
  | none => .error .invalid
  | some canonical =>
      if canonical ≠ command.requestId then .error (.rule "invalid_request_id")
      else if externalId command.actor.orgId = false ∨ command.actor.subjectId = "" ∨ 128 < command.actor.subjectId.length then
        .error (.rule "invalid_session_input")
      else validateSessionInput command.testeeId command.assessmentIds command.goal

/-- A refusal of the admission, as a value. -/
def refusable (program : Program σ Unit) : Program σ (Option String) :=
  tryCatch (do program; pure none) fun refusal =>
    match refusal with
    | .rejected code => pure (some code)
    | other => throw other

/-- A full day refuses the admission, every other refusal is one of the request. -/
def enqueueFirst (session : Session) : Program σ Unit :=
  tryCatch (uow.enqueue session none false none) fun refusal =>
    match refusal with
    | .rule "participant_daily_capacity_exceeded" => throw (.rejected "participant_daily_capacity_exceeded")
    | other => throw other

/-- The admission of a start: the session with its evidence, and why it is
refused if it is. -/
def admitSession (evidenceId : String) (session : Session) (command : StartCommand) : Program σ (Session × Option String) :=
  match validateEvidence command.evidence command.testeeId command.assessmentIds with
  | .error _ => pure (session, some "admission_input_invalid")
  | .ok _ => do
      let frozen : EvidenceSet :=
        ⟨evidenceId, session.id, library.fingerprint (.array (command.evidence.map .ofItem)), command.evidence⟩
      uow.addEvidence frozen
      let session := { session with evidenceSetId := some frozen.id }
      let refused ← refusable (do uow.bindConfiguration session frozen; enqueueFirst uow session)
      pure (session, refused)

/-- A refused admission blocks its session. -/
def settleAdmission (session : Session) : Option String → Program σ Session
  | none => pure session
  | some code => do
      let session ← lift session.toRunning
      let session ← lift (session.block code)
      uow.rejectRun session
      pure session

def applyStart (identity : IdentityRole → String) (command : StartCommand) (scope : String) : Program σ Receipt := do
  let session : Session := {
    id := identity .session, actor := command.actor, testeeId := command.testeeId
    assessmentIds := command.assessmentIds, goal := command.goal }
  let session ← lift (session.queue (identity .run) none)
  uow.add session
  let session := { session with workflowVersion := publishedWorkflowVersion library command.evidence }
  uow.bindRequest session.id command.requestId
  let (session, refused) ← admitSession library uow (identity .evidence) session command
  let session ← settleAdmission uow session refused
  uow.save session
  uow.receipt scope command.requestId session.receipt
  uow.commit
  pure session.receipt

/-- The transaction of a start. -/
def startExternal (identity : IdentityRole → String) (command : StartCommand) : Program σ Receipt := do
  lift (checkStart library command)
  let scope := library.fingerprint startScope
  let previous ← uow.reserve scope command.requestId (library.fingerprint (.ofStart command))
  match previous with
  | some receipt => pure receipt
  | none => applyStart library uow identity command scope

end

/-! The retry of a participant's run. -/

def organizationNumber (value : String) : Nat := value.toList.foldl (fun number c => 10 * number + (c.toNat - 48)) 0

/-- The participant of a session can still read its report. -/
def retryTarget (authorize : Actor → String → List String → Except Refusal Unit) (scope : DraftScope) (sessionId : String) :
    Program Database Unit := do
  let db ← get
  let row ← demand (db.row sessionId) .notFound
  refuseUnless (organizationNumber row.session.actor.orgId = scope.organizationId) .notFound
  refuseUnless (row.session.usesQsSnapshot = true) (.rule "participant_retry_requires_snapshot")
  lift (authorize row.session.actor row.session.testeeId row.session.assessmentIds)

/-- The run to be retried is blocked, and its job has ended. -/
def checkSource (db : Database) (session : Session) (runId : String) : Except Refusal Unit :=
  match lookup (·.id) db.runs runId with
  | none => .error (.rule "participant_retry_requires_blocked_run")
  | some run =>
      if run.sessionId ≠ session.id ∨ run.status ≠ .blocked then .error (.rule "participant_retry_requires_blocked_run")
      else .ok ⟨⟩

def checkJob (db : Database) (runId : String) : Except Refusal Unit :=
  match lookup (·.runId) db.jobs runId with
  | none => .ok ⟨⟩
  | some job =>
      if job.status = .done ∨ job.status = .dead then .ok ⟨⟩ else .error (.rule "participant_retry_execution_active")

def callOf (db : Database) (runId : String) : Option ModelCall := lookup (·.runId) db.calls runId

/-- The request that a retry has inherited. -/
def inherited (db : Database) (runId sessionId : String) : Option String :=
  (db.retries.find? fun row => row.runId == runId && row.sessionId == sessionId).bind (·.frozenRequestJson)

/-- The request of a run, or the one it inherited without sending it. -/
def frozenRequest (db : Database) (runId sessionId : String) : Option String :=
  match callOf db runId with
  | some call => some call.requestJson
  | none => inherited db runId sessionId

def CallStatus.uncertain (status : CallStatus) : Bool := status == .dispatched || status == .unknown

/-- What is left to check of a retry, and the request that it inherits. -/
def checkRetry (library : Library) (db : Database) (session : Session) (command : ParticipantRetry) :
    Except Refusal (String × Option String) := do
  checkSource db session command.expectedRunId
  let requestId ← match (db.row session.id).bind (·.requestId) with
    | none => .error (.rule "participant_retry_requires_external_request")
    | some requestId => .ok requestId
  checkJob db command.expectedRunId
  if (callOf db command.expectedRunId).any (·.status.uncertain) = true ∧ command.acceptResultUnknownRisk = false then
    .error (.rule "participant_retry_unknown_risk_required")
  else
    let frozen := frozenRequest db command.expectedRunId session.id
    if frozen.any (!library.decodesRequest ·) = true then .error (.rule "participant_retry_original_request_invalid")
    else if lookup (·.sessionId) db.configurations session.id = none then
      .error (.rule "participant_retry_requires_accepted_configuration")
    else .ok (requestId, frozen)

def recordRetry (row : RetryRow) : Program Database Unit := do
  let db ← get
  refuseUnless (∀ other ∈ db.retries, (other.organizationId, other.commandId) ≠ (row.organizationId, row.commandId) ∧
    other.sourceRunId ≠ row.sourceRunId ∧ other.runId ≠ row.runId) (.fault "duplicate retry")
  set { db with retries := db.retries ++ [row] }

def applyRetry (library : Library) (resources : Resources) (newRun : String) (command : ParticipantRetry) (scope : String) :
    Program Database Receipt := do
  let session ← Database.session command.sessionId
  refuseUnless (organizationNumber session.actor.orgId = command.scope.organizationId) .notFound
  refuseUnless (session.version = command.expectedVersion) (.rule "version_conflict")
  let db ← get
  let (requestId, frozen) ← lift (checkRetry library db session command)
  let next ← lift (session.retry command.expectedRunId newRun)
  Database.enqueue resources next none false none
  Database.save resources.stateEventId next
  recordRetry ⟨command.scope.organizationId, command.commandId, session.id, requestId, command.expectedRunId, newRun,
    command.scope.operatorUserId, command.expectedVersion, command.reason, command.acceptResultUnknownRisk,
    session.failureCode, frozen, next.receipt⟩
  Database.receipt scope command.commandId next.receipt
  pure next.receipt

/-- The transaction of a retry. -/
def retry (library : Library) (resources : Resources) (newRun : String) (command : ParticipantRetry) :
    Program Database Receipt := do
  let scope := library.fingerprint (retryScope command.scope.organizationId)
  let previous ← Database.reserve scope command.commandId (library.fingerprint (.ofRetry command))
  match previous with
  | some receipt => pure receipt
  | none => applyRetry library resources newRun command scope

/-! Transactions. -/

/-- What a request is answered. -/
abbrev Outcome := Except Refusal Receipt

/-- A program in a transaction of its own: an exception undoes it. -/
def transact {α : Type} (program : Program Database α) (db : Database) : Except Refusal α × Database :=
  match program.run db with
  | .ok value next => (.ok value, next)
  | .error refusal _ => (.error refusal, db)

end Interpretation

end QsAi
