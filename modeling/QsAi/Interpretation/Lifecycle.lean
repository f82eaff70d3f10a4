import QsAi.Interpretation.Threads

/-! The life of a session: what its rows are in each status, and what a committed
transaction does to them. -/
namespace QsAi

namespace Interpretation

open Keyed

/-! Changes of a session. -/

namespace Session

variable {session next : Session}

theorem queue_ok {runId question : String} (h : session.queue runId (some question) = .ok next) :
    session.status = .awaitingAnswer ∧
      next = { session with
        activeRunId := some runId, currentQuestionId := none, status := .queued, version := session.version + 1 } := by
  simp only [queue] at h
  split at h
  · cases h
    exact ⟨‹_ ∧ _›.1, rfl⟩
  · cases h

theorem retry_ok {previous runId : String} (h : session.retry previous runId = .ok next) :
    session.status = .blocked ∧ session.activeRunId = some previous ∧
      next = { session with
        activeRunId := some runId, currentQuestionId := none, failureCode := none, status := .queued
        version := session.version + 1 } := by
  simp only [retry] at h
  split at h
  · next hFacts =>
      cases h
      exact ⟨hFacts.2.1, hFacts.2.2.1, rfl⟩
  · cases h

theorem toRunning_ok (h : session.toRunning = .ok next) :
    (session.status = .queued ∨ session.status = .running) ∧
      next = { session with status := .running, version := session.version + 1 } := by
  simp only [toRunning] at h
  split at h
  · cases h
    exact ⟨‹_ ∨ _›, rfl⟩
  · cases h

theorem awaitAnswer_ok {question : String} (h : session.awaitAnswer question = .ok next) :
    session.status = .running ∧
      next = { session with
        currentQuestionId := some question, status := .awaitingAnswer, version := session.version + 1 } := by
  simp only [awaitAnswer] at h
  split at h
  · cases h
    exact ⟨‹_›, rfl⟩
  · cases h

theorem block_ok {code : String} (h : session.block code = .ok next) :
    session.status = .running ∧
      next = { session with status := .blocked, failureCode := some code, version := session.version + 1 } := by
  simp only [block] at h
  split at h
  · cases h
    exact ⟨‹_›, rfl⟩
  · cases h

theorem cancel_ok (h : session.cancel = .ok next) :
    ¬ (session.status = .cancelled ∨ session.status = .completed) ∧
      next = { session with status := .cancelled, currentQuestionId := none, version := session.version + 1 } := by
  simp only [cancel] at h
  split at h
  · cases h
  · cases h
    exact ⟨‹_›, rfl⟩

theorem complete_ok (h : session.complete = .ok next) :
    session.status = .running ∧
      next = { session with
        status := .completed, failureCode := none, currentQuestionId := none, version := session.version + 1 } := by
  simp only [complete] at h
  split at h
  · cases h
    exact ⟨‹_›, rfl⟩
  · cases h

end Session

/-! The rows of a run. -/

namespace Attempt

/-- The job and the reservation belong to the run and to the session's participant. -/
structure Linked (attempt : Attempt) (session : Session) : Prop where
  run : attempt.run.sessionId = session.id
  job : ∀ job ∈ attempt.job, job.runId = attempt.run.id ∧ job.sessionId = session.id
  slot : ∀ slot ∈ attempt.slot, slot.runId = attempt.run.id ∧ slot.sessionId = session.id ∧
    slot.organizationId = session.actor.orgId ∧ slot.subjectId = session.actor.subjectId ∧
    slot.assessmentIds = session.assessmentIds

/-- The run waits for a worker. -/
structure Queued (attempt : Attempt) : Prop where
  run : attempt.run.status = .queued
  job : ∃ job, attempt.job = some job ∧ job.status = .queued ∧ job.attempt = 0
  slot : ∃ slot, attempt.slot = some slot ∧ slot.active = false ∧ slot.releasedAt = none

/-- The run was given to a worker, under the lease. -/
structure Running (attempt : Attempt) (lease : Option Lease) : Prop where
  run : attempt.run.status = .running
  job : ∃ job held, attempt.job = some job ∧ lease = some held ∧ job.status = .leased ∧ job.fenceToken = held.fence ∧
    job.leaseUntil = some held.expiresAt
  slot : ∃ slot, attempt.slot = some slot ∧ slot.active = true ∧ slot.releasedAt = none

/-- The run is over. -/
structure Ended (attempt : Attempt) : Prop where
  run : attempt.run.status ≠ .queued ∧ attempt.run.status ≠ .running
  job : ∀ job ∈ attempt.job, job.status ≠ .queued ∧ job.status ≠ .leased
  slot : ∀ slot ∈ attempt.slot, slot.active = false

end Attempt

/-! The rows of a session. -/

namespace Thread

/-- The active run is as the status of the session says. -/
def Phase (t : Thread) : Prop :=
  match t.session.status with
  | .created => False
  | .queued => t.current.Queued
  | .running => t.current.Running t.lease
  | .cancelled => t.current.Ended
  | _ => t.current.Ended ∧ t.current.run.status = t.session.status

structure Valid (clock : Nat) (t : Thread) : Prop where
  snapshot : t.session.usesQsSnapshot = true
  active : t.session.activeRunId = some t.current.run.id
  linked : ∀ attempt ∈ t.attempts, attempt.Linked t.session
  past : ∀ attempt ∈ t.past, attempt.Ended
  phase : t.Phase
  tries : ∀ attempt ∈ t.attempts, ∀ job ∈ attempt.job, job.attempt ≤ 3
  live : ∀ lease ∈ t.lease, clock < lease.expiresAt → t.session.status = .running
  completed : t.artifact.isSome = true ↔ t.session.status = .completed
  artifact : ∀ artifact ∈ t.artifact, artifact.runId = t.current.run.id

/-- The earlier runs and jobs are others than the active one. -/
structure Distinct (t : Thread) : Prop where
  runs : ∀ attempt ∈ t.past, attempt.run.id ≠ t.current.run.id
  jobs : ∀ attempt ∈ t.past, ∀ job ∈ attempt.job, ∀ own ∈ t.current.job, job.id ≠ own.id

theorem mem_attempts {t : Thread} {attempt : Attempt} : attempt ∈ t.attempts ↔ attempt ∈ t.past ∨ attempt = t.current := by
  rw [attempts, List.mem_append, List.mem_singleton]

theorem current_mem (t : Thread) : t.current ∈ t.attempts := mem_attempts.mpr (.inr rfl)

theorem past_mem {t : Thread} {attempt : Attempt} (h : attempt ∈ t.past) : attempt ∈ t.attempts := mem_attempts.mpr (.inl h)

end Thread

/-! What a transaction does to the active run. -/

structure Edit where
  session : Session → Session := fun row => row
  run : Run → Run := fun row => row
  job : Job → Job := fun row => row
  lease : Lease → Lease := fun row => row
  slot : Reservation → Reservation := fun row => row

def Attempt.edit (attempt : Attempt) (change : Edit) : Attempt :=
  ⟨change.run attempt.run, attempt.job.map change.job, attempt.slot.map change.slot⟩

namespace Thread

def edit (t : Thread) (change : Edit) : Thread where
  session := change.session t.session
  past := t.past
  current := t.current.edit change
  lease := t.lease.map change.lease
  artifact := t.artifact

/-- The thread with a lease, which is over when it is new. -/
def leased (t : Thread) (clock : Nat) : Thread := { t with lease := some (t.lease.getD ⟨t.id, 0, clock⟩) }

end Thread

namespace Edit

/-- An active reservation ends. -/
def release (time : DateTime) (slot : Reservation) : Reservation :=
  if slot.active = true then { slot with active := false, releasedAt := some time } else slot

def acquire (time : DateTime) (slot : Reservation) : Reservation :=
  if slot.active = true then slot else { slot with active := true, acquiredAt := some time }

/-- The lease goes to nobody. -/
def revoke (clock : Nat) (lease : Lease) : Lease := { lease with fence := lease.fence + 1, expiresAt := clock }

def cancelled (clock : Nat) (time : DateTime) (next : Session) : Edit where
  session _ := next
  run run := if run.status = .queued ∨ run.status = .running then { run with status := .cancelled } else run
  job job := if job.status = .queued ∨ job.status = .leased then { job with status := .cancelled } else job
  lease := revoke clock
  slot := release time

def claimed (fence expiresAt : Nat) (time : DateTime) (next : Session) (job : Job) : Edit where
  session _ := next
  run run := { run with status := .running, sessionVersion := next.version }
  job row := { row with status := .leased, fenceToken := fence, leaseUntil := some expiresAt, attempt := job.attempt + 1 }
  lease lease := { lease with fence, expiresAt }
  slot := acquire time

def exhausted (clock : Nat) (time : DateTime) (next : Session) : Edit where
  session _ := next
  run run := { run with status := .blocked }
  job job := { job with status := .dead }
  lease := revoke clock
  slot := release time

def deferred (availableAt : Nat) : Edit where
  job job := { job with availableAt }

def renewed (expiresAt : Nat) : Edit where
  job job := { job with leaseUntil := some expiresAt }
  lease lease := { lease with expiresAt }

def finished (clock : Nat) (time : DateTime) (next : Session) (checkpointRef : String) : Edit where
  session _ := next
  run run := { run with status := next.status, checkpointRef := some checkpointRef }
  job job := { job with status := .done }
  lease lease := { lease with expiresAt := clock }
  slot := release time

end Edit

/-- An answer to a question or the retry of a blocked run. -/
def Session.Requeued (session : Session) (runId : String) (next : Session) : Prop :=
  (∃ question, session.queue runId (some question) = .ok next) ∨ ∃ previous, session.retry previous runId = .ok next

/-- The outcome of an execution. -/
def Session.Concluded (session next : Session) : Prop :=
  (∃ question, session.awaitAnswer question = .ok next) ∨ ∃ code, session.block code = .ok next

/-- What a committed transaction does to the session that it is about. -/
inductive Advance (clock : Nat) (t : Thread) : Thread → Prop
  | requeued {next : Session} {attempt : Attempt} (hNext : t.session.Requeued attempt.run.id next)
      (hLinked : attempt.Linked next) (hQueued : attempt.Queued) : Advance clock t ({ t with session := next }.extend attempt)
  | cancelled {next : Session} (time : DateTime) (hNext : t.session.cancel = .ok next) :
      Advance clock t (t.edit (.cancelled clock time next))
  | claimed {next : Session} {job : Job} (time : DateTime) (expiresAt : Nat) (hJob : t.current.job = some job)
      (hTries : job.attempt < 3) (hOver : (t.lease.getD ⟨t.id, 0, clock⟩).expiresAt ≤ clock)
      (hNext : t.session.toRunning = .ok next) :
      Advance clock t ((t.leased clock).edit
        (.claimed ((t.lease.getD ⟨t.id, 0, clock⟩).fence + 1) expiresAt time next job))
  | exhausted {middle next : Session} {job : Job} (time : DateTime) (hJob : t.current.job = some job) (hTries : 3 ≤ job.attempt)
      (hRunning : t.session.toRunning = .ok middle) (hNext : middle.block "attempts_exhausted" = .ok next) :
      Advance clock t (t.edit (.exhausted clock time next))
  | deferred (availableAt : Nat) (hStatus : t.session.status = .queued ∨ t.session.status = .running) :
      Advance clock t ((t.leased clock).edit (.deferred availableAt))
  | renewed (expiresAt : Nat) (hRunning : t.session.status = .running) (hLive : ∀ lease ∈ t.lease, clock < lease.expiresAt) :
      Advance clock t (t.edit (.renewed expiresAt))
  | concluded {next : Session} (time : DateTime) (checkpointRef : String) (hNext : t.session.Concluded next) :
      Advance clock t (t.edit (.finished clock time next checkpointRef))
  | completed {next : Session} (time : DateTime) (checkpointRef : String) (artifact : Artifact)
      (hNext : t.session.complete = .ok next) (hArtifact : artifact.runId = t.current.run.id) :
      Advance clock t ({ t with artifact := some artifact }.edit (.finished clock time next checkpointRef))

/-! Every step keeps the rows of a session in order. -/

section Steps

variable {clock : Nat} {t : Thread}

/-- An edit that keeps the links of the rows. -/
structure Edit.Linking (change : Edit) : Prop where
  run : ∀ run, (change.run run).id = run.id ∧ (change.run run).sessionId = run.sessionId
  job : ∀ job, (change.job job).id = job.id ∧ (change.job job).runId = job.runId ∧ (change.job job).sessionId = job.sessionId
  lease : ∀ lease, (change.lease lease).threadId = lease.threadId
  slot : ∀ slot, (change.slot slot).runId = slot.runId ∧ (change.slot slot).sessionId = slot.sessionId ∧
    (change.slot slot).organizationId = slot.organizationId ∧ (change.slot slot).subjectId = slot.subjectId ∧
    (change.slot slot).assessmentIds = slot.assessmentIds

theorem Attempt.Linked.edit {attempt : Attempt} {session : Session} {change : Edit} (h : attempt.Linked session)
    (hChange : change.Linking) : (attempt.edit change).Linked session := by
  constructor
  · rw [Attempt.edit, (hChange.run _).2]
    exact h.run
  · intro job hJob
    obtain ⟨old, hOld, rfl⟩ := Option.mem_map.mp hJob
    obtain ⟨-, hRun, hSession⟩ := hChange.job old
    rw [hRun, hSession, Attempt.edit, (hChange.run _).1]
    exact h.job old hOld
  · intro slot hSlot
    obtain ⟨old, hOld, rfl⟩ := Option.mem_map.mp hSlot
    obtain ⟨hRun, hSession, hOrganization, hSubject, hAssessments⟩ := hChange.slot old
    rw [hRun, hSession, hOrganization, hSubject, hAssessments, Attempt.edit, (hChange.run _).1]
    exact h.slot old hOld

/-! The edits keep the links. -/

theorem Edit.release_links (time : DateTime) (slot : Reservation) :
    (Edit.release time slot).runId = slot.runId ∧ (Edit.release time slot).sessionId = slot.sessionId ∧
      (Edit.release time slot).organizationId = slot.organizationId ∧ (Edit.release time slot).subjectId = slot.subjectId ∧
      (Edit.release time slot).assessmentIds = slot.assessmentIds := by
  unfold Edit.release
  split <;> exact ⟨rfl, rfl, rfl, rfl, rfl⟩

theorem Edit.acquire_links (time : DateTime) (slot : Reservation) :
    (Edit.acquire time slot).runId = slot.runId ∧ (Edit.acquire time slot).sessionId = slot.sessionId ∧
      (Edit.acquire time slot).organizationId = slot.organizationId ∧ (Edit.acquire time slot).subjectId = slot.subjectId ∧
      (Edit.acquire time slot).assessmentIds = slot.assessmentIds := by
  unfold Edit.acquire
  split <;> exact ⟨rfl, rfl, rfl, rfl, rfl⟩

theorem Edit.release_active (time : DateTime) (slot : Reservation) : (Edit.release time slot).active = false := by
  unfold Edit.release
  split
  · rfl
  · next hActive => simpa using hActive

theorem Edit.cancelled_linking (clock : Nat) (time : DateTime) (next : Session) : (Edit.cancelled clock time next).Linking where
  run run := by
    simp only [Edit.cancelled]
    split <;> exact ⟨rfl, rfl⟩
  job job := by
    simp only [Edit.cancelled]
    split <;> exact ⟨rfl, rfl, rfl⟩
  lease _ := rfl
  slot := Edit.release_links time

theorem Edit.claimed_linking (fence expiresAt : Nat) (time : DateTime) (next : Session) (job : Job) :
    (Edit.claimed fence expiresAt time next job).Linking :=
  ⟨fun _ => ⟨rfl, rfl⟩, fun _ => ⟨rfl, rfl, rfl⟩, fun _ => rfl, Edit.acquire_links time⟩

theorem Edit.exhausted_linking (clock : Nat) (time : DateTime) (next : Session) : (Edit.exhausted clock time next).Linking :=
  ⟨fun _ => ⟨rfl, rfl⟩, fun _ => ⟨rfl, rfl, rfl⟩, fun _ => rfl, Edit.release_links time⟩

theorem Edit.finished_linking (clock : Nat) (time : DateTime) (next : Session) (checkpointRef : String) :
    (Edit.finished clock time next checkpointRef).Linking :=
  ⟨fun _ => ⟨rfl, rfl⟩, fun _ => ⟨rfl, rfl, rfl⟩, fun _ => rfl, Edit.release_links time⟩

theorem Edit.deferred_linking (availableAt : Nat) : (Edit.deferred availableAt).Linking :=
  ⟨fun _ => ⟨rfl, rfl⟩, fun _ => ⟨rfl, rfl, rfl⟩, fun _ => rfl, fun _ => ⟨rfl, rfl, rfl, rfl, rfl⟩⟩

theorem Edit.renewed_linking (expiresAt : Nat) : (Edit.renewed expiresAt).Linking :=
  ⟨fun _ => ⟨rfl, rfl⟩, fun _ => ⟨rfl, rfl, rfl⟩, fun _ => rfl, fun _ => ⟨rfl, rfl, rfl, rfl, rfl⟩⟩

/-! Sessions keep who they are about. -/

/-- A change of the state of a session. -/
structure Session.Follows (next session : Session) : Prop where
  id : next.id = session.id
  actor : next.actor = session.actor
  assessments : next.assessmentIds = session.assessmentIds
  workflow : next.workflowVersion = session.workflowVersion

theorem Attempt.Linked.follow {attempt : Attempt} {session next : Session} (h : attempt.Linked session)
    (hNext : next.Follows session) : attempt.Linked next := by
  constructor
  · rw [hNext.id]
    exact h.run
  · rw [hNext.id]
    exact h.job
  · rw [hNext.id, hNext.actor, hNext.assessments]
    exact h.slot

theorem Session.Follows.snapshot {session next : Session} (h : next.Follows session) :
    next.usesQsSnapshot = session.usesQsSnapshot := by
  rw [Session.usesQsSnapshot, Session.usesPublishedSnapshot, h.workflow]
  rfl

/-- An edited thread is in order when its active run is. -/
theorem Thread.Valid.edit (h : t.Valid clock) {change : Edit} (artifact : Option Artifact) (hChange : change.Linking)
    (hSession : (change.session t.session).Follows t.session)
    (hActive : (change.session t.session).activeRunId = t.session.activeRunId)
    (hPhase : ({ t with artifact }.edit change).Phase)
    (hTries : ∀ job ∈ t.current.job, (change.job job).attempt ≤ 3)
    (hLive : ∀ lease ∈ t.lease, clock < (change.lease lease).expiresAt → (change.session t.session).status = .running)
    (hCompleted : artifact.isSome = true ↔ (change.session t.session).status = .completed)
    (hArtifact : ∀ found ∈ artifact, found.runId = t.current.run.id) : ({ t with artifact }.edit change).Valid clock where
  snapshot := hSession.snapshot.trans h.snapshot
  active := by
    change (change.session t.session).activeRunId = some (change.run t.current.run).id
    rw [hActive, h.active, (hChange.run _).1]
  linked attempt hMem := by
    rcases Thread.mem_attempts.mp hMem with hPast | rfl
    · exact (h.linked attempt (Thread.past_mem hPast)).follow hSession
    · exact ((h.linked _ t.current_mem).edit hChange).follow hSession
  past := h.past
  phase := hPhase
  tries attempt hMem job hJob := by
    rcases Thread.mem_attempts.mp hMem with hPast | rfl
    · exact h.tries attempt (Thread.past_mem hPast) job hJob
    · obtain ⟨old, hOld, rfl⟩ := Option.mem_map.mp hJob
      exact hTries old hOld
  live lease hLease hExpires := by
    obtain ⟨old, hOld, rfl⟩ := Option.mem_map.mp hLease
    exact hLive old hOld hExpires
  completed := hCompleted
  artifact found hFound := by
    change found.runId = (change.run t.current.run).id
    rw [(hChange.run _).1]
    exact hArtifact found hFound

/-! The statuses of a session. -/

theorem Thread.Valid.queued (h : t.Valid clock) (hStatus : t.session.status = .queued) : t.current.Queued := by
  have hPhase := h.phase
  rwa [Thread.Phase, hStatus] at hPhase

theorem Thread.Valid.running (h : t.Valid clock) (hStatus : t.session.status = .running) : t.current.Running t.lease := by
  have hPhase := h.phase
  rwa [Thread.Phase, hStatus] at hPhase

/-- A session that waits for no worker has no run in progress. -/
theorem Thread.Valid.ended (h : t.Valid clock) (hQueued : t.session.status ≠ .queued) (hRunning : t.session.status ≠ .running) :
    t.current.Ended := by
  have hPhase := h.phase
  unfold Thread.Phase at hPhase
  cases hStatus : t.session.status with
  | created => simp [hStatus] at hPhase
  | queued => exact absurd hStatus hQueued
  | running => exact absurd hStatus hRunning
  | cancelled =>
      rw [hStatus] at hPhase
      exact hPhase
  | awaitingAnswer =>
      rw [hStatus] at hPhase
      exact hPhase.1
  | blocked =>
      rw [hStatus] at hPhase
      exact hPhase.1
  | completed =>
      rw [hStatus] at hPhase
      exact hPhase.1

/-- The rows of the active run, while it waits or is worked on. -/
theorem Thread.Valid.open (h : t.Valid clock) (hStatus : t.session.status = .queued ∨ t.session.status = .running) :
    ∃ job slot, t.current.job = some job ∧ t.current.slot = some slot ∧ slot.releasedAt = none := by
  rcases hStatus with hStatus | hStatus
  · obtain ⟨-, ⟨job, hJob, -⟩, slot, hSlot, -, hReleased⟩ := h.queued hStatus
    exact ⟨job, slot, hJob, hSlot, hReleased⟩
  · obtain ⟨-, ⟨job, _, hJob, -⟩, slot, hSlot, -, hReleased⟩ := h.running hStatus
    exact ⟨job, slot, hJob, hSlot, hReleased⟩

theorem Thread.Valid.no_artifact (h : t.Valid clock) (hStatus : t.session.status ≠ .completed) : t.artifact = none := by
  by_contra hSome
  exact hStatus (h.completed.mp (Option.isSome_iff_ne_none.mpr hSome))

theorem Thread.phase_queued (hStatus : t.session.status = .queued) (hQueued : t.current.Queued) : t.Phase := by
  rw [Thread.Phase, hStatus]
  exact hQueued

theorem Thread.phase_running (hStatus : t.session.status = .running) (hRunning : t.current.Running t.lease) : t.Phase := by
  rw [Thread.Phase, hStatus]
  exact hRunning

theorem Thread.phase_ended (hStatus : t.session.status = .awaitingAnswer ∨ t.session.status = .blocked ∨
    t.session.status = .completed) (hEnded : t.current.Ended) (hRun : t.current.run.status = t.session.status) : t.Phase := by
  rcases hStatus with hStatus | hStatus | hStatus
  · rw [Thread.Phase, hStatus]
    exact ⟨hEnded, hRun.trans hStatus⟩
  · rw [Thread.Phase, hStatus]
    exact ⟨hEnded, hRun.trans hStatus⟩
  · rw [Thread.Phase, hStatus]
    exact ⟨hEnded, hRun.trans hStatus⟩

/-- Whatever ends a run leaves it without work. -/
theorem Attempt.edit_ended (attempt : Attempt) {change : Edit}
    (hRun : (change.run attempt.run).status ≠ .queued ∧ (change.run attempt.run).status ≠ .running)
    (hJob : ∀ job, (change.job job).status ≠ .queued ∧ (change.job job).status ≠ .leased)
    (hSlot : ∀ slot, (change.slot slot).active = false) : (attempt.edit change).Ended := by
  refine ⟨hRun, ?_, ?_⟩
  · intro job hMem
    obtain ⟨old, -, rfl⟩ := Option.mem_map.mp hMem
    exact hJob old
  · intro slot hMem
    obtain ⟨old, -, rfl⟩ := Option.mem_map.mp hMem
    exact hSlot old

/-! One step. -/

theorem requeued_valid (h : t.Valid clock) {next : Session} {attempt : Attempt} (hNext : t.session.Requeued attempt.run.id next)
    (hLinked : attempt.Linked next) (hQueued : attempt.Queued) : ({ t with session := next }.extend attempt).Valid clock := by
  have hFacts : next.Follows t.session ∧ next.activeRunId = some attempt.run.id ∧ next.status = .queued ∧
      (t.session.status = .awaitingAnswer ∨ t.session.status = .blocked) := by
    rcases hNext with ⟨question, hQueue⟩ | ⟨previous, hRetry⟩
    · obtain ⟨hStatus, rfl⟩ := Session.queue_ok hQueue
      exact ⟨⟨rfl, rfl, rfl, rfl⟩, rfl, rfl, .inl hStatus⟩
    · obtain ⟨hStatus, -, rfl⟩ := Session.retry_ok hRetry
      exact ⟨⟨rfl, rfl, rfl, rfl⟩, rfl, rfl, .inr hStatus⟩
  obtain ⟨hFollows, hActive, hStatus, hBefore⟩ := hFacts
  have hEnded : t.current.Ended := by
    apply h.ended
    · rcases hBefore with hBefore | hBefore <;> simp [hBefore]
    · rcases hBefore with hBefore | hBefore <;> simp [hBefore]
  have hNone : t.artifact = none := by
    apply h.no_artifact
    rcases hBefore with hBefore | hBefore <;> simp [hBefore]
  constructor
  · exact hFollows.snapshot.trans h.snapshot
  · exact hActive
  · intro other hMem
    rcases List.mem_append.mp hMem with hOld | hNew
    · exact (h.linked other hOld).follow hFollows
    · rw [List.mem_singleton.mp hNew]
      exact hLinked
  · intro other hMem
    rcases Thread.mem_attempts.mp hMem with hPast | rfl
    · exact h.past other hPast
    · exact hEnded
  · exact Thread.phase_queued hStatus hQueued
  · intro other hMem job hJob
    rcases List.mem_append.mp hMem with hOld | hNew
    · exact h.tries other hOld job hJob
    · rw [List.mem_singleton.mp hNew] at hJob
      obtain ⟨own, hOwn, -, hAttempt⟩ := hQueued.job
      obtain rfl : own = job := Option.some.inj (hOwn.symm.trans hJob)
      omega
  · intro lease hLease hExpires
    have hRunning := h.live lease hLease hExpires
    rcases hBefore with hBefore | hBefore <;> simp [hBefore] at hRunning
  · simp [Thread.extend, hNone, hStatus]
  · simp [Thread.extend, hNone]

theorem cancelled_valid (h : t.Valid clock) {next : Session} (time : DateTime) (hNext : t.session.cancel = .ok next) :
    (t.edit (.cancelled clock time next)).Valid clock := by
  obtain ⟨hStatus, rfl⟩ := Session.cancel_ok hNext
  have hNone : t.artifact = none := h.no_artifact fun hCompleted => hStatus (.inr hCompleted)
  refine h.edit t.artifact (Edit.cancelled_linking _ _ _) ⟨rfl, rfl, rfl, rfl⟩ rfl ?_ ?_ ?_ ?_ ?_
  · change Attempt.Ended _
    refine Attempt.edit_ended _ ?_ ?_ (Edit.release_active time)
    · simp only [Edit.cancelled]
      split_ifs with hOpen
      · exact ⟨nofun, nofun⟩
      · exact not_or.mp hOpen
    · intro job
      simp only [Edit.cancelled]
      split_ifs with hOpen
      · exact ⟨nofun, nofun⟩
      · exact not_or.mp hOpen
  · intro job hJob
    have hTries := h.tries _ t.current_mem job hJob
    simp only [Edit.cancelled]
    split_ifs <;> exact hTries
  · intro lease _ hExpires
    exact absurd hExpires (Nat.lt_irrefl clock)
  · simp [Edit.cancelled, hNone]
  · simp [hNone]

/-- A lease that is over changes nothing. -/
theorem leased_valid (h : t.Valid clock) (hStatus : t.session.status = .queued ∨ t.session.status = .running) :
    (t.leased clock).Valid clock := by
  refine { h with phase := ?_, live := ?_ }
  · rcases hStatus with hStatus | hStatus
    · exact Thread.phase_queued hStatus (h.queued hStatus)
    · obtain ⟨hRun, ⟨job, held, hJob, hHeld, hRest⟩, hSlot⟩ := h.running hStatus
      refine Thread.phase_running hStatus ⟨hRun, ⟨job, held, hJob, ?_, hRest⟩, hSlot⟩
      rw [Thread.leased, hHeld]
      rfl
  · intro lease hLease hExpires
    have hOwn : t.lease.getD ⟨t.id, 0, clock⟩ = lease := Option.some.inj hLease
    cases hLease : t.lease with
    | none =>
        rw [hLease] at hOwn
        rw [← hOwn] at hExpires
        exact absurd hExpires (Nat.lt_irrefl clock)
    | some held =>
        rw [hLease] at hOwn
        exact h.live lease (hLease.trans (congrArg some hOwn)) hExpires

theorem claimed_valid (h : t.Valid clock) {next : Session} {job : Job} (time : DateTime) (fence expiresAt : Nat)
    (hJob : t.current.job = some job) (hTries : job.attempt < 3) (hNext : t.session.toRunning = .ok next) :
    ((t.leased clock).edit (.claimed fence expiresAt time next job)).Valid clock := by
  obtain ⟨hStatus, rfl⟩ := Session.toRunning_ok hNext
  have hNone : t.artifact = none := by
    apply h.no_artifact
    rcases hStatus with hStatus | hStatus <;> simp [hStatus]
  obtain ⟨_, slot, -, hSlot, hReleased⟩ := h.open hStatus
  refine (leased_valid h hStatus).edit t.artifact (Edit.claimed_linking _ _ _ _ _) ⟨rfl, rfl, rfl, rfl⟩ rfl
    ?_ ?_ (fun _ _ _ => rfl) ?_ ?_
  · refine ⟨rfl, ⟨_, _, congrArg (Option.map _) hJob, rfl, rfl, rfl, rfl⟩, _, congrArg (Option.map _) hSlot, ?_⟩
    simp only [Edit.claimed, Edit.acquire]
    split_ifs with hActive
    · exact ⟨hActive, hReleased⟩
    · exact ⟨rfl, hReleased⟩
  · exact fun _ _ => hTries
  · simp [Edit.claimed, hNone]
  · simp [hNone]

theorem deferred_valid (h : t.Valid clock) (availableAt : Nat)
    (hStatus : t.session.status = .queued ∨ t.session.status = .running) :
    ((t.leased clock).edit (.deferred availableAt)).Valid clock := by
  have hLeased := leased_valid h hStatus
  have hNone : t.artifact = none := by
    apply h.no_artifact
    rcases hStatus with hStatus | hStatus <;> simp [hStatus]
  have hId : ∀ {α : Type} {row : Option α} {value : α}, row = some value → row.map (fun value => value) = some value := by
    rintro α row value rfl
    rfl
  refine hLeased.edit t.artifact (Edit.deferred_linking _) ⟨rfl, rfl, rfl, rfl⟩ rfl ?_ ?_ ?_ ?_ ?_
  · rcases hStatus with hStatus | hStatus
    · obtain ⟨hRun, ⟨job, hJob, hRest⟩, slot, hSlot, hActive⟩ := h.queued hStatus
      exact Thread.phase_queued hStatus ⟨hRun, ⟨_, congrArg (Option.map _) hJob, hRest⟩, slot, hId hSlot, hActive⟩
    · obtain ⟨hRun, ⟨job, held, hJob, hHeld, hRest⟩, slot, hSlot, hActive⟩ := hLeased.running hStatus
      exact Thread.phase_running hStatus
        ⟨hRun, ⟨_, held, congrArg (Option.map _) hJob, hId hHeld, hRest⟩, slot, hId hSlot, hActive⟩
  · exact fun job hJob => h.tries _ t.current_mem job hJob
  · exact fun lease hLease hExpires => hLeased.live lease hLease hExpires
  · exact h.completed
  · exact h.artifact

theorem renewed_valid (h : t.Valid clock) (expiresAt : Nat) (hRunning : t.session.status = .running) :
    (t.edit (.renewed expiresAt)).Valid clock := by
  obtain ⟨hRun, ⟨job, held, hJob, hHeld, hLeased, hFence, -⟩, slot, hSlot, hActive⟩ := h.running hRunning
  refine h.edit t.artifact (Edit.renewed_linking _) ⟨rfl, rfl, rfl, rfl⟩ rfl ?_ ?_ (fun _ _ _ => hRunning)
    h.completed h.artifact
  · have hSlot' : t.current.slot.map (fun slot => slot) = some slot := by
      rw [hSlot]
      rfl
    exact Thread.phase_running hRunning
      ⟨hRun, ⟨_, _, congrArg (Option.map _) hJob, congrArg (Option.map _) hHeld, hLeased, hFence, rfl⟩, slot, hSlot', hActive⟩
  · exact fun job hJob => h.tries _ t.current_mem job hJob

theorem exhausted_valid (h : t.Valid clock) {middle next : Session} (time : DateTime)
    (hRunning : t.session.toRunning = .ok middle) (hNext : middle.block "attempts_exhausted" = .ok next) :
    (t.edit (.exhausted clock time next)).Valid clock := by
  obtain ⟨hStatus, rfl⟩ := Session.toRunning_ok hRunning
  obtain ⟨-, rfl⟩ := Session.block_ok hNext
  have hNone : t.artifact = none := by
    apply h.no_artifact
    rcases hStatus with hStatus | hStatus <;> simp [hStatus]
  refine h.edit t.artifact (Edit.exhausted_linking _ _ _) ⟨rfl, rfl, rfl, rfl⟩ rfl ?_ ?_ ?_ ?_ ?_
  · exact ⟨Attempt.edit_ended _ ⟨nofun, nofun⟩ (fun _ => ⟨nofun, nofun⟩) (Edit.release_active time), rfl⟩
  · exact fun job hJob => h.tries _ t.current_mem job hJob
  · intro lease _ hExpires
    exact absurd hExpires (Nat.lt_irrefl clock)
  · simp [Edit.exhausted, hNone]
  · simp [hNone]

theorem finished_valid (h : t.Valid clock) {next : Session} (artifact : Option Artifact) (time : DateTime) (checkpointRef : String)
    (hFollows : next.Follows t.session) (hActive : next.activeRunId = t.session.activeRunId)
    (hStatus : next.status = .awaitingAnswer ∨ next.status = .blocked ∨ next.status = .completed)
    (hCompleted : artifact.isSome = true ↔ next.status = .completed)
    (hArtifact : ∀ found ∈ artifact, found.runId = t.current.run.id) :
    ({ t with artifact }.edit (.finished clock time next checkpointRef)).Valid clock := by
  refine h.edit artifact (Edit.finished_linking _ _ _ _) hFollows hActive ?_ ?_ ?_ hCompleted hArtifact
  · have hEnded : (t.current.edit (.finished clock time next checkpointRef)).Ended := by
      refine Attempt.edit_ended _ ?_ (fun _ => ⟨nofun, nofun⟩) (Edit.release_active time)
      rcases hStatus with hStatus | hStatus | hStatus <;> simp [Edit.finished, hStatus]
    exact Thread.phase_ended hStatus hEnded rfl
  · exact fun job hJob => h.tries _ t.current_mem job hJob
  · intro lease _ hExpires
    exact absurd hExpires (Nat.lt_irrefl clock)

theorem concluded_facts {next : Session} (hNext : t.session.Concluded next) :
    next.Follows t.session ∧ next.activeRunId = t.session.activeRunId ∧
      (next.status = .awaitingAnswer ∨ next.status = .blocked) ∧ t.session.status = .running := by
  rcases hNext with ⟨question, hAwait⟩ | ⟨code, hBlock⟩
  · obtain ⟨hStatus, rfl⟩ := Session.awaitAnswer_ok hAwait
    exact ⟨⟨rfl, rfl, rfl, rfl⟩, rfl, .inl rfl, hStatus⟩
  · obtain ⟨hStatus, rfl⟩ := Session.block_ok hBlock
    exact ⟨⟨rfl, rfl, rfl, rfl⟩, rfl, .inr rfl, hStatus⟩

/-- Every step keeps the rows of the session in order. -/
theorem Advance.valid {t' : Thread} (hStep : Advance clock t t') (h : t.Valid clock) : t'.Valid clock := by
  cases hStep with
  | requeued hNext hLinked hQueued => exact requeued_valid h hNext hLinked hQueued
  | cancelled time hNext => exact cancelled_valid h time hNext
  | claimed time expiresAt hJob hTries _ hNext => exact claimed_valid h time _ expiresAt hJob hTries hNext
  | exhausted time _ _ hRunning hNext => exact exhausted_valid h time hRunning hNext
  | deferred availableAt hStatus => exact deferred_valid h availableAt hStatus
  | renewed expiresAt hRunning _ => exact renewed_valid h expiresAt hRunning
  | concluded time checkpointRef hNext =>
      obtain ⟨hFollows, hActive, hStatus, hRunning⟩ := concluded_facts hNext
      have hNone : t.artifact = none := h.no_artifact (by simp [hRunning])
      refine finished_valid h t.artifact time checkpointRef hFollows hActive ?_ ?_ h.artifact
      · rcases hStatus with hStatus | hStatus <;> simp [hStatus]
      · rcases hStatus with hStatus | hStatus <;> simp [hNone, hStatus]
  | completed time checkpointRef artifact hNext hArtifact =>
      obtain ⟨hRunning, rfl⟩ := Session.complete_ok hNext
      refine finished_valid h (some artifact) time checkpointRef ⟨rfl, rfl, rfl, rfl⟩ rfl (.inr (.inr rfl)) (by simp) ?_
      rintro found ⟨⟩
      exact hArtifact

/-- The session is as it was, and a lease that is not over was not over before. -/
structure Thread.Rests (clock : Nat) (t t' : Thread) : Prop where
  session : t'.session = t.session
  lease : ∀ lease' ∈ t'.lease, clock < lease'.expiresAt → ∃ lease ∈ t.lease, lease.fence = lease'.fence ∧ clock < lease.expiresAt

theorem leased_rests (t : Thread) (clock availableAt : Nat) : t.Rests clock ((t.leased clock).edit (.deferred availableAt)) := by
  refine ⟨rfl, fun lease' hMem hLive => ?_⟩
  obtain rfl : t.lease.getD ⟨t.id, 0, clock⟩ = lease' := Option.some.inj hMem
  cases hOwn : t.lease with
  | none =>
      rw [hOwn] at hLive
      exact absurd hLive (Nat.lt_irrefl clock)
  | some held =>
      rw [hOwn] at hLive
      exact ⟨held, rfl, rfl, hLive⟩

/-- A step that changes the session raises its version. -/
theorem Advance.version {t' : Thread} (hStep : Advance clock t t') : t.Rests clock t' ∨ t.session.version < t'.session.version := by
  cases hStep with
  | requeued hNext =>
      right
      rcases hNext with ⟨question, hQueue⟩ | ⟨previous, hRetry⟩
      · obtain ⟨-, rfl⟩ := Session.queue_ok hQueue
        exact Nat.lt_succ_self _
      · obtain ⟨-, -, rfl⟩ := Session.retry_ok hRetry
        exact Nat.lt_succ_self _
  | cancelled time hNext =>
      obtain ⟨-, rfl⟩ := Session.cancel_ok hNext
      exact .inr (Nat.lt_succ_self _)
  | claimed time expiresAt hJob hTries _ hNext =>
      obtain ⟨-, rfl⟩ := Session.toRunning_ok hNext
      exact .inr (Nat.lt_succ_self _)
  | exhausted time hJob _ hRunning hNext =>
      obtain ⟨-, rfl⟩ := Session.toRunning_ok hRunning
      obtain ⟨-, rfl⟩ := Session.block_ok hNext
      exact .inr (Nat.lt_succ_of_lt (Nat.lt_succ_self _))
  | deferred availableAt hStatus => exact .inl (leased_rests t clock availableAt)
  | renewed expiresAt hRunning hLive =>
      refine .inl ⟨rfl, fun lease' hMem _ => ?_⟩
      obtain ⟨lease, hLease, rfl⟩ := Option.mem_map.mp hMem
      exact ⟨lease, hLease, rfl, hLive lease hLease⟩
  | concluded time checkpointRef hNext =>
      right
      rcases hNext with ⟨question, hAwait⟩ | ⟨code, hBlock⟩
      · obtain ⟨-, rfl⟩ := Session.awaitAnswer_ok hAwait
        exact Nat.lt_succ_self _
      · obtain ⟨-, rfl⟩ := Session.block_ok hBlock
        exact Nat.lt_succ_self _
  | completed time checkpointRef artifact hNext hArtifact =>
      obtain ⟨-, rfl⟩ := Session.complete_ok hNext
      exact .inr (Nat.lt_succ_self _)

theorem Advance.follows {t' : Thread} (hStep : Advance clock t t') : t'.session.Follows t.session := by
  cases hStep with
  | requeued hNext =>
      rcases hNext with ⟨question, hQueue⟩ | ⟨previous, hRetry⟩
      · obtain ⟨-, rfl⟩ := Session.queue_ok hQueue
        exact ⟨rfl, rfl, rfl, rfl⟩
      · obtain ⟨-, -, rfl⟩ := Session.retry_ok hRetry
        exact ⟨rfl, rfl, rfl, rfl⟩
  | cancelled time hNext =>
      obtain ⟨-, rfl⟩ := Session.cancel_ok hNext
      exact ⟨rfl, rfl, rfl, rfl⟩
  | claimed time expiresAt hJob hTries _ hNext =>
      obtain ⟨-, rfl⟩ := Session.toRunning_ok hNext
      exact ⟨rfl, rfl, rfl, rfl⟩
  | exhausted time hJob _ hRunning hNext =>
      obtain ⟨-, rfl⟩ := Session.toRunning_ok hRunning
      obtain ⟨-, rfl⟩ := Session.block_ok hNext
      exact ⟨rfl, rfl, rfl, rfl⟩
  | deferred availableAt hStatus => exact ⟨rfl, rfl, rfl, rfl⟩
  | renewed expiresAt hRunning _ => exact ⟨rfl, rfl, rfl, rfl⟩
  | concluded time checkpointRef hNext => exact (concluded_facts hNext).1
  | completed time checkpointRef artifact hNext hArtifact =>
      obtain ⟨-, rfl⟩ := Session.complete_ok hNext
      exact ⟨rfl, rfl, rfl, rfl⟩

/-- The runs and jobs of a session stay. -/
theorem Advance.keeps {t' : Thread} (hStep : Advance clock t t') :
    ∀ attempt ∈ t.attempts, ∃ attempt' ∈ t'.attempts, attempt'.run.id = attempt.run.id ∧
      ∀ job ∈ attempt.job, ∃ job' ∈ attempt'.job, job'.id = job.id ∧ job.attempt ≤ job'.attempt := by
  have hEdit : ∀ (u : Thread) {change : Edit}, change.Linking → u.past = t.past → u.current = t.current →
      (∀ job ∈ t.current.job, job.attempt ≤ (change.job job).attempt) →
      ∀ attempt ∈ t.attempts, ∃ attempt' ∈ (u.edit change).attempts, attempt'.run.id = attempt.run.id ∧
        ∀ job ∈ attempt.job, ∃ job' ∈ attempt'.job, job'.id = job.id ∧ job.attempt ≤ job'.attempt := by
    intro u change hLinking hPast hCurrent hTries attempt hMem
    rcases Thread.mem_attempts.mp hMem with hOld | rfl
    · exact ⟨attempt, Thread.past_mem (hPast ▸ hOld), rfl, fun job hJob => ⟨job, hJob, rfl, Nat.le_refl _⟩⟩
    · refine ⟨_, (u.edit change).current_mem, ?_, ?_⟩
      · rw [Thread.edit, hCurrent, Attempt.edit, (hLinking.run _).1]
      · intro job hJob
        refine ⟨change.job job, ?_, (hLinking.job job).1, hTries job hJob⟩
        rw [Thread.edit, hCurrent]
        exact Option.mem_map.mpr ⟨job, hJob, rfl⟩
  cases hStep with
  | requeued =>
      intro attempt hMem
      exact ⟨attempt, List.mem_append_left _ hMem, rfl, fun job hJob => ⟨job, hJob, rfl, Nat.le_refl _⟩⟩
  | cancelled =>
      refine hEdit t (Edit.cancelled_linking _ _ _) rfl rfl fun job _ => ?_
      simp only [Edit.cancelled]
      split_ifs <;> exact Nat.le_refl _
  | claimed _ _ hJob =>
      refine hEdit (t.leased clock) (Edit.claimed_linking _ _ _ _ _) rfl rfl fun job hMem => ?_
      obtain rfl := Option.some.inj (hJob.symm.trans hMem)
      exact Nat.le_succ _
  | exhausted => exact hEdit t (Edit.exhausted_linking _ _ _) rfl rfl fun _ _ => Nat.le_refl _
  | deferred => exact hEdit (t.leased clock) (Edit.deferred_linking _) rfl rfl fun _ _ => Nat.le_refl _
  | renewed => exact hEdit t (Edit.renewed_linking _) rfl rfl fun _ _ => Nat.le_refl _
  | concluded => exact hEdit t (Edit.finished_linking _ _ _ _) rfl rfl fun _ _ => Nat.le_refl _
  | completed _ _ artifact =>
      exact hEdit { t with artifact := some artifact } (Edit.finished_linking _ _ _ _) rfl rfl fun _ _ => Nat.le_refl _

/-- No step lowers the fence of a session. -/
theorem Advance.fence {t' : Thread} (hStep : Advance clock t t') :
    ∀ lease ∈ t.lease, ∃ lease' ∈ t'.lease, lease.fence ≤ lease'.fence := by
  have hEdit : ∀ (u : Thread) {change : Edit}, u.lease = t.lease → (∀ lease : Lease, lease.fence ≤ (change.lease lease).fence) →
      ∀ lease ∈ t.lease, ∃ lease' ∈ (u.edit change).lease, lease.fence ≤ lease'.fence := by
    intro u change hLease hFence lease hMem
    exact ⟨change.lease lease, Option.mem_map.mpr ⟨lease, hLease ▸ hMem, rfl⟩, hFence lease⟩
  have hLeased : ∀ lease ∈ t.lease, (t.leased clock).lease = t.lease ∧ t.lease.getD ⟨t.id, 0, clock⟩ = lease := by
    intro lease hMem
    have hOwn : t.lease = some lease := hMem
    rw [Thread.leased, hOwn]
    exact ⟨rfl, rfl⟩
  cases hStep with
  | requeued => exact fun lease hMem => ⟨lease, hMem, Nat.le_refl _⟩
  | cancelled => exact hEdit t rfl fun _ => Nat.le_succ _
  | claimed =>
      intro lease hMem
      obtain ⟨hSame, hOwn⟩ := hLeased lease hMem
      refine ⟨_, Option.mem_map.mpr ⟨lease, hSame ▸ hMem, rfl⟩, ?_⟩
      rw [hOwn]
      exact Nat.le_succ _
  | exhausted => exact hEdit t rfl fun _ => Nat.le_succ _
  | deferred =>
      intro lease hMem
      exact hEdit (t.leased clock) (hLeased lease hMem).1 (fun _ => Nat.le_refl _) lease hMem
  | renewed => exact hEdit t rfl fun _ => Nat.le_refl _
  | concluded => exact hEdit t rfl fun _ => Nat.le_refl _
  | completed _ _ artifact => exact hEdit { t with artifact := some artifact } rfl fun _ => Nat.le_refl _

/-- Time does not change the order of the rows. -/
theorem Thread.Valid.later (h : t.Valid clock) {clock' : Nat} (hClock : clock ≤ clock') : t.Valid clock' :=
  { h with live := fun lease hLease hExpires => h.live lease hLease (Nat.lt_of_le_of_lt hClock hExpires) }

end Steps

end Interpretation

end QsAi
