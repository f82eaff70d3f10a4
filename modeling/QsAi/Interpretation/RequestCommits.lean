import QsAi.Foundation.Guarded
import QsAi.Interpretation.Commits

/-! Committed requests: each queues a run of its session, ends it or opens a new
session. -/
namespace QsAi

namespace Interpretation

open Keyed Interrupted

section Queue

variable {db db' : Database} {resources : Resources} {session : Session}

theorem previewCapacity_ok {policy : ParticipantCapacityPolicy} {time : DateTime} {baseline : Option QuotaBaseline}
    {found : Option Reservation} (h : previewCapacity db session policy time baseline = .ok found) :
    (found = none ∧ ∃ row ∈ db.reservations, session.activeRunId = some row.runId) ∨
      ∃ slot, found = some slot ∧ slot.New session ∧ ∃ limits, participantPolicy db session policy baseline = .ok limits ∧
        fits (db.reservations.filter fun row => row.organizationId == session.actor.orgId && row.budgetDay == slot.budgetDay) session
          limits.1.dailyOrg limits.1.dailyUser limits.1.dailyAssessment = true := by
  rw [previewCapacity] at h
  cases hRun : session.activeRunId with
  | none => simp [hRun, bind, Except.bind] at h
  | some run =>
      simp only [hRun, Guarded.bind_ok, Except.ok.injEq] at h
      obtain ⟨_, rfl, prior, hPrior, h⟩ := h
      rcases prior_ok hPrior with ⟨rfl, -⟩ | ⟨row, hRow, rfl, hActive⟩
      · simp only [Guarded.bind_ok] at h
        obtain ⟨limits, hLimits, day, -, h⟩ := h
        split at h
        · next hFits =>
            cases h
            exact .inr ⟨_, rfl, ⟨hRun, rfl, rfl, rfl, rfl, rfl, rfl⟩, limits, hLimits, hFits⟩
        · cases h
      · cases h
        exact .inl ⟨rfl, row, hRow, by rw [← hRun, hActive]⟩

/-- Every reservation is one of a run. -/
theorem Work.Sound.run_of_slot {clock : Nat} {work : Work} (h : work.Sound clock) {slot : Reservation} (hSlot : slot ∈ work.slots) :
    slot.runId ∈ work.runs.map (·.id) := by
  obtain ⟨owner, hOwner, hId⟩ := List.mem_map.mp (h.tidy.slotOf slot hSlot)
  obtain ⟨t, rfl, hShows, hValid⟩ := h.threads owner hOwner
  obtain ⟨attempt, hAttempt, hOwn⟩ := hShows.attempt_of_slot hSlot hId.symm
  exact List.mem_map.mpr ⟨attempt.run, (hShows.run_mem hAttempt).1, ((hValid.linked attempt hAttempt).slot slot hOwn).1.symm⟩

/-- A queued run, with its job and its reservation. -/
structure Enqueued (db : Database) (resources : Resources) (session : Session) (attempt : Attempt) : Prop where
  active : session.activeRunId = some attempt.run.id
  linked : attempt.Linked session
  queued : attempt.Queued
  new : attempt.New db.work
  admitted : ∃ slot, attempt.slot = some slot ∧ slot.New session ∧ Admitted db resources session slot

theorem enqueue_completes {answer : Option String} {skip : Bool} {questionId : Option String} {value : Unit}
    (hSnapshot : session.usesQsSnapshot = true) (hSlots : ∀ slot ∈ db.reservations, slot.runId ∈ db.runs.map (·.id))
    (h : Completes (Database.enqueue resources session answer skip questionId) db value db') :
    ∃ attempt, Enqueued db resources session attempt ∧ db' = { db with
      runs := db.runs ++ [attempt.run]
      jobs := db.jobs ++ attempt.job.toList
      reservations := db.reservations ++ attempt.slot.toList } := by
  rw [Database.enqueue, Database.reserveSnapshot, if_pos hSnapshot] at h
  simp only [Database.reserveCapacity, Database.enqueueRun, completes_bind, completes_get, completes_lift, completes_demand,
    completes_set] at h
  obtain ⟨_, middle, ⟨_, _, ⟨rfl, rfl⟩, found, _, ⟨hFound, rfl⟩, hReserve⟩, _, _, ⟨rfl, rfl⟩, run, _, ⟨hRun, rfl⟩, runs, _,
    ⟨hRuns, rfl⟩, jobs, _, ⟨hJobs, rfl⟩, rfl⟩ := h
  rcases previewCapacity_ok hFound with ⟨rfl, row, hRow, hActive⟩ | ⟨slot, rfl, hSlot, limits, hLimits, hFits⟩
  · -- The run of an earlier reservation is there, so the new run would be a duplicate.
    obtain ⟨-, rfl⟩ := completes_pure.mp hReserve
    obtain ⟨hNew, -⟩ := insert_ok hRuns
    obtain rfl : run = row.runId := Option.some.inj (hRun.symm.trans hActive)
    exact absurd (hSlots row hRow) hNew
  · obtain rfl := completes_set.mp hReserve
    obtain ⟨hNew, rfl⟩ := insert_ok hRuns
    obtain ⟨hNewJob, rfl⟩ := insert_ok hJobs
    obtain rfl : slot.runId = run := Option.some.inj (hSlot.run.symm.trans hRun)
    let attempt : Attempt := ⟨⟨slot.runId, session.id, session.version, .queued, none⟩,
      some ⟨resources.jobId, slot.runId, session.id, .queued, db.clock, none, 0, 0, answer, skip, questionId⟩, some slot⟩
    refine ⟨attempt, ⟨hSlot.run, ⟨rfl, ?_, ?_⟩, ⟨rfl, ⟨_, rfl, rfl, rfl⟩, slot, rfl, hSlot.active, hSlot.released⟩, ⟨hNew, ?_, ?_⟩,
      slot, rfl, hSlot, limits, hLimits, hFits⟩, rfl⟩
    · rintro job ⟨⟩
      exact ⟨rfl, rfl⟩
    · rintro own ⟨⟩
      exact ⟨rfl, hSlot.own, hSlot.organization, hSlot.subject, hSlot.assessments⟩
    · rintro job ⟨⟩
      exact hNewJob
    · rintro own ⟨⟩ hMem
      obtain ⟨other, hOther, hSame⟩ := List.mem_map.mp hMem
      exact hNew (hSame ▸ hSlots other hOther)

/-- A further run of a session, with the session that asked for it. -/
theorem requeue_commit (hSound : db.work.Sound db.clock) {t : Thread} (hShows : Shows db.work t) (hValid : t.Valid db.clock)
    {attempt : Attempt} (hNext : t.session.Requeued attempt.run.id session) (hEnqueued : Enqueued db resources session attempt)
    (hId : session.id = t.id) {events : List StateEvent} (hSaved : Saved db session resources.stateEventId events)
    (hClock : db'.clock = db.clock) (hQuotas : db'.quotas = db.quotas)
    (hSessions : db'.sessions = storeSession db.sessions session) (hEvents : db'.events = events)
    (hCalls : db'.calls = db.calls) (hRuns : db'.runs = db.runs ++ [attempt.run])
    (hJobs : db'.jobs = db.jobs ++ attempt.job.toList) (hSlots : db'.reservations = db.reservations ++ attempt.slot.toList)
    (hLeases : db'.leases = db.leases) (hArtifacts : db'.artifacts = db.artifacts) :
    Commit db db' resources t ({ t with session }.extend attempt) := by
  obtain ⟨hStored, hThread⟩ := hShows.stored hSound.tidy hId
  have hFor : attempt.For t.id := by
    rw [← hId]
    exact hEnqueued.linked.for
  have hKnown : t.id ∈ (db.work.sessions.map (onKey Session.id session.id fun _ => session)).map Session.id := by
    have hMem := (lookup_some hThread.session).1
    have hSame : ({ t with session } : Thread).session.id = t.id := hId
    rw [← hSame]
    exact List.mem_map_of_mem hMem
  have hExtended := hStored.tidy.extend_moves hFor ⟨hEnqueued.new.run, hEnqueued.new.job, hEnqueued.new.slot⟩ hKnown
  have hLast := hThread.extend hFor hId
  have hWork : db'.work = { db.work with
      sessions := db.work.sessions.map (onKey Session.id session.id fun _ => session) : Work }.extend attempt := by
    rw [Database.work, hSessions, storeSession_sessions, hRuns, hJobs, hSlots, hLeases, hArtifacts]
    rfl
  rw [← hWork] at hExtended hLast
  refine ⟨⟨hShows, hValid, .requeued hNext hEnqueued.linked hEnqueued.queued, hLast, hStored.trans hExtended⟩, hClock, hQuotas,
    hSessions, .inr (hEvents ▸ hSaved), hCalls, ?_⟩
  obtain ⟨slot, hSlot, hNew, hAdmitted⟩ := hEnqueued.admitted
  rw [hSlots, hSlot]
  exact .added hNew hAdmitted

end Queue

/-! Keys, questions and retries are apart. -/

/-- Two databases with the same work, calls and events. -/
structure Alike (db other : Database) : Prop where
  clock : db.clock = other.clock
  quotas : db.quotas = other.quotas
  sessions : db.sessions = other.sessions
  events : db.events = other.events
  calls : db.calls = other.calls
  work : db.work = other.work

section Changes

variable {db db' : Database} {resources : Resources}

theorem reserve_completes {scope key requestHash : String} {previous : Option Receipt}
    (h : Completes (Database.reserve scope key requestHash) db previous db') :
    Alike db db' ∧ db'.retries = db.retries ∧ (previous.isSome = true → db' = db) := by
  simp only [Database.reserve, completes_bind, completes_get] at h
  obtain ⟨_, _, ⟨rfl, rfl⟩, h⟩ := h
  cases hRow : lookup IdempotencyRow.identity db.idempotency (scope, key) with
  | none =>
      simp only [hRow, completes_bind, completes_set, completes_pure] at h
      obtain ⟨_, _, rfl, rfl, rfl⟩ := h
      exact ⟨⟨rfl, rfl, rfl, rfl, rfl, rfl⟩, rfl, fun hSome => absurd hSome Bool.false_ne_true⟩
  | some row =>
      simp only [hRow, completes_bind, completes_refuseUnless, completes_pure] at h
      obtain ⟨_, _, ⟨-, rfl⟩, rfl, rfl⟩ := h
      exact ⟨⟨rfl, rfl, rfl, rfl, rfl, rfl⟩, rfl, fun _ => rfl⟩

theorem receipt_completes {scope key : String} {receipt : Receipt} {value : Unit}
    (h : Completes (Database.receipt scope key receipt) db value db') : Alike db db' ∧ db'.retries = db.retries := by
  rw [Database.receipt, completes_modify] at h
  subst h
  exact ⟨⟨rfl, rfl, rfl, rfl, rfl, rfl⟩, rfl⟩

/-- What is apart does not matter to a commit. -/
theorem Commit.congr {first last : Database} {t t' : Thread} (h : Commit first last resources t t')
    (hFirst : Alike db first) (hLast : Alike last db') : Commit db db' resources t t' := by
  obtain ⟨hTakes, hClock, hQuotas, hSessions, hEvents, hCalls, hSlots⟩ := h
  rw [← hFirst.clock, ← hFirst.work, hLast.work] at hTakes
  refine ⟨hTakes, ?_, ?_, ?_, ?_, ?_, ?_⟩
  · rw [← hLast.clock, hClock, hFirst.clock]
  · rw [← hLast.quotas, hQuotas, hFirst.quotas]
  · rw [← hLast.sessions, hSessions, hFirst.sessions]
  · rcases hEvents with ⟨hSame, hKept⟩ | hSaved
    · exact .inl ⟨hSame, by rw [← hLast.events, hKept, hFirst.events]⟩
    · right
      rw [← hLast.events]
      exact hSaved.congr hFirst.sessions.symm hFirst.events.symm
  · rw [← hLast.calls, hCalls, hFirst.calls]
  · rw [show db'.reservations = last.reservations from (congrArg Work.slots hLast.work).symm]
    exact hSlots.congr hFirst.quotas.symm (congrArg Work.slots hFirst.work).symm

theorem Alike.sound (h : Alike db db') (hSound : db.work.Sound db.clock) : db'.work.Sound db'.clock := by
  rw [← h.work, ← h.clock]
  exact hSound

theorem recordAnswer_completes {session : Session} {actor : Actor} {command : AnswerCommand} {value : Unit}
    (h : Completes (recordAnswer (mysqlUnitOfWork resources) session actor command) db value db') :
    Alike db db' ∧ db'.retries = db.retries := by
  simp only [recordAnswer, mysqlUnitOfWork, completes_bind, completes_refuseUnless, Database.question, completes_get,
    completes_demand, Database.answer, completes_modify] at h
  obtain ⟨_, _, ⟨-, rfl⟩, _, _, ⟨-, rfl⟩, question, _, ⟨_, _, ⟨rfl, rfl⟩, -, rfl⟩, _, _, ⟨-, rfl⟩, _, _, ⟨-, rfl⟩, rfl⟩ := h
  exact ⟨⟨rfl, rfl, rfl, rfl, rfl, rfl⟩, rfl⟩

theorem cancelJobs_completes {session : Session} {value : Unit} (hSnapshot : session.usesQsSnapshot = true)
    (h : Completes (Database.cancelJobs resources session) db value db') : db' = { db with
      jobs := db.jobs.map fun job =>
        if job.sessionId = session.id ∧ (job.status = .queued ∨ job.status = .leased) then { job with status := .cancelled } else job
      runs := db.runs.map fun run =>
        if run.sessionId = session.id ∧ (run.status = .queued ∨ run.status = .running) then { run with status := .cancelled } else run
      leases := db.leases.map (onKey (·.threadId) session.id (Edit.revoke db.clock))
      reservations := db.reservations.map (releasing resources.time session) } := by
  rw [Database.cancelJobs, if_pos hSnapshot] at h
  simp only [completes_bind, completes_modify, Database.releaseCapacity] at h
  obtain ⟨_, _, rfl, rfl⟩ := h
  rfl

theorem session_completes {sessionId : String} {session : Session} (h : Completes (Database.session sessionId) db session db') :
    db = db' ∧ ∃ row, db.row sessionId = some row ∧ row.session = session := by
  simp only [Database.session, completes_bind, completes_get, completes_demand, completes_pure] at h
  obtain ⟨_, _, ⟨rfl, rfl⟩, row, _, ⟨hRow, rfl⟩, rfl, rfl⟩ := h
  exact ⟨rfl, row, hRow, rfl⟩

theorem cancel_commit (hSound : db.work.Sound db.clock) {t : Thread} (hShows : Shows db.work t) (hValid : t.Valid db.clock)
    {next : Session} {middle saved : Database} {value other : Unit} (hNext : t.session.cancel = .ok next)
    (hCancel : Completes (Database.cancelJobs resources next) db value middle)
    (hSave : Completes (Database.save resources.stateEventId next) middle other saved) :
    Commit db saved resources t (t.edit (.cancelled db.clock resources.time next)) ∧ saved.retries = db.retries := by
  have hFacts : next.Finished t.session := by
    obtain ⟨-, rfl⟩ := Session.cancel_ok hNext
    exact ⟨⟨rfl, rfl, rfl, rfl⟩, rfl, Nat.lt_succ_self _⟩
  obtain rfl := cancelJobs_completes (hFacts.follows.snapshot.trans hValid.snapshot) hCancel
  obtain ⟨events, hSaved, rfl⟩ := Database.save_completes hSave
  obtain ⟨hMoves, hThread⟩ := cancelling_moves hSound hShows hValid hFacts.follows.id resources.time
  have hReleased := releasing_rows hSound hShows hValid hFacts.active hFacts.follows.actor resources.time
  rw [hReleased]
  refine ⟨⟨⟨hShows, hValid, .cancelled resources.time hNext, ?_, ?_⟩, rfl, rfl, rfl, .inr (hSaved.congr rfl rfl), rfl,
    .released t.current.run.id resources.time⟩, rfl⟩
  · rw [work_mk]
    exact hThread
  · rw [work_mk]
    exact hMoves

/-- The session that a request leaves. -/
structure Session.Asked (next session : Session) : Prop where
  version : session.version < next.version
  status : next.status ≠ .completed

/-- An answer or a retry: the session is stored after its run is queued. -/
theorem enqueue_commit (hSound : db.work.Sound db.clock) {t : Thread} (hShows : Shows db.work t) (hValid : t.Valid db.clock)
    {next : Session} {runId : String} (hNext : t.session.Requeued runId next) {answer : Option String} {skip : Bool}
    {questionId : Option String} {middle saved : Database} {value other : Unit}
    (hEnqueue : Completes (Database.enqueue resources next answer skip questionId) db value middle)
    (hSave : Completes (Database.save resources.stateEventId next) middle other saved) :
    ∃ attempt, Enqueued db resources next attempt ∧ next.Follows t.session ∧ next.Asked t.session ∧
      attempt.run.id = runId ∧ Commit db saved resources t ({ t with session := next }.extend attempt) ∧
      saved.retries = db.retries := by
  have hFacts : next.Follows t.session ∧ next.Asked t.session ∧ next.activeRunId = some runId := by
    rcases hNext with ⟨question, hQueue⟩ | ⟨previous, hRetry⟩
    · obtain ⟨-, rfl⟩ := Session.queue_ok hQueue
      exact ⟨⟨rfl, rfl, rfl, rfl⟩, ⟨Nat.lt_succ_self _, by simp⟩, rfl⟩
    · obtain ⟨-, -, rfl⟩ := Session.retry_ok hRetry
      exact ⟨⟨rfl, rfl, rfl, rfl⟩, ⟨Nat.lt_succ_self _, by simp⟩, rfl⟩
  obtain ⟨hFollows, hLater, hActive⟩ := hFacts
  obtain ⟨attempt, hEnqueued, rfl⟩ :=
    enqueue_completes (hFollows.snapshot.trans hValid.snapshot) (fun slot hSlot => hSound.run_of_slot hSlot) hEnqueue
  obtain ⟨events, hSaved, rfl⟩ := Database.save_completes hSave
  obtain rfl : attempt.run.id = runId := Option.some.inj (hEnqueued.active.symm.trans hActive)
  exact ⟨attempt, hEnqueued, hFollows, hLater, rfl,
    requeue_commit hSound hShows hValid hNext hEnqueued hFollows.id (hSaved.congr rfl rfl) rfl rfl rfl rfl rfl rfl rfl rfl rfl
      rfl, rfl⟩

/-- A change that commits takes its session a step further. -/
theorem applyChange_commit (hSound : db.work.Sound db.clock) {runId : String} {actor : Actor} {sessionId : String}
    {command : ChangeCommand} {scope key : String} {receipt : Receipt}
    (h : Completes (applyChange (mysqlUnitOfWork resources) runId actor sessionId command scope key) db receipt db') :
    ∃ t t', t.id = sessionId ∧ Commit db db' resources t t' ∧ t'.session.Asked t.session ∧
      db'.retries = db.retries := by
  simp only [applyChange, completes_bind, completes_refuseUnless, completes_pure] at h
  obtain ⟨session, _, hGet, _, _, ⟨-, rfl⟩, next, middle, hChange, _, saved, hSave, _, last, hReceipt, _, _, hCommit, rfl, rfl⟩ := h
  obtain ⟨rfl, row, hRow, rfl⟩ := session_completes hGet
  obtain ⟨t, hSession, hId, hShows, hValid⟩ := hSound.of_row hRow
  obtain ⟨-, rfl⟩ := completes_pure.mp hCommit
  obtain ⟨hLast, hRetries⟩ := receipt_completes hReceipt
  rw [← hSession] at hChange
  cases command with
  | cancel version =>
      simp only [changeSession, completes_bind, completes_lift, completes_pure] at hChange
      obtain ⟨cancelled, _, ⟨hNext, rfl⟩, _, _, hCancel, rfl, rfl⟩ := hChange
      obtain ⟨hCommitted, hSame⟩ := cancel_commit hSound hShows hValid hNext hCancel hSave
      have hLater : cancelled.Asked t.session := by
        obtain ⟨-, rfl⟩ := Session.cancel_ok hNext
        exact ⟨Nat.lt_succ_self _, by simp⟩
      exact ⟨t, _, hId, hCommitted.congr ⟨rfl, rfl, rfl, rfl, rfl, rfl⟩ hLast, hLater, hRetries.trans hSame⟩
  | answer command =>
      simp only [changeSession, completes_bind, completes_lift, completes_pure] at hChange
      obtain ⟨_, asked, hAnswer, queued, _, ⟨hNext, rfl⟩, _, enqueued, hEnqueue, rfl, rfl⟩ := hChange
      obtain ⟨hAlike, hAsked⟩ := recordAnswer_completes hAnswer
      have hOrder := hAlike.sound hSound
      rw [hAlike.work] at hShows
      rw [hAlike.clock] at hValid
      obtain ⟨attempt, -, -, hLater, -, hCommitted, hSame⟩ :=
        enqueue_commit hOrder hShows hValid (.inl ⟨_, hNext⟩) hEnqueue hSave
      exact ⟨t, _, hId, hCommitted.congr hAlike hLast, hLater, hRetries.trans (hSame.trans hAsked)⟩

/-- A change commits as a replay of its receipt or as a step of its session. -/
theorem change_commit {library : Library} (hSound : db.work.Sound db.clock) {runId : String} {actor : Actor} {sessionId : String}
    {command : ChangeCommand} {scope key : String} {receipt : Receipt}
    (h : Completes (Interpretation.change library (mysqlUnitOfWork resources) runId actor sessionId command scope key) db receipt db') :
    db' = db ∨ ∃ t t', t.id = sessionId ∧ Commit db db' resources t t' ∧ t'.session.Asked t.session ∧
      db'.retries = db.retries := by
  simp only [Interpretation.change, completes_bind] at h
  obtain ⟨previous, middle, hReserve, h⟩ := h
  obtain ⟨hAlike, hRetries, hSame⟩ := reserve_completes hReserve
  cases previous with
  | some earlier =>
      obtain ⟨-, rfl⟩ := completes_pure.mp h
      exact .inl (hSame rfl)
  | none =>
      obtain ⟨t, t', hId, hCommit, hLater, hKept⟩ := applyChange_commit (hAlike.sound hSound) h
      exact .inr ⟨t, t', hId, hCommit.congr hAlike ⟨rfl, rfl, rfl, rfl, rfl, rfl⟩, hLater, hKept.trans hRetries⟩

/-! Retries. -/

theorem checkRetry_ok {library : Library} {session : Session} {command : ParticipantRetry} {requestId : String}
    {frozen : Option String} (h : checkRetry library db session command = .ok (requestId, frozen)) :
    frozen = frozenRequest db command.expectedRunId session.id ∧
      ((callOf db command.expectedRunId).any (·.status.uncertain) = true → command.acceptResultUnknownRisk = true) := by
  simp only [checkRetry, Guarded.bind_ok] at h
  obtain ⟨_, -, h⟩ := h
  cases hRequest : (db.row session.id).bind (·.requestId) with
  | none => simp [hRequest, bind, Except.bind] at h
  | some found =>
      simp only [hRequest, Guarded.bind_ok, Except.ok.injEq] at h
      obtain ⟨_, rfl, _, -, h⟩ := h
      split at h
      · cases h
      · next hRisk =>
          split at h
          · cases h
          · split at h
            · cases h
            · cases h
              refine ⟨rfl, fun hUncertain => ?_⟩
              by_contra hAccept
              exact hRisk ⟨hUncertain, by simpa using hAccept⟩

/-- What is on record of a committed retry. -/
structure RetryRow.Of (row : RetryRow) (db : Database) (t t' : Thread) : Prop where
  session : row.sessionId = t.id
  organization : row.organizationId = organizationNumber t.session.actor.orgId
  source : row.sourceRunId = t.current.run.id
  run : row.runId = t'.current.run.id
  blocked : t.session.status = .blocked
  frozen : row.frozenRequestJson = frozenRequest db row.sourceRunId row.sessionId
  risk : (callOf db row.sourceRunId).any (·.status.uncertain) = true → row.acceptedUnknownRisk = true
  newSource : ∀ other ∈ db.retries, other.sourceRunId ≠ row.sourceRunId
  newRun : ∀ other ∈ db.retries, other.runId ≠ row.runId
  fresh : row.runId ∉ db.work.runs.map (·.id)

theorem recordRetry_completes {row : RetryRow} {value : Unit} (h : Completes (recordRetry row) db value db') :
    Alike db db' ∧ db'.retries = db.retries ++ [row] ∧
      ∀ other ∈ db.retries, other.sourceRunId ≠ row.sourceRunId ∧ other.runId ≠ row.runId := by
  simp only [recordRetry, completes_bind, completes_get, completes_refuseUnless, completes_set] at h
  obtain ⟨_, _, ⟨rfl, rfl⟩, _, _, ⟨hNew, rfl⟩, rfl⟩ := h
  exact ⟨⟨rfl, rfl, rfl, rfl, rfl, rfl⟩, rfl, fun other hOther => (hNew other hOther).2⟩

theorem Alike.trans {middle : Database} (h : Alike db middle) (h' : Alike middle db') : Alike db db' :=
  ⟨h.clock.trans h'.clock, h.quotas.trans h'.quotas, h.sessions.trans h'.sessions, h.events.trans h'.events,
    h.calls.trans h'.calls, h.work.trans h'.work⟩

theorem applyRetry_commit {library : Library} (hSound : db.work.Sound db.clock) {newRun : String} {command : ParticipantRetry}
    {scope : String} {receipt : Receipt} (h : Completes (applyRetry library resources newRun command scope) db receipt db') :
    ∃ t t' row, t.id = command.sessionId ∧ Commit db db' resources t t' ∧ t'.session.Asked t.session ∧
      db'.retries = db.retries ++ [row] ∧ row.Of db t t' := by
  simp only [applyRetry, completes_bind, completes_refuseUnless, completes_get, completes_lift, completes_pure] at h
  obtain ⟨session, _, hGet, _, _, ⟨hOrganization, rfl⟩, _, _, ⟨-, rfl⟩, _, _, ⟨rfl, rfl⟩, ⟨requestId, frozen⟩, _, ⟨hCheck, rfl⟩,
    next, _, ⟨hNext, rfl⟩, _, enqueued, hEnqueue, _, saved, hSave, _, recorded, hRecord, _, last, hReceipt, rfl, rfl⟩ := h
  obtain ⟨rfl, row, hRow, rfl⟩ := session_completes hGet
  obtain ⟨t, hSession, hId, hShows, hValid⟩ := hSound.of_row hRow
  rw [← hSession] at hOrganization hCheck hNext hRecord
  obtain ⟨hFrozen, hRisk⟩ := checkRetry_ok hCheck
  obtain ⟨hStatus, hActive, -⟩ := Session.retry_ok hNext
  rw [hValid.active, Option.some.injEq] at hActive
  obtain ⟨attempt, hEnqueued, -, hLater, hRun, hCommitted, hSame⟩ := enqueue_commit hSound hShows hValid (.inr ⟨_, hNext⟩) hEnqueue hSave
  obtain ⟨hRecorded, hRetries, hNew⟩ := recordRetry_completes hRecord
  obtain ⟨hLast, hKept⟩ := receipt_completes hReceipt
  rw [hSame] at hNew
  have hRows := hKept.trans (hRetries.trans (congrArg (· ++ _) hSame))
  exact ⟨t, _, _, hId, hCommitted.congr ⟨rfl, rfl, rfl, rfl, rfl, rfl⟩ (hRecorded.trans hLast), hLater, hRows,
    ⟨rfl, hOrganization.symm, hActive.symm, hRun.symm, hStatus, hFrozen, hRisk, fun other hOther => (hNew other hOther).1,
      fun other hOther => (hNew other hOther).2, hRun ▸ hEnqueued.new.run⟩⟩

/-- A retry commits as a replay of its receipt or as a step of its session. -/
theorem retry_commit {library : Library} (hSound : db.work.Sound db.clock) {newRun : String} {command : ParticipantRetry}
    {receipt : Receipt} (h : Completes (Interpretation.retry library resources newRun command) db receipt db') :
    db' = db ∨ ∃ t t' row, t.id = command.sessionId ∧ Commit db db' resources t t' ∧
      t'.session.Asked t.session ∧ db'.retries = db.retries ++ [row] ∧ row.Of db t t' := by
  simp only [Interpretation.retry, completes_bind] at h
  obtain ⟨previous, middle, hReserve, h⟩ := h
  obtain ⟨hAlike, hRetries, hSame⟩ := reserve_completes hReserve
  cases previous with
  | some earlier =>
      obtain ⟨-, rfl⟩ := completes_pure.mp h
      exact .inl (hSame rfl)
  | none =>
      obtain ⟨t, t', row, hId, hCommit, hLater, hKept, hRow⟩ := applyRetry_commit (hAlike.sound hSound) h
      refine .inr ⟨t, t', row, hId, hCommit.congr hAlike ⟨rfl, rfl, rfl, rfl, rfl, rfl⟩, hLater, hKept.trans (by rw [hRetries]), ?_⟩
      have hCalls : ∀ runId, callOf middle runId = callOf db runId := by
        intro runId
        rw [callOf, callOf, hAlike.calls]
      have hFrozen : ∀ runId sessionId, frozenRequest middle runId sessionId = frozenRequest db runId sessionId := by
        intro runId sessionId
        rw [frozenRequest, frozenRequest, hCalls, inherited, inherited, hRetries]
      exact { hRow with
        frozen := hRow.frozen.trans (hFrozen _ _)
        risk := by
          rw [← hCalls]
          exact hRow.risk
        newSource := by
          rw [← hRetries]
          exact hRow.newSource
        fresh := by
          rw [hAlike.work]
          exact hRow.fresh
        newRun := by
          rw [← hRetries]
          exact hRow.newRun }

end Changes

/-! New sessions. -/

section Starts

variable {db db' : Database} {resources : Resources} {session : Session}

theorem insert_error {α : Type} {key : α → String} {rows : List α} {row : α} {refusal : Refusal}
    (h : Database.insert key rows row = .error refusal) : refusal = .fault "duplicate primary key" := by
  unfold Database.insert at h
  split at h
  · cases h
    rfl
  · cases h

theorem reserveSnapshot_raises {refusal : Refusal} (h : Raises (Database.reserveSnapshot resources session) db refusal db') :
    db = db' := by
  simp only [Database.reserveSnapshot, raises_ite, Database.reserveCapacity, raises_bind, raises_get, raises_lift, completes_get,
    completes_lift, raises_pure, and_false, or_false, false_or] at h
  obtain ⟨-, _, _, ⟨rfl, rfl⟩, ⟨-, rfl⟩ | ⟨found, _, ⟨-, rfl⟩, h⟩⟩ := h
  · rfl
  · cases found with
    | none => exact absurd h raises_pure
    | some row => exact absurd h raises_set

theorem enqueueRun_raises {answer : Option String} {skip : Bool} {questionId : Option String} {refusal : Refusal}
    (h : Raises (Database.enqueueRun resources session answer skip questionId) db refusal db') : ∃ reason, refusal = .fault reason := by
  simp only [Database.enqueueRun, raises_bind, raises_get, raises_lift, raises_demand, raises_set, completes_get, completes_demand,
    completes_lift, false_or, and_false, exists_false, or_false] at h
  obtain ⟨_, _, ⟨rfl, rfl⟩, ⟨-, rfl, -⟩ | ⟨run, _, ⟨-, rfl⟩, ⟨hRuns, -⟩ | ⟨runs, _, ⟨-, rfl⟩, hJobs, -⟩⟩⟩ := h
  · exact ⟨_, rfl⟩
  · exact ⟨_, insert_error hRuns⟩
  · exact ⟨_, insert_error hJobs⟩

/-- Only a fault leaves a reservation without its run. -/
theorem enqueue_raises {answer : Option String} {skip : Bool} {questionId : Option String} {refusal : Refusal}
    (h : Raises (Database.enqueue resources session answer skip questionId) db refusal db') :
    (∃ reason, refusal = .fault reason) ∨ db = db' := by
  rw [Database.enqueue, raises_bind] at h
  rcases h with hReserve | ⟨_, middle, -, hRun⟩
  · exact .inr (reserveSnapshot_raises hReserve)
  · exact .inl (enqueueRun_raises hRun)

/-- An admission is refused before the first run is queued. -/
theorem enqueueFirst_raises {code : String} (h : Raises (enqueueFirst (mysqlUnitOfWork resources) session) db (.rejected code) db') :
    db = db' := by
  rw [enqueueFirst, raises_tryCatch] at h
  obtain ⟨raised, middle, hEnqueue, hHandler⟩ := h
  have hSame : middle = db' := by
    split at hHandler
    · exact (raises_throw.mp hHandler).2
    · exact (raises_throw.mp hHandler).2
  rcases enqueue_raises hEnqueue with ⟨reason, rfl⟩ | rfl
  · cases (raises_throw.mp hHandler).1
  · exact hSame

theorem enqueueFirst_completes {value : Unit} (h : Completes (enqueueFirst (mysqlUnitOfWork resources) session) db value db') :
    Completes (Database.enqueue resources session none false none) db value db' := by
  rw [enqueueFirst, completes_tryCatch] at h
  rcases h with hEnqueue | ⟨raised, middle, -, hHandler⟩
  · exact hEnqueue
  · split at hHandler
    · exact absurd hHandler completes_throw
    · exact absurd hHandler completes_throw

theorem bindConfiguration_completes {expected : Option PlannedConfiguration} {evidence : EvidenceSet} {value : Unit}
    (h : Completes (Database.bindConfiguration expected session evidence) db value db') :
    Alike db db' ∧ db'.retries = db.retries := by
  simp only [Database.bindConfiguration, completes_bind, completes_get, completes_lift, completes_refuseUnless, completes_set] at h
  obtain ⟨_, _, ⟨rfl, rfl⟩, planned, _, ⟨-, rfl⟩, _, _, ⟨-, rfl⟩, rows, _, ⟨-, rfl⟩, rfl⟩ := h
  exact ⟨⟨rfl, rfl, rfl, rfl, rfl, rfl⟩, rfl⟩

theorem bindConfiguration_raises {expected : Option PlannedConfiguration} {evidence : EvidenceSet} {refusal : Refusal}
    (h : Raises (Database.bindConfiguration expected session evidence) db refusal db') : db = db' := by
  simp only [Database.bindConfiguration, raises_bind, raises_get, raises_lift, raises_refuseUnless, raises_set, completes_get,
    completes_lift, completes_refuseUnless, false_or, and_false, exists_false, or_false] at h
  obtain ⟨_, _, ⟨rfl, rfl⟩, ⟨-, rfl⟩ | ⟨planned, _, ⟨-, rfl⟩, ⟨-, -, rfl⟩ | ⟨_, _, ⟨-, rfl⟩, -, rfl⟩⟩⟩ := h
  · rfl
  · rfl
  · rfl

theorem refusable_completes {program : Program Database Unit} {refused : Option String}
    (h : Completes (refusable program) db refused db') :
    (refused = none ∧ ∃ value, Completes program db value db') ∨ ∃ code, refused = some code ∧ Raises program db (.rejected code) db' := by
  simp only [refusable, completes_tryCatch, completes_bind, completes_pure, raises_bind, raises_pure, exists_false, and_false,
    or_false] at h
  rcases h with ⟨value, _, hProgram, rfl, rfl⟩ | ⟨refusal, middle, hRaises, hHandler⟩
  · exact .inl ⟨rfl, value, hProgram⟩
  · cases refusal with
    | rejected code =>
        obtain ⟨rfl, rfl⟩ := completes_pure.mp hHandler
        exact .inr ⟨code, rfl, hRaises⟩
    | _ => exact absurd hHandler completes_throw

theorem addEvidence_completes {evidence : EvidenceSet} {value : Unit} (h : Completes (Database.addEvidence evidence) db value db') :
    Alike db db' ∧ db'.retries = db.retries := by
  simp only [Database.addEvidence, completes_bind, completes_get, completes_refuseUnless, completes_lift, completes_set] at h
  obtain ⟨_, _, ⟨rfl, rfl⟩, _, _, ⟨-, rfl⟩, rows, _, ⟨-, rfl⟩, rfl⟩ := h
  exact ⟨⟨rfl, rfl, rfl, rfl, rfl, rfl⟩, rfl⟩

/-- An admission queues the first run of its session, or it is refused before. -/
theorem admitSession_completes {library : Library} {evidenceId : String} {command : StartCommand} {admitted : Session × Option String}
    (h : Completes (admitSession library (mysqlUnitOfWork resources) evidenceId session command) db admitted db') :
    ∃ evidenceSetId, admitted.1 = { session with evidenceSetId } ∧ ∃ middle, Alike db middle ∧ middle.retries = db.retries ∧
      ((∃ code, admitted.2 = some code ∧ db' = middle) ∨
        (admitted.2 = none ∧ ∃ value, Completes (Database.enqueue resources admitted.1 none false none) middle value db')) := by
  unfold admitSession at h
  cases hEvidence : validateEvidence command.evidence command.testeeId command.assessmentIds with
  | error refusal =>
      rw [hEvidence] at h
      obtain ⟨rfl, rfl⟩ := completes_pure.mp h
      exact ⟨session.evidenceSetId, rfl, db, ⟨rfl, rfl, rfl, rfl, rfl, rfl⟩, rfl, .inl ⟨_, rfl, rfl⟩⟩
  | ok _ =>
      simp only [hEvidence, completes_bind, completes_pure] at h
      obtain ⟨_, stored, hStored, refused, _, hRefused, rfl, rfl⟩ := h
      obtain ⟨hAlike, hRetries⟩ := addEvidence_completes hStored
      refine ⟨_, rfl, ?_⟩
      rcases refusable_completes hRefused with ⟨rfl, value, hProgram⟩ | ⟨code, rfl, hRaises⟩
      · obtain ⟨_, bound, hBound, hFirst⟩ := completes_bind.mp hProgram
        obtain ⟨hSame, hKept⟩ := bindConfiguration_completes hBound
        exact ⟨bound, hAlike.trans hSame, hKept.trans hRetries, .inr ⟨rfl, value, enqueueFirst_completes hFirst⟩⟩
      · rcases raises_bind.mp hRaises with hBind | ⟨_, bound, hBound, hFirst⟩
        · obtain rfl := bindConfiguration_raises hBind
          exact ⟨stored, hAlike, hRetries, .inl ⟨code, rfl, rfl⟩⟩
        · obtain ⟨hSame, hKept⟩ := bindConfiguration_completes hBound
          obtain rfl := enqueueFirst_raises hFirst
          exact ⟨bound, hAlike.trans hSame, hKept.trans hRetries, .inl ⟨code, rfl, rfl⟩⟩

/-- What a transaction leaves that opened a session. -/
structure Opened (db db' : Database) (resources : Resources) (t : Thread) : Prop where
  new : t.id ∉ db.work.sessions.map Session.id
  valid : t.Valid db.clock
  shows : Shows db'.work t
  moves : Moves db.work db'.work t.id
  first : t.past = [] ∧ t.lease = none ∧ t.artifact = none
  unasked : t.session.currentQuestionId = none
  clock : db'.clock = db.clock
  sessions : ∃ requestId, db'.sessions = db.sessions ++ [⟨t.session, some requestId⟩]
  events : (db'.events = db.events ∧
      ∃ other ∈ db.events, other.eventId = resources.stateEventId ∨
        (other.sessionId = t.id ∧ other.version = t.session.version)) ∨
    ∃ event, event.Added db.events (some event.requestId) t.session resources.stateEventId ∧
      db'.events = db.events ++ [event] ∧ db'.sessions = db.sessions ++ [⟨t.session, some event.requestId⟩]
  quotas : db'.quotas = db.quotas
  calls : db'.calls = db.calls
  retries : db'.retries = db.retries
  slots : SlotStep db resources t.session db'.reservations

theorem Opened.congr {first last : Database} {t : Thread} (h : Opened first last resources t)
    (hFirst : Alike db first) (hFirstRetries : first.retries = db.retries) (hLast : Alike last db')
    (hLastRetries : db'.retries = last.retries) : Opened db db' resources t where
  new := by
    rw [hFirst.work]
    exact h.new
  valid := by
    rw [hFirst.clock]
    exact h.valid
  shows := by
    rw [← hLast.work]
    exact h.shows
  moves := by
    rw [hFirst.work, ← hLast.work]
    exact h.moves
  first := h.first
  unasked := h.unasked
  clock := by rw [← hLast.clock, h.clock, hFirst.clock]
  sessions := by
    rw [← hLast.sessions, hFirst.sessions]
    exact h.sessions
  events := by
    rw [← hLast.events, hFirst.events, ← hLast.sessions, hFirst.sessions]
    exact h.events
  quotas := by rw [← hLast.quotas, h.quotas, hFirst.quotas]
  calls := by rw [← hLast.calls, h.calls, hFirst.calls]
  retries := by rw [hLastRetries, h.retries, hFirstRetries]
  slots := by
    rw [show db'.reservations = last.reservations from (congrArg Work.slots hLast.work).symm]
    exact h.slots.congr hFirst.quotas.symm (congrArg Work.slots hFirst.work).symm

theorem publishedWorkflowVersion_snapshot (library : Library) (evidence : List EvidenceItem) (session : Session) :
    { session with workflowVersion := publishedWorkflowVersion library evidence }.usesQsSnapshot = true := by
  have hVersion : publishedWorkflowVersion library evidence = "qs-published-snapshot-v2" ∨
      publishedWorkflowVersion library evidence = "qs-published-snapshot-v1" := by
    unfold publishedWorkflowVersion
    repeat' split
    all_goals simp
  rcases hVersion with hVersion | hVersion
  · simp [Session.usesQsSnapshot, Session.usesPublishedSnapshot, hVersion]
  · simp [Session.usesQsSnapshot, Session.usesPublishedSnapshot, hVersion]

/-- The session is stored with its request, and nothing else is. -/
theorem storeSession_snoc {rows : List SessionRow} {session next : Session} {requestId : Option String} (hId : next.id = session.id)
    (hNew : session.id ∉ rows.map SessionRow.id) :
    storeSession (rows ++ [⟨session, requestId⟩]) next = rows ++ [⟨next, requestId⟩] := by
  rw [storeSession, List.map_append]
  congr 1
  · conv_rhs => rw [← List.map_id rows]
    refine List.map_congr_left fun row hRow => if_neg fun hSame => hNew ?_
    rw [← hId, ← hSame]
    exact List.mem_map_of_mem hRow
  · exact congrArg (fun row => [row]) (if_pos hId.symm)

theorem add_completes {value : Unit} (h : Completes (Database.add session) db value db') :
    session.id ∉ db.sessions.map SessionRow.id ∧ db' = { db with sessions := db.sessions ++ [⟨session, none⟩] } := by
  simp only [Database.add, completes_bind, completes_get, completes_lift, completes_set] at h
  obtain ⟨_, _, ⟨rfl, rfl⟩, rows, _, ⟨hRows, rfl⟩, rfl⟩ := h
  obtain ⟨hNew, rfl⟩ := insert_ok hRows
  exact ⟨hNew, rfl⟩

theorem bindRequest_completes (session : Session) {requestId : String} {value : Unit} {rows : List SessionRow} {sessionId : String}
    (hId : session.id = sessionId) (hNew : session.id ∉ rows.map SessionRow.id) (hRows : db.sessions = rows ++ [⟨session, none⟩])
    (h : Completes (Database.bindRequest sessionId requestId) db value db') :
    db' = { db with sessions := rows ++ [⟨session, some requestId⟩] } := by
  simp only [Database.bindRequest, completes_bind, completes_get, completes_demand, completes_refuseUnless, completes_set] at h
  obtain ⟨_, _, ⟨rfl, rfl⟩, row, _, ⟨hRow, rfl⟩, _, _, ⟨-, rfl⟩, _, _, ⟨-, rfl⟩, rfl⟩ := h
  have hFound : row = ⟨session, none⟩ := by
    have hOwn : SessionRow.id ⟨session, none⟩ = sessionId := hId
    rw [Database.row, hRows, lookup_snoc, if_pos hOwn] at hRow
    have hNone : lookup SessionRow.id rows sessionId = none :=
      lookup_eq_none.mpr fun other hOther hSame => hNew (by rw [hId, ← hSame]; exact List.mem_map_of_mem hOther)
    rw [hNone] at hRow
    exact (Option.some.inj hRow).symm
  subst hFound
  have hUpdate : update SessionRow.id db.sessions ⟨session, some requestId⟩ = rows ++ [⟨session, some requestId⟩] := by
    rw [hRows, update, List.map_append]
    congr 1
    · conv_rhs => rw [← List.map_id rows]
      refine List.map_congr_left fun other hOther => if_neg fun hSame => hNew ?_
      change SessionRow.id ⟨session, some requestId⟩ ∈ _
      rw [← hSame]
      exact List.mem_map_of_mem hOther
    · exact congrArg (fun row => [row]) (if_pos rfl)
  rw [← hUpdate]

/-- The session is there with its request, and its first run is not. -/
structure Registered (db first : Database) (session : Session) (requestId : String) : Prop where
  sessions : first.sessions = db.sessions ++ [⟨session, some requestId⟩]
  clock : first.clock = db.clock
  quotas : first.quotas = db.quotas
  events : first.events = db.events
  calls : first.calls = db.calls
  retries : first.retries = db.retries
  runs : first.runs = db.runs
  jobs : first.jobs = db.jobs
  reservations : first.reservations = db.reservations
  leases : first.leases = db.leases
  artifacts : first.artifacts = db.artifacts

theorem Registered.alike {first other : Database} {requestId : String} (h : Registered db first session requestId)
    (hAlike : Alike first other) (hRetries : other.retries = first.retries) : Registered db other session requestId where
  sessions := hAlike.sessions.symm.trans h.sessions
  clock := hAlike.clock.symm.trans h.clock
  quotas := hAlike.quotas.symm.trans h.quotas
  events := hAlike.events.symm.trans h.events
  calls := hAlike.calls.symm.trans h.calls
  retries := hRetries.trans h.retries
  runs := (congrArg Work.runs hAlike.work).symm.trans h.runs
  jobs := (congrArg Work.jobs hAlike.work).symm.trans h.jobs
  reservations := (congrArg Work.slots hAlike.work).symm.trans h.reservations
  leases := (congrArg Work.leases hAlike.work).symm.trans h.leases
  artifacts := (congrArg Work.artifacts hAlike.work).symm.trans h.artifacts

/-- A session and its first attempt are stored. -/
theorem Registered.opened {first saved : Database} {requestId : String} (h : Registered db first session requestId)
    (hSound : db.work.Sound db.clock) {next : Session} (hNew : next.id ∉ db.sessions.map SessionRow.id) (hId : next.id = session.id)
    {attempt : Attempt} (hFor : attempt.For next.id) (hRows : attempt.New db.work)
    (hValid : ({ session := next, current := attempt } : Thread).Valid db.clock) (hAsked : next.currentQuestionId = none) {value : Unit}
    (hSlots : SlotStep db resources next (db.reservations ++ attempt.slot.toList))
    (hSave : Completes (Database.save resources.stateEventId next) { first with
      runs := first.runs ++ [attempt.run]
      jobs := first.jobs ++ attempt.job.toList
      reservations := first.reservations ++ attempt.slot.toList } value saved) :
    Opened db saved resources { session := next, current := attempt } := by
  have hOwn : next.id ∉ db.work.sessions.map Session.id := by
    rw [Database.work, List.map_map]
    exact hNew
  obtain ⟨hMoves, hShows⟩ := hSound.tidy.open_moves hOwn hFor hRows
  obtain ⟨events, hSaved, rfl⟩ := Database.save_completes hSave
  have hStored : storeSession first.sessions next = db.sessions ++ [⟨next, some requestId⟩] := by
    rw [h.sessions]
    exact storeSession_snoc hId (hId ▸ hNew)
  have hWork : ({ first with
      runs := first.runs ++ [attempt.run]
      jobs := first.jobs ++ attempt.job.toList
      reservations := first.reservations ++ attempt.slot.toList
      sessions := storeSession first.sessions next
      events } : Database).work = ({ db.work with sessions := db.work.sessions ++ [next] : Work }.extend attempt) := by
    rw [Database.work, hStored, List.map_append, h.runs, h.jobs, h.reservations, h.leases, h.artifacts]
    rfl
  have hRow : (Database.row { first with
      runs := first.runs ++ [attempt.run]
      jobs := first.jobs ++ attempt.job.toList
      reservations := first.reservations ++ attempt.slot.toList } next.id).bind (·.requestId) = some requestId := by
    have hNone : lookup SessionRow.id db.sessions next.id = none :=
      lookup_eq_none.mpr fun other hOther hSame => hNew (hSame ▸ List.mem_map_of_mem hOther)
    have hKey : SessionRow.id ⟨session, some requestId⟩ = next.id := hId.symm
    rw [Database.row, h.sessions, lookup_snoc, hNone, if_pos hKey]
    rfl
  rw [← hWork] at hMoves hShows
  refine ⟨hOwn, hValid, hShows, hMoves, ⟨rfl, rfl, rfl⟩, hAsked, h.clock, ⟨requestId, hStored⟩, ?_, h.quotas, h.calls, h.retries, ?_⟩
  rotate_left
  · change SlotStep db resources next (first.reservations ++ attempt.slot.toList)
    rw [h.reservations]
    exact hSlots
  rcases hSaved with ⟨rfl, hNone | hOther⟩ | ⟨event, hAdded, rfl⟩
  · rw [hRow] at hNone
    cases hNone
  · left
    rw [h.events] at hOther
    exact ⟨h.events, hOther⟩
  · right
    obtain ⟨hOf, hRequest, hIds, hVersions⟩ := hAdded
    obtain rfl : requestId = event.requestId := Option.some.inj (hRow.symm.trans hRequest)
    rw [h.events] at hIds hVersions
    exact ⟨event, ⟨hOf, rfl, hIds, hVersions⟩, by rw [h.events], hStored⟩

/-- A run that waits for a worker, in a new session. -/
theorem queued_valid {next : Session} {attempt : Attempt} {clock : Nat} (hSnapshot : next.usesQsSnapshot = true)
    (hStatus : next.status = .queued) (hActive : next.activeRunId = some attempt.run.id) (hLinked : attempt.Linked next)
    (hQueued : attempt.Queued) : ({ session := next, current := attempt } : Thread).Valid clock := by
  refine ⟨hSnapshot, hActive, ?_, ?_, Thread.phase_queued hStatus hQueued, ?_, ?_, ?_, ?_⟩
  · intro other hMem
    rw [List.mem_singleton.mp hMem]
    exact hLinked
  · rintro _ ⟨⟩
  · intro other hMem job hJob
    rw [List.mem_singleton.mp hMem] at hJob
    obtain ⟨own, hOwn, -, hAttempt⟩ := hQueued.job
    obtain rfl : own = job := Option.some.inj (hOwn.symm.trans hJob)
    omega
  · rintro _ ⟨⟩
  · simp [hStatus]
  · rintro _ ⟨⟩

/-- A run that was refused, in a new session. -/
theorem refused_valid {next : Session} {runId : String} {clock : Nat} (hSnapshot : next.usesQsSnapshot = true)
    (hStatus : next.status = .blocked) (hActive : next.activeRunId = some runId) :
    ({ session := next, current := ⟨⟨runId, next.id, next.version, next.status, none⟩, none, none⟩ } : Thread).Valid clock := by
  have hEnded : Attempt.Ended ⟨⟨runId, next.id, next.version, next.status, none⟩, none, none⟩ := by
    refine ⟨?_, ?_, ?_⟩
    · simp [hStatus]
    · rintro _ ⟨⟩
    · rintro _ ⟨⟩
  refine ⟨hSnapshot, hActive, ?_, ?_, Thread.phase_ended (.inr (.inl hStatus)) hEnded rfl, ?_, ?_, ?_, ?_⟩
  · intro other hMem
    rw [List.mem_singleton.mp hMem]
    refine ⟨rfl, ?_, ?_⟩
    · rintro _ ⟨⟩
    · rintro _ ⟨⟩
  · rintro _ ⟨⟩
  · intro other hMem job hJob
    rw [List.mem_singleton.mp hMem] at hJob
    cases hJob
  · rintro _ ⟨⟩
  · simp [hStatus]
  · rintro _ ⟨⟩

theorem rejectRun_completes {value : Unit} (h : Completes (Database.rejectRun session) db value db') :
    session.status = .blocked ∧ ∃ run, session.activeRunId = some run ∧ run ∉ db.runs.map (·.id) ∧
      db' = { db with runs := db.runs ++ [⟨run, session.id, session.version, session.status, none⟩] } := by
  simp only [Database.rejectRun, completes_bind, completes_refuseUnless, completes_get, completes_demand, completes_lift,
    completes_set] at h
  obtain ⟨_, _, ⟨⟨hStatus, -⟩, rfl⟩, _, _, ⟨rfl, rfl⟩, run, _, ⟨hRun, rfl⟩, runs, _, ⟨hRuns, rfl⟩, rfl⟩ := h
  obtain ⟨hNew, rfl⟩ := insert_ok hRuns
  exact ⟨hStatus, run, hRun, hNew, rfl⟩

/-- A session that was just created, queued with its first run. -/
theorem queue_none {runId : String} {queued : Session} (h : session.queue runId none = .ok queued) :
    queued = { session with
      activeRunId := some runId, currentQuestionId := none, status := .queued, version := session.version + 1 } := by
  simp only [Session.queue] at h
  split at h
  · cases h
    rfl
  · cases h

theorem applyStart_commit {library : Library} (hSound : db.work.Sound db.clock) {identity : IdentityRole → String}
    {command : StartCommand} {scope : String} {receipt : Receipt}
    (h : Completes (applyStart library (mysqlUnitOfWork resources) identity command scope) db receipt db') :
    ∃ t saved, Opened db saved resources t ∧ t.id = identity .session ∧ Alike saved db' ∧ db'.retries = saved.retries := by
  simp only [applyStart, completes_bind, completes_lift, completes_pure] at h
  obtain ⟨queued, _, ⟨hQueue, rfl⟩, _, added, hAdd, _, bound, hBind, ⟨admitted, refused⟩, middle, hAdmit, next, settled, hSettle,
    _, saved, hSave, _, last, hReceipt, _, _, hCommit, rfl, rfl⟩ := h
  obtain ⟨-, rfl⟩ := completes_pure.mp hCommit
  obtain ⟨hNew, rfl⟩ := add_completes hAdd
  have hBound := bindRequest_completes queued rfl hNew rfl hBind
  have hBase : Registered db bound queued command.requestId := by
    rw [hBound]
    exact ⟨rfl, rfl, rfl, rfl, rfl, rfl, rfl, rfl, rfl, rfl, rfl⟩
  obtain ⟨evidenceSetId, hAdmitted, first, hAlike, hRetries, hOutcome⟩ := admitSession_completes hAdmit
  obtain ⟨hLast, hKept⟩ := receipt_completes hReceipt
  have hRegistered := hBase.alike hAlike hRetries
  have hSession : admitted = { queued with
      workflowVersion := publishedWorkflowVersion library command.evidence, evidenceSetId } := hAdmitted
  have hSnapshot : admitted.usesQsSnapshot = true := by
    rw [hSession]
    exact publishedWorkflowVersion_snapshot library command.evidence queued
  have hId : admitted.id = queued.id := by rw [hSession]
  have hQueued := queue_none hQueue
  have hStatus : admitted.status = .queued := by rw [hSession, hQueued]
  have hAsked : admitted.currentQuestionId = none := by rw [hSession, hQueued]
  have hNext : ∀ next : Session, next.id = admitted.id → next.id = identity .session := by
    intro next hSame
    rw [hSame, hId, hQueued]
  rcases hOutcome with ⟨code, hRefused, rfl⟩ | ⟨hAccepted, _, hEnqueue⟩
  · obtain rfl : refused = some code := hRefused
    simp only [settleAdmission, completes_bind, completes_lift, completes_pure] at hSettle
    obtain ⟨running, _, ⟨hRunning, rfl⟩, blocked, _, ⟨hBlocked, rfl⟩, _, _, hReject, rfl, rfl⟩ := hSettle
    obtain ⟨-, rfl⟩ := Session.toRunning_ok hRunning
    obtain ⟨-, hBlocked⟩ := Session.block_ok hBlocked
    obtain ⟨hStatus, run, hRun, hNewRun, rfl⟩ := rejectRun_completes hReject
    have hSame : blocked.id = admitted.id := by rw [hBlocked]
    have hStays : blocked.usesQsSnapshot = true := by
      rw [hBlocked]
      exact hSnapshot
    have hRows : Attempt.New ⟨⟨run, blocked.id, blocked.version, blocked.status, none⟩, none, none⟩ db.work := by
      refine ⟨?_, ?_, ?_⟩
      · rwa [hRegistered.runs] at hNewRun
      · rintro _ ⟨⟩
      · rintro _ ⟨⟩
    have hFor : Attempt.For ⟨⟨run, blocked.id, blocked.version, blocked.status, none⟩, none, none⟩ blocked.id := by
      refine ⟨rfl, ?_, ?_⟩
      · rintro _ ⟨⟩
      · rintro _ ⟨⟩
    change Completes (Database.save resources.stateEventId blocked) _ _ _ at hSave
    have hOpened := hRegistered.opened hSound ((hSame.trans hId) ▸ hNew) (hSame.trans hId) hFor hRows
      (refused_valid hStays hStatus hRun) (by rw [hBlocked]; exact hAsked) (.same _ (List.append_nil _))
      (by simpa only [Option.toList_none, List.append_nil] using hSave)
    exact ⟨_, saved, hOpened, hNext blocked hSame, hLast, hKept⟩
  · obtain rfl : refused = none := hAccepted
    obtain ⟨rfl, rfl⟩ := completes_pure.mp hSettle
    have hSlots : ∀ slot ∈ first.reservations, slot.runId ∈ first.runs.map (·.id) := by
      rw [hRegistered.reservations, hRegistered.runs]
      exact fun slot hSlot => hSound.run_of_slot hSlot
    obtain ⟨attempt, hEnqueued, rfl⟩ := enqueue_completes hSnapshot hSlots hEnqueue
    have hRows : attempt.New db.work := by
      refine ⟨?_, ?_, ?_⟩
      · have hRun := hEnqueued.new.run
        rwa [Database.work, hRegistered.runs] at hRun
      · have hJob := hEnqueued.new.job
        rwa [Database.work, hRegistered.jobs] at hJob
      · have hSlot := hEnqueued.new.slot
        rwa [Database.work, hRegistered.reservations] at hSlot
    have hReserved : SlotStep db resources admitted (db.reservations ++ attempt.slot.toList) := by
      obtain ⟨slot, hSlot, hSlotNew, hAdmitted⟩ := hEnqueued.admitted
      rw [hSlot, ← hRegistered.reservations]
      exact (SlotStep.added hSlotNew hAdmitted).congr hRegistered.quotas hRegistered.reservations
    have hOpened := hRegistered.opened hSound (hId ▸ hNew) hId hEnqueued.linked.for hRows
      (queued_valid hSnapshot hStatus hEnqueued.active hEnqueued.linked hEnqueued.queued) hAsked hReserved hSave
    exact ⟨_, saved, hOpened, hNext admitted rfl, hLast, hKept⟩

/-- A start commits as a replay of its receipt, or it opens a session. -/
theorem start_commit {library : Library} (hSound : db.work.Sound db.clock) {identity : IdentityRole → String}
    {command : StartCommand} {receipt : Receipt}
    (h : Completes (startExternal library (mysqlUnitOfWork resources) identity command) db receipt db') :
    db' = db ∨ ∃ t, Opened db db' resources t ∧ t.id = identity .session := by
  simp only [startExternal, completes_bind, completes_lift] at h
  obtain ⟨_, _, ⟨-, rfl⟩, previous, middle, hReserve, h⟩ := h
  obtain ⟨hAlike, hRetries, hSame⟩ := reserve_completes hReserve
  cases previous with
  | some earlier =>
      obtain ⟨-, rfl⟩ := completes_pure.mp h
      exact .inl (hSame rfl)
  | none =>
      obtain ⟨t, saved, hOpened, hId, hLast, hKept⟩ := applyStart_commit (hAlike.sound hSound) h
      exact .inr ⟨t, hOpened.congr hAlike hRetries hLast hKept, hId⟩

end Starts

end Interpretation

end QsAi
