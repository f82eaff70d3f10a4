import QsAi.Interpretation.Coherence

/-! Progress. No session that waits for a worker is stranded: a claim that is made when its
job is due always commits, and takes it, puts it off, or ends it after three tries. -/
namespace QsAi

namespace Interpretation

open Keyed Interrupted

/-! Transactions that cannot be refused. -/

section Succeeds

variable {db : Database} {resources : Resources} {session : Session}

/-- A session without a question or an artifact can be stored. -/
theorem save_succeeds (db : Database) (eventId : String) (hAsked : session.currentQuestionId = none) (hStatus : session.status ≠ .completed) :
    ∃ db', Completes (Database.save eventId session) db ⟨⟩ db' := by
  simp only [Database.save, Database.stageState, completes_bind, completes_modify, completes_get]
  generalize hMiddle : ({ db with sessions := db.sessions.map fun row => if row.id = session.id then { row with session } else row } :
    Database) = middle
  cases hRequest : (middle.row session.id).bind (·.requestId) with
  | none =>
      refine ⟨middle, ⟨⟩, middle, rfl, middle, middle, ⟨rfl, rfl⟩, ?_⟩
      rw [hRequest]
      exact completes_pure.mpr ⟨rfl, rfl⟩
  | some requestId =>
      have hEvent : ∃ event, middle.stateEvent session eventId requestId = .ok event := by
        simp only [Database.stateEvent, hAsked, if_neg hStatus]
        exact ⟨_, rfl⟩
      obtain ⟨event, hEvent⟩ := hEvent
      by_cases hAny : middle.events.any (fun other => other.eventId == event.eventId ||
          (other.sessionId == event.sessionId && other.version == event.version)) = true
      · refine ⟨middle, ⟨⟩, middle, rfl, middle, middle, ⟨rfl, rfl⟩, ?_⟩
        simp only [hRequest, completes_bind, completes_lift, completes_ite, completes_pure]
        exact ⟨event, middle, ⟨hEvent, rfl⟩, .inl ⟨hAny, trivial, rfl⟩⟩
      · refine ⟨{ middle with events := middle.events ++ [event] }, ⟨⟩, middle, rfl, middle, middle, ⟨rfl, rfl⟩, ?_⟩
        simp only [hRequest, completes_bind, completes_lift, completes_ite, completes_set]
        exact ⟨event, middle, ⟨hEvent, rfl⟩, .inr ⟨hAny, rfl⟩⟩

theorem take_succeeds (db : Database) (resources : Resources) (job : Job) (fence ttlSeconds : Nat) (hAsked : session.currentQuestionId = none)
    (hStatus : session.status = .queued ∨ session.status = .running) :
    ∃ stage db', Completes (Database.take resources session job fence ttlSeconds) db stage db' ∧ stage.status = .claimed := by
  obtain ⟨running, hRunning, hFree, hOpen⟩ : ∃ running : Session, session.toRunning = .ok running ∧
      running.currentQuestionId = none ∧ running.status ≠ .completed :=
    ⟨_, if_pos hStatus, hAsked, by simp⟩
  obtain ⟨middle, hSave⟩ := save_succeeds db resources.stateEventId hFree hOpen
  have hDone : ∃ claim db', Completes (Database.take resources session job fence ttlSeconds) db ⟨.claimed, claim⟩ db' := by
    simp only [Database.take, completes_bind, completes_lift, completes_modify, completes_pure]
    exact ⟨_, _, _, db, ⟨hRunning, rfl⟩, ⟨⟩, middle, hSave, ⟨⟩, _, rfl, rfl, rfl⟩
  obtain ⟨claim, db', hDone⟩ := hDone
  exact ⟨_, db', hDone, rfl⟩

theorem exhaust_succeeds (db : Database) (resources : Resources) (job : Job) (hAsked : session.currentQuestionId = none)
    (hSnapshot : session.usesQsSnapshot = true) (hStatus : session.status = .queued ∨ session.status = .running) :
    ∃ stage db', Completes (Database.exhaust resources session job) db stage db' ∧ stage.status = .exhausted := by
  have hRunning : session.toRunning = .ok { session with status := .running, version := session.version + 1 } := by
    simp only [Session.toRunning, if_pos hStatus]
  obtain ⟨blocked, hBlock, hStays, hFree, hOpen⟩ : ∃ blocked : Session,
      ({ session with status := .running, version := session.version + 1 } : Session).block "attempts_exhausted" = .ok blocked ∧
        blocked.usesQsSnapshot = true ∧ blocked.currentQuestionId = none ∧ blocked.status ≠ .completed :=
    ⟨_, rfl, hSnapshot, hAsked, by simp⟩
  obtain ⟨middle, hSave⟩ := save_succeeds db resources.stateEventId hFree hOpen
  have hRelease : ∀ other : Database, Completes (Database.releaseSnapshot resources blocked) other ⟨⟩
      { other with reservations := other.reservations.map (releasing resources.time blocked) } := by
    intro other
    rw [Database.releaseSnapshot, if_pos hStays, Database.releaseCapacity, completes_modify]
    rfl
  have hDone : ∃ db', Completes (Database.exhaust resources session job) db ⟨.exhausted, none⟩ db' := by
    simp only [Database.exhaust, completes_bind, completes_lift, completes_modify, completes_pure]
    exact ⟨_, _, db, ⟨hRunning, rfl⟩, blocked, db, ⟨hBlock, rfl⟩, ⟨⟩, middle, hSave, ⟨⟩, _, rfl, ⟨⟩, _, hRelease _,
      trivial, rfl⟩
  obtain ⟨db', hDone⟩ := hDone
  exact ⟨_, db', hDone, rfl⟩

/-- The reservation of an open session is found. -/
theorem prior_succeeds {t : Thread} (hSound : db.work.Sound db.clock) (hShows : Shows db.work t) (hValid : t.Valid db.clock)
    {slot : Reservation} (hSlot : t.current.slot = some slot) : prior db t.session = .ok (some slot) := by
  obtain ⟨hRun, hSession, hOrganization, hSubject, hAssessments⟩ := (hValid.linked _ t.current_mem).slot slot hSlot
  have hMem : slot ∈ db.reservations := (hShows.slot_mem t.current_mem hSlot).1
  unfold prior
  cases hFind : db.reservations.find? fun row => t.session.activeRunId == some row.runId with
  | none =>
      have hNone := List.find?_eq_none.mp hFind slot hMem
      rw [hValid.active, hRun] at hNone
      simp at hNone
  | some found =>
      have hOwn : found = slot := by
        have hActive := List.find?_some hFind
        rw [hValid.active, beq_iff_eq, Option.some.injEq] at hActive
        exact hSound.tidy.slots.eq_of_key (List.mem_of_find?_eq_some hFind) hMem (hActive.symm.trans hRun.symm)
      rw [hOwn]
      exact if_pos ⟨hSession, hOrganization, hSubject, hAssessments⟩

/-- A slot is taken or there is no room for it. -/
theorem acquire_succeeds (hSnapshot : session.usesQsSnapshot = true) {slot : Reservation} (hPrior : prior db session = .ok (some slot))
    (hReleased : slot.releasedAt = none) {policy : ParticipantCapacityPolicy × QuotaSnapshot}
    (hPolicy : participantPolicy db session resources.capacity resources.quotaBaseline = .ok policy) :
    ∃ acquired db', Completes (Database.acquireSnapshot resources session) db acquired db' := by
  rw [Database.acquireSnapshot, if_pos hSnapshot]
  simp only [Database.acquireCapacity, completes_bind, completes_get, completes_lift]
  by_cases hActive : slot.active = true
  · refine ⟨true, db, db, db, ⟨rfl, rfl⟩, some slot, db, ⟨hPrior, rfl⟩, ?_⟩
    simp [hActive]
  · have hActivate : ∃ acquired db', Completes (Database.activate resources session) db acquired db' := by
      simp only [Database.activate, completes_bind, completes_get, completes_lift, completes_ite, completes_set, completes_pure]
      by_cases hRoom : fits (db.reservations.filter fun row => row.organizationId == session.actor.orgId && row.active) session
          policy.1.activeOrg policy.1.activeUser policy.1.activeAssessment = true
      · exact ⟨true, _, db, db, ⟨rfl, rfl⟩, policy, db, ⟨hPolicy, rfl⟩, .inl ⟨hRoom, ⟨⟩, _, rfl, rfl, rfl⟩⟩
      · exact ⟨false, db, db, db, ⟨rfl, rfl⟩, policy, db, ⟨hPolicy, rfl⟩, .inr ⟨hRoom, rfl, rfl⟩⟩
    obtain ⟨acquired, db', hActivate⟩ := hActivate
    refine ⟨acquired, db', db, db, ⟨rfl, rfl⟩, some slot, db, ⟨hPrior, rfl⟩, ?_⟩
    simpa only [hReleased, completes_ite, hActive, not_true_eq_false, ne_eq, false_and, false_or, not_false_eq_true, true_and,
      Bool.false_eq_true] using hActivate

/-- The lease of a session, with the rows that it leaves. -/
theorem leaseOf_succeeds (db : Database) (sessionId : String) : ∃ middle,
    Completes (Database.leaseOf sessionId) db ((lookup (·.threadId) db.leases sessionId).getD ⟨sessionId, 0, db.clock⟩) middle ∧
      middle.reservations = db.reservations ∧ middle.quotas = db.quotas ∧ middle.clock = db.clock := by
  simp only [Database.leaseOf, completes_bind, completes_get]
  cases hLease : lookup (·.threadId) db.leases sessionId with
  | some lease => exact ⟨db, ⟨db, db, ⟨rfl, rfl⟩, by rw [hLease]; exact completes_pure.mpr ⟨rfl, rfl⟩⟩, rfl, rfl, rfl⟩
  | none =>
      refine ⟨{ db with leases := db.leases ++ [⟨sessionId, 0, db.clock⟩] }, ⟨db, db, ⟨rfl, rfl⟩, ?_⟩, rfl, rfl, rfl⟩
      simp only [hLease, completes_bind, completes_set, completes_pure]
      exact ⟨⟨⟩, _, rfl, rfl, rfl⟩

variable {t : Thread}

/-- The job of an open session is due: the session is given to the worker, put off or ended. -/
theorem claimIn_succeeds (hSound : db.work.Sound db.clock) (hShows : Shows db.work t) (hValid : t.Valid db.clock)
    (hStatus : t.session.status = .queued ∨ t.session.status = .running) (hAsked : t.session.currentQuestionId = none)
    {row : SessionRow} (hRow : db.row row.id = some row) (hSession : row.session = t.session) {job : Job} {jobId : String}
    (hDue : Database.dueJob db t.session jobId = some job) (hOver : ∀ lease ∈ t.lease, lease.expiresAt ≤ db.clock)
    {ttlSeconds : Nat} (hTtl : 3 ≤ ttlSeconds) {policy : ParticipantCapacityPolicy × QuotaSnapshot}
    (hPolicy : participantPolicy db t.session resources.capacity resources.quotaBaseline = .ok policy) :
    ∃ stage db', Completes (Database.claimIn resources jobId row.id ttlSeconds) db stage db' ∧ stage.status ≠ .miss := by
  have hClaims : ∀ stage db', Completes (if 3 ≤ job.attempt then Database.exhaust resources t.session job
      else Database.claimJob resources t.session job ttlSeconds) db stage db' →
        Completes (Database.claimIn resources jobId row.id ttlSeconds) db stage db' := by
    intro stage db' hDone
    simp only [Database.claimIn, completes_bind, completes_refuseUnless, completes_get]
    refine ⟨⟨⟩, db, ⟨hTtl, rfl⟩, db, db, ⟨rfl, rfl⟩, ?_⟩
    simp only [hRow, hSession, hDue]
    exact hDone
  by_cases hTries : 3 ≤ job.attempt
  · obtain ⟨stage, db', hDone, hStage⟩ := exhaust_succeeds db resources job hAsked hValid.snapshot hStatus
    exact ⟨stage, db', hClaims stage db' (by rwa [if_pos hTries]), by simp [hStage]⟩
  · obtain ⟨_, slot, -, hSlot, hReleased⟩ := hValid.open hStatus
    obtain ⟨middle, hLease, hSlots, hQuotas, hClock⟩ := leaseOf_succeeds db t.session.id
    have hHeld : lookup (·.threadId) db.leases t.session.id = t.lease := hShows.lease
    rw [hHeld] at hLease
    have hExpired : (t.lease.getD ⟨t.session.id, 0, db.clock⟩).expiresAt ≤ middle.clock := by
      rw [hClock]
      cases hFound : t.lease with
      | none => exact Nat.le_refl _
      | some lease => exact hOver lease hFound
    have hPrior : prior middle t.session = .ok (some slot) := by
      rw [← prior_succeeds hSound hShows hValid hSlot, prior, prior, hSlots]
    have hLimits : participantPolicy middle t.session resources.capacity resources.quotaBaseline = .ok policy := by
      rw [← hPolicy, participantPolicy, participantPolicy, hQuotas]
    obtain ⟨acquired, last, hAcquire⟩ := acquire_succeeds hValid.snapshot hPrior hReleased hLimits
    have hClaimed : ∀ stage db', Completes (if acquired = true then
        Database.take resources t.session job ((t.lease.getD ⟨t.session.id, 0, db.clock⟩).fence + 1) ttlSeconds
          else Database.defer job) last stage db' → Completes (Database.claimJob resources t.session job ttlSeconds) db stage db' := by
      intro stage db' hDone
      simp only [Database.claimJob, completes_bind, completes_get]
      refine ⟨_, middle, hLease, middle, middle, ⟨rfl, rfl⟩, ?_⟩
      rw [if_pos hExpired]
      exact completes_bind.mpr ⟨acquired, last, hAcquire, hDone⟩
    cases acquired with
    | true =>
        obtain ⟨stage, db', hDone, hStage⟩ := take_succeeds last resources job
          ((t.lease.getD ⟨t.session.id, 0, db.clock⟩).fence + 1) ttlSeconds hAsked hStatus
        exact ⟨stage, db', hClaims stage db' (by rw [if_neg hTries]; exact hClaimed stage db' hDone), by simp [hStage]⟩
    | false =>
        have hDefer : ∃ db', Completes (Database.defer job) last ⟨.deferred, none⟩ db' := by
          simp only [Database.defer, completes_bind, completes_modify, completes_pure]
          exact ⟨_, ⟨⟩, _, rfl, trivial, rfl⟩
        obtain ⟨db', hDone⟩ := hDefer
        exact ⟨_, db', hClaims _ db' (by rw [if_neg hTries]; exact hClaimed _ db' hDone), by simp⟩

end Succeeds

/-! Sessions without a question. -/

section Unasked

variable {clock : Nat} {t t' : Thread} {system next : System} {given : Option Resources}

def Session.Unasked (session : Session) : Prop :=
  session.status = .queued ∨ session.status = .running → session.currentQuestionId = none

/-- Sessions that wait for a worker have no question open. -/
def System.Unasked (system : System) : Prop := ∀ row ∈ system.db.sessions, row.session.Unasked

theorem Session.Unasked.of_status {session : Session} (status : Status) (hStatus : session.status = status) (hQueued : status ≠ .queued)
    (hRunning : status ≠ .running) : session.Unasked := by
  rintro (hSame | hSame)
  · exact absurd (hStatus.symm.trans hSame) hQueued
  · exact absurd (hStatus.symm.trans hSame) hRunning

theorem Advance.unasked (h : Advance clock t t') (hAsked : t.session.Unasked) : t'.session.Unasked := by
  cases h with
  | @requeued next attempt hNext =>
      have hNone : next.currentQuestionId = none := by
        rcases hNext with ⟨question, hQueue⟩ | ⟨previous, hRetry⟩
        · obtain ⟨-, rfl⟩ := Session.queue_ok hQueue
          rfl
        · obtain ⟨-, -, rfl⟩ := Session.retry_ok hRetry
          rfl
      exact fun _ => hNone
  | cancelled _ hNext =>
      obtain ⟨-, rfl⟩ := Session.cancel_ok hNext
      exact .of_status .cancelled rfl (by simp) (by simp)
  | claimed _ _ _ _ _ hNext =>
      obtain ⟨hOpen, rfl⟩ := Session.toRunning_ok hNext
      exact fun _ => hAsked hOpen
  | exhausted _ _ _ _ hNext =>
      obtain ⟨-, rfl⟩ := Session.block_ok hNext
      exact .of_status .blocked rfl (by simp) (by simp)
  | deferred => exact hAsked
  | renewed => exact hAsked
  | concluded _ _ hNext =>
      rcases hNext with ⟨question, hAwait⟩ | ⟨code, hBlock⟩
      · obtain ⟨-, rfl⟩ := Session.awaitAnswer_ok hAwait
        exact .of_status .awaitingAnswer rfl (by simp) (by simp)
      · obtain ⟨-, rfl⟩ := Session.block_ok hBlock
        exact .of_status .blocked rfl (by simp) (by simp)
  | completed _ _ _ hNext =>
      obtain ⟨-, rfl⟩ := Session.complete_ok hNext
      exact .of_status .completed rfl (by simp) (by simp)

theorem Commit.unasked {db db' : Database} {resources : Resources} (h : Commit db db' resources t t') (hSound : db.work.Sound db.clock)
    (hAsked : ∀ row ∈ db.sessions, row.session.Unasked) : ∀ row ∈ db'.sessions, row.session.Unasked := by
  intro row hRow
  rw [h.sessions] at hRow
  obtain ⟨old, hOld, rfl⟩ := List.mem_map.mp hRow
  split_ifs with hId
  · have hOwn := hAsked old hOld
    rw [h.row hSound hOld hId] at hOwn
    exact h.takes.step.unasked hOwn
  · exact hAsked old hOld

theorem Effect.unasked (h : Effect system given next) (hOrdered : system.Ordered) (hAsked : system.Unasked) : next.Unasked := by
  have hSound := hOrdered.sound
  cases h with
  | same => exact hAsked
  | waited => exact hAsked
  | opened hOpened =>
      intro row hRow
      obtain ⟨requestId, hSessions⟩ := hOpened.sessions
      rw [hSessions] at hRow
      rcases List.mem_append.mp hRow with hOld | hNew
      · exact hAsked row hOld
      · rw [List.mem_singleton.mp hNew]
        exact fun _ => hOpened.unasked
  | asked hCommit => exact hCommit.unasked hSound hAsked
  | claimed _ hCommit => exact hCommit.unasked hSound hAsked
  | renewed _ _ _ _ _ hRows =>
      intro row hRow
      rw [hRows] at hRow
      exact hAsked row hRow
  | marked => exact hAsked
  | sent => exact hAsked
  | recorded => exact hAsked
  | finished _ _ _ hCommit => exact hCommit.unasked hSound hAsked

end Unasked

/-! Jobs that come due. -/

section Due

variable {db : Database} {t : Thread} {job : Job}

theorem Thread.Valid.due {clock : Nat} (hValid : t.Valid clock) (hStatus : t.session.status = .queued ∨ t.session.status = .running)
    (hJob : t.current.job = some job) : ∃ due, ∀ time, due ≤ time → eligible time job = true := by
  rcases hStatus with hStatus | hStatus
  · obtain ⟨-, ⟨own, hOwn, hQueued, -⟩, -⟩ := hValid.queued hStatus
    obtain rfl := Option.some.inj (hOwn.symm.trans hJob)
    exact ⟨own.availableAt, fun time hTime => by simp [eligible, hQueued, hTime]⟩
  · obtain ⟨-, ⟨own, held, hOwn, -, hLeased, -, hUntil⟩, -⟩ := hValid.running hStatus
    obtain rfl := Option.some.inj (hOwn.symm.trans hJob)
    exact ⟨held.expiresAt, fun time hTime => by simp [eligible, hLeased, hUntil, hTime]⟩

/-- The lease is over when the job is due. -/
theorem Thread.Valid.over {clock : Nat} (hValid : t.Valid clock) (hStatus : t.session.status = .queued ∨ t.session.status = .running)
    (hJob : t.current.job = some job) (hDue : eligible clock job = true) : ∀ lease ∈ t.lease, lease.expiresAt ≤ clock := by
  intro lease hLease
  rcases hStatus with hStatus | hStatus
  · by_contra hLive
    have hRunning := hValid.live lease hLease (Nat.lt_of_not_le hLive)
    rw [hStatus] at hRunning
    cases hRunning
  · obtain ⟨-, ⟨own, held, hOwn, hHeld, hLeased, -, hUntil⟩, -⟩ := hValid.running hStatus
    obtain rfl := Option.some.inj (hOwn.symm.trans hJob)
    obtain rfl := Option.some.inj (hHeld.symm.trans hLease)
    simpa [eligible, hLeased, hUntil] using hDue

theorem Shows.dueJob (hShows : Shows db.work t) (hSound : db.work.Sound db.clock) (hValid : t.Valid db.clock)
    (hStatus : t.session.status = .queued ∨ t.session.status = .running) (hJob : t.current.job = some job)
    (hDue : eligible db.clock job = true) : Database.dueJob db t.session job.id = some job := by
  have hMem : job ∈ db.jobs := (hShows.job_mem t.current_mem hJob).1
  have hRun : t.session.activeRunId = some job.runId := by
    rw [hValid.active, ((hValid.linked _ t.current_mem).job job hJob).1]
  unfold Database.dueJob
  cases hFind : db.jobs.find? fun other => other.id == job.id && eligible db.clock other with
  | none =>
      have hNone := List.find?_eq_none.mp hFind job hMem
      simp [hDue] at hNone
  | some found =>
      have hFacts := List.find?_some hFind
      rw [Bool.and_eq_true, beq_iff_eq] at hFacts
      obtain rfl : found = job := hSound.tidy.jobs.eq_of_key (List.mem_of_find?_eq_some hFind) hMem hFacts.1
      exact Option.filter_some_pos (decide_eq_true ⟨hRun, hStatus⟩)

end Due

/-- A session that waits for a worker has a job, which comes due. A claim that is made then, under limits that can be read,
commits: it gives the session to the worker, puts it off for the lack of a slot, or ends it after three tries. -/
def Database.Progresses (db : Database) : Prop :=
  ∀ row ∈ db.sessions, row.session.status = .queued ∨ row.session.status = .running →
    ∃ job ∈ db.jobs, job.sessionId = row.id ∧ row.session.activeRunId = some job.runId ∧
      (∃ due, ∀ time, due ≤ time → eligible time job = true) ∧
        ∀ resources ttlSeconds policy, 3 ≤ ttlSeconds → eligible db.clock job = true →
          participantPolicy db row.session resources.capacity resources.quotaBaseline = .ok policy →
            ∃ stage db', transact (Database.claimIn resources job.id row.id ttlSeconds) db = (.ok stage, db') ∧ stage.status ≠ .miss

theorem System.Unasked.progresses {system : System} (h : system.Unasked) (hSound : system.db.work.Sound system.db.clock) :
    system.db.Progresses := by
  intro row hRow hStatus
  have hAsked := h row hRow hStatus
  obtain ⟨t, hSession, hId, hShows, hValid⟩ := hSound.thread hRow
  rw [← hSession] at hStatus hAsked ⊢
  obtain ⟨job, slot, hJob, hSlot, hReleased⟩ := hValid.open hStatus
  obtain ⟨hMem, hOwn⟩ := hShows.job_mem t.current_mem hJob
  have hRun := ((hValid.linked _ t.current_mem).job job hJob).1
  refine ⟨job, hMem, hOwn.trans hId, by rw [hValid.active, hRun], hValid.due hStatus hJob, ?_⟩
  intro resources ttlSeconds policy hTtl hDue hPolicy
  have hUnique : UniqueOn SessionRow.id system.db.sessions := hSound.tidy.sessions.of_map fun _ _ => rfl
  obtain ⟨stage, db', hDone, hStage⟩ := claimIn_succeeds hSound hShows hValid hStatus hAsked (hUnique.lookup_iff.mpr ⟨hRow, rfl⟩)
    hSession.symm (hShows.dueJob hSound hValid hStatus hJob hDue) (hValid.over hStatus hJob hDue) hTtl hPolicy
  exact ⟨stage, db', transact_ok.mpr hDone, hStage⟩

/-- In no run is a session stranded that waits for a worker. -/
theorem run_progresses (library : Library) (setting : Setting) (clock : Nat) (operations : List Operation) :
    ((System.initial setting clock).run library operations).db.Progresses := by
  obtain ⟨hOrdered, hAsked⟩ := (initial_ordered setting clock).run library (P := System.Unasked)
    (fun _ hMem => absurd hMem List.not_mem_nil) (fun hOrdered hAsked hEffect => hEffect.unasked hOrdered hAsked) operations
  exact hAsked.progresses hOrdered.sound

end Interpretation

end QsAi
