import QsAi.Interpretation.Workers

/-! What holds between the tables after every run: the runs, jobs, leases and
reservations are as the statuses of the sessions say, and no session goes back. -/
namespace QsAi

namespace Interpretation

open Keyed

/-! The active run of a session. -/

section Threads

variable {clock : Nat} {t : Thread}

theorem Thread.Valid.run_status (h : t.Valid clock) : t.current.run.status = t.session.status ∨
    (t.session.status = .cancelled ∧ t.current.run.status ≠ .queued ∧ t.current.run.status ≠ .running) := by
  have hPhase := h.phase
  unfold Thread.Phase at hPhase
  cases hStatus : t.session.status with
  | created => simp [hStatus] at hPhase
  | queued => exact .inl (h.queued hStatus).run
  | running => exact .inl (h.running hStatus).run
  | cancelled =>
      rw [hStatus] at hPhase
      exact .inr ⟨rfl, hPhase.run⟩
  | awaitingAnswer =>
      rw [hStatus] at hPhase
      exact .inl hPhase.2
  | blocked =>
      rw [hStatus] at hPhase
      exact .inl hPhase.2
  | completed =>
      rw [hStatus] at hPhase
      exact .inl hPhase.2

/-- The job of the active run waits or is worked on as the session is. -/
theorem Thread.Valid.job_status (h : t.Valid clock) {job : Job} (hJob : t.current.job = some job) :
    (job.status = .queued ↔ t.session.status = .queued) ∧ (job.status = .leased ↔ t.session.status = .running) := by
  by_cases hQueued : t.session.status = .queued
  · obtain ⟨own, hOwn, hStatus, -⟩ := (h.queued hQueued).job
    obtain rfl := Option.some.inj (hJob.symm.trans hOwn)
    simp [hQueued, hStatus]
  · by_cases hRunning : t.session.status = .running
    · obtain ⟨own, _, hOwn, -, hStatus, -⟩ := (h.running hRunning).job
      obtain rfl := Option.some.inj (hJob.symm.trans hOwn)
      simp [hRunning, hStatus]
    · obtain ⟨hWaits, hHeld⟩ := (h.ended hQueued hRunning).job job hJob
      simp [hQueued, hRunning, hWaits, hHeld]

theorem Thread.Valid.slot_active (h : t.Valid clock) {slot : Reservation} (hSlot : t.current.slot = some slot) :
    slot.active = true ↔ t.session.status = .running := by
  by_cases hQueued : t.session.status = .queued
  · obtain ⟨own, hOwn, hActive, -⟩ := (h.queued hQueued).slot
    obtain rfl := Option.some.inj (hSlot.symm.trans hOwn)
    simp [hQueued, hActive]
  · by_cases hRunning : t.session.status = .running
    · obtain ⟨own, hOwn, hActive, -⟩ := (h.running hRunning).slot
      obtain rfl := Option.some.inj (hSlot.symm.trans hOwn)
      simp [hRunning, hActive]
    · simp [hRunning, (h.ended hQueued hRunning).slot slot hSlot]

end Threads

/-! The thread of a row. -/

section Rows

variable {clock : Nat} {work : Work}

theorem Work.Sound.of_run (h : work.Sound clock) {run : Run} (hRun : run ∈ work.runs) :
    ∃ t attempt, Shows work t ∧ t.Valid clock ∧ t.id = run.sessionId ∧ attempt ∈ t.attempts ∧ attempt.run = run := by
  obtain ⟨owner, hOwner, hId⟩ := List.mem_map.mp (h.tidy.runOf run hRun)
  obtain ⟨t, rfl, hShows, hValid⟩ := h.threads owner hOwner
  obtain ⟨attempt, hAttempt, hOwn⟩ := hShows.attempt_of_run hRun hId.symm
  exact ⟨t, attempt, hShows, hValid, hId, hAttempt, hOwn⟩

theorem Work.Sound.of_slot (h : work.Sound clock) {slot : Reservation} (hSlot : slot ∈ work.slots) :
    ∃ t attempt, Shows work t ∧ t.Valid clock ∧ t.id = slot.sessionId ∧ attempt ∈ t.attempts ∧ attempt.slot = some slot := by
  obtain ⟨owner, hOwner, hId⟩ := List.mem_map.mp (h.tidy.slotOf slot hSlot)
  obtain ⟨t, rfl, hShows, hValid⟩ := h.threads owner hOwner
  obtain ⟨attempt, hAttempt, hOwn⟩ := hShows.attempt_of_slot hSlot hId.symm
  exact ⟨t, attempt, hShows, hValid, hId, hAttempt, hOwn⟩

theorem Work.Sound.attempt_of_job (h : work.Sound clock) {job : Job} (hJob : job ∈ work.jobs) :
    ∃ t attempt, Shows work t ∧ t.Valid clock ∧ t.id = job.sessionId ∧ attempt ∈ t.attempts ∧ attempt.job = some job := by
  obtain ⟨owner, hOwner, hId⟩ := List.mem_map.mp (h.tidy.jobOf job hJob)
  obtain ⟨t, rfl, hShows, hValid⟩ := h.threads owner hOwner
  obtain ⟨attempt, hAttempt, hOwn⟩ := hShows.attempt_of_job hJob hId.symm
  exact ⟨t, attempt, hShows, hValid, hId, hAttempt, hOwn⟩

/-- A run has one attempt. -/
theorem Shows.attempt_inj {t : Thread} (h : Shows work t) (hTidy : work.Tidy) {first second : Attempt} (hFirst : first ∈ t.attempts)
    (hSecond : second ∈ t.attempts) (hRun : first.run.id = second.run.id) : first = second := by
  have hRuns : (t.attempts.map (·.run.id)).Nodup := by
    have hUnique : UniqueOn (·.id) (work.runs.filter (·.sessionId == t.id)) := hTidy.runs.sublist List.filter_sublist
    rw [h.runs, UniqueOn, List.map_map] at hUnique
    exact hUnique
  exact List.inj_on_of_nodup_map hRuns hFirst hSecond hRun

/-- A run has one job. -/
theorem Work.Sound.job_inj (h : work.Sound clock) {first second : Job} (hFirst : first ∈ work.jobs) (hSecond : second ∈ work.jobs)
    (hRun : first.runId = second.runId) : first = second := by
  obtain ⟨t, attempt, hShows, hValid, -, hAttempt, hOwn⟩ := h.attempt_of_job hFirst
  obtain ⟨u, other, hOther, hOrder, hId, hMem, hFound⟩ := h.attempt_of_job hSecond
  have hLink := ((hValid.linked attempt hAttempt).job first hOwn).1
  have hOtherLink := ((hOrder.linked other hMem).job second hFound).1
  have hRuns : attempt.run.id = other.run.id := by rw [← hLink, ← hOtherLink, hRun]
  have hSession : u.id = t.id := by
    rw [← (hOther.run_mem hMem).2, ← (hShows.run_mem hAttempt).2,
      h.tidy.runs.eq_of_key (hOther.run_mem hMem).1 (hShows.run_mem hAttempt).1 hRuns.symm]
  obtain ⟨same, hSame, hJob⟩ := hShows.attempt_of_job hSecond (hId.symm.trans hSession)
  have hLast := ((hValid.linked same hSame).job second hJob).1
  have hEqual := hShows.attempt_inj h.tidy hAttempt hSame (by rw [← hLink, ← hLast, hRun])
  rw [hEqual, hJob] at hOwn
  exact (Option.some.inj hOwn).symm

end Rows

/-! The tables agree. -/

/-- The runs, jobs, leases and reservations are as the sessions say. -/
structure Database.Coherent (db : Database) : Prop where
  active : ∀ row ∈ db.sessions, ∃ run ∈ db.runs, run.sessionId = row.id ∧ row.session.activeRunId = some run.id ∧
    (run.status = row.session.status ∨ (row.session.status = .cancelled ∧ run.status ≠ .queued ∧ run.status ≠ .running))
  runs : ∀ run ∈ db.runs, run.status = .queued ∨ run.status = .running →
    ∃ row ∈ db.sessions, row.id = run.sessionId ∧ row.session.activeRunId = some run.id ∧ row.session.status = run.status
  queued : ∀ row ∈ db.sessions, row.session.status = .queued ↔
    ∃ job ∈ db.jobs, job.sessionId = row.id ∧ row.session.activeRunId = some job.runId ∧ job.status = .queued
  running : ∀ row ∈ db.sessions, row.session.status = .running ↔
    ∃ job ∈ db.jobs, job.sessionId = row.id ∧ row.session.activeRunId = some job.runId ∧ job.status = .leased
  jobs : ∀ job ∈ db.jobs, job.status = .queued ∨ job.status = .leased →
    ∃ row ∈ db.sessions, row.id = job.sessionId ∧ row.session.activeRunId = some job.runId
  single : UniqueOn (·.runId) db.jobs
  tries : ∀ job ∈ db.jobs, job.attempt ≤ 3
  leased : ∀ job ∈ db.jobs, job.status = .leased →
    ∃ lease ∈ db.leases, lease.threadId = job.sessionId ∧ lease.fence = job.fenceToken ∧ job.leaseUntil = some lease.expiresAt
  leases : ∀ lease ∈ db.leases, db.clock < lease.expiresAt → ∃ row ∈ db.sessions, row.id = lease.threadId ∧ row.session.status = .running
  slots : ∀ slot ∈ db.reservations, slot.active = true ↔
    ∃ row ∈ db.sessions, row.id = slot.sessionId ∧ row.session.activeRunId = some slot.runId ∧ row.session.status = .running

/-- The row of a thread's session. -/
theorem Shows.session_row {db : Database} {t : Thread} (hShows : Shows db.work t) : ∃ row ∈ db.sessions, row.session = t.session :=
  List.mem_map.mp hShows.mem

section Coherent

variable {db : Database} (hSound : db.work.Sound db.clock)

include hSound

theorem Work.Sound.thread {row : SessionRow} (hRow : row ∈ db.sessions) :
    ∃ t, t.session = row.session ∧ t.id = row.id ∧ Shows db.work t ∧ t.Valid db.clock := by
  obtain ⟨t, hSession, hShows, hValid⟩ := hSound.threads row.session (List.mem_map_of_mem hRow)
  exact ⟨t, hSession, congrArg Session.id hSession, hShows, hValid⟩

theorem coherent_active : ∀ row ∈ db.sessions, ∃ run ∈ db.runs, run.sessionId = row.id ∧ row.session.activeRunId = some run.id ∧
    (run.status = row.session.status ∨ (row.session.status = .cancelled ∧ run.status ≠ .queued ∧ run.status ≠ .running)) := by
  intro row hRow
  obtain ⟨t, hSession, hId, hShows, hValid⟩ := hSound.thread hRow
  obtain ⟨hRun, hOwner⟩ := hShows.run_mem t.current_mem
  rw [← hSession, ← hId]
  exact ⟨t.current.run, hRun, hOwner, hValid.active, hValid.run_status⟩

theorem coherent_runs : ∀ run ∈ db.runs, run.status = .queued ∨ run.status = .running →
    ∃ row ∈ db.sessions, row.id = run.sessionId ∧ row.session.activeRunId = some run.id ∧ row.session.status = run.status := by
  intro run hRun hOpen
  obtain ⟨t, attempt, hShows, hValid, hId, hAttempt, rfl⟩ := hSound.of_run hRun
  obtain ⟨row, hRow, hSession⟩ := hShows.session_row
  have hOwner : row.id = t.id := congrArg Session.id hSession
  rcases Thread.mem_attempts.mp hAttempt with hPast | rfl
  · obtain ⟨hWaits, hRuns⟩ := (hValid.past attempt hPast).run
    exact absurd hOpen (not_or.mpr ⟨hWaits, hRuns⟩)
  · refine ⟨row, hRow, hOwner.trans hId, hSession ▸ hValid.active, ?_⟩
    rcases hValid.run_status with hSame | ⟨-, hWaits, hRuns⟩
    · rw [hSession, hSame]
    · exact absurd hOpen (not_or.mpr ⟨hWaits, hRuns⟩)

/-- The jobs of a session with a status are that of its active run. -/
theorem coherent_status {row : SessionRow} (hRow : row ∈ db.sessions) (status : Status) (jobStatus : JobStatus)
    (hOpen : row.session.status = status → status = .queued ∨ status = .running)
    (hJobStatus : ∀ {t : Thread} {job : Job}, t.Valid db.clock → t.current.job = some job →
      (job.status = jobStatus ↔ t.session.status = status)) :
    row.session.status = status ↔
      ∃ job ∈ db.jobs, job.sessionId = row.id ∧ row.session.activeRunId = some job.runId ∧ job.status = jobStatus := by
  obtain ⟨t, hSession, hId, hShows, hValid⟩ := hSound.thread hRow
  rw [← hSession] at hOpen ⊢
  rw [← hId]
  constructor
  · intro hStatus
    obtain ⟨job, -, hJob, -⟩ := hValid.open (hStatus ▸ hOpen hStatus)
    obtain ⟨hMem, hOwner⟩ := hShows.job_mem t.current_mem hJob
    have hLink := ((hValid.linked _ t.current_mem).job job hJob).1
    exact ⟨job, hMem, hOwner, by rw [hLink, hValid.active], (hJobStatus hValid hJob).mpr hStatus⟩
  · rintro ⟨job, hMem, -, hActive, hStatus⟩
    rw [hValid.active, Option.some.injEq] at hActive
    exact (hJobStatus hValid (hSound.job_of_run hShows hValid hMem hActive.symm)).mp hStatus

theorem coherent_jobs : ∀ job ∈ db.jobs, job.status = .queued ∨ job.status = .leased →
    ∃ row ∈ db.sessions, row.id = job.sessionId ∧ row.session.activeRunId = some job.runId := by
  intro job hJob hOpen
  obtain ⟨t, attempt, hShows, hValid, hId, hAttempt, hOwn⟩ := hSound.attempt_of_job hJob
  obtain ⟨row, hRow, hSession⟩ := hShows.session_row
  have hOwner : row.id = t.id := congrArg Session.id hSession
  rcases Thread.mem_attempts.mp hAttempt with hPast | rfl
  · obtain ⟨hWaits, hHeld⟩ := (hValid.past attempt hPast).job job hOwn
    exact absurd hOpen (not_or.mpr ⟨hWaits, hHeld⟩)
  · refine ⟨row, hRow, hOwner.trans hId, ?_⟩
    rw [hSession, hValid.active, ((hValid.linked _ t.current_mem).job job hOwn).1]

theorem coherent_single : UniqueOn (·.runId) db.jobs := by
  have hJobs : db.jobs.Nodup := List.Nodup.of_map _ hSound.tidy.jobs
  exact hJobs.map_on fun first hFirst second hSecond hRun => hSound.job_inj hFirst hSecond hRun

theorem coherent_leased : ∀ job ∈ db.jobs, job.status = .leased →
    ∃ lease ∈ db.leases, lease.threadId = job.sessionId ∧ lease.fence = job.fenceToken ∧ job.leaseUntil = some lease.expiresAt := by
  intro job hJob hLeased
  obtain ⟨t, attempt, hShows, hValid, hId, hAttempt, hOwn⟩ := hSound.attempt_of_job hJob
  rcases Thread.mem_attempts.mp hAttempt with hPast | rfl
  · exact absurd hLeased ((hValid.past attempt hPast).job job hOwn).2
  · have hStatus := (hValid.job_status hOwn).2.mp hLeased
    obtain ⟨own, lease, hFound, hLease, -, hFence, hUntil⟩ := (hValid.running hStatus).job
    obtain rfl := Option.some.inj (hOwn.symm.trans hFound)
    obtain ⟨hMem, hThread⟩ := lookup_some (hShows.lease.trans hLease)
    exact ⟨lease, hMem, hThread.trans hId, hFence.symm, hUntil⟩

theorem coherent_leases : ∀ lease ∈ db.leases, db.clock < lease.expiresAt →
    ∃ row ∈ db.sessions, row.id = lease.threadId ∧ row.session.status = .running := by
  intro lease hLease hLive
  obtain ⟨owner, hOwner, hId⟩ := List.mem_map.mp (hSound.tidy.leaseOf lease hLease)
  obtain ⟨t, rfl, hShows, hValid⟩ := hSound.threads owner hOwner
  have hOwn : t.lease = some lease := hShows.lease.symm.trans (hSound.tidy.leases.lookup_iff.mpr ⟨hLease, hId.symm⟩)
  obtain ⟨row, hRow, hSession⟩ := hShows.session_row
  have hStatus := hValid.live lease hOwn hLive
  exact ⟨row, hRow, (congrArg Session.id hSession).trans hId, hSession ▸ hStatus⟩

theorem coherent_slots : ∀ slot ∈ db.reservations, slot.active = true ↔
    ∃ row ∈ db.sessions, row.id = slot.sessionId ∧ row.session.activeRunId = some slot.runId ∧ row.session.status = .running := by
  intro slot hSlot
  constructor
  · intro hActive
    obtain ⟨t, attempt, hShows, hValid, hId, hAttempt, hOwn⟩ := hSound.of_slot hSlot
    obtain ⟨row, hRow, hSession⟩ := hShows.session_row
    have hOwner : row.id = t.id := congrArg Session.id hSession
    rcases Thread.mem_attempts.mp hAttempt with hPast | rfl
    · have hInactive := (hValid.past attempt hPast).slot slot hOwn
      rw [hActive] at hInactive
      cases hInactive
    · refine ⟨row, hRow, hOwner.trans hId, ?_, ?_⟩
      · rw [hSession, hValid.active, ((hValid.linked _ t.current_mem).slot slot hOwn).1]
      · rw [hSession]
        exact (hValid.slot_active hOwn).mp hActive
  · rintro ⟨row, hRow, -, hActive, hStatus⟩
    obtain ⟨t, hSession, -, hShows, hValid⟩ := hSound.thread hRow
    rw [← hSession] at hActive hStatus
    rw [hValid.active, Option.some.injEq] at hActive
    exact (hValid.slot_active (hSound.slot_of_run hShows hValid hSlot hActive.symm)).mpr hStatus

theorem Work.Sound.coherent : db.Coherent where
  active := coherent_active hSound
  runs := coherent_runs hSound
  queued _ hRow := coherent_status hSound hRow .queued .queued (fun _ => .inl rfl) fun hValid hJob => (hValid.job_status hJob).1
  running _ hRow := coherent_status hSound hRow .running .leased (fun _ => .inr rfl) fun hValid hJob => (hValid.job_status hJob).2
  jobs := coherent_jobs hSound
  single := coherent_single hSound
  tries job hJob := by
    obtain ⟨t, attempt, -, hValid, -, hAttempt, hOwn⟩ := hSound.attempt_of_job hJob
    exact hValid.tries attempt hAttempt job hOwn
  leased := coherent_leased hSound
  leases := coherent_leases hSound
  slots := coherent_slots hSound

end Coherent

/-! Nothing goes back. -/

section Steps

variable {clock : Nat} {t t' : Thread}

theorem Thread.Valid.not_ended (h : t.Valid clock) (hStatus : t.session.status = .queued ∨ t.session.status = .running) :
    ¬ t.current.Ended := by
  intro hEnded
  rcases hStatus with hStatus | hStatus
  · exact hEnded.run.1 (h.queued hStatus).run
  · exact hEnded.run.2 (h.running hStatus).run

/-- A cancellation leaves what is over. -/
theorem Attempt.Ended.cancelled {attempt : Attempt} (h : attempt.Ended) (time : DateTime) (next : Session) :
    attempt.edit (.cancelled clock time next) = attempt := by
  have hRun : (Edit.cancelled clock time next).run attempt.run = attempt.run := if_neg (not_or.mpr h.run)
  have hJob : attempt.job.map (Edit.cancelled clock time next).job = attempt.job := by
    cases hOwn : attempt.job with
    | none => rfl
    | some job => exact congrArg some (if_neg (not_or.mpr (h.job job hOwn)))
  have hSlot : attempt.slot.map (Edit.cancelled clock time next).slot = attempt.slot := by
    cases hOwn : attempt.slot with
    | none => rfl
    | some slot => exact congrArg some (if_neg (by simp [h.slot slot hOwn]))
  rw [Attempt.edit, hRun, hJob, hSlot]

/-- What is over stays as it is. -/
theorem Advance.over (hStep : Advance clock t t') (h : t.Valid clock) :
    ∀ attempt ∈ t.attempts, attempt.Ended → attempt ∈ t'.attempts := by
  have hOpen : ∀ u : Thread, u.past = t.past → (t.session.status = .queued ∨ t.session.status = .running) →
      ∀ attempt ∈ t.attempts, attempt.Ended → attempt ∈ u.attempts := by
    intro u hPast hStatus attempt hMem hEnded
    rcases Thread.mem_attempts.mp hMem with hOld | rfl
    · exact Thread.past_mem (hPast ▸ hOld)
    · exact absurd hEnded (h.not_ended hStatus)
  cases hStep with
  | requeued => exact fun attempt hMem _ => List.mem_append_left _ hMem
  | cancelled time hNext =>
      intro attempt hMem hEnded
      rcases Thread.mem_attempts.mp hMem with hOld | rfl
      · exact Thread.past_mem hOld
      · refine Thread.mem_attempts.mpr (.inr ?_)
        exact (hEnded.cancelled time _).symm
  | claimed _ _ _ _ _ hNext => exact hOpen _ rfl (Session.toRunning_ok hNext).1
  | exhausted _ _ _ hRunning => exact hOpen _ rfl (Session.toRunning_ok hRunning).1
  | deferred _ hStatus => exact hOpen _ rfl hStatus
  | renewed _ hRunning _ => exact hOpen _ rfl (.inr hRunning)
  | concluded _ _ hNext => exact hOpen _ rfl (.inr (concluded_facts hNext).2.2.2)
  | completed _ _ _ hNext => exact hOpen _ rfl (.inr (Session.complete_ok hNext).1)

/-- A session that is over stays as it is. -/
theorem Advance.final (hStep : Advance clock t t') (hStatus : t.session.status = .completed ∨ t.session.status = .cancelled) :
    t'.session = t.session := by
  have hClosed : ∀ status : Status, t.session.status = status → status ≠ .completed → status ≠ .cancelled → t'.session = t.session := by
    intro status hOwn hCompleted hCancelled
    rcases hStatus with hStatus | hStatus
    · exact absurd (hOwn.symm.trans hStatus) hCompleted
    · exact absurd (hOwn.symm.trans hStatus) hCancelled
  have hOpen : t.session.status = .queued ∨ t.session.status = .running → t'.session = t.session := by
    rintro (hOwn | hOwn)
    · exact hClosed _ hOwn (by simp) (by simp)
    · exact hClosed _ hOwn (by simp) (by simp)
  cases hStep with
  | requeued hNext =>
      rcases hNext with ⟨question, hQueue⟩ | ⟨previous, hRetry⟩
      · exact hClosed _ (Session.queue_ok hQueue).1 (by simp) (by simp)
      · exact hClosed _ (Session.retry_ok hRetry).1 (by simp) (by simp)
  | cancelled _ hNext => exact absurd hStatus.symm (Session.cancel_ok hNext).1
  | claimed _ _ _ _ _ hNext => exact hOpen (Session.toRunning_ok hNext).1
  | exhausted _ _ _ hRunning => exact hOpen (Session.toRunning_ok hRunning).1
  | deferred => rfl
  | renewed => rfl
  | concluded _ _ hNext => exact hOpen (.inr (concluded_facts hNext).2.2.2)
  | completed _ _ _ hNext => exact hOpen (.inr (Session.complete_ok hNext).1)

theorem Advance.artifact (hStep : Advance clock t t') (h : t.Valid clock) : ∀ artifact ∈ t.artifact, artifact ∈ t'.artifact := by
  cases hStep with
  | completed _ _ _ hNext =>
      intro artifact hMem
      have hNone := h.no_artifact (by simp [(Session.complete_ok hNext).1])
      rw [hNone] at hMem
      cases hMem
  | _ => exact fun _ hMem => hMem

end Steps

/-- The row after some transactions. -/
structure SessionRow.Succeeds (next row : SessionRow) : Prop where
  request : next.requestId = row.requestId
  follows : next.session.Follows row.session
  version : row.session.version ≤ next.session.version
  same : next.session.version = row.session.version → next = row
  final : row.session.status = .completed ∨ row.session.status = .cancelled → next = row

/-- What a later database still has of an earlier one. -/
structure Database.Precedes (db later : Database) : Prop where
  sessions : ∀ row ∈ db.sessions, ∃ next ∈ later.sessions, next.Succeeds row
  runs : ∀ run ∈ db.runs, run.status ≠ .queued → run.status ≠ .running → run ∈ later.runs
  jobs : ∀ job ∈ db.jobs, job.status ≠ .queued → job.status ≠ .leased → job ∈ later.jobs
  slots : ∀ slot ∈ db.reservations, slot.releasedAt ≠ none → slot ∈ later.reservations
  leases : ∀ lease ∈ db.leases, ∃ next ∈ later.leases, next.threadId = lease.threadId ∧ lease.fence ≤ next.fence
  artifacts : ∀ artifact ∈ db.artifacts, artifact ∈ later.artifacts

theorem SessionRow.Succeeds.refl (row : SessionRow) : row.Succeeds row :=
  ⟨rfl, ⟨rfl, rfl, rfl, rfl⟩, Nat.le_refl _, fun _ => rfl, fun _ => rfl⟩

theorem SessionRow.Succeeds.trans {row next last : SessionRow} (h : next.Succeeds row) (h' : last.Succeeds next) : last.Succeeds row where
  request := h'.request.trans h.request
  follows := ⟨h'.follows.id.trans h.follows.id, h'.follows.actor.trans h.follows.actor,
    h'.follows.assessments.trans h.follows.assessments, h'.follows.workflow.trans h.follows.workflow⟩
  version := Nat.le_trans h.version h'.version
  same hVersion := by
    have hFirst : next.session.version = row.session.version :=
      Nat.le_antisymm (hVersion ▸ h'.version) h.version
    rw [h'.same (hVersion.trans hFirst.symm), h.same hFirst]
  final hStatus := by
    obtain rfl := h.final hStatus
    exact h'.final hStatus

namespace Database.Precedes

variable {db middle later : Database}

theorem refl (db : Database) : db.Precedes db where
  sessions row hRow := ⟨row, hRow, .refl row⟩
  runs _ hRun _ _ := hRun
  jobs _ hJob _ _ := hJob
  slots _ hSlot _ := hSlot
  leases lease hLease := ⟨lease, hLease, rfl, Nat.le_refl _⟩
  artifacts _ hArtifact := hArtifact

theorem trans (h : db.Precedes middle) (h' : middle.Precedes later) : db.Precedes later where
  sessions row hRow := by
    obtain ⟨next, hNext, hFirst⟩ := h.sessions row hRow
    obtain ⟨last, hLast, hSecond⟩ := h'.sessions next hNext
    exact ⟨last, hLast, hFirst.trans hSecond⟩
  runs run hRun hWaits hRuns := h'.runs run (h.runs run hRun hWaits hRuns) hWaits hRuns
  jobs job hJob hWaits hHeld := h'.jobs job (h.jobs job hJob hWaits hHeld) hWaits hHeld
  slots slot hSlot hReleased := h'.slots slot (h.slots slot hSlot hReleased) hReleased
  leases lease hLease := by
    obtain ⟨next, hNext, hThread, hFence⟩ := h.leases lease hLease
    obtain ⟨last, hLast, hSame, hHigher⟩ := h'.leases next hNext
    exact ⟨last, hLast, hSame.trans hThread, Nat.le_trans hFence hHigher⟩
  artifacts artifact hArtifact := h'.artifacts artifact (h.artifacts artifact hArtifact)

end Database.Precedes

/-! The rows of other sessions stay. -/

section Moves

variable {clock : Nat} {work work' : Work} {id : String} (hSound : work.Sound clock) (hMoves : Moves work work' id)

include hSound hMoves

theorem Moves.run {run : Run} (hRun : run ∈ work.runs) (hOther : run.sessionId ≠ id) : run ∈ work'.runs := by
  obtain ⟨t, attempt, hShows, -, hId, hAttempt, rfl⟩ := hSound.of_run hRun
  exact ((hMoves.others t (by rwa [hId]) hShows).run_mem hAttempt).1

theorem Moves.job {job : Job} (hJob : job ∈ work.jobs) (hOther : job.sessionId ≠ id) : job ∈ work'.jobs := by
  obtain ⟨t, attempt, hShows, -, hId, hAttempt, hOwn⟩ := hSound.attempt_of_job hJob
  exact ((hMoves.others t (by rwa [hId]) hShows).job_mem hAttempt hOwn).1

theorem Moves.slot {slot : Reservation} (hSlot : slot ∈ work.slots) (hOther : slot.sessionId ≠ id) : slot ∈ work'.slots := by
  obtain ⟨t, attempt, hShows, -, hId, hAttempt, hOwn⟩ := hSound.of_slot hSlot
  exact ((hMoves.others t (by rwa [hId]) hShows).slot_mem hAttempt hOwn).1

theorem Moves.lease {lease : Lease} (hLease : lease ∈ work.leases) (hOther : lease.threadId ≠ id) : lease ∈ work'.leases := by
  obtain ⟨owner, hOwner, hId⟩ := List.mem_map.mp (hSound.tidy.leaseOf lease hLease)
  obtain ⟨t, rfl, hShows, -⟩ := hSound.threads owner hOwner
  have hOwn : t.lease = some lease := hShows.lease.symm.trans (hSound.tidy.leases.lookup_iff.mpr ⟨hLease, hId.symm⟩)
  have hNext := hMoves.others t (fun hSame => hOther (hId.symm.trans hSame)) hShows
  exact (lookup_some (hNext.lease.trans hOwn)).1

theorem Moves.artifact {artifact : Artifact} (hArtifact : artifact ∈ work.artifacts) (hOther : artifact.sessionId ≠ id) :
    artifact ∈ work'.artifacts := by
  obtain ⟨owner, hOwner, hId⟩ := List.mem_map.mp (hSound.tidy.artifactOf artifact hArtifact)
  obtain ⟨t, rfl, hShows, -⟩ := hSound.threads owner hOwner
  have hNext := hMoves.others t (fun hSame => hOther (hId.symm.trans hSame)) hShows
  have hMem : artifact ∈ work.artifacts.filter (·.sessionId == t.id) := List.mem_filter.mpr ⟨hArtifact, beq_iff_eq.mpr hId.symm⟩
  rw [hShows.artifacts, ← hNext.artifacts] at hMem
  exact (List.mem_filter.mp hMem).1

end Moves

/-! The rows of the session that takes a step. -/

section Takes

variable {clock : Nat} {work work' : Work} {t t' : Thread}

theorem Thread.Valid.ended_of (h : t.Valid clock) {attempt : Attempt} (hMem : attempt ∈ t.attempts)
    (hCurrent : attempt = t.current → t.session.status ≠ .queued ∧ t.session.status ≠ .running) : attempt.Ended := by
  rcases Thread.mem_attempts.mp hMem with hPast | hOwn
  · exact h.past attempt hPast
  · obtain ⟨hQueued, hRunning⟩ := hCurrent hOwn
    exact hOwn ▸ h.ended hQueued hRunning

theorem Takes.run (h : Takes clock work work' t t') {run : Run} (hRun : run ∈ work.runs) (hOwn : run.sessionId = t.id)
    (hWaits : run.status ≠ .queued) (hRuns : run.status ≠ .running) : run ∈ work'.runs := by
  obtain ⟨attempt, hAttempt, rfl⟩ := h.shows.attempt_of_run hRun hOwn
  have hEnded : attempt.Ended := by
    refine h.valid.ended_of hAttempt ?_
    rintro rfl
    exact ⟨fun hQueued => hWaits (h.valid.queued hQueued).run, fun hRunning => hRuns (h.valid.running hRunning).run⟩
  exact (h.next.run_mem (h.step.over h.valid attempt hAttempt hEnded)).1

theorem Takes.job_over (h : Takes clock work work' t t') {job : Job} (hJob : job ∈ work.jobs) (hOwn : job.sessionId = t.id)
    (hWaits : job.status ≠ .queued) (hHeld : job.status ≠ .leased) : job ∈ work'.jobs := by
  obtain ⟨attempt, hAttempt, hFound⟩ := h.shows.attempt_of_job hJob hOwn
  have hEnded : attempt.Ended := by
    refine h.valid.ended_of hAttempt ?_
    rintro rfl
    obtain ⟨hQueued, hRunning⟩ := h.valid.job_status hFound
    exact ⟨fun hStatus => hWaits (hQueued.mpr hStatus), fun hStatus => hHeld (hRunning.mpr hStatus)⟩
  exact (h.next.job_mem (h.step.over h.valid attempt hAttempt hEnded) hFound).1

theorem Takes.slot (h : Takes clock work work' t t') {slot : Reservation} (hSlot : slot ∈ work.slots) (hOwn : slot.sessionId = t.id)
    (hReleased : slot.releasedAt ≠ none) : slot ∈ work'.slots := by
  obtain ⟨attempt, hAttempt, hFound⟩ := h.shows.attempt_of_slot hSlot hOwn
  have hEnded : attempt.Ended := by
    refine h.valid.ended_of hAttempt ?_
    rintro rfl
    refine not_or.mp fun hOpen => hReleased ?_
    obtain ⟨_, own, -, hSlot, hNone⟩ := h.valid.open hOpen
    obtain rfl := Option.some.inj (hFound.symm.trans hSlot)
    exact hNone
  exact (h.next.slot_mem (h.step.over h.valid attempt hAttempt hEnded) hFound).1

/-- What is over stays, and fences do not fall. -/
structure Work.Keeps (work work' : Work) : Prop where
  runs : ∀ run ∈ work.runs, run.status ≠ .queued → run.status ≠ .running → run ∈ work'.runs
  jobs : ∀ job ∈ work.jobs, job.status ≠ .queued → job.status ≠ .leased → job ∈ work'.jobs
  slots : ∀ slot ∈ work.slots, slot.releasedAt ≠ none → slot ∈ work'.slots
  leases : ∀ lease ∈ work.leases, ∃ next ∈ work'.leases, next.threadId = lease.threadId ∧ lease.fence ≤ next.fence
  artifacts : ∀ artifact ∈ work.artifacts, artifact ∈ work'.artifacts

theorem Takes.keeps (h : Takes clock work work' t t') (hSound : work.Sound clock) : work.Keeps work' where
  runs run hRun hWaits hRuns := by
    by_cases hOwn : run.sessionId = t.id
    · exact h.run hRun hOwn hWaits hRuns
    · exact h.moves.run hSound hRun hOwn
  jobs job hJob hWaits hHeld := by
    by_cases hOwn : job.sessionId = t.id
    · exact h.job_over hJob hOwn hWaits hHeld
    · exact h.moves.job hSound hJob hOwn
  slots slot hSlot hReleased := by
    by_cases hOwn : slot.sessionId = t.id
    · exact h.slot hSlot hOwn hReleased
    · exact h.moves.slot hSound hSlot hOwn
  leases lease hLease := by
    by_cases hOwn : lease.threadId = t.id
    · have hFound : t.lease = some lease := h.shows.lease.symm.trans (hSound.tidy.leases.lookup_iff.mpr ⟨hLease, hOwn⟩)
      obtain ⟨next, hNext, hFence⟩ := h.step.fence lease hFound
      obtain ⟨hMem, hThread⟩ := lookup_some (h.next.lease.trans hNext)
      exact ⟨next, hMem, by rw [hThread, h.id, hOwn], hFence⟩
    · exact ⟨lease, h.moves.lease hSound hLease hOwn, rfl, Nat.le_refl _⟩
  artifacts artifact hArtifact := by
    by_cases hOwn : artifact.sessionId = t.id
    · have hMem : artifact ∈ work.artifacts.filter (·.sessionId == t.id) := List.mem_filter.mpr ⟨hArtifact, beq_iff_eq.mpr hOwn⟩
      rw [h.shows.artifacts, Option.mem_toList] at hMem
      have hLast := h.step.artifact h.valid artifact hMem
      have hNext : artifact ∈ work'.artifacts.filter (·.sessionId == t'.id) := by
        rw [h.next.artifacts]
        exact Option.mem_toList.mpr hLast
      exact (List.mem_filter.mp hNext).1
    · exact h.moves.artifact hSound hArtifact hOwn

/-- A new session leaves all rows. -/
theorem Moves.keeps {id : String} (hMoves : Moves work work' id) (hSound : work.Sound clock) (hNew : id ∉ work.sessions.map Session.id) :
    work.Keeps work' where
  runs run hRun _ _ := hMoves.run hSound hRun fun hSame => hNew (hSame ▸ hSound.tidy.runOf run hRun)
  jobs job hJob _ _ := hMoves.job hSound hJob fun hSame => hNew (hSame ▸ hSound.tidy.jobOf job hJob)
  slots slot hSlot _ := hMoves.slot hSound hSlot fun hSame => hNew (hSame ▸ hSound.tidy.slotOf slot hSlot)
  leases lease hLease :=
    ⟨lease, hMoves.lease hSound hLease fun hSame => hNew (hSame ▸ hSound.tidy.leaseOf lease hLease), rfl, Nat.le_refl _⟩
  artifacts artifact hArtifact :=
    hMoves.artifact hSound hArtifact fun hSame => hNew (hSame ▸ hSound.tidy.artifactOf artifact hArtifact)

end Takes

section Precedes

variable {db db' : Database} {resources : Resources} {t t' : Thread}

theorem Work.Keeps.precedes (h : db.work.Keeps db'.work) (hSessions : ∀ row ∈ db.sessions, ∃ next ∈ db'.sessions, next.Succeeds row) :
    db.Precedes db' :=
  ⟨hSessions, h.runs, h.jobs, h.slots, h.leases, h.artifacts⟩

/-- The row of a session that is stored again. -/
theorem Commit.row (h : Commit db db' resources t t') (hSound : db.work.Sound db.clock) {row : SessionRow}
    (hRow : row ∈ db.sessions) (hId : row.id = t'.id) : row.session = t.session :=
  hSound.tidy.sessions.eq_of_key (List.mem_map_of_mem hRow) h.takes.shows.mem (hId.trans h.takes.id)

theorem Commit.precedes (h : Commit db db' resources t t') (hSound : db.work.Sound db.clock) : db.Precedes db' := by
  refine (h.takes.keeps hSound).precedes fun row hRow => ?_
  rw [h.sessions]
  refine ⟨_, List.mem_map_of_mem hRow, ?_⟩
  by_cases hId : row.id = t'.session.id
  · have hOwn : row.session = t.session := h.row hSound hRow hId
    rw [if_pos hId]
    have hLater : t'.session = t.session ∨ t.session.version < t'.session.version := h.takes.step.version.imp (·.session) id
    refine ⟨rfl, hOwn ▸ h.takes.step.follows, ?_, ?_, ?_⟩
    · rw [hOwn]
      rcases hLater with hSame | hLater
      · exact hSame ▸ Nat.le_refl _
      · exact Nat.le_of_lt hLater
    · intro hVersion
      rw [hOwn] at hVersion
      rcases hLater with hSame | hLater
      · exact congrArg (SessionRow.mk · row.requestId) (hSame.trans hOwn.symm)
      · exact absurd hVersion (Nat.ne_of_gt hLater)
    · intro hStatus
      rw [hOwn] at hStatus
      exact congrArg (SessionRow.mk · row.requestId) ((h.takes.step.final hStatus).trans hOwn.symm)
  · rw [if_neg hId]
    exact .refl row

theorem Opened.precedes (h : Opened db db' resources t) (hSound : db.work.Sound db.clock) : db.Precedes db' := by
  refine (h.moves.keeps hSound h.new).precedes fun row hRow => ?_
  obtain ⟨requestId, hSessions⟩ := h.sessions
  rw [hSessions]
  exact ⟨row, List.mem_append_left _ hRow, .refl row⟩

/-- Calls, events and settings do not matter. -/
theorem precedes_of_work (hSessions : db'.sessions = db.sessions) (hWork : db'.work = db.work) : db.Precedes db' := by
  have hKeeps : db.work.Keeps db'.work := by
    rw [hWork]
    exact ⟨fun _ hRun _ _ => hRun, fun _ hJob _ _ => hJob, fun _ hSlot _ => hSlot,
      fun lease hLease => ⟨lease, hLease, rfl, Nat.le_refl _⟩, fun _ hArtifact => hArtifact⟩
  refine hKeeps.precedes fun row hRow => ⟨row, ?_, .refl row⟩
  rwa [hSessions]

theorem Effect.precedes {system next : System} {given : Option Resources} (h : Effect system given next)
    (hOrdered : system.Ordered) : system.db.Precedes next.db := by
  have hSound := hOrdered.sound
  cases h with
  | same => exact .refl _
  | waited clock setting => exact precedes_of_work rfl rfl
  | opened hOpened => exact hOpened.precedes hSound
  | asked hCommit => exact hCommit.precedes hSound
  | claimed _ hCommit => exact hCommit.precedes hSound
  | renewed _ _ _ _ hTakes hRows =>
      refine (hTakes.keeps hSound).precedes fun row hRow => ?_
      rw [hRows]
      exact ⟨row, hRow, .refl row⟩
  | marked => exact precedes_of_work rfl rfl
  | sent => exact .refl _
  | recorded => exact precedes_of_work rfl rfl
  | finished _ _ _ hCommit => exact hCommit.precedes hSound

end Precedes

/-- Whatever comes after a run, no session goes back, and what is over stays. -/
theorem run_precedes (library : Library) (setting : Setting) (clock : Nat) (first rest : List Operation) :
    ((System.initial setting clock).run library first).db.Precedes ((System.initial setting clock).run library (first ++ rest)).db := by
  have hOrdered := run_ordered library setting clock first
  rw [System.run_append]
  refine (hOrdered.run library (P := fun later => ((System.initial setting clock).run library first).db.Precedes later.db)
    (.refl _) ?_ rest).2
  intro middle last given hMiddle hEarlier hEffect
  exact hEarlier.trans (hEffect.precedes hMiddle)

end Interpretation

end QsAi
