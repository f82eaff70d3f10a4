import QsAi.Interpretation.Lifecycle

/-! A database in order: every session has its rows, and there are no others. A
step of one session keeps the order. -/
namespace QsAi

namespace Interpretation

open Keyed

/-- Every session has its rows in order, and there are no others. -/
structure Work.Sound (clock : Nat) (work : Work) : Prop where
  tidy : work.Tidy
  threads : ∀ session ∈ work.sessions, ∃ t, t.session = session ∧ Shows work t ∧ t.Valid clock

section Order

variable {clock : Nat} {work work' : Work} {t : Thread}

theorem Shows.mem (h : Shows work t) : t.session ∈ work.sessions := (lookup_some h.session).1

theorem Shows.distinct (h : Shows work t) (hTidy : work.Tidy) : t.Distinct := by
  have hRuns : (t.attempts.map (·.run.id)).Nodup := by
    have hUnique : UniqueOn (·.id) (work.runs.filter (·.sessionId == t.id)) := hTidy.runs.sublist List.filter_sublist
    rw [h.runs, UniqueOn, List.map_map] at hUnique
    exact hUnique
  have hJobs : ((t.attempts.filterMap (·.job)).map (·.id)).Nodup := by
    have hUnique : UniqueOn (·.id) (work.jobs.filter (·.sessionId == t.id)) := hTidy.jobs.sublist List.filter_sublist
    rwa [h.jobs, UniqueOn] at hUnique
  constructor
  · intro attempt hPast
    rw [Thread.attempts, List.map_append, List.nodup_append] at hRuns
    exact hRuns.2.2 _ (List.mem_map_of_mem hPast) _ (List.mem_singleton_self _)
  · intro attempt hPast job hJob own hOwn
    rw [Thread.attempts, List.filterMap_append, List.map_append, List.nodup_append] at hJobs
    refine hJobs.2.2 _ (List.mem_map_of_mem (List.mem_filterMap.mpr ⟨attempt, hPast, hJob⟩)) _ (List.mem_map_of_mem ?_)
    exact List.mem_filterMap.mpr ⟨t.current, List.mem_singleton_self _, hOwn⟩

theorem Work.Sound.find (h : work.Sound clock) {session : Session} (hFound : lookup Session.id work.sessions session.id = some session) :
    ∃ t, t.session = session ∧ Shows work t ∧ t.Valid clock := h.threads session (lookup_some hFound).1

/-- A row of the active run belongs to the session. -/
theorem Work.Sound.session_of_run (h : work.Sound clock) (hShows : Shows work t) {u : Thread} (hOther : Shows work u)
    {attempt : Attempt} (hAttempt : attempt ∈ u.attempts) (hRun : attempt.run.id = t.current.run.id) : u.id = t.id := by
  have hSame : attempt.run = t.current.run :=
    h.tidy.runs.eq_of_key (hOther.run_mem hAttempt).1 (hShows.run_mem t.current_mem).1 hRun
  rw [← (hShows.run_mem t.current_mem).2, ← hSame, (hOther.run_mem hAttempt).2]

/-- The job of an active run is its own. -/
theorem Work.Sound.job_of_run (h : work.Sound clock) (hShows : Shows work t) (hValid : t.Valid clock) {job : Job}
    (hJob : job ∈ work.jobs) (hRun : job.runId = t.current.run.id) : t.current.job = some job := by
  obtain ⟨owner, hOwner, hId⟩ := List.mem_map.mp (h.tidy.jobOf job hJob)
  obtain ⟨u, rfl, hOther, hOrder⟩ := h.threads owner hOwner
  obtain ⟨attempt, hAttempt, hOwn⟩ := hOther.attempt_of_job hJob hId.symm
  have hLink := ((hOrder.linked attempt hAttempt).job job hOwn).1
  have hSession : u.id = t.id := h.session_of_run hShows hOther hAttempt (hLink.symm.trans hRun)
  obtain ⟨own, hMem, hFound⟩ := hShows.attempt_of_job hJob (hId.symm.trans hSession)
  rcases Thread.mem_attempts.mp hMem with hPast | rfl
  · have hPastLink := ((hValid.linked own hMem).job job hFound).1
    exact absurd (hPastLink.symm.trans hRun) ((hShows.distinct h.tidy).runs own hPast)
  · exact hFound

/-- The reservation of an active run is its own. -/
theorem Work.Sound.slot_of_run (h : work.Sound clock) (hShows : Shows work t) (hValid : t.Valid clock) {slot : Reservation}
    (hSlot : slot ∈ work.slots) (hRun : slot.runId = t.current.run.id) : t.current.slot = some slot := by
  obtain ⟨owner, hOwner, hId⟩ := List.mem_map.mp (h.tidy.slotOf slot hSlot)
  obtain ⟨u, rfl, hOther, hOrder⟩ := h.threads owner hOwner
  obtain ⟨attempt, hAttempt, hOwn⟩ := hOther.attempt_of_slot hSlot hId.symm
  have hLink := ((hOrder.linked attempt hAttempt).slot slot hOwn).1
  have hSession : u.id = t.id := h.session_of_run hShows hOther hAttempt (hLink.symm.trans hRun)
  obtain ⟨own, hMem, hFound⟩ := hShows.attempt_of_slot hSlot (hId.symm.trans hSession)
  rcases Thread.mem_attempts.mp hMem with hPast | rfl
  · have hPastLink := ((hValid.linked own hMem).slot slot hFound).1
    exact absurd (hPastLink.symm.trans hRun) ((hShows.distinct h.tidy).runs own hPast)
  · exact hFound

/-- The thread of a job. -/
theorem Work.Sound.of_job (h : work.Sound clock) {job : Job} (hJob : job ∈ work.jobs) : ∃ u : Thread, u.id = job.sessionId ∧ Shows work u := by
  obtain ⟨owner, hOwner, hId⟩ := List.mem_map.mp (h.tidy.jobOf job hJob)
  obtain ⟨u, rfl, hShows, -⟩ := h.threads owner hOwner
  exact ⟨u, hId, hShows⟩

/-! The rows that an edit is about. -/

/-- The edit of the rows with the keys of the active run. -/
def Edit.at (change : Edit) (t : Thread) (jobId : String) : Rewrite where
  session := onKey Session.id t.id change.session
  run := onKey (·.id) t.current.run.id change.run
  job := onKey (·.id) jobId change.job
  lease := onKey (·.threadId) t.id change.lease
  slot := onKey (·.runId) t.current.run.id change.slot

/-- The rows of a thread, as its edit finds them. -/
structure Targets (work : Work) (t : Thread) (change : Edit) (jobId : String) : Prop where
  shows : Shows work t
  linked : ∀ attempt ∈ t.attempts, attempt.Linked t.session
  linking : change.Linking
  session : (change.session t.session).id = t.id
  job : ∃ job, t.current.job = some job ∧ job.id = jobId
  slot : ∀ slot ∈ work.slots, slot.runId = t.current.run.id → t.current.slot = some slot

section Targets

variable {change : Edit} {jobId : String} (hTargets : Targets work t change jobId) (hTidy : work.Tidy)

include hTargets hTidy

theorem Targets.local : (change.at t jobId).Local work t.id := by
  have hShows := hTargets.shows
  obtain ⟨job, hJob, rfl⟩ := hTargets.job
  have hRun := hShows.run_mem t.current_mem
  have hOwnJob := hShows.job_mem t.current_mem hJob
  constructor
  · intro row hRow
    by_cases hId : row.id = t.id
    · have hSame : row = t.session := hTidy.sessions.eq_of_key hRow hShows.mem hId
      refine ⟨?_, fun hOther => absurd hId hOther⟩
      change (onKey Session.id t.id change.session row).id = row.id
      rw [onKey_self hId, hSame]
      exact hTargets.session
    · exact ⟨congrArg Session.id (onKey_other hId), fun _ => onKey_other hId⟩
  · intro row hRow
    refine ⟨⟨onKey_part (fun run => (hTargets.linking.run run).1) row, onKey_part (fun run => (hTargets.linking.run run).2) row⟩,
      fun hOther => ?_⟩
    exact onKey_outside (·.sessionId) hTidy.runs hRun.1 hRow (by rwa [hRun.2])
  · intro row hRow
    refine ⟨⟨onKey_part (fun job => (hTargets.linking.job job).1) row, onKey_part (fun job => (hTargets.linking.job job).2.2) row⟩,
      fun hOther => ?_⟩
    exact onKey_outside (·.sessionId) hTidy.jobs hOwnJob.1 hRow (by rwa [hOwnJob.2])
  · intro row _
    exact ⟨onKey_part hTargets.linking.lease row, fun hOther => onKey_other hOther⟩
  · intro row hRow
    refine ⟨⟨onKey_part (fun slot => (hTargets.linking.slot slot).1) row,
      onKey_part (fun slot => (hTargets.linking.slot slot).2.1) row⟩, fun hOther => ?_⟩
    apply onKey_other
    intro hKey
    exact hOther (hShows.slot_mem t.current_mem (hTargets.slot row hRow hKey)).2

theorem Targets.rewrite : t.rewrite (change.at t jobId) = t.edit change := by
  have hShows := hTargets.shows
  have hDistinct := hShows.distinct hTidy
  obtain ⟨job, hJob, rfl⟩ := hTargets.job
  have hPast : t.past.map (·.rewrite (change.at t job.id)) = t.past := by
    conv_rhs => rw [← List.map_id t.past]
    refine List.map_congr_left fun attempt hMem => ?_
    have hRun := hDistinct.runs attempt hMem
    have hLinked := hTargets.linked attempt (Thread.past_mem hMem)
    have hRows : attempt.rewrite (change.at t job.id) = ⟨attempt.run, attempt.job, attempt.slot⟩ := by
      refine congr (congr (congrArg Attempt.mk (onKey_other hRun)) ?_) ?_
      · cases hOwn : attempt.job with
        | none => rfl
        | some own => exact congrArg some (onKey_other (hDistinct.jobs attempt hMem own hOwn job hJob))
      · cases hOwn : attempt.slot with
        | none => rfl
        | some own =>
            refine congrArg some (onKey_other ?_)
            rw [(hLinked.slot own hOwn).1]
            exact hRun
    exact hRows
  have hCurrent : t.current.rewrite (change.at t job.id) = t.current.edit change := by
    refine congr (congr (congrArg Attempt.mk (onKey_self rfl)) ?_) ?_
    · rw [hJob]
      exact congrArg some (onKey_self rfl)
    · cases hOwn : t.current.slot with
      | none => rfl
      | some own => exact congrArg some (onKey_self ((hTargets.linked _ t.current_mem).slot own hOwn).1)
  have hLease : t.lease.map (change.at t job.id).lease = t.lease.map change.lease := by
    cases hOwn : t.lease with
    | none => rfl
    | some own => exact congrArg some (onKey_self (lookup_some (hShows.lease.trans hOwn)).2)
  rw [Thread.rewrite, Thread.edit, hPast, hCurrent, hLease]
  exact congrArg (Thread.mk · _ _ _ _) (onKey_self rfl)

/-- An edit changes the rows of one session as it changes the thread. -/
theorem Targets.moves : Moves work (work.rewrite (change.at t jobId)) t.id ∧ Shows (work.rewrite (change.at t jobId)) (t.edit change) := by
  have hLocal := hTargets.local hTidy
  refine ⟨hTidy.rewrite_moves hLocal, ?_⟩
  rw [← hTargets.rewrite hTidy]
  exact hTargets.shows.rewrite hLocal

end Targets

/-- The lease of a session, or a new one. -/
theorem Shows.leased (hShows : Shows work t) (hTidy : work.Tidy) {leases : List Lease}
    (hLeases : leases = work.leases ++ if t.lease.isSome = true then [] else [⟨t.id, 0, clock⟩]) :
    Moves work { work with leases } t.id ∧ Shows { work with leases } (t.leased clock) := by
  cases hOwn : t.lease with
  | none =>
      rw [hOwn] at hLeases
      obtain ⟨hMoves, hNext⟩ := hTidy.lease_moves ⟨t.id, 0, clock⟩ hShows rfl hOwn
      rw [hLeases, Thread.leased, hOwn]
      exact ⟨hMoves, hNext⟩
  | some held =>
      have hSame : t.leased clock = t := by
        rw [Thread.leased, hOwn, Option.getD_some, ← hOwn]
      rw [hOwn, Option.isSome_some, if_pos rfl, List.append_nil] at hLeases
      rw [hSame, hLeases]
      exact ⟨hTidy.moves t.id, hShows⟩

/-- A cancellation ends whatever the session has in progress. -/
def cancelling (clock : Nat) (time : DateTime) (next : Session) (runId : String) : Rewrite where
  session := onKey Session.id next.id fun _ => next
  run run :=
    if run.sessionId = next.id ∧ (run.status = .queued ∨ run.status = .running) then { run with status := .cancelled } else run
  job job :=
    if job.sessionId = next.id ∧ (job.status = .queued ∨ job.status = .leased) then { job with status := .cancelled } else job
  lease := onKey (·.threadId) next.id (Edit.revoke clock)
  slot := onKey (·.runId) runId (Edit.release time)

section Cancellation

variable {next : Session} (time : DateTime) (hSound : work.Sound clock) (hShows : Shows work t) (hValid : t.Valid clock)
  (hId : next.id = t.id)

include hSound hShows hValid hId

theorem cancelling_local : (cancelling clock time next t.current.run.id).Local work t.id := by
  have hTidy := hSound.tidy
  constructor
  · intro row _
    by_cases hRow : row.id = next.id
    · refine ⟨?_, fun hOther => absurd (hRow.trans hId) hOther⟩
      exact (congrArg Session.id (onKey_self (f := fun _ => next) hRow)).trans hRow.symm
    · have hSame := onKey_other (f := fun _ => next) hRow
      exact ⟨congrArg Session.id hSame, fun _ => hSame⟩
  · intro row _
    simp only [cancelling]
    split_ifs with hOpen
    · exact ⟨⟨rfl, rfl⟩, fun hOther => absurd (hOpen.1.trans hId) hOther⟩
    · exact ⟨⟨rfl, rfl⟩, fun _ => rfl⟩
  · intro row _
    simp only [cancelling]
    split_ifs with hOpen
    · exact ⟨⟨rfl, rfl⟩, fun hOther => absurd (hOpen.1.trans hId) hOther⟩
    · exact ⟨⟨rfl, rfl⟩, fun _ => rfl⟩
  · intro row _
    refine ⟨?_, fun hOther => ?_⟩
    · exact onKey_part (f := Edit.revoke clock) (fun _ => rfl) row
    · exact onKey_other (f := Edit.revoke clock) (by rwa [hId])
  · intro row hRow
    refine ⟨⟨onKey_part (fun slot => (Edit.release_links time slot).1) row,
      onKey_part (fun slot => (Edit.release_links time slot).2.1) row⟩, fun hOther => ?_⟩
    apply onKey_other
    intro hKey
    exact hOther (hShows.slot_mem t.current_mem (hSound.slot_of_run hShows hValid hRow hKey)).2

theorem cancelling_rewrite :
    t.rewrite (cancelling clock time next t.current.run.id) = t.edit (.cancelled clock time next) := by
  have hDistinct := hShows.distinct hSound.tidy
  have hPast : t.past.map (·.rewrite (cancelling clock time next t.current.run.id)) = t.past := by
    conv_rhs => rw [← List.map_id t.past]
    refine List.map_congr_left fun attempt hMem => ?_
    have hEnded := hValid.past attempt hMem
    have hLinked := hValid.linked attempt (Thread.past_mem hMem)
    have hRows : attempt.rewrite (cancelling clock time next t.current.run.id) = ⟨attempt.run, attempt.job, attempt.slot⟩ := by
      refine congr (congr (congrArg Attempt.mk (if_neg fun hOpen => not_or.mpr hEnded.run hOpen.2)) ?_) ?_
      · cases hOwn : attempt.job with
        | none => rfl
        | some own => exact congrArg some (if_neg fun hOpen => not_or.mpr (hEnded.job own hOwn) hOpen.2)
      · cases hOwn : attempt.slot with
        | none => rfl
        | some own =>
            refine congrArg some (onKey_other ?_)
            rw [(hLinked.slot own hOwn).1]
            exact hDistinct.runs attempt hMem
    exact hRows
  have hLinked := hValid.linked _ t.current_mem
  have hCurrent : t.current.rewrite (cancelling clock time next t.current.run.id) =
      t.current.edit (.cancelled clock time next) := by
    refine congr (congr (congrArg Attempt.mk ?_) ?_) ?_
    · exact if_congr (and_iff_right (hLinked.run.trans hId.symm)) rfl rfl
    · cases hOwn : t.current.job with
      | none => rfl
      | some own => exact congrArg some (if_congr (and_iff_right ((hLinked.job own hOwn).2.trans hId.symm)) rfl rfl)
    · cases hOwn : t.current.slot with
      | none => rfl
      | some own => exact congrArg some (onKey_self (hLinked.slot own hOwn).1)
  have hLease : t.lease.map (cancelling clock time next t.current.run.id).lease =
      t.lease.map (Edit.cancelled clock time next).lease := by
    cases hOwn : t.lease with
    | none => rfl
    | some own =>
        exact congrArg some (onKey_self (f := Edit.revoke clock) ((lookup_some (hShows.lease.trans hOwn)).2.trans hId.symm))
  rw [Thread.rewrite, Thread.edit, hPast, hCurrent, hLease]
  have hSession : onKey Session.id next.id (fun _ => next) t.session = next := onKey_self hId.symm
  exact congrArg (Thread.mk · _ _ _ _) hSession

end Cancellation

/-- A session is stored in the place of the one with its identity. -/
theorem Shows.stored (hShows : Shows work t) (hTidy : work.Tidy) {next : Session} (hId : next.id = t.id) :
    Moves work { work with sessions := work.sessions.map (onKey Session.id next.id fun _ => next) } t.id ∧
      Shows { work with sessions := work.sessions.map (onKey Session.id next.id fun _ => next) } { t with session := next } := by
  let change : Rewrite := { session := onKey Session.id next.id fun _ => next }
  have hLocal : change.Local work t.id := by
    refine ⟨fun row _ => ?_, fun _ _ => ⟨⟨rfl, rfl⟩, fun _ => rfl⟩, fun _ _ => ⟨⟨rfl, rfl⟩, fun _ => rfl⟩,
      fun _ _ => ⟨rfl, fun _ => rfl⟩, fun _ _ => ⟨⟨rfl, rfl⟩, fun _ => rfl⟩⟩
    by_cases hRow : row.id = next.id
    · refine ⟨?_, fun hOther => absurd (hRow.trans hId) hOther⟩
      exact (congrArg Session.id (onKey_self (f := fun _ => next) hRow)).trans hRow.symm
    · have hSame := onKey_other (f := fun _ => next) hRow
      exact ⟨congrArg Session.id hSame, fun _ => hSame⟩
  have hWork : work.rewrite change = { work with sessions := work.sessions.map (onKey Session.id next.id fun _ => next) } := by
    simp only [Work.rewrite, change, List.map_id']
  have hAttempt : ∀ attempt : Attempt, attempt.rewrite change = attempt := by
    intro attempt
    simp only [Attempt.rewrite, change, Option.map_id']
  have hThread : t.rewrite change = { t with session := next } := by
    have hSession : onKey Session.id next.id (fun _ => next) t.session = next := onKey_self hId.symm
    simp only [Thread.rewrite, hAttempt, List.map_id', change, hSession, Option.map_id']
  rw [← hWork, ← hThread]
  exact ⟨hTidy.rewrite_moves hLocal, hShows.rewrite hLocal⟩

theorem cancelling_moves (h : work.Sound clock) (hShows : Shows work t) (hValid : t.Valid clock) {next : Session}
    (hId : next.id = t.id) (time : DateTime) : Moves work (work.rewrite (cancelling clock time next t.current.run.id)) t.id ∧
      Shows (work.rewrite (cancelling clock time next t.current.run.id)) (t.edit (.cancelled clock time next)) := by
  have hLocal := cancelling_local time h hShows hValid hId
  refine ⟨h.tidy.rewrite_moves hLocal, ?_⟩
  rw [← cancelling_rewrite time h hShows hValid hId]
  exact hShows.rewrite hLocal

theorem Attempt.Linked.for {attempt : Attempt} {session : Session} (h : attempt.Linked session) : attempt.For session.id :=
  ⟨h.run, fun job hJob => (h.job job hJob).2, fun slot hSlot => (h.slot slot hSlot).2.1⟩

theorem Work.Sound.targets (h : work.Sound clock) (hShows : Shows work t) (hValid : t.Valid clock) {change : Edit}
    (hLinking : change.Linking) (hSession : (change.session t.session).id = t.id) {job : Job} (hJob : t.current.job = some job) :
    Targets work t change job.id :=
  ⟨hShows, hValid.linked, hLinking, hSession, ⟨job, hJob, rfl⟩, fun _ hSlot hRun => h.slot_of_run hShows hValid hSlot hRun⟩

/-- When one session's rows are in order again, all are. -/
theorem Work.Sound.moved (h : work.Sound clock) (hMoves : Moves work work' t.id) {t' : Thread} (hId : t'.id = t.id)
    (hNext : Shows work' t') (hValid : t'.Valid clock) : work'.Sound clock where
  tidy := hMoves.tidy
  threads session hMem := by
    have hFound := lookup_some hNext.session
    by_cases hOwn : session.id = t.id
    · exact ⟨t', hMoves.tidy.sessions.eq_of_key hFound.1 hMem (hId.trans hOwn.symm), hNext, hValid⟩
    · obtain ⟨u, rfl, hShows, hOrder⟩ := h.threads session ((hMoves.sessions session hMem).resolve_left hOwn)
      exact ⟨u, rfl, hMoves.others u hOwn hShows, hOrder⟩

/-- One session takes a step, and the others keep their rows. -/
structure Takes (clock : Nat) (work work' : Work) (t t' : Thread) : Prop where
  shows : Shows work t
  valid : t.Valid clock
  step : Advance clock t t'
  next : Shows work' t'
  moves : Moves work work' t.id

theorem Takes.id {t' : Thread} (h : Takes clock work work' t t') : t'.id = t.id := h.step.follows.id

/-- A step keeps the database in order. -/
theorem Takes.sound {t' : Thread} (h : Takes clock work work' t t') (hSound : work.Sound clock) : work'.Sound clock :=
  hSound.moved h.moves h.id h.next (h.step.valid h.valid)

theorem Work.Sound.later (h : work.Sound clock) {clock' : Nat} (hClock : clock ≤ clock') : work.Sound clock' where
  tidy := h.tidy
  threads session hMem := by
    obtain ⟨t, hSession, hShows, hValid⟩ := h.threads session hMem
    exact ⟨t, hSession, hShows, hValid.later hClock⟩

/-- A job stays, with its run and its session. -/
theorem Takes.job {t' : Thread} (h : Takes clock work work' t t') (hSound : work.Sound clock) {job : Job} (hJob : job ∈ work.jobs) :
    ∃ job' ∈ work'.jobs, job'.id = job.id ∧ job'.runId = job.runId ∧ job'.sessionId = job.sessionId ∧ job.attempt ≤ job'.attempt := by
  by_cases hOwn : job.sessionId = t.id
  · obtain ⟨attempt, hAttempt, hFound⟩ := h.shows.attempt_of_job hJob hOwn
    obtain ⟨attempt', hAttempt', hRun, hJobs⟩ := h.step.keeps attempt hAttempt
    obtain ⟨job', hFound', hId, hTries⟩ := hJobs job hFound
    have hNext := (h.step.valid h.valid).linked attempt' hAttempt'
    obtain ⟨hLast, hSession⟩ := h.next.job_mem hAttempt' hFound'
    refine ⟨job', hLast, hId, ?_, ?_, hTries⟩
    · rw [(hNext.job job' hFound').1, hRun, ((h.valid.linked attempt hAttempt).job job hFound).1]
    · rw [hSession, h.id, hOwn]
  · obtain ⟨u, hId, hShows⟩ := hSound.of_job hJob
    obtain ⟨attempt, hAttempt, hFound⟩ := hShows.attempt_of_job hJob hId.symm
    have hNext := h.moves.others u (fun hSame => hOwn (hId.symm.trans hSame)) hShows
    exact ⟨job, (hNext.job_mem hAttempt hFound).1, rfl, rfl, rfl, Nat.le_refl _⟩

end Order

end Interpretation

end QsAi
