import QsAi.Interpretation.Execution

/-! The rows of one session: its runs with their jobs and reservations, its lease
and its artifact. A transaction on one session leaves the rows of the others. -/
namespace QsAi

namespace Interpretation

open Keyed

/-- The rows about the work on sessions. -/
structure Work where
  sessions : List Session
  runs : List Run
  jobs : List Job
  leases : List Lease
  slots : List Reservation
  artifacts : List Artifact

def Database.work (db : Database) : Work :=
  ⟨db.sessions.map (·.session), db.runs, db.jobs, db.leases, db.reservations, db.artifacts⟩

/-- One run of a session, with the job and the reservation that it has. -/
structure Attempt where
  run : Run
  job : Option Job := none
  slot : Option Reservation := none

/-- A session with its runs, the last of which is the active one. -/
structure Thread where
  session : Session
  past : List Attempt := []
  current : Attempt
  lease : Option Lease := none
  artifact : Option Artifact := none

namespace Thread

def id (t : Thread) : String := t.session.id

def attempts (t : Thread) : List Attempt := t.past ++ [t.current]

/-- The thread with a further attempt. -/
def extend (t : Thread) (attempt : Attempt) : Thread := { t with past := t.attempts, current := attempt }

theorem extend_attempts (t : Thread) (attempt : Attempt) : (t.extend attempt).attempts = t.attempts ++ [attempt] := rfl

end Thread

/-- The rows of a session are those of the thread. -/
structure Shows (work : Work) (t : Thread) : Prop where
  session : lookup Session.id work.sessions t.id = some t.session
  runs : work.runs.filter (·.sessionId == t.id) = t.attempts.map (·.run)
  jobs : work.jobs.filter (·.sessionId == t.id) = t.attempts.filterMap (·.job)
  slots : work.slots.filter (·.sessionId == t.id) = t.attempts.filterMap (·.slot)
  lease : lookup (·.threadId) work.leases t.id = t.lease
  artifacts : work.artifacts.filter (·.sessionId == t.id) = t.artifact.toList

/-- Rows have different keys and belong to sessions. -/
structure Work.Tidy (work : Work) : Prop where
  sessions : UniqueOn Session.id work.sessions
  runs : UniqueOn (·.id) work.runs
  jobs : UniqueOn (·.id) work.jobs
  leases : UniqueOn (·.threadId) work.leases
  slots : UniqueOn (·.runId) work.slots
  runOf : ∀ run ∈ work.runs, run.sessionId ∈ work.sessions.map Session.id
  jobOf : ∀ job ∈ work.jobs, job.sessionId ∈ work.sessions.map Session.id
  leaseOf : ∀ lease ∈ work.leases, lease.threadId ∈ work.sessions.map Session.id
  slotOf : ∀ slot ∈ work.slots, slot.sessionId ∈ work.sessions.map Session.id
  artifactOf : ∀ artifact ∈ work.artifacts, artifact.sessionId ∈ work.sessions.map Session.id

/-! Changes of rows in place. -/

structure Rewrite where
  session : Session → Session := fun row => row
  run : Run → Run := fun row => row
  job : Job → Job := fun row => row
  lease : Lease → Lease := fun row => row
  slot : Reservation → Reservation := fun row => row

def Work.rewrite (work : Work) (change : Rewrite) : Work where
  sessions := work.sessions.map change.session
  runs := work.runs.map change.run
  jobs := work.jobs.map change.job
  leases := work.leases.map change.lease
  slots := work.slots.map change.slot
  artifacts := work.artifacts

def Attempt.rewrite (attempt : Attempt) (change : Rewrite) : Attempt :=
  ⟨change.run attempt.run, attempt.job.map change.job, attempt.slot.map change.slot⟩

def Thread.rewrite (t : Thread) (change : Rewrite) : Thread where
  session := change.session t.session
  past := t.past.map (·.rewrite change)
  current := t.current.rewrite change
  lease := t.lease.map change.lease
  artifact := t.artifact

/-- A change of the rows of one session that keeps all keys. -/
structure Rewrite.Local (change : Rewrite) (work : Work) (id : String) : Prop where
  session : ∀ row ∈ work.sessions, (change.session row).id = row.id ∧ (row.id ≠ id → change.session row = row)
  run : ∀ row ∈ work.runs, ((change.run row).id = row.id ∧ (change.run row).sessionId = row.sessionId) ∧
    (row.sessionId ≠ id → change.run row = row)
  job : ∀ row ∈ work.jobs, ((change.job row).id = row.id ∧ (change.job row).sessionId = row.sessionId) ∧
    (row.sessionId ≠ id → change.job row = row)
  lease : ∀ row ∈ work.leases, (change.lease row).threadId = row.threadId ∧ (row.threadId ≠ id → change.lease row = row)
  slot : ∀ row ∈ work.slots, ((change.slot row).runId = row.runId ∧ (change.slot row).sessionId = row.sessionId) ∧
    (row.sessionId ≠ id → change.slot row = row)

/-- Only rows of one session are different. -/
structure Moves (work work' : Work) (id : String) : Prop where
  tidy : work'.Tidy
  others : ∀ t : Thread, t.id ≠ id → Shows work t → Shows work' t
  sessions : ∀ session ∈ work'.sessions, session.id = id ∨ session ∈ work.sessions

theorem Moves.trans {work middle work' : Work} {id : String} (h : Moves work middle id) (h' : Moves middle work' id) :
    Moves work work' id where
  tidy := h'.tidy
  others t hOther hShows := h'.others t hOther (h.others t hOther hShows)
  sessions session hMem := by
    rcases h'.sessions session hMem with hId | hMem
    · exact .inl hId
    · exact h.sessions session hMem

theorem Work.Tidy.moves {work : Work} (h : work.Tidy) (id : String) : Moves work work id :=
  ⟨h, fun _ _ hShows => hShows, fun _ hMem => .inr hMem⟩

section Changes

variable {work : Work} {change : Rewrite} {id : String} (hLocal : change.Local work id)

include hLocal

theorem Work.Tidy.rewrite (h : work.Tidy) : (work.rewrite change).Tidy := by
  have hIds : (work.rewrite change).sessions.map Session.id = work.sessions.map Session.id := by
    rw [Work.rewrite, List.map_map]
    exact List.map_congr_left fun row hRow => (hLocal.session row hRow).1
  constructor
  · exact h.sessions.map_of fun row hRow => (hLocal.session row hRow).1
  · exact h.runs.map_of fun row hRow => (hLocal.run row hRow).1.1
  · exact h.jobs.map_of fun row hRow => (hLocal.job row hRow).1.1
  · exact h.leases.map_of fun row hRow => (hLocal.lease row hRow).1
  · exact h.slots.map_of fun row hRow => (hLocal.slot row hRow).1.1
  · intro row hRow
    obtain ⟨old, hOld, rfl⟩ := List.mem_map.mp hRow
    rw [hIds, (hLocal.run old hOld).1.2]
    exact h.runOf old hOld
  · intro row hRow
    obtain ⟨old, hOld, rfl⟩ := List.mem_map.mp hRow
    rw [hIds, (hLocal.job old hOld).1.2]
    exact h.jobOf old hOld
  · intro row hRow
    obtain ⟨old, hOld, rfl⟩ := List.mem_map.mp hRow
    rw [hIds, (hLocal.lease old hOld).1]
    exact h.leaseOf old hOld
  · intro row hRow
    obtain ⟨old, hOld, rfl⟩ := List.mem_map.mp hRow
    rw [hIds, (hLocal.slot old hOld).1.2]
    exact h.slotOf old hOld
  · intro row hRow
    rw [hIds]
    exact h.artifactOf row hRow

/-- The other sessions keep their rows. -/
theorem Shows.other {t : Thread} (h : Shows work t) (hOther : t.id ≠ id) : Shows (work.rewrite change) t := by
  constructor
  · have hSession := lookup_some h.session
    rw [Work.rewrite, lookup_map fun row hRow => (hLocal.session row hRow).1, h.session]
    exact congrArg some ((hLocal.session _ hSession.1).2 hOther)
  · rw [← h.runs]
    refine filter_map_other (fun row hRow => by rw [(hLocal.run row hRow).1.2]) fun row hRow hOwn => ?_
    exact (hLocal.run row hRow).2 (by rwa [eq_of_beq hOwn])
  · rw [← h.jobs]
    refine filter_map_other (fun row hRow => by rw [(hLocal.job row hRow).1.2]) fun row hRow hOwn => ?_
    exact (hLocal.job row hRow).2 (by rwa [eq_of_beq hOwn])
  · rw [← h.slots]
    refine filter_map_other (fun row hRow => by rw [(hLocal.slot row hRow).1.2]) fun row hRow hOwn => ?_
    exact (hLocal.slot row hRow).2 (by rwa [eq_of_beq hOwn])
  · rw [Work.rewrite, lookup_map fun row hRow => (hLocal.lease row hRow).1, ← h.lease]
    cases hLease : lookup (·.threadId) work.leases t.id with
    | none => rfl
    | some lease =>
        have hFound := lookup_some hLease
        exact congrArg some ((hLocal.lease _ hFound.1).2 (by rwa [hFound.2]))
  · exact h.artifacts

theorem Shows.rewrite_id {t : Thread} (h : Shows work t) : (t.rewrite change).id = t.id :=
  (hLocal.session _ (lookup_some h.session).1).1

/-- The rows of the session change as the thread does. -/
theorem Shows.rewrite {t : Thread} (h : Shows work t) : Shows (work.rewrite change) (t.rewrite change) := by
  have hAttempts : (t.rewrite change).attempts = t.attempts.map (·.rewrite change) := by
    rw [Thread.attempts, Thread.attempts, List.map_append]
    rfl
  have hId := h.rewrite_id hLocal
  constructor
  · rw [hId, Work.rewrite, lookup_map fun row hRow => (hLocal.session row hRow).1, h.session]
    rfl
  · rw [hId, hAttempts, Work.rewrite, filter_map_own fun row hRow => by rw [(hLocal.run row hRow).1.2], h.runs, List.map_map,
      List.map_map]
    rfl
  · rw [hId, hAttempts, Work.rewrite, filter_map_own fun row hRow => by rw [(hLocal.job row hRow).1.2], h.jobs,
      List.map_filterMap, List.filterMap_map]
    rfl
  · rw [hId, hAttempts, Work.rewrite, filter_map_own fun row hRow => by rw [(hLocal.slot row hRow).1.2], h.slots,
      List.map_filterMap, List.filterMap_map]
    rfl
  · rw [hId, Work.rewrite, lookup_map fun row hRow => (hLocal.lease row hRow).1, h.lease]
    rfl
  · rw [hId]
    exact h.artifacts

theorem Work.Tidy.rewrite_moves (h : work.Tidy) : Moves work (work.rewrite change) id where
  tidy := h.rewrite hLocal
  others _ hOther hShows := hShows.other hLocal hOther
  sessions session hMem := by
    obtain ⟨old, hOld, rfl⟩ := List.mem_map.mp hMem
    by_cases hId : old.id = id
    · exact .inl ((hLocal.session old hOld).1.trans hId)
    · rw [(hLocal.session old hOld).2 hId]
      exact .inr hOld

end Changes

/-! New rows. -/

/-- The rows of the attempt belong to the session. -/
structure Attempt.For (attempt : Attempt) (id : String) : Prop where
  run : attempt.run.sessionId = id
  job : ∀ job ∈ attempt.job, job.sessionId = id
  slot : ∀ slot ∈ attempt.slot, slot.sessionId = id

def Work.extend (work : Work) (attempt : Attempt) : Work :=
  { work with
    runs := work.runs ++ [attempt.run]
    jobs := work.jobs ++ attempt.job.toList
    slots := work.slots ++ attempt.slot.toList }

/-- The keys of the attempt are new. -/
structure Attempt.New (attempt : Attempt) (work : Work) : Prop where
  run : attempt.run.id ∉ work.runs.map (·.id)
  job : ∀ job ∈ attempt.job, job.id ∉ work.jobs.map (·.id)
  slot : ∀ slot ∈ attempt.slot, slot.runId ∉ work.slots.map (·.runId)

theorem uniqueOn_append_toList {α κ : Type} {key : α → κ} {rows : List α} (h : UniqueOn key rows) {row : Option α}
    (hNew : ∀ found ∈ row, key found ∉ rows.map key) : UniqueOn key (rows ++ row.toList) := by
  cases row with
  | none => simpa using h
  | some found => exact h.snoc (hNew found rfl)

theorem mem_append_toList {α : Type} {rows : List α} {row : Option α} {found : α} (h : found ∈ rows ++ row.toList) :
    found ∈ rows ∨ found ∈ row := by
  rcases List.mem_append.mp h with hOld | hNew
  · exact .inl hOld
  · exact .inr (Option.mem_toList.mp hNew)

theorem filter_toList {α : Type} {row : Option α} {p : α → Bool} {value : Bool} (h : ∀ found ∈ row, p found = value) :
    row.toList.filter p = if value then row.toList else [] := by
  cases row with
  | none => simp
  | some found =>
      have hFound := h found rfl
      cases value with
      | false => simp [hFound]
      | true => simp [hFound]

section Extension

variable {work : Work} {attempt : Attempt} {id : String} (hFor : attempt.For id)

include hFor

/-- The new rows, seen from a session. -/
theorem extend_filter (work : Work) (other : String) :
    (work.extend attempt).runs.filter (·.sessionId == other) =
      work.runs.filter (·.sessionId == other) ++ (if other = id then [attempt.run] else []) ∧
    (work.extend attempt).jobs.filter (·.sessionId == other) =
      work.jobs.filter (·.sessionId == other) ++ (if other = id then attempt.job.toList else []) ∧
    (work.extend attempt).slots.filter (·.sessionId == other) =
      work.slots.filter (·.sessionId == other) ++ (if other = id then attempt.slot.toList else []) := by
  have hJob : ∀ job ∈ attempt.job, (job.sessionId == other) = decide (other = id) := by
    intro job hMem
    rw [hFor.job job hMem, beq_eq_decide, decide_eq_decide]
    exact eq_comm
  have hSlot : ∀ slot ∈ attempt.slot, (slot.sessionId == other) = decide (other = id) := by
    intro slot hMem
    rw [hFor.slot slot hMem, beq_eq_decide, decide_eq_decide]
    exact eq_comm
  refine ⟨?_, ?_, ?_⟩
  · rw [Work.extend, List.filter_append]
    by_cases hId : other = id
    · simp [hId, hFor.run]
    · simp [hId, hFor.run, Ne.symm hId]
  · rw [Work.extend, List.filter_append, filter_toList hJob]
    by_cases hId : other = id <;> simp [hId]
  · rw [Work.extend, List.filter_append, filter_toList hSlot]
    by_cases hId : other = id <;> simp [hId]

theorem Work.Tidy.extend_moves (h : work.Tidy) (hNew : attempt.New work) (hKnown : id ∈ work.sessions.map Session.id) :
    Moves work (work.extend attempt) id := by
  refine ⟨?_, ?_, fun _ hMem => .inr hMem⟩
  · constructor
    · exact h.sessions
    · exact h.runs.snoc hNew.run
    · exact uniqueOn_append_toList h.jobs hNew.job
    · exact h.leases
    · exact uniqueOn_append_toList h.slots hNew.slot
    · intro run hRun
      rcases List.mem_append.mp hRun with hOld | hNew
      · exact h.runOf run hOld
      · obtain rfl := List.mem_singleton.mp hNew
        rw [hFor.run]
        exact hKnown
    · intro job hJob
      rcases mem_append_toList hJob with hOld | hNew
      · exact h.jobOf job hOld
      · rw [hFor.job job hNew]
        exact hKnown
    · exact h.leaseOf
    · intro slot hSlot
      rcases mem_append_toList hSlot with hOld | hNew
      · exact h.slotOf slot hOld
      · rw [hFor.slot slot hNew]
        exact hKnown
    · exact h.artifactOf
  · intro t hOther hShows
    obtain ⟨hRuns, hJobs, hSlots⟩ := extend_filter hFor work t.id
    rw [if_neg hOther, List.append_nil] at hRuns hJobs hSlots
    exact ⟨hShows.session, hRuns.trans hShows.runs, hJobs.trans hShows.jobs, hSlots.trans hShows.slots, hShows.lease,
      hShows.artifacts⟩

/-- A further attempt of a session. -/
theorem Shows.extend {t : Thread} (h : Shows work t) (hId : t.id = id) :
    Shows (work.extend attempt) (t.extend attempt) := by
  obtain ⟨hRuns, hJobs, hSlots⟩ := extend_filter hFor work t.id
  rw [if_pos hId] at hRuns hJobs hSlots
  constructor
  · exact h.session
  · refine hRuns.trans ?_
    rw [h.runs, t.extend_attempts, List.map_append]
    rfl
  · refine hJobs.trans ?_
    rw [h.jobs, t.extend_attempts, List.filterMap_append]
    cases hJob : attempt.job <;> simp [hJob]
  · refine hSlots.trans ?_
    rw [h.slots, t.extend_attempts, List.filterMap_append]
    cases hSlot : attempt.slot <;> simp [hSlot]
  · exact h.lease
  · exact h.artifacts

/-- The first attempt of a session. -/
theorem Shows.first {session : Session} (hId : session.id = id) (hSession : lookup Session.id work.sessions id = some session)
    (hRuns : ∀ run ∈ work.runs, run.sessionId ≠ id) (hJobs : ∀ job ∈ work.jobs, job.sessionId ≠ id)
    (hSlots : ∀ slot ∈ work.slots, slot.sessionId ≠ id) (hLeases : ∀ lease ∈ work.leases, lease.threadId ≠ id)
    (hArtifacts : ∀ artifact ∈ work.artifacts, artifact.sessionId ≠ id) :
    Shows (work.extend attempt) { session, current := attempt } := by
  obtain ⟨hRunsNew, hJobsNew, hSlotsNew⟩ := extend_filter hFor work id
  rw [if_pos rfl] at hRunsNew hJobsNew hSlotsNew
  have hNone : ∀ {α : Type} {rows : List α} {key : α → String}, (∀ row ∈ rows, key row ≠ id) →
      rows.filter (key · == id) = [] := by
    intro α rows key hOther
    rw [List.filter_eq_nil_iff]
    exact fun row hRow => by simpa using hOther row hRow
  have hThread : ({ session, current := attempt } : Thread).id = id := hId
  constructor
  · rw [hThread]
    exact hSession
  · rw [hThread, hRunsNew, hNone hRuns]
    rfl
  · rw [hThread, hJobsNew, hNone hJobs, Thread.attempts]
    cases hJob : attempt.job <;> simp [hJob]
  · rw [hThread, hSlotsNew, hNone hSlots, Thread.attempts]
    cases hSlot : attempt.slot <;> simp [hSlot]
  · rw [hThread]
    exact lookup_eq_none.mpr hLeases
  · rw [hThread]
    exact hNone hArtifacts

end Extension

/-- A new session without work. -/
theorem Work.Tidy.add_moves {work : Work} (h : work.Tidy) {session : Session} (hNew : session.id ∉ work.sessions.map Session.id) :
    Moves work { work with sessions := work.sessions ++ [session] } session.id := by
  have hKnown : ∀ {id : String}, id ∈ work.sessions.map Session.id →
      id ∈ (work.sessions ++ [session]).map Session.id := by
    intro id hMem
    rw [List.map_append]
    exact List.mem_append_left _ hMem
  refine ⟨⟨h.sessions.snoc hNew, h.runs, h.jobs, h.leases, h.slots, fun row hRow => hKnown (h.runOf row hRow),
    fun row hRow => hKnown (h.jobOf row hRow), fun row hRow => hKnown (h.leaseOf row hRow),
    fun row hRow => hKnown (h.slotOf row hRow), fun row hRow => hKnown (h.artifactOf row hRow)⟩, ?_, ?_⟩
  · intro t hOther hShows
    refine { hShows with session := ?_ }
    rw [lookup_snoc, hShows.session]
    rfl
  · intro other hMem
    rcases List.mem_append.mp hMem with hOld | hNew
    · exact .inr hOld
    · exact .inl (congrArg Session.id (List.mem_singleton.mp hNew))

/-- A new session with its first attempt. -/
theorem Work.Tidy.open_moves {work : Work} (h : work.Tidy) {session : Session} (hNew : session.id ∉ work.sessions.map Session.id)
    {attempt : Attempt} (hFor : attempt.For session.id) (hRows : attempt.New work) :
    Moves work ({ work with sessions := work.sessions ++ [session] : Work }.extend attempt) session.id ∧
      Shows ({ work with sessions := work.sessions ++ [session] : Work }.extend attempt) { session, current := attempt } := by
  have hAdded := h.add_moves hNew
  have hKnown : session.id ∈ (work.sessions ++ [session]).map Session.id := by
    rw [List.map_append]
    exact List.mem_append_right _ (List.mem_singleton_self _)
  have hLookup : lookup Session.id (work.sessions ++ [session]) session.id = some session :=
    hAdded.tidy.sessions.lookup_iff.mpr ⟨List.mem_append_right _ (List.mem_singleton_self _), rfl⟩
  refine ⟨hAdded.trans (hAdded.tidy.extend_moves hFor ⟨hRows.run, hRows.job, hRows.slot⟩ hKnown), ?_⟩
  exact Shows.first hFor rfl hLookup (fun run hRun hId => hNew (hId ▸ h.runOf run hRun)) (fun job hJob hId => hNew (hId ▸ h.jobOf job hJob))
    (fun slot hSlot hId => hNew (hId ▸ h.slotOf slot hSlot)) (fun lease hLease hId => hNew (hId ▸ h.leaseOf lease hLease))
    fun artifact hArtifact hId => hNew (hId ▸ h.artifactOf artifact hArtifact)

/-- A lease for a session that has none. -/
theorem Work.Tidy.lease_moves {work : Work} (h : work.Tidy) (lease : Lease) {t : Thread} (hShows : Shows work t)
    (hLease : lease.threadId = t.id) (hNone : t.lease = none) :
    Moves work { work with leases := work.leases ++ [lease] } t.id ∧
      Shows { work with leases := work.leases ++ [lease] } { t with lease := some lease } := by
  have hNew : lease.threadId ∉ work.leases.map (·.threadId) := by
    intro hMem
    obtain ⟨other, hOther, hSame⟩ := List.mem_map.mp hMem
    have hLookup := hShows.lease
    rw [hNone, lookup_eq_none] at hLookup
    exact hLookup other hOther (hSame.trans hLease)
  refine ⟨⟨{ h with leases := h.leases.snoc hNew, leaseOf := ?_ }, ?_, fun _ hMem => .inr hMem⟩, { hShows with lease := ?_ }⟩
  · intro row hRow
    rcases List.mem_append.mp hRow with hOld | hNew
    · exact h.leaseOf row hOld
    · obtain rfl := List.mem_singleton.mp hNew
      have hSession := lookup_some hShows.session
      rw [hLease]
      exact List.mem_map_of_mem hSession.1
  · intro u hOther hOwn
    refine { hOwn with lease := ?_ }
    rw [lookup_snoc, if_neg (by rw [hLease]; exact hOther.symm), Option.or_none]
    exact hOwn.lease
  · change lookup (·.threadId) (work.leases ++ [lease]) t.id = some lease
    have hOld := hShows.lease
    rw [hNone] at hOld
    rw [lookup_snoc, hOld, if_pos hLease]
    rfl

/-- An artifact of a session that has none. -/
theorem Work.Tidy.artifact_moves {work : Work} (h : work.Tidy) (artifact : Artifact) {t : Thread} (hShows : Shows work t)
    (hArtifact : artifact.sessionId = t.id) (hNone : t.artifact = none) :
    Moves work { work with artifacts := work.artifacts ++ [artifact] } t.id ∧
      Shows { work with artifacts := work.artifacts ++ [artifact] } { t with artifact := some artifact } := by
  refine ⟨⟨{ h with artifactOf := ?_ }, ?_, fun _ hMem => .inr hMem⟩, { hShows with artifacts := ?_ }⟩
  · intro row hRow
    rcases List.mem_append.mp hRow with hOld | hNew
    · exact h.artifactOf row hOld
    · obtain rfl := List.mem_singleton.mp hNew
      have hSession := lookup_some hShows.session
      rw [hArtifact]
      exact List.mem_map_of_mem hSession.1
  · intro u hOther hOwn
    refine { hOwn with artifacts := ?_ }
    rw [List.filter_append, List.filter_cons_of_neg (by simpa [hArtifact] using Ne.symm hOther), List.filter_nil, List.append_nil]
    exact hOwn.artifacts
  · change (work.artifacts ++ [artifact]).filter (·.sessionId == t.id) = [artifact]
    have hOld := hShows.artifacts
    rw [hNone] at hOld
    rw [List.filter_append, hOld]
    simp [hArtifact]

/-! The row with a key. -/

/-- A change of the row with the key. -/
def onKey {α : Type} (key : α → String) (k : String) (f : α → α) (row : α) : α := if key row = k then f row else row

theorem onKey_self {α : Type} {key : α → String} {k : String} {f : α → α} {row : α} (h : key row = k) : onKey key k f row = f row :=
  if_pos h

theorem onKey_other {α : Type} {key : α → String} {k : String} {f : α → α} {row : α} (h : key row ≠ k) : onKey key k f row = row :=
  if_neg h

/-- A change that keeps a part of the row with the key keeps it of every row. -/
theorem onKey_part {α β : Type} {key : α → String} {k : String} {f : α → α} {part : α → β} (h : ∀ row, part (f row) = part row)
    (row : α) : part (onKey key k f row) = part row := by
  unfold onKey
  split_ifs
  · exact h row
  · rfl

theorem map_onKey_same {α : Type} (key : α → String) (k : String) (rows : List α) :
    rows.map (onKey key k fun row => row) = rows := by
  conv_rhs => rw [← List.map_id rows]
  exact List.map_congr_left fun row _ => ite_self row

/-- Only one row has the key. -/
theorem onKey_outside {α : Type} {key : α → String} (part : α → String) {rows : List α} (hUnique : UniqueOn key rows) {own : α}
    (hOwn : own ∈ rows) {f : α → α} {row : α} (hRow : row ∈ rows) (hPart : part row ≠ part own) :
    onKey key (key own) f row = row := by
  apply onKey_other
  intro hKey
  exact hPart (by rw [hUnique.eq_of_key hRow hOwn hKey])

/-! A database whose sessions are all in order. -/

/-- The thread of each row is found. -/
theorem Shows.attempt_of_run {work : Work} {t : Thread} (h : Shows work t) {run : Run} (hRun : run ∈ work.runs)
    (hSession : run.sessionId = t.id) : ∃ attempt ∈ t.attempts, attempt.run = run := by
  have hMem : run ∈ work.runs.filter (·.sessionId == t.id) := List.mem_filter.mpr ⟨hRun, by simp [hSession]⟩
  rw [h.runs] at hMem
  exact List.mem_map.mp hMem

theorem Shows.attempt_of_job {work : Work} {t : Thread} (h : Shows work t) {job : Job} (hJob : job ∈ work.jobs)
    (hSession : job.sessionId = t.id) : ∃ attempt ∈ t.attempts, attempt.job = some job := by
  have hMem : job ∈ work.jobs.filter (·.sessionId == t.id) := List.mem_filter.mpr ⟨hJob, by simp [hSession]⟩
  rw [h.jobs] at hMem
  exact List.mem_filterMap.mp hMem

theorem Shows.attempt_of_slot {work : Work} {t : Thread} (h : Shows work t) {slot : Reservation} (hSlot : slot ∈ work.slots)
    (hSession : slot.sessionId = t.id) : ∃ attempt ∈ t.attempts, attempt.slot = some slot := by
  have hMem : slot ∈ work.slots.filter (·.sessionId == t.id) := List.mem_filter.mpr ⟨hSlot, by simp [hSession]⟩
  rw [h.slots] at hMem
  exact List.mem_filterMap.mp hMem

theorem Shows.run_mem {work : Work} {t : Thread} (h : Shows work t) {attempt : Attempt} (hMem : attempt ∈ t.attempts) :
    attempt.run ∈ work.runs ∧ attempt.run.sessionId = t.id := by
  have hRun : attempt.run ∈ work.runs.filter (·.sessionId == t.id) := by
    rw [h.runs]
    exact List.mem_map_of_mem hMem
  obtain ⟨hRun, hSession⟩ := List.mem_filter.mp hRun
  exact ⟨hRun, eq_of_beq hSession⟩

theorem Shows.job_mem {work : Work} {t : Thread} (h : Shows work t) {attempt : Attempt} (hMem : attempt ∈ t.attempts) {job : Job}
    (hJob : attempt.job = some job) : job ∈ work.jobs ∧ job.sessionId = t.id := by
  have hJob : job ∈ work.jobs.filter (·.sessionId == t.id) := by
    rw [h.jobs]
    exact List.mem_filterMap.mpr ⟨attempt, hMem, hJob⟩
  obtain ⟨hJob, hSession⟩ := List.mem_filter.mp hJob
  exact ⟨hJob, eq_of_beq hSession⟩

theorem Shows.slot_mem {work : Work} {t : Thread} (h : Shows work t) {attempt : Attempt} (hMem : attempt ∈ t.attempts)
    {slot : Reservation} (hSlot : attempt.slot = some slot) : slot ∈ work.slots ∧ slot.sessionId = t.id := by
  have hSlot : slot ∈ work.slots.filter (·.sessionId == t.id) := by
    rw [h.slots]
    exact List.mem_filterMap.mpr ⟨attempt, hMem, hSlot⟩
  obtain ⟨hSlot, hSession⟩ := List.mem_filter.mp hSlot
  exact ⟨hSlot, eq_of_beq hSession⟩

end Interpretation

end QsAi
