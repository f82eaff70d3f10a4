import QsAi.Interpretation.Calls

/-! Deliveries. A session is completed exactly when it has its artifact, and the response
that the artifact came from is recorded. -/
namespace QsAi

namespace Interpretation

open Keyed

/-- The response of the run's call is recorded. -/
def Database.Responded (db : Database) (runId : String) : Prop :=
  ∃ call ∈ db.calls, call.runId = runId ∧ call.status = .responseReceived

/-- The artifacts of a session: one, of its active run, when it is completed, and none before. -/
def Database.Delivers (db : Database) (row : SessionRow) : Prop :=
  (row.session.status = .completed ∧ ∃ artifact, db.artifacts.filter (·.sessionId == row.id) = [artifact] ∧
    row.session.activeRunId = some artifact.runId ∧ db.Responded artifact.runId) ∨
      (row.session.status ≠ .completed ∧ db.artifacts.filter (·.sessionId == row.id) = [])

structure Database.Delivered (db : Database) : Prop where
  sessions : ∀ row ∈ db.sessions, db.Delivers row
  artifacts : ∀ artifact ∈ db.artifacts, ∃ row ∈ db.sessions, row.id = artifact.sessionId

/-- The response of a completed session's run is recorded. -/
def System.Responding (system : System) : Prop :=
  ∀ row ∈ system.db.sessions, row.session.status = .completed → ∀ runId, row.session.activeRunId = some runId →
    system.db.Responded runId

section Deliveries

variable {system next : System} {given : Option Resources}

/-- A recorded response stays. -/
theorem Effect.responded (h : Effect system given next) (hDispatching : system.Dispatching) {runId : String}
    (hResponded : system.db.Responded runId) : next.db.Responded runId := by
  obtain ⟨call, hCall, hRun, hStatus⟩ := hResponded
  obtain ⟨row, hRow, -, hKept⟩ := (h.answered hDispatching).calls call hCall
  obtain rfl := hKept (by simp [hStatus])
  exact ⟨row, hRow, hRun, hStatus⟩

theorem mem_storeSession {rows : List SessionRow} {session : Session} {row : SessionRow} (h : row ∈ storeSession rows session) :
    row.session = session ∨ row ∈ rows := by
  obtain ⟨old, hOld, rfl⟩ := List.mem_map.mp h
  split
  · exact .inl rfl
  · exact .inr hOld

/-- A completed session was completed before, or its worker completed it with the response. -/
theorem Effect.completes (h : Effect system given next) {row : SessionRow} (hRow : row ∈ next.db.sessions)
    (hStatus : row.session.status = .completed) :
    row ∈ system.db.sessions ∨ ∀ runId, row.session.activeRunId = some runId → system.db.Responded runId := by
  cases h with
  | same => exact .inl hRow
  | waited => exact .inl hRow
  | @opened db resources t hOpened =>
      obtain ⟨requestId, hSessions⟩ := hOpened.sessions
      rw [hSessions] at hRow
      rcases List.mem_append.mp hRow with hOld | hNew
      · exact .inl hOld
      · obtain rfl := List.mem_singleton.mp hNew
        have hArtifact := hOpened.valid.completed.mpr hStatus
        rw [hOpened.first.2.2] at hArtifact
        cases hArtifact
  | asked hCommit hLater =>
      rw [hCommit.sessions] at hRow
      rcases mem_storeSession hRow with hSession | hOld
      · exact absurd (hSession ▸ hStatus) hLater.status
      · exact .inl hOld
  | claimed _ hCommit _ hOpen =>
      rw [hCommit.sessions] at hRow
      rcases mem_storeSession hRow with hSession | hOld
      · exact absurd (hSession ▸ hStatus) hOpen
      · exact .inl hOld
  | renewed _ _ _ _ _ hRows =>
      rw [hRows] at hRow
      exact .inl hRow
  | marked => exact .inl hRow
  | sent => exact .inl hRow
  | recorded => exact .inl hRow
  | finished _ _ _ hCommit hFinished hRun hCompleted =>
      rw [hCommit.sessions] at hRow
      rcases mem_storeSession hRow with hSession | hOld
      · right
        intro runId hActive
        rw [hSession] at hStatus hActive
        obtain ⟨call, hCall, hResponse⟩ := hCompleted hStatus
        obtain ⟨hMem, hOwn⟩ := lookup_some hCall
        rw [hFinished.active, hCommit.takes.valid.active, hRun, Option.some.injEq] at hActive
        exact ⟨call, hMem, hOwn.trans hActive, hResponse⟩
      · exact .inl hOld

theorem Effect.responding (h : Effect system given next) (hDispatching : system.Dispatching) (hResponding : system.Responding) :
    next.Responding := by
  intro row hRow hStatus runId hActive
  apply h.responded hDispatching
  rcases h.completes hRow hStatus with hOld | hNew
  · exact hResponding row hOld hStatus runId hActive
  · exact hNew runId hActive

theorem System.Responding.delivered (h : system.Responding) (hSound : system.db.work.Sound system.db.clock) : system.db.Delivered where
  sessions row hRow := by
    obtain ⟨t, hSession, hId, hShows, hValid⟩ := hSound.thread hRow
    have hArtifacts : system.db.artifacts.filter (·.sessionId == row.id) = t.artifact.toList := by
      rw [← hId]
      exact hShows.artifacts
    unfold Database.Delivers
    rw [hArtifacts, ← hSession]
    cases hArtifact : t.artifact with
    | none =>
        refine .inr ⟨fun hStatus => ?_, rfl⟩
        have hSome := hValid.completed.mpr hStatus
        rw [hArtifact] at hSome
        cases hSome
    | some artifact =>
        have hStatus : t.session.status = .completed := hValid.completed.mp (by rw [hArtifact]; rfl)
        have hRun : t.session.activeRunId = some artifact.runId := by
          rw [hValid.active, hValid.artifact artifact hArtifact]
        rw [hSession] at hStatus hRun ⊢
        exact .inl ⟨hStatus, artifact, rfl, hRun, h row hRow hStatus artifact.runId hRun⟩
  artifacts artifact hArtifact := by
    obtain ⟨owner, hOwner, hId⟩ := List.mem_map.mp (hSound.tidy.artifactOf artifact hArtifact)
    obtain ⟨row, hRow, rfl⟩ := List.mem_map.mp hOwner
    exact ⟨row, hRow, hId⟩

end Deliveries

/-- In every run, the completed sessions are those with an artifact: one, of the active run, whose response is recorded. -/
theorem run_delivered (library : Library) (setting : Setting) (clock : Nat) (operations : List Operation) :
    ((System.initial setting clock).run library operations).db.Delivered := by
  obtain ⟨hOrdered, -, hResponding⟩ := (initial_ordered setting clock).run library
    (P := fun system => system.Dispatching ∧ system.Responding)
    ⟨initial_dispatching setting clock, fun _ hMem => absurd hMem List.not_mem_nil⟩
    (fun hOrdered hFacts hEffect => ⟨hEffect.dispatching hOrdered hFacts.1, hEffect.responding hFacts.1 hFacts.2⟩) operations
  exact hResponding.delivered hOrdered.sound

end Interpretation

end QsAi
