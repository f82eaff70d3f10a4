import QsAi.Interpretation.Coherence

/-! Histories of sessions. A session changes by the operations of its domain alone, and its
version counts them. -/
namespace QsAi

namespace Interpretation

/-- One operation of the domain. -/
inductive Session.Step (session : Session) : Session → Prop
  | queue {next : Session} {runId question : String} (hNext : session.queue runId (some question) = .ok next) : session.Step next
  | retry {next : Session} {previous runId : String} (hNext : session.retry previous runId = .ok next) : session.Step next
  | run {next : Session} (hNext : session.toRunning = .ok next) : session.Step next
  | awaitAnswer {next : Session} {question : String} (hNext : session.awaitAnswer question = .ok next) : session.Step next
  | block {next : Session} {code : String} (hNext : session.block code = .ok next) : session.Step next
  | complete {next : Session} (hNext : session.complete = .ok next) : session.Step next
  | cancel {next : Session} (hNext : session.cancel = .ok next) : session.Step next

/-- A number of operations of the domain. -/
inductive Session.Walk (session : Session) : Nat → Session → Prop
  | rest : session.Walk 0 session
  | step {n : Nat} {middle next : Session} (hWalk : session.Walk n middle) (hStep : middle.Step next) : session.Walk (n + 1) next

namespace Session

variable {session middle next : Session} {m n : Nat}

theorem Step.version (h : session.Step next) : next.version = session.version + 1 := by
  cases h with
  | queue hNext =>
      obtain ⟨-, rfl⟩ := queue_ok hNext
      rfl
  | retry hNext =>
      obtain ⟨-, -, rfl⟩ := retry_ok hNext
      rfl
  | run hNext =>
      obtain ⟨-, rfl⟩ := toRunning_ok hNext
      rfl
  | awaitAnswer hNext =>
      obtain ⟨-, rfl⟩ := awaitAnswer_ok hNext
      rfl
  | block hNext =>
      obtain ⟨-, rfl⟩ := block_ok hNext
      rfl
  | complete hNext =>
      obtain ⟨-, rfl⟩ := complete_ok hNext
      rfl
  | cancel hNext =>
      obtain ⟨-, rfl⟩ := cancel_ok hNext
      rfl

theorem Walk.version (h : session.Walk n next) : next.version = session.version + n := by
  induction h with
  | rest => rfl
  | step _ hStep ih => rw [hStep.version, ih, Nat.add_assoc]

theorem Walk.trans (h : session.Walk m middle) (h' : middle.Walk n next) : session.Walk (m + n) next := by
  induction h' with
  | rest => exact h
  | step _ hStep ih => exact ih.step hStep

theorem Step.walk (h : session.Step next) : session.Walk 1 next := Walk.rest.step h

end Session

/-- The rows of the sessions later on. -/
def Database.Walks (db later : Database) : Prop :=
  ∀ row ∈ db.sessions, ∃ next ∈ later.sessions, next.id = row.id ∧ ∃ n, row.session.Walk n next.session

section Histories

variable {clock : Nat} {db db' : Database} {resources : Resources} {t t' : Thread}

/-- A committed transaction makes two operations at most. -/
theorem Advance.walk (h : Advance clock t t') : ∃ n, t.session.Walk n t'.session := by
  cases h with
  | requeued hNext =>
      rcases hNext with ⟨question, hQueue⟩ | ⟨previous, hRetry⟩
      · exact ⟨1, (Session.Step.queue hQueue).walk⟩
      · exact ⟨1, (Session.Step.retry hRetry).walk⟩
  | cancelled _ hNext => exact ⟨1, (Session.Step.cancel hNext).walk⟩
  | claimed _ _ _ _ _ hNext => exact ⟨1, (Session.Step.run hNext).walk⟩
  | exhausted _ _ _ hRunning hNext => exact ⟨2, (Session.Step.run hRunning).walk.step (.block hNext)⟩
  | deferred => exact ⟨0, .rest⟩
  | renewed => exact ⟨0, .rest⟩
  | concluded _ _ hNext =>
      rcases hNext with ⟨question, hAwait⟩ | ⟨code, hBlock⟩
      · exact ⟨1, (Session.Step.awaitAnswer hAwait).walk⟩
      · exact ⟨1, (Session.Step.block hBlock).walk⟩
  | completed _ _ _ hNext => exact ⟨1, (Session.Step.complete hNext).walk⟩

theorem Database.Walks.refl (db : Database) : db.Walks db := fun row hRow => ⟨row, hRow, rfl, 0, .rest⟩

theorem Database.Walks.trans {middle : Database} (h : db.Walks middle) (h' : middle.Walks db') : db.Walks db' := by
  intro row hRow
  obtain ⟨next, hNext, hId, m, hWalk⟩ := h row hRow
  obtain ⟨last, hLast, hSame, n, hFurther⟩ := h' next hNext
  exact ⟨last, hLast, hSame.trans hId, m + n, hWalk.trans hFurther⟩

theorem Commit.walks (h : Commit db db' resources t t') (hSound : db.work.Sound db.clock) : db.Walks db' := by
  intro row hRow
  rw [h.sessions]
  refine ⟨_, List.mem_map_of_mem hRow, ?_⟩
  split_ifs with hId
  · rw [h.row hSound hRow hId]
    exact ⟨hId.symm, h.takes.step.walk⟩
  · exact ⟨rfl, 0, .rest⟩

theorem Effect.walks {system next : System} {given : Option Resources} (h : Effect system given next) (hOrdered : system.Ordered) :
    system.db.Walks next.db := by
  have hSound := hOrdered.sound
  cases h with
  | same => exact .refl _
  | waited => exact .refl _
  | opened hOpened =>
      intro row hRow
      obtain ⟨requestId, hSessions⟩ := hOpened.sessions
      rw [hSessions]
      exact ⟨row, List.mem_append_left _ hRow, rfl, 0, .rest⟩
  | asked hCommit => exact hCommit.walks hSound
  | claimed _ hCommit => exact hCommit.walks hSound
  | renewed _ _ _ _ _ hRows =>
      rw [hRows]
      exact .refl system.db
  | marked => exact .refl system.db
  | sent => exact .refl _
  | recorded => exact .refl system.db
  | finished _ _ _ hCommit => exact hCommit.walks hSound

end Histories

/-- The rows of the sessions later on, with the versions that count their operations. -/
def Database.Continues (db later : Database) : Prop :=
  ∀ row ∈ db.sessions, ∃ next ∈ later.sessions, next.id = row.id ∧
    ∃ n, row.session.Walk n next.session ∧ next.session.version = row.session.version + n

theorem Database.Walks.continues {db later : Database} (h : db.Walks later) : db.Continues later := by
  intro row hRow
  obtain ⟨next, hNext, hId, n, hWalk⟩ := h row hRow
  exact ⟨next, hNext, hId, n, hWalk, hWalk.version⟩

/-- Whatever comes after a run, each session has changed by operations of its domain alone, as many as its version counts. -/
theorem run_walks (library : Library) (setting : Setting) (clock : Nat) (first rest : List Operation) :
    ((System.initial setting clock).run library first).db.Continues ((System.initial setting clock).run library (first ++ rest)).db := by
  have hOrdered := run_ordered library setting clock first
  rw [System.run_append]
  obtain ⟨-, hWalks⟩ := hOrdered.run library (P := fun later => ((System.initial setting clock).run library first).db.Walks later.db)
    (.refl _) (fun hMiddle hEarlier hEffect => hEarlier.trans (hEffect.walks hMiddle)) rest
  exact hWalks.continues

end Interpretation

end QsAi
