import Mathlib.Data.List.Induction
import QsAi.Interpretation.Coherence

/-! The outbox of state events. Each version of a session has at most one event, which
shows the session as it was, and events are only added. -/
namespace QsAi

namespace Interpretation

open Keyed

/-- The event shows a version that the session had. -/
structure StateEvent.For (event : StateEvent) (row : SessionRow) : Prop where
  session : row.id = event.sessionId
  request : row.requestId = some event.requestId
  version : event.version ≤ row.session.version
  status : event.version = row.session.version → event.status = row.session.status

structure Database.Outbox (db : Database) : Prop where
  ids : UniqueOn (·.eventId) db.events
  versions : UniqueOn (fun event => (event.sessionId, event.version)) db.events
  shown : ∀ event ∈ db.events, ∃ row ∈ db.sessions, event.For row
  requested : ∀ row ∈ db.sessions, row.requestId ≠ none

/-- The version of the session has its event. -/
def Database.Announces (db : Database) (row : SessionRow) : Prop :=
  ∃ event ∈ db.events, event.sessionId = row.id ∧ event.version = row.session.version

/-- What a transaction with these resources does to the events. -/
structure Database.Publishes (db : Database) (given : Option Resources) (db' : Database) : Prop where
  outbox : db'.Outbox
  appended : ∃ further, db'.events = db.events ++ further
  announced : ∀ row ∈ db'.sessions, row ∈ db.sessions ∨ db'.Announces row ∨
    ∃ resources ∈ given, ∃ other ∈ db.events, other.eventId = resources.stateEventId

section Outbox

variable {db db' : Database} {resources : Resources} {t t' : Thread}

/-- A new event has an identity and a version of its own. -/
theorem Database.Outbox.added (h : db.Outbox) {event : StateEvent} {requestId : Option String} {session : Session} {eventId : String}
    (hAdded : event.Added db.events requestId session eventId) : UniqueOn (·.eventId) (db.events ++ [event]) ∧
      UniqueOn (fun event => (event.sessionId, event.version)) (db.events ++ [event]) := by
  obtain ⟨⟨hId, hSession, hVersion, -⟩, -, hIds, hVersions⟩ := hAdded
  constructor
  · refine h.ids.snoc fun hMem => ?_
    obtain ⟨other, hOther, hSame⟩ := List.mem_map.mp hMem
    exact hIds other hOther (hSame.trans hId)
  · refine h.versions.snoc fun hMem => ?_
    obtain ⟨other, hOther, hSame⟩ := List.mem_map.mp hMem
    obtain ⟨hOwn, hSame⟩ := Prod.mk.inj hSame
    exact hVersions other hOther (hOwn.trans hSession) (hSame.trans hVersion)

theorem Database.Outbox.kept (h : db.Outbox) (hEvents : db'.events = db.events)
    (hShown : ∀ event ∈ db.events, ∃ row ∈ db'.sessions, event.For row) (hRequested : ∀ row ∈ db'.sessions, row.requestId ≠ none) :
    db'.Outbox :=
  ⟨hEvents ▸ h.ids, hEvents ▸ h.versions, hEvents ▸ hShown, hRequested⟩

theorem Database.Publishes.of_same (h : db.Outbox) {given : Option Resources} (hSessions : db'.sessions = db.sessions)
    (hEvents : db'.events = db.events) : db.Publishes given db' := by
  refine ⟨h.kept hEvents ?_ ?_, ⟨[], by rw [hEvents, List.append_nil]⟩, fun row hRow => .inl (hSessions ▸ hRow)⟩
  · rw [hSessions]
    exact h.shown
  · rw [hSessions]
    exact h.requested

/-- The event of a stored session is added. -/
theorem Database.Outbox.publish (h : db.Outbox) {given : Option Resources} {event : StateEvent} {requestId : Option String}
    {session : Session} {eventId : String} (hAdded : event.Added db.events requestId session eventId)
    (hEvents : db'.events = db.events ++ [event]) (hShown : ∀ other ∈ db.events, ∃ row ∈ db'.sessions, other.For row)
    (hRequested : ∀ row ∈ db'.sessions, row.requestId ≠ none) (hNew : ∃ row ∈ db'.sessions, event.For row)
    (hRows : ∀ row ∈ db'.sessions, row ∈ db.sessions ∨ row.session = session) : db.Publishes given db' := by
  obtain ⟨hIds, hVersions⟩ := h.added hAdded
  obtain ⟨-, hSession, hVersion, -⟩ := hAdded.shows
  refine ⟨⟨hEvents ▸ hIds, hEvents ▸ hVersions, ?_, hRequested⟩, ⟨[event], hEvents⟩, ?_⟩
  · intro other hOther
    rw [hEvents] at hOther
    rcases List.mem_append.mp hOther with hOld | hLast
    · exact hShown other hOld
    · exact List.mem_singleton.mp hLast ▸ hNew
  · intro row hRow
    refine (hRows row hRow).imp id fun hSame => .inl ⟨event, ?_, ?_, ?_⟩
    · rw [hEvents]
      exact List.mem_append_right _ (List.mem_singleton_self _)
    · exact hSession.trans (congrArg Session.id hSame).symm
    · rw [hVersion, hSame]

theorem Opened.publishes (h : db.Outbox) (hOpened : Opened db db' resources t) : db.Publishes (some resources) db' := by
  obtain ⟨requestId, hSessions⟩ := hOpened.sessions
  have hShown : ∀ event ∈ db.events, ∃ row ∈ db'.sessions, event.For row := by
    intro event hEvent
    obtain ⟨row, hRow, hFor⟩ := h.shown event hEvent
    exact ⟨row, hSessions ▸ List.mem_append_left _ hRow, hFor⟩
  have hRequested : ∀ row ∈ db'.sessions, row.requestId ≠ none := by
    intro row hRow
    rw [hSessions] at hRow
    rcases List.mem_append.mp hRow with hOld | hNew
    · exact h.requested row hOld
    · rw [List.mem_singleton.mp hNew]
      exact Option.some_ne_none _
  have hRows : ∀ row ∈ db'.sessions, row ∈ db.sessions ∨ row.session = t.session := by
    intro row hRow
    rw [hSessions] at hRow
    exact (List.mem_append.mp hRow).imp id fun hNew => by rw [List.mem_singleton.mp hNew]
  rcases hOpened.events with ⟨hEvents, other, hOther, hSame⟩ | ⟨event, hAdded, hEvents, hStored⟩
  · refine ⟨h.kept hEvents hShown hRequested, ⟨[], by rw [hEvents, List.append_nil]⟩, ?_⟩
    intro row hRow
    rcases hSame with hId | ⟨hOwn, -⟩
    · exact .inr (.inr ⟨resources, rfl, other, hOther, hId⟩)
    · obtain ⟨old, hOld, hFor⟩ := h.shown other hOther
      refine absurd ?_ hOpened.new
      rw [← hOwn, ← hFor.session]
      exact List.mem_map_of_mem (List.mem_map_of_mem hOld)
  · obtain ⟨-, hSession, hVersion, hStatus⟩ := hAdded.shows
    refine h.publish hAdded hEvents hShown hRequested ⟨⟨t.session, some event.requestId⟩, ?_, ?_⟩ hRows
    · rw [hStored]
      exact List.mem_append_right _ (List.mem_singleton_self _)
    · exact ⟨hSession.symm, rfl, hVersion.le, fun _ => hStatus⟩

theorem Commit.shown (hCommit : Commit db db' resources t t') (hSound : db.work.Sound db.clock) {event : StateEvent}
    {row : SessionRow} (hRow : row ∈ db.sessions) (hFor : event.For row) : ∃ row' ∈ db'.sessions, event.For row' := by
  rw [hCommit.sessions]
  refine ⟨_, List.mem_map_of_mem hRow, ?_⟩
  split_ifs with hId
  · have hSession := hCommit.row hSound hRow hId
    refine ⟨hId.symm.trans hFor.session, hFor.request, ?_, fun hSame => ?_⟩
    · rcases hCommit.takes.step.version with hRests | hLater
      · change event.version ≤ t'.session.version
        rw [hRests.session, ← hSession]
        exact hFor.version
      · exact (hSession ▸ hFor.version).trans hLater.le
    · rcases hCommit.takes.step.version with hRests | hLater
      · change event.version = t'.session.version at hSame
        change event.status = t'.session.status
        rw [hRests.session, ← hSession] at hSame ⊢
        exact hFor.status hSame
      · exact absurd (Nat.lt_of_le_of_lt (hSession ▸ hFor.version) hLater) (Nat.not_lt.mpr hSame.ge)
  · exact hFor

theorem Commit.publishes (h : db.Outbox) (hCommit : Commit db db' resources t t') (hSound : db.work.Sound db.clock) :
    db.Publishes (some resources) db' := by
  have hShown : ∀ event ∈ db.events, ∃ row ∈ db'.sessions, event.For row := by
    intro event hEvent
    obtain ⟨row, hRow, hFor⟩ := h.shown event hEvent
    exact hCommit.shown hSound hRow hFor
  have hRequested : ∀ row ∈ db'.sessions, row.requestId ≠ none := by
    intro row hRow
    rw [hCommit.sessions] at hRow
    obtain ⟨old, hOld, rfl⟩ := List.mem_map.mp hRow
    split_ifs
    · exact h.requested old hOld
    · exact h.requested old hOld
  obtain ⟨own, hOwn, hSession⟩ := hCommit.takes.shows.session_row
  have hOwnId : own.id = t'.session.id := (congrArg Session.id hSession).trans hCommit.takes.id.symm
  have hRows : ∀ row ∈ db'.sessions, row ∈ db.sessions ∨ (t'.session ≠ t.session ∧ row.session = t'.session) := by
    intro row hRow
    rw [hCommit.sessions] at hRow
    obtain ⟨old, hOld, rfl⟩ := List.mem_map.mp hRow
    split_ifs with hId
    · by_cases hSame : t'.session = t.session
      · left
        rw [hSame, ← hCommit.row hSound hOld hId]
        exact hOld
      · exact .inr ⟨hSame, rfl⟩
    · exact .inl hOld
  have hFound : db.row t'.session.id = some own := by
    have hUnique : UniqueOn SessionRow.id db.sessions := hSound.tidy.sessions.of_map fun _ _ => rfl
    exact hUnique.lookup_iff.mpr ⟨hOwn, hOwnId⟩
  rcases hCommit.events with ⟨hSame, hEvents⟩ | ⟨hEvents, hNone | ⟨other, hOther, hTaken⟩⟩ | ⟨event, hAdded, hEvents⟩
  · refine ⟨h.kept hEvents hShown hRequested, ⟨[], by rw [hEvents, List.append_nil]⟩, ?_⟩
    intro row hRow
    exact (hRows row hRow).imp id fun hChanged => absurd hSame hChanged.1
  · rw [hFound] at hNone
    exact absurd hNone (h.requested own hOwn)
  · refine ⟨h.kept hEvents hShown hRequested, ⟨[], by rw [hEvents, List.append_nil]⟩, ?_⟩
    intro row hRow
    refine (hRows row hRow).imp id fun hChanged => ?_
    rcases hTaken with hId | ⟨hOwnSession, hVersion⟩
    · exact .inr ⟨resources, rfl, other, hOther, hId⟩
    · refine .inl ⟨other, hEvents ▸ hOther, ?_, ?_⟩
      · exact hOwnSession.trans (congrArg Session.id hChanged.2).symm
      · rw [hVersion, hChanged.2]
  · obtain ⟨-, hEventSession, hVersion, hStatus⟩ := hAdded.shows
    have hRequest := hAdded.request
    rw [hFound] at hRequest
    refine h.publish hAdded hEvents hShown hRequested ⟨{ own with session := t'.session }, ?_, ?_⟩
      fun row hRow => (hRows row hRow).imp id fun hChanged => hChanged.2
    · rw [hCommit.sessions]
      exact List.mem_map.mpr ⟨own, hOwn, if_pos hOwnId⟩
    · exact ⟨hEventSession.symm, hRequest, hVersion.le, fun _ => hStatus⟩

theorem Effect.publishes {system next : System} {given : Option Resources} (h : Effect system given next) (hOrdered : system.Ordered)
    (hOutbox : system.db.Outbox) : system.db.Publishes given next.db := by
  have hSound := hOrdered.sound
  cases h with
  | same => exact .of_same hOutbox rfl rfl
  | waited => exact .of_same hOutbox rfl rfl
  | opened hOpened hGiven => exact hGiven ▸ hOpened.publishes hOutbox
  | asked hCommit _ _ hGiven => exact hGiven ▸ hCommit.publishes hOutbox hSound
  | claimed _ hCommit _ _ _ hGiven => exact hGiven ▸ hCommit.publishes hOutbox hSound
  | renewed _ _ _ _ _ hRows =>
      rw [hRows]
      exact .of_same hOutbox rfl rfl
  | marked => exact .of_same hOutbox rfl rfl
  | sent => exact .of_same hOutbox rfl rfl
  | recorded => exact .of_same hOutbox rfl rfl
  | finished _ _ _ hCommit _ _ _ _ hGiven => exact hGiven ▸ hCommit.publishes hOutbox hSound

end Outbox

/-- The events after a run of operations: a session whose version has none was stored under the identity of another event. -/
structure System.Published (library : Library) (start : System) (operations : List Operation) : Prop where
  outbox : (start.run library operations).db.Outbox
  appended : ∀ first rest, operations = first ++ rest →
    ∃ further, (start.run library operations).db.events = (start.run library first).db.events ++ further
  announced : ∀ row ∈ (start.run library operations).db.sessions, (start.run library operations).db.Announces row ∨
    ∃ first operation rest, operations = first ++ operation :: rest ∧ ∃ resources ∈ operation.resources,
      ∃ other ∈ (start.run library first).db.events, other.eventId = resources.stateEventId

/-- In every run each version of a session has at most one event, events are only added, and the current version of each session
has its event unless the identity it was given was taken. -/
theorem run_published (library : Library) (setting : Setting) (clock : Nat) (operations : List Operation) :
    (System.initial setting clock).Published library operations := by
  induction operations using List.reverseRecOn with
  | nil =>
      refine ⟨⟨uniqueOn_nil _, uniqueOn_nil _, ?_, ?_⟩, fun first rest hSplit => ?_, ?_⟩
      · exact fun _ hMem => absurd hMem List.not_mem_nil
      · exact fun _ hMem => absurd hMem List.not_mem_nil
      · obtain ⟨rfl, -⟩ := List.append_eq_nil_iff.mp hSplit.symm
        exact ⟨[], (List.append_nil _).symm⟩
      · exact fun _ hMem => absurd hMem List.not_mem_nil
  | append_singleton operations operation ih =>
      have hOrdered := run_ordered library setting clock operations
      have hStep := (Effect.of_step library hOrdered operation).publishes hOrdered ih.outbox
      have hLast : (System.initial setting clock).run library (operations ++ [operation]) =
          ((System.initial setting clock).run library operations).step library operation := System.run_append _ _ _
      obtain ⟨added, hAdded⟩ := hStep.appended
      rw [← hLast] at hStep hAdded
      refine ⟨hStep.outbox, fun first rest hSplit => ?_, fun row hRow => ?_⟩
      · rcases List.eq_nil_or_concat rest with rfl | ⟨rest, last, rfl⟩
        · rw [List.append_nil] at hSplit
          exact ⟨[], by rw [hSplit, List.append_nil]⟩
        · rw [List.concat_eq_append, ← List.append_assoc] at hSplit
          obtain ⟨further, hFurther⟩ := ih.appended first rest (List.append_inj_left' hSplit rfl)
          exact ⟨further ++ added, by rw [hAdded, hFurther, List.append_assoc]⟩
      · rcases hStep.announced row hRow with hOld | hAnnounced | ⟨resources, hGiven, hTaken⟩
        · rcases ih.announced row hOld with ⟨event, hEvent, hFacts⟩ | ⟨first, earlier, rest, rfl, hTaken⟩
          · exact .inl ⟨event, hAdded ▸ List.mem_append_left _ hEvent, hFacts⟩
          · refine .inr ⟨first, earlier, rest ++ [operation], ?_, hTaken⟩
            rw [List.append_assoc, List.cons_append]
        · exact .inl hAnnounced
        · exact .inr ⟨operations, operation, [], rfl, resources, hGiven, hTaken⟩

end Interpretation

end QsAi
