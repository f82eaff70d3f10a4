import QsAi.Interpretation.Order
import QsAi.Interpretation.Requests

/-! Committed transactions. Each takes one session a step further and leaves the
rows of the other sessions. -/
namespace QsAi

namespace Interpretation

open Keyed Interrupted

/-! Programs that commit. -/

section

variable {σ α : Type} {s s' : σ}

@[simp] theorem completes_lift {value : Except Refusal α} {found : α} :
    Completes (lift value : Program σ α) s found s' ↔ value = .ok found ∧ s = s' := by
  cases value with
  | ok value => rw [lift, completes_pure, Except.ok.injEq]
  | error refusal => simp [lift]

@[simp] theorem completes_demand {value : Option α} {refusal : Refusal} {found : α} :
    Completes (demand value refusal : Program σ α) s found s' ↔ value = some found ∧ s = s' := by
  cases value with
  | some value => rw [demand, completes_pure, Option.some.injEq]
  | none => simp [demand]

@[simp] theorem completes_refuseUnless {condition : Prop} [Decidable condition] {refusal : Refusal} {found : Unit} :
    Completes (refuseUnless condition refusal : Program σ Unit) s found s' ↔ condition ∧ s = s' := by
  rw [refuseUnless, completes_ite]
  simp

@[simp] theorem raises_lift {value : Except Refusal α} {refusal : Refusal} :
    Raises (lift value : Program σ α) s refusal s' ↔ value = .error refusal ∧ s = s' := by
  cases value with
  | ok value => simp [lift]
  | error found => rw [lift, raises_throw, Except.error.injEq]

@[simp] theorem raises_demand {value : Option α} {missing refusal : Refusal} :
    Raises (demand value missing : Program σ α) s refusal s' ↔ value = none ∧ missing = refusal ∧ s = s' := by
  cases value with
  | some value => simp [demand]
  | none => simp [demand]

@[simp] theorem raises_refuseUnless {condition : Prop} [Decidable condition] {found refusal : Refusal} :
    Raises (refuseUnless condition found : Program σ Unit) s refusal s' ↔ ¬ condition ∧ found = refusal ∧ s = s' := by
  rw [refuseUnless, raises_ite]
  simp

end

theorem transact_ok {α : Type} {program : Program Database α} {db db' : Database} {value : α} :
    transact program db = (.ok value, db') ↔ Completes program db value db' := by
  unfold transact Completes
  cases hRun : program.run db with
  | ok found next =>
      simp only [Prod.mk.injEq, Except.ok.injEq, EStateM.Result.ok.injEq]
  | error refusal next => simp

/-! What a unit of work leaves. -/

/-- The event shows the session. -/
def StateEvent.Of (event : StateEvent) (session : Session) (eventId : String) : Prop :=
  event.eventId = eventId ∧ event.sessionId = session.id ∧ event.version = session.version ∧ event.status = session.status

/-- An event that is added: of a version that has none, under a new identity. -/
structure StateEvent.Added (event : StateEvent) (events : List StateEvent) (requestId : Option String) (session : Session)
    (eventId : String) : Prop where
  shows : event.Of session eventId
  request : requestId = some event.requestId
  id : ∀ other ∈ events, other.eventId ≠ eventId
  version : ∀ other ∈ events, other.sessionId = session.id → other.version ≠ session.version

/-- The events after a session was stored: its own is added, unless the session
has no request or the event is there. -/
def Saved (db : Database) (session : Session) (eventId : String) (events : List StateEvent) : Prop :=
  (events = db.events ∧ ((db.row session.id).bind (·.requestId) = none ∨
    ∃ other ∈ db.events, other.eventId = eventId ∨ (other.sessionId = session.id ∧ other.version = session.version))) ∨
  ∃ event, event.Added db.events ((db.row session.id).bind (·.requestId)) session eventId ∧ events = db.events ++ [event]

theorem Saved.congr {db other : Database} {session : Session} {eventId : String} {events : List StateEvent}
    (h : Saved db session eventId events) (hSessions : db.sessions = other.sessions) (hEvents : db.events = other.events) :
    Saved other session eventId events := by
  unfold Saved Database.row at h ⊢
  rw [← hSessions, ← hEvents]
  exact h

/-- The rows with the session in the place of the one with its identity. -/
def storeSession (rows : List SessionRow) (session : Session) : List SessionRow :=
  rows.map fun row => if row.id = session.id then { row with session } else row

theorem stateEvent_of {db : Database} {session : Session} {eventId requestId : String} {event : StateEvent}
    (h : db.stateEvent session eventId requestId = .ok event) : event.Of session eventId ∧ event.requestId = requestId := by
  have hRead : ∀ question : Option Question, ∀ artifactJson : String,
      (pure { eventId, requestId, sessionId := session.id, actor := session.actor, testeeId := session.testeeId,
              version := session.version, status := session.status, questionId := (question.map (·.id)).getD "",
              question := (question.map (·.text)).getD "", canSkip := (question.map (·.canSkip)).getD false,
              failureCode := session.failureCode.getD "", artifactJson } : Except Refusal StateEvent) = .ok event →
        event.Of session eventId ∧ event.requestId = requestId := by
    rintro question artifactJson ⟨⟩
    exact ⟨⟨rfl, rfl, rfl, rfl⟩, rfl⟩
  simp only [Database.stateEvent, bind, Except.bind] at h
  cases hQuestion : session.currentQuestionId with
  | none =>
      simp only [hQuestion] at h
      by_cases hCompleted : session.status = .completed
      · rw [if_pos hCompleted] at h
        cases hArtifact : lookup (·.sessionId) db.artifacts session.id with
        | none => simp [hArtifact] at h
        | some artifact => exact hRead none artifact.payload (by simpa only [hArtifact] using h)
      · rw [if_neg hCompleted] at h
        exact hRead none "" h
  | some questionId =>
      cases hFound : lookup (·.id) db.questions questionId with
      | none => simp [hQuestion, hFound] at h
      | some question =>
          simp only [hQuestion, hFound] at h
          by_cases hCompleted : session.status = .completed
          · rw [if_pos hCompleted] at h
            cases hArtifact : lookup (·.sessionId) db.artifacts session.id with
            | none => simp [hArtifact] at h
            | some artifact => exact hRead (some question) artifact.payload (by simpa only [hArtifact] using h)
          · rw [if_neg hCompleted] at h
            exact hRead (some question) "" h

namespace Database

variable {db db' : Database} {resources : Resources}

theorem save_completes {eventId : String} {session : Session} {value : Unit}
    (h : Completes (save eventId session) db value db') :
    ∃ events, Saved db session eventId events ∧ db' = { db with sessions := storeSession db.sessions session, events } := by
  simp only [save, completes_bind, completes_modify] at h
  obtain ⟨_, _, rfl, h⟩ := h
  have hRequest : (Database.row { db with sessions := storeSession db.sessions session } session.id).bind (·.requestId) =
      (db.row session.id).bind (·.requestId) := by
    have hKeys : ∀ row ∈ db.sessions, SessionRow.id (if row.id = session.id then { row with session } else row) = row.id := by
      intro row _
      split_ifs with hRow
      · exact hRow.symm
      · rfl
    rw [Database.row, storeSession, lookup_map hKeys, Database.row]
    cases lookup SessionRow.id db.sessions session.id with
    | none => rfl
    | some row =>
        simp only [Option.map_some, Option.bind_some]
        split_ifs <;> rfl
  change Completes (stageState eventId session) { db with sessions := storeSession db.sessions session } value db' at h
  simp only [stageState, completes_bind, completes_get] at h
  obtain ⟨_, _, ⟨rfl, rfl⟩, h⟩ := h
  rw [hRequest] at h
  cases hFound : (db.row session.id).bind (·.requestId) with
  | none =>
      rw [hFound] at h
      obtain ⟨-, rfl⟩ := completes_pure.mp h
      exact ⟨db.events, .inl ⟨rfl, .inl hFound⟩, rfl⟩
  | some requestId =>
      rw [hFound] at h
      simp only [completes_bind, completes_lift, completes_ite, completes_pure, completes_set] at h
      obtain ⟨event, _, ⟨hEvent, rfl⟩, ⟨hAny, -, rfl⟩ | ⟨hNone, rfl⟩⟩ := h
      · obtain ⟨⟨hId, hSession, hVersion, -⟩, -⟩ := stateEvent_of hEvent
        refine ⟨db.events, .inl ⟨rfl, .inr ?_⟩, rfl⟩
        obtain ⟨other, hOther, hSame⟩ := List.any_eq_true.mp hAny
        rw [Bool.or_eq_true, Bool.and_eq_true, beq_iff_eq, beq_iff_eq, beq_iff_eq, hId, hSession, hVersion] at hSame
        exact ⟨other, hOther, hSame⟩
      · obtain ⟨hOf, hRequestId⟩ := stateEvent_of hEvent
        have hNew : ∀ other ∈ db.events, ¬ (other.eventId = eventId ∨ (other.sessionId = session.id ∧ other.version = session.version)) := by
          intro other hOther hSame
          refine hNone (List.any_eq_true.mpr ⟨other, hOther, ?_⟩)
          rwa [Bool.or_eq_true, Bool.and_eq_true, beq_iff_eq, beq_iff_eq, beq_iff_eq, hOf.1, hOf.2.1, hOf.2.2.1]
        refine ⟨db.events ++ [event], .inr ⟨event, ⟨hOf, ?_, ?_, ?_⟩, rfl⟩, rfl⟩
        · rw [hFound, hRequestId]
        · exact fun other hOther hSame => hNew other hOther (.inl hSame)
        · exact fun other hOther hOwn hSame => hNew other hOther (.inr ⟨hOwn, hSame⟩)

theorem leaseOf_completes {sessionId : String} {lease : Lease} (h : Completes (leaseOf sessionId) db lease db') :
    lease = (lookup (·.threadId) db.leases sessionId).getD ⟨sessionId, 0, db.clock⟩ ∧
      db' = { db with leases := db.leases ++
        if (lookup (·.threadId) db.leases sessionId).isSome = true then [] else [⟨sessionId, 0, db.clock⟩] } := by
  simp only [leaseOf, completes_bind, completes_get] at h
  obtain ⟨_, _, ⟨rfl, rfl⟩, h⟩ := h
  cases hLease : lookup (·.threadId) db.leases sessionId with
  | some held =>
      simp only [hLease, completes_pure] at h
      obtain ⟨rfl, rfl⟩ := h
      exact ⟨rfl, by simp⟩
  | none =>
      simp only [hLease, completes_bind, completes_set, completes_pure] at h
      obtain ⟨_, _, rfl, rfl, rfl⟩ := h
      exact ⟨rfl, rfl⟩

end Database

/-! The rows of a session, in the tables. -/

section Rows

variable {db db' : Database} {t t' : Thread} {resources : Resources}

theorem storeSession_sessions (rows : List SessionRow) (next : Session) :
    (storeSession rows next).map (·.session) = (rows.map (·.session)).map (onKey Session.id next.id fun _ => next) := by
  rw [storeSession, List.map_map, List.map_map]
  refine List.map_congr_left fun row _ => ?_
  by_cases hId : row.session.id = next.id
  · rw [Function.comp_apply, Function.comp_apply, onKey_self hId]
    exact congrArg SessionRow.session (if_pos hId)
  · rw [Function.comp_apply, Function.comp_apply, onKey_other hId]
    exact congrArg SessionRow.session (if_neg hId)

theorem row_lookup (db : Database) (sessionId : String) :
    lookup Session.id db.work.sessions sessionId = (db.row sessionId).map (·.session) :=
  lookup_map (fun _ _ => rfl) sessionId

/-- The thread of a session that is in the table. -/
theorem Work.Sound.of_row (h : db.work.Sound db.clock) {sessionId : String} {row : SessionRow} (hRow : db.row sessionId = some row) :
    ∃ t, t.session = row.session ∧ t.id = sessionId ∧ Shows db.work t ∧ t.Valid db.clock := by
  have hFound := row_lookup db sessionId
  rw [hRow, Option.map_some] at hFound
  obtain ⟨hMem, hId⟩ := lookup_some hFound
  obtain ⟨t, hSession, hShows, hValid⟩ := h.threads _ hMem
  exact ⟨t, hSession, by rw [Thread.id, hSession, hId], hShows, hValid⟩

/-- Storing a session that did not change. -/
theorem storeSession_same (h : db.work.Tidy) (hShows : Shows db.work t) : storeSession db.sessions t.session = db.sessions := by
  conv_rhs => rw [← List.map_id db.sessions]
  refine List.map_congr_left fun row hRow => ?_
  split_ifs with hId
  · have hMem : row.session ∈ db.work.sessions := List.mem_map_of_mem hRow
    rw [← h.sessions.eq_of_key hMem hShows.mem hId]
    rfl
  · rfl

/-- The reservations after a release by code. -/
def releasing (time : DateTime) (session : Session) (row : Reservation) : Reservation :=
  if session.activeRunId = some row.runId ∧ row.organizationId = session.actor.orgId ∧ row.active = true then
    { row with active := false, releasedAt := some time }
  else row

/-- The release of the active run's reservation. -/
theorem releasing_rows (hSound : db.work.Sound db.clock) (hShows : Shows db.work t) (hValid : t.Valid db.clock)
    {session : Session} (hActive : session.activeRunId = t.session.activeRunId) (hActor : session.actor = t.session.actor)
    (time : DateTime) : db.reservations.map (releasing time session) =
      db.reservations.map (onKey (·.runId) t.current.run.id (Edit.release time)) := by
  refine List.map_congr_left fun row hRow => ?_
  have hOwns : session.activeRunId = some row.runId ↔ row.runId = t.current.run.id := by
    rw [hActive, hValid.active, Option.some.injEq]
    exact eq_comm
  by_cases hRun : row.runId = t.current.run.id
  · have hOwn := hSound.slot_of_run hShows hValid hRow hRun
    have hOrganization := ((hValid.linked _ t.current_mem).slot row hOwn).2.2.1
    rw [onKey_self hRun, Edit.release]
    exact if_congr ⟨fun hFacts => hFacts.2.2, fun hSlot => ⟨hOwns.mpr hRun, by rw [hOrganization, hActor], hSlot⟩⟩ rfl rfl
  · rw [onKey_other hRun]
    exact if_neg fun hFacts => hRun (hOwns.mp hFacts.1)

/-- There is room for another active reservation of the session. -/
def roomFor (db : Database) (resources : Resources) (session : Session) : Option Bool :=
  match participantPolicy db session resources.capacity resources.quotaBaseline with
  | .error _ => none
  | .ok policy =>
      let rows := db.reservations.filter fun row => row.organizationId == session.actor.orgId && row.active
      some (fits rows session policy.1.activeOrg policy.1.activeUser policy.1.activeAssessment)

/-- The day of the reservation had room for it. -/
def Admitted (db : Database) (resources : Resources) (session : Session) (slot : Reservation) : Prop :=
  ∃ policy, participantPolicy db session resources.capacity resources.quotaBaseline = .ok policy ∧
    fits (db.reservations.filter fun row => row.organizationId == session.actor.orgId && row.budgetDay == slot.budgetDay) session
      policy.1.dailyOrg policy.1.dailyUser policy.1.dailyAssessment = true

/-- A new reservation of the active run. -/
structure Reservation.New (slot : Reservation) (session : Session) : Prop where
  run : session.activeRunId = some slot.runId
  own : slot.sessionId = session.id
  organization : slot.organizationId = session.actor.orgId
  subject : slot.subjectId = session.actor.subjectId
  assessments : slot.assessmentIds = session.assessmentIds
  active : slot.active = false
  released : slot.releasedAt = none

/-- What a transaction does to the reservations. -/
inductive SlotStep (db : Database) (resources : Resources) (session : Session) : List Reservation → Prop
  | same (rows : List Reservation) (hRows : rows = db.reservations) : SlotStep db resources session rows
  | released (runId : String) (time : DateTime) :
      SlotStep db resources session (db.reservations.map (onKey (·.runId) runId (Edit.release time)))
  | acquired {slot : Reservation} (hSlot : slot ∈ db.reservations) (hRun : session.activeRunId = some slot.runId)
      (hRoom : slot.active = true ∨ roomFor db resources session = some true) :
      SlotStep db resources session (db.reservations.map (onKey (·.runId) slot.runId (Edit.acquire resources.time)))
  | added {slot : Reservation} (hNew : slot.New session) (hAdmitted : Admitted db resources session slot) :
      SlotStep db resources session (db.reservations ++ [slot])

theorem roomFor_congr {other : Database} {session next : Session} (hQuotas : db.quotas = other.quotas)
    (hSlots : db.reservations = other.reservations) (hActor : session.actor = next.actor)
    (hAssessments : session.assessmentIds = next.assessmentIds) : roomFor db resources session = roomFor other resources next := by
  unfold roomFor participantPolicy fits
  rw [hQuotas, hSlots, hActor, hAssessments]

theorem SlotStep.congr {other : Database} {session : Session} {rows : List Reservation}
    (h : SlotStep db resources session rows) (hQuotas : db.quotas = other.quotas) (hSlots : db.reservations = other.reservations) :
    SlotStep other resources session rows := by
  cases h with
  | same _ hRows => exact .same _ (hRows.trans hSlots)
  | released runId time =>
      rw [hSlots]
      exact .released runId time
  | acquired hSlot hRun hRoom =>
      rw [roomFor_congr hQuotas hSlots rfl rfl] at hRoom
      rw [hSlots] at hSlot ⊢
      exact .acquired hSlot hRun hRoom
  | added hNew hAdmitted =>
      obtain ⟨policy, hPolicy, hFits⟩ := hAdmitted
      rw [participantPolicy, hQuotas] at hPolicy
      rw [hSlots] at hFits ⊢
      exact .added hNew ⟨policy, hPolicy, hFits⟩

/-- What a transaction leaves that took one session a step further. -/
structure Commit (db db' : Database) (resources : Resources) (t t' : Thread) : Prop where
  takes : Takes db.clock db.work db'.work t t'
  clock : db'.clock = db.clock
  quotas : db'.quotas = db.quotas
  sessions : db'.sessions = storeSession db.sessions t'.session
  events : (t'.session = t.session ∧ db'.events = db.events) ∨ Saved db t'.session resources.stateEventId db'.events
  calls : db'.calls = db.calls
  slots : SlotStep db resources t'.session db'.reservations

end Rows

/-! Claims. -/

section Claims

variable {db db' : Database} {t : Thread} {resources : Resources}

theorem dueJob_some {session : Session} {jobId : String} {job : Job} (h : Database.dueJob db session jobId = some job) :
    job ∈ db.jobs ∧ job.id = jobId ∧ eligible db.clock job = true ∧ session.activeRunId = some job.runId ∧
      (session.status = .queued ∨ session.status = .running) := by
  obtain ⟨hFound, hOpen⟩ := Option.filter_eq_some_iff.mp h
  have hDue := List.find?_some hFound
  rw [Bool.and_eq_true, beq_iff_eq] at hDue
  exact ⟨List.mem_of_find?_eq_some hFound, hDue.1, hDue.2, of_decide_eq_true hOpen⟩

theorem prior_ok {session : Session} {found : Option Reservation} (h : prior db session = .ok found) :
    (found = none ∧ ∀ row ∈ db.reservations, session.activeRunId ≠ some row.runId) ∨
      ∃ row ∈ db.reservations, found = some row ∧ session.activeRunId = some row.runId := by
  unfold prior at h
  split at h
  · next hNone =>
      cases h
      exact .inl ⟨rfl, by simpa using hNone⟩
  · next row hRow =>
      split at h
      · cases h
        exact .inr ⟨row, List.mem_of_find?_eq_some hRow, rfl, by simpa using List.find?_some hRow⟩
      · cases h

theorem acquiring_active (hSound : db.work.Sound db.clock) (hShows : Shows db.work t) (hValid : t.Valid db.clock)
    {slot : Reservation} (hSlot : t.current.slot = some slot) (hActive : slot.active = true) (time : DateTime) :
    db.reservations.map (onKey (·.runId) t.current.run.id (Edit.acquire time)) = db.reservations := by
  conv_rhs => rw [← List.map_id db.reservations]
  refine List.map_congr_left fun row hRow => ?_
  by_cases hRun : row.runId = t.current.run.id
  · obtain rfl : row = slot := Option.some.inj ((hSound.slot_of_run hShows hValid hRow hRun).symm.trans hSlot)
    rw [onKey_self hRun]
    exact if_pos hActive
  · exact onKey_other hRun

theorem acquiring_inactive (hSound : db.work.Sound db.clock) (hShows : Shows db.work t) (hValid : t.Valid db.clock)
    {slot : Reservation} (hSlot : t.current.slot = some slot) (hInactive : slot.active ≠ true) (time : DateTime) :
    (db.reservations.map fun row =>
      if t.session.activeRunId = some row.runId then { row with active := true, acquiredAt := some time } else row) =
      db.reservations.map (onKey (·.runId) t.current.run.id (Edit.acquire time)) := by
  refine List.map_congr_left fun row hRow => ?_
  have hOwns : t.session.activeRunId = some row.runId ↔ row.runId = t.current.run.id := by
    rw [hValid.active, Option.some.injEq]
    exact eq_comm
  by_cases hRun : row.runId = t.current.run.id
  · obtain rfl : row = slot := Option.some.inj ((hSound.slot_of_run hShows hValid hRow hRun).symm.trans hSlot)
    rw [onKey_self hRun, if_pos (hOwns.mpr hRun)]
    exact (if_neg hInactive).symm
  · rw [onKey_other hRun, if_neg fun hActive => hRun (hOwns.mp hActive)]

/-- The slot of the active run is taken, or there is no room for it. -/
theorem acquireSnapshot_completes (hSound : db.work.Sound db.clock) (hShows : Shows db.work t) (hValid : t.Valid db.clock)
    {slot : Reservation} (hSlot : t.current.slot = some slot) {acquired : Bool}
    (h : Completes (Database.acquireSnapshot resources t.session) db acquired db') :
    (acquired = true ∧ (slot.active = true ∨ roomFor db resources t.session = some true) ∧ db' = { db with
      reservations := db.reservations.map (onKey (·.runId) t.current.run.id (Edit.acquire resources.time)) }) ∨
    (acquired = false ∧ slot.active = false ∧ roomFor db resources t.session = some false ∧ db' = db) := by
  have hMem := (hShows.slot_mem t.current_mem hSlot).1
  have hRun := ((hValid.linked _ t.current_mem).slot slot hSlot).1
  rw [Database.acquireSnapshot, if_pos hValid.snapshot] at h
  simp only [Database.acquireCapacity, completes_bind, completes_get, completes_lift] at h
  obtain ⟨_, _, ⟨rfl, rfl⟩, found, _, ⟨hPrior, rfl⟩, h⟩ := h
  rcases prior_ok hPrior with ⟨-, hNone⟩ | ⟨row, hRow, rfl, hActive⟩
  · exact absurd (hValid.active.trans (congrArg some hRun.symm)) (hNone slot hMem)
  · rw [hValid.active, Option.some.injEq] at hActive
    obtain rfl : row = slot := Option.some.inj ((hSound.slot_of_run hShows hValid hRow hActive.symm).symm.trans hSlot)
    by_cases hTaken : row.active = true
    · simp only [hTaken, if_true, completes_pure] at h
      obtain ⟨rfl, rfl⟩ := h
      exact .inl ⟨rfl, .inl hTaken, by rw [acquiring_active hSound hShows hValid hSlot hTaken]⟩
    · simp only [hTaken, completes_ite, completes_pure, completes_throw, Database.activate, completes_bind, completes_get,
        completes_lift, completes_set] at h
      obtain ⟨hFalse, -⟩ | ⟨-, ⟨-, hFalse⟩ | ⟨-, _, _, ⟨rfl, rfl⟩, policy, _, ⟨hPolicy, rfl⟩, h⟩⟩ := h
      · cases hFalse
      · exact hFalse.elim
      · have hRoom : roomFor db resources t.session = some (fits
            (db.reservations.filter fun row => row.organizationId == t.session.actor.orgId && row.active) t.session
            policy.1.activeOrg policy.1.activeUser policy.1.activeAssessment) := by
          rw [roomFor, hPolicy]
        rw [acquiring_inactive hSound hShows hValid hSlot hTaken] at h
        obtain ⟨hFits, _, _, rfl, rfl, rfl⟩ | ⟨hFull, rfl, rfl⟩ := h
        · exact .inl ⟨rfl, .inr (hRoom.trans (congrArg some hFits)), rfl⟩
        · refine .inr ⟨rfl, by simpa using hTaken, hRoom.trans (congrArg some ?_), rfl⟩
          simpa using hFull

/-! The ways a claim ends. -/

theorem take_completes {session : Session} {job : Job} {fence ttlSeconds : Nat} {stage : ClaimStage}
    (h : Completes (Database.take resources session job fence ttlSeconds) db stage db') :
    ∃ next events, session.toRunning = .ok next ∧ Saved db next resources.stateEventId events ∧
      stage = ⟨.claimed, some ⟨job.id, job.runId, next, fence, job.answer, job.skipped, job.questionId⟩⟩ ∧
      db' = { db with
        sessions := storeSession db.sessions next
        events
        leases := db.leases.map (onKey (·.threadId) next.id fun lease =>
          { lease with fence, expiresAt := expiry db.clock ttlSeconds })
        jobs := db.jobs.map (onKey (·.id) job.id fun row => { row with
          status := .leased, fenceToken := fence, leaseUntil := some (expiry db.clock ttlSeconds), attempt := job.attempt + 1 })
        runs := db.runs.map (onKey (·.id) job.runId fun row =>
          { row with status := .running, sessionVersion := next.version }) } := by
  simp only [Database.take, completes_bind, completes_lift, completes_modify, completes_pure] at h
  obtain ⟨next, _, ⟨hNext, rfl⟩, _, _, hSave, _, _, rfl, rfl, rfl⟩ := h
  obtain ⟨events, hSaved, rfl⟩ := Database.save_completes hSave
  exact ⟨next, events, hNext, hSaved, rfl, rfl⟩

theorem defer_completes {job : Job} {stage : ClaimStage} (h : Completes (Database.defer job) db stage db') :
    stage = ⟨.deferred, none⟩ ∧ db' = { db with
      jobs := db.jobs.map (onKey (·.id) job.id fun row => { row with availableAt := expiry db.clock 1 }) } := by
  simp only [Database.defer, completes_bind, completes_modify, completes_pure] at h
  obtain ⟨_, _, rfl, rfl, rfl⟩ := h
  exact ⟨rfl, rfl⟩

theorem exhaust_completes {session : Session} {job : Job} {stage : ClaimStage} (hSnapshot : session.usesQsSnapshot = true)
    (h : Completes (Database.exhaust resources session job) db stage db') :
    ∃ middle next events, session.toRunning = .ok middle ∧ middle.block "attempts_exhausted" = .ok next ∧
      Saved db next resources.stateEventId events ∧ stage = ⟨.exhausted, none⟩ ∧
      db' = { db with
        sessions := storeSession db.sessions next
        events
        leases := db.leases.map (onKey (·.threadId) next.id (Edit.revoke db.clock))
        jobs := db.jobs.map (onKey (·.id) job.id fun row => { row with status := .dead })
        runs := db.runs.map (onKey (·.id) job.runId fun row => { row with status := .blocked })
        reservations := db.reservations.map (releasing resources.time next) } := by
  simp only [Database.exhaust, completes_bind, completes_lift, completes_modify, completes_pure] at h
  obtain ⟨middle, _, ⟨hMiddle, rfl⟩, next, _, ⟨hNext, rfl⟩, _, _, hSave, _, _, rfl, _, _, hRelease, rfl, rfl⟩ := h
  obtain ⟨events, hSaved, rfl⟩ := Database.save_completes hSave
  have hFollows : next.usesQsSnapshot = true := by
    obtain ⟨-, rfl⟩ := Session.toRunning_ok hMiddle
    obtain ⟨-, rfl⟩ := Session.block_ok hNext
    exact hSnapshot
  rw [Database.releaseSnapshot, if_pos hFollows, Database.releaseCapacity, completes_modify] at hRelease
  obtain rfl := hRelease
  exact ⟨middle, next, events, hMiddle, hNext, hSaved, rfl, rfl⟩

/-- A claim finds nothing to do, or works on the due job of its session. -/
theorem claimIn_completes {jobId sessionId : String} {ttlSeconds : Nat} {stage : ClaimStage}
    (h : Completes (Database.claimIn resources jobId sessionId ttlSeconds) db stage db') :
    (stage = ⟨.miss, none⟩ ∧ db' = db ∧ ∀ row job, db.row sessionId = some row → Database.dueJob db row.session jobId = some job →
      job.attempt < 3 ∧ ∃ lease, lookup (·.threadId) db.leases row.session.id = some lease ∧ db.clock < lease.expiresAt) ∨
    ∃ row job, db.row sessionId = some row ∧ Database.dueJob db row.session jobId = some job ∧
      ((3 ≤ job.attempt ∧ Completes (Database.exhaust resources row.session job) db stage db') ∨
        (job.attempt < 3 ∧ ∃ lease middle acquired next, Completes (Database.leaseOf row.session.id) db lease middle ∧
          lease.expiresAt ≤ db.clock ∧ Completes (Database.acquireSnapshot resources row.session) middle acquired next ∧
          ((acquired = true ∧ Completes (Database.take resources row.session job (lease.fence + 1) ttlSeconds) next stage db') ∨
            (acquired = false ∧ Completes (Database.defer job) next stage db')))) := by
  simp only [Database.claimIn, completes_bind, completes_refuseUnless, completes_get] at h
  obtain ⟨_, _, ⟨-, rfl⟩, _, _, ⟨rfl, rfl⟩, h⟩ := h
  cases hRow : db.row sessionId with
  | none =>
      rw [hRow, completes_pure] at h
      exact .inl ⟨h.1.symm, h.2.symm, fun row job hSome => by cases hSome⟩
  | some row =>
      simp only [hRow] at h
      cases hDue : Database.dueJob db row.session jobId with
      | none =>
          rw [hDue, completes_pure] at h
          refine .inl ⟨h.1.symm, h.2.symm, fun other job hSome hJob => ?_⟩
          obtain rfl := Option.some.inj hSome
          rw [hDue] at hJob
          cases hJob
      | some job =>
          simp only [hDue, completes_ite, Database.claimJob, completes_bind, completes_get, completes_pure] at h
          rcases h with ⟨hTries, hExhaust⟩ | ⟨hTries, lease, middle, hLease, _, _, ⟨rfl, rfl⟩, h⟩
          · exact .inr ⟨row, job, rfl, hDue, .inl ⟨hTries, hExhaust⟩⟩
          · have hClock : middle.clock = db.clock := by
              rw [(Database.leaseOf_completes hLease).2]
            rw [hClock] at h
            rcases h with ⟨hOver, acquired, next, hAcquire, h⟩ | ⟨hHeld, rfl, rfl⟩
            · refine .inr ⟨row, job, rfl, hDue, .inr ⟨Nat.lt_of_not_le hTries, lease, middle, acquired, next, hLease, hOver,
                hAcquire, ?_⟩⟩
              simpa using h
            · obtain ⟨hFound, hMiddle⟩ := Database.leaseOf_completes hLease
              cases hOwn : lookup (·.threadId) db.leases row.session.id with
              | none =>
                  rw [hOwn] at hFound
                  rw [hFound] at hHeld
                  exact absurd (Nat.le_refl _) hHeld
              | some held =>
                  rw [hOwn, Option.isSome_some, if_pos rfl, List.append_nil] at hMiddle
                  rw [hOwn] at hFound
                  refine .inl ⟨rfl, hMiddle, fun other own hSome hJob => ?_⟩
                  obtain rfl := Option.some.inj hSome
                  obtain rfl := Option.some.inj (hDue.symm.trans hJob)
                  exact ⟨Nat.lt_of_not_le hTries, held, hOwn, by rw [hFound] at hHeld; exact Nat.lt_of_not_le hHeld⟩

/-- The claim that a worker is given is the one of the thread after the step. -/
structure Claim.Of (claim : Claim) (t t' : Thread) : Prop where
  session : claim.session = t'.session
  run : claim.runId = t'.current.run.id
  same : t'.current.run.id = t.current.run.id
  later : t.session.version < claim.session.version
  job : ∃ old job, t.current.job = some old ∧ t'.current.job = some job ∧ job.id = claim.jobId ∧ job.attempt = old.attempt + 1
  fence : ∃ lease, t'.lease = some lease ∧ lease.fence = claim.fence
  fresh : ∀ lease ∈ t.lease, lease.fence < claim.fence

theorem work_mk (db : Database) (next : Session) (runs : List Run) (jobs : List Job) (leases : List Lease)
    (reservations : List Reservation) (events : List StateEvent) :
    ({ db with sessions := storeSession db.sessions next, runs, jobs, leases, reservations, events } : Database).work =
      ⟨db.work.sessions.map (onKey Session.id next.id fun _ => next), runs, jobs, leases, reservations, db.artifacts⟩ :=
  congrArg (Work.mk · _ _ _ _ _) (storeSession_sessions db.sessions next)

variable (hSound : db.work.Sound db.clock)

include hSound

theorem exhaust_commit (hShows : Shows db.work t) (hValid : t.Valid db.clock) {job : Job} (hJob : t.current.job = some job)
    (hTries : 3 ≤ job.attempt) {stage : ClaimStage} (h : Completes (Database.exhaust resources t.session job) db stage db') :
    ∃ t', Commit db db' resources t t' ∧ stage.claim = none ∧ t'.session.status ≠ .completed ∧ db'.retries = db.retries := by
  obtain ⟨middle, next, events, hMiddle, hNext, hSaved, rfl, rfl⟩ := exhaust_completes hValid.snapshot h
  have hFacts : next.Follows t.session ∧ next.activeRunId = t.session.activeRunId ∧ next.status = .blocked := by
    obtain ⟨-, rfl⟩ := Session.toRunning_ok hMiddle
    obtain ⟨-, rfl⟩ := Session.block_ok hNext
    exact ⟨⟨rfl, rfl, rfl, rfl⟩, rfl, rfl⟩
  obtain ⟨hFollows, hActive, hBlocked⟩ := hFacts
  have hOpen : next.status ≠ .completed := by simp [hBlocked]
  have hRun : job.runId = t.current.run.id := ((hValid.linked _ t.current_mem).job job hJob).1
  have hTargets := hSound.targets hShows hValid (Edit.exhausted_linking db.clock resources.time next) hFollows.id hJob
  obtain ⟨hMoves, hThread⟩ := hTargets.moves hSound.tidy
  have hId : next.id = t.id := hFollows.id
  rw [releasing_rows hSound hShows hValid hActive hFollows.actor, hRun]
  refine ⟨_, ⟨⟨hShows, hValid, .exhausted resources.time hJob hTries hMiddle hNext, ?_, ?_⟩, rfl, rfl, rfl, .inr hSaved, rfl,
    .released t.current.run.id resources.time⟩, rfl, hOpen, rfl⟩
  · rw [work_mk, hId]
    exact hThread
  · rw [work_mk, hId]
    exact hMoves

/-- The lease is there, and the slot is taken or not. -/
theorem leased_commit (hShows : Shows db.work t) (hValid : t.Valid db.clock) {job : Job} (hJob : t.current.job = some job)
    (hStatus : t.session.status = .queued ∨ t.session.status = .running) (hTries : job.attempt < 3) {ttlSeconds : Nat} {lease : Lease}
    {middle next : Database} {acquired : Bool} {stage : ClaimStage} (hLease : Completes (Database.leaseOf t.session.id) db lease middle)
    (hOver : lease.expiresAt ≤ db.clock) (hAcquire : Completes (Database.acquireSnapshot resources t.session) middle acquired next)
    (h : (acquired = true ∧ Completes (Database.take resources t.session job (lease.fence + 1) ttlSeconds) next stage db') ∨
      (acquired = false ∧ Completes (Database.defer job) next stage db')) :
    ∃ t', Commit db db' resources t t' ∧ (∀ claim ∈ stage.claim, claim.Of t t') ∧ t'.session.status ≠ .completed ∧
      db'.retries = db.retries := by
  obtain ⟨hFound, hMiddle⟩ := Database.leaseOf_completes hLease
  have hOwn : lookup (·.threadId) db.leases t.session.id = t.lease := hShows.lease
  rw [hOwn] at hFound hMiddle
  have hLeased := leased_valid hValid hStatus
  have hId : (t.leased db.clock).id = t.id := rfl
  have hFirst : Moves db.work middle.work t.id ∧ Shows middle.work (t.leased db.clock) := by
    rw [hMiddle]
    exact hShows.leased hSound.tidy rfl
  have hClock : middle.clock = db.clock := by rw [hMiddle]
  obtain ⟨hFirst, hThread⟩ := hFirst
  have hOrder : middle.work.Sound middle.clock := by
    rw [hClock]
    exact hSound.moved hFirst hId hThread hLeased
  have hMid : (t.leased db.clock).Valid middle.clock := by rwa [hClock]
  obtain ⟨_, slot, -, hSlot, -⟩ := hValid.open hStatus
  have hRun : job.runId = t.current.run.id := ((hValid.linked _ t.current_mem).job job hJob).1
  obtain rfl : lease = t.lease.getD ⟨t.id, 0, db.clock⟩ := hFound
  have hAcquired := acquireSnapshot_completes hOrder hThread hMid hSlot hAcquire
  have hRows : middle.sessions = db.sessions ∧ middle.events = db.events ∧ middle.calls = db.calls ∧ middle.quotas = db.quotas ∧
      middle.reservations = db.reservations ∧ middle.retries = db.retries := by
    rw [hMiddle]
    exact ⟨rfl, rfl, rfl, rfl, rfl, rfl⟩
  obtain ⟨hSessions, hEvents, hCalls, hQuotas, hSlots, hRetries⟩ := hRows
  have hOwnSlot := (hValid.linked _ t.current_mem).slot slot hSlot
  rcases hAcquired with ⟨rfl, hRoom, rfl⟩ | ⟨rfl, -, -, hNext⟩
  · obtain ⟨-, hTake⟩ | ⟨hFalse, -⟩ := h
    · obtain ⟨following, events, hNext, hSaved, rfl, rfl⟩ := take_completes hTake
      have hFollows : following.Follows t.session := by
        obtain ⟨-, rfl⟩ := Session.toRunning_ok hNext
        exact ⟨rfl, rfl, rfl, rfl⟩
      have hLater : t.session.version < following.version ∧ following.status = .running := by
        obtain ⟨-, rfl⟩ := Session.toRunning_ok hNext
        exact ⟨Nat.lt_succ_self _, rfl⟩
      obtain ⟨hLater, hRunning⟩ := hLater
      have hOpen : following.status ≠ .completed := by simp [hRunning]
      have hTargets := hOrder.targets hThread hMid (Edit.claimed_linking ((t.lease.getD ⟨t.id, 0, db.clock⟩).fence + 1)
        (expiry middle.clock ttlSeconds) resources.time following job) hFollows.id hJob
      obtain ⟨hMoves, hLast⟩ := hTargets.moves hOrder.tidy
      rw [hRun]
      refine ⟨_, ⟨⟨hShows, hValid, .claimed resources.time (expiry middle.clock ttlSeconds) hJob hTries hOver hNext, ?_, ?_⟩,
        hClock, hQuotas, congrArg (storeSession · following) hSessions, .inr ?_, hCalls, ?_⟩, ?_, hOpen, hRetries⟩
      · rw [work_mk, hFollows.id]
        exact hLast
      · rw [work_mk, hFollows.id]
        exact hFirst.trans hMoves
      · exact hSaved.congr hSessions hEvents
      · change slot.active = true ∨ roomFor middle resources t.session = some true at hRoom
        rw [roomFor_congr hQuotas hSlots hFollows.actor.symm hFollows.assessments.symm] at hRoom
        change SlotStep db resources following
          (middle.reservations.map (onKey (·.runId) t.current.run.id (Edit.acquire resources.time)))
        rw [hSlots, ← hOwnSlot.1]
        refine .acquired (hShows.slot_mem t.current_mem hSlot).1 ?_ hRoom
        rw [hOwnSlot.1, ← hValid.active]
        obtain ⟨-, rfl⟩ := Session.toRunning_ok hNext
        rfl
      · rintro claim ⟨⟩
        refine ⟨rfl, rfl, rfl, hLater, ⟨job, _, hJob, congrArg (Option.map _) hJob, rfl, rfl⟩, ⟨_, rfl, rfl⟩, ?_⟩
        intro held hHeld
        have hSame : t.lease = some held := hHeld
        rw [hSame]
        exact Nat.lt_succ_self _
    · cases hFalse
  · obtain ⟨hFalse, -⟩ | ⟨-, hDefer⟩ := h
    · cases hFalse
    · rw [hNext] at hDefer
      obtain ⟨rfl, rfl⟩ := defer_completes hDefer
      have hOpen : t.session.status ≠ .completed := by rcases hStatus with hStatus | hStatus <;> simp [hStatus]
      have hTargets := hOrder.targets hThread hMid (Edit.deferred_linking (expiry middle.clock 1)) rfl hJob
      obtain ⟨hMoves, hLast⟩ := hTargets.moves hOrder.tidy
      have hWork : ({ middle with jobs := middle.jobs.map (onKey (·.id) job.id fun row =>
          { row with availableAt := expiry middle.clock 1 }) } : Database).work =
            middle.work.rewrite ((Edit.deferred (expiry middle.clock 1)).at (t.leased db.clock) job.id) := by
        simp only [Work.rewrite, Edit.at, Edit.deferred, map_onKey_same]
        rfl
      rw [← hWork] at hMoves hLast
      refine ⟨_, ⟨⟨hShows, hValid, .deferred (expiry middle.clock 1) hStatus, hLast, hFirst.trans hMoves⟩, hClock, hQuotas,
        ?_, .inl ⟨rfl, hEvents⟩, hCalls, .same _ hSlots⟩, ?_, hOpen, hRetries⟩
      · exact hSessions.trans (storeSession_same hSound.tidy hShows).symm
      · rintro claim ⟨⟩

/-- A claim that commits takes its session a step further, or finds nothing to do. -/
theorem claimIn_commit {jobId sessionId : String} {ttlSeconds : Nat} {stage : ClaimStage}
    (h : Completes (Database.claimIn resources jobId sessionId ttlSeconds) db stage db') :
    (db' = db ∧ stage.claim = none) ∨
      ∃ t t', t.id = sessionId ∧ Commit db db' resources t t' ∧ (∀ claim ∈ stage.claim, claim.Of t t') ∧
        t'.session.status ≠ .completed ∧ db'.retries = db.retries := by
  rcases claimIn_completes h with ⟨rfl, rfl, -⟩ | ⟨row, job, hRow, hDue, h⟩
  · exact .inl ⟨rfl, rfl⟩
  · obtain ⟨t, hSession, hId, hShows, hValid⟩ := hSound.of_row hRow
    rw [← hSession] at hDue h
    obtain ⟨hMem, -, -, hActive, hStatus⟩ := dueJob_some hDue
    rw [hValid.active, Option.some.injEq] at hActive
    have hJob := hSound.job_of_run hShows hValid hMem hActive.symm
    rcases h with ⟨hTries, hExhaust⟩ | ⟨hTries, lease, middle, acquired, next, hLease, hOver, hAcquire, h⟩
    · obtain ⟨t', hCommit, hNone, hOpen, hRetries⟩ := exhaust_commit hSound hShows hValid hJob hTries hExhaust
      refine .inr ⟨t, t', hId, hCommit, fun claim hClaim => ?_, hOpen, hRetries⟩
      rw [hNone] at hClaim
      cases hClaim
    · obtain ⟨t', hCommit, hClaims, hOpen, hRetries⟩ :=
        leased_commit hSound hShows hValid hJob hStatus hTries hLease hOver hAcquire h
      exact .inr ⟨t, t', hId, hCommit, hClaims, hOpen, hRetries⟩

end Claims

/-! The operations of a worker. -/

/-- The claim owns its session now. -/
def Owns (db : Database) (claim : Claim) : Prop :=
  ∃ row job lease, db.row claim.session.id = some row ∧ lookup (·.id) db.jobs claim.jobId = some job ∧
    lookup (·.threadId) db.leases row.session.id = some lease ∧ row.session.status = .running ∧
    row.session.activeRunId = some claim.runId ∧ row.session.version = claim.session.version ∧ job.status = .leased ∧
    job.fenceToken = claim.fence ∧ lease.fence = claim.fence ∧ db.clock < lease.expiresAt

/-- The job of the claim is the one of its run. -/
def Claim.Known (claim : Claim) (work : Work) : Prop :=
  ∃ job ∈ work.jobs, job.id = claim.jobId ∧ job.runId = claim.runId ∧ job.sessionId = claim.session.id

section Workers

variable {db db' : Database} {claim : Claim} {resources : Resources}

theorem readClaim_completes {found : Session} (h : Completes (Database.readClaim claim) db found db') :
    db = db' ∧ Owns db claim ∧ ∃ row, db.row claim.session.id = some row ∧ row.session = found := by
  simp only [Database.readClaim, Database.session, completes_bind, completes_get, completes_demand, completes_pure,
    completes_refuseUnless] at h
  obtain ⟨_, _, ⟨_, _, ⟨rfl, rfl⟩, row, _, ⟨hRow, rfl⟩, rfl, rfl⟩, _, _, ⟨rfl, rfl⟩, job, _, ⟨hJob, rfl⟩, lease, _, ⟨hLease, rfl⟩,
    _, _, ⟨⟨hStatus, hActive, hVersion, hLeased, hFence, hHeld, hLive⟩, rfl⟩, rfl, rfl⟩ := h
  exact ⟨rfl, ⟨row, job, lease, hRow, hJob, hLease, hStatus, hActive, hVersion, hLeased, hFence, hHeld, hLive⟩, row, hRow, rfl⟩

/-- The thread that a claim owns. -/
theorem Work.Sound.of_owns (h : db.work.Sound db.clock) (hKnown : claim.Known db.work) (hOwns : Owns db claim) :
    ∃ t job, t.id = claim.session.id ∧ Shows db.work t ∧ t.Valid db.clock ∧ t.current.job = some job ∧ job.id = claim.jobId ∧
      t.current.run.id = claim.runId ∧ t.session.status = .running ∧ t.session.version = claim.session.version ∧
      (db.row claim.session.id).map (·.session) = some t.session ∧
      ∃ lease, t.lease = some lease ∧ lease.fence = claim.fence ∧ db.clock < lease.expiresAt := by
  obtain ⟨row, -, lease, hRow, -, hLease, hStatus, hActive, hVersion, -, -, hHeld, hLive⟩ := hOwns
  obtain ⟨t, hSession, hId, hShows, hValid⟩ := h.of_row hRow
  obtain ⟨job, hJob, hJobId, hJobRun, -⟩ := hKnown
  rw [← hSession] at hStatus hActive hVersion hLease
  rw [hValid.active, Option.some.injEq] at hActive
  refine ⟨t, job, hId, hShows, hValid, h.job_of_run hShows hValid hJob (hJobRun.trans hActive.symm), hJobId, hActive, hStatus,
    hVersion, ?_, lease, hShows.lease.symm.trans hLease, hHeld, hLive⟩
  rw [hRow, hSession]
  rfl

theorem checkActive_completes {commitAt : Nat} {value : Unit} (h : Completes (Database.checkActive claim commitAt) db value db') :
    db = db' := by
  simp only [Database.checkActive, completes_bind, completes_get, completes_refuseUnless] at h
  obtain ⟨_, _, ⟨rfl, rfl⟩, -, rfl⟩ := h
  rfl

/-- The lease and the job of the session are held for longer. -/
theorem renew_takes (hSound : db.work.Sound db.clock) (hKnown : claim.Known db.work) {ttlSeconds : Nat} {value : Unit}
    (h : Completes (Database.renew claim ttlSeconds) db value db') :
    Owns db claim ∧ db' = { db with leases := db'.leases, jobs := db'.jobs } ∧
      ∃ t expiresAt, t.id = claim.session.id ∧ t.session.status = .running ∧
        Takes db.clock db.work db'.work t (t.edit (.renewed expiresAt)) := by
  simp only [Database.renew, completes_bind, completes_refuseUnless, completes_modify] at h
  obtain ⟨_, _, ⟨-, rfl⟩, _, _, hRead, rfl⟩ := h
  obtain ⟨rfl, hOwns, -⟩ := readClaim_completes hRead
  obtain ⟨t, job, hId, hShows, hValid, hJob, hJobId, -, hStatus, -, -, lease, hLease, -, hLive⟩ := hSound.of_owns hKnown hOwns
  have hTargets := hSound.targets hShows hValid (Edit.renewed_linking (expiry db.clock ttlSeconds)) rfl hJob
  obtain ⟨hMoves, hLast⟩ := hTargets.moves hSound.tidy
  rw [← hJobId, ← hId]
  have hWork : ({ db with
      leases := db.leases.map (onKey (·.threadId) t.id fun lease => { lease with expiresAt := expiry db.clock ttlSeconds })
      jobs := db.jobs.map (onKey (·.id) job.id fun row =>
        { row with leaseUntil := some (expiry db.clock ttlSeconds) }) } : Database).work =
      db.work.rewrite ((Edit.renewed (expiry db.clock ttlSeconds)).at t job.id) := by
    simp only [Work.rewrite, Edit.at, Edit.renewed, map_onKey_same]
    rfl
  rw [← hWork] at hMoves hLast
  have hHeld : ∀ held ∈ t.lease, db.clock < held.expiresAt := by
    intro held hMem
    obtain rfl := Option.some.inj (hLease.symm.trans hMem)
    exact hLive
  exact ⟨hOwns, rfl, t, expiry db.clock ttlSeconds, rfl, hStatus, hShows, hValid, .renewed _ hStatus hHeld, hLast, hMoves⟩

/-- The marker of a call is found, or it is made with the request that a retry has to send. -/
theorem beginModelCall_completes {requestJson invocationId : String} {commitAt : Nat} {call : ModelCall} {created : Bool}
    (h : Completes (Database.beginModelCall claim requestJson invocationId commitAt) db (call, created) db') :
    Owns db claim ∧
      ((created = false ∧ db' = db ∧ callOf db claim.runId = some call) ∨
        ∃ row, db.row claim.session.id = some row ∧ created = true ∧ callOf db claim.runId = none ∧
          (∀ other ∈ db.calls, other.invocationId ≠ invocationId) ∧
          call = ⟨claim.runId, invocationId, claim.fence, .dispatched,
            (Database.originalRequest db claim row.session).getD requestJson, none, none⟩ ∧
          db' = { db with calls := db.calls ++ [call] }) := by
  simp only [Database.beginModelCall, completes_bind, completes_get] at h
  obtain ⟨session, _, hRead, _, _, ⟨rfl, rfl⟩, h⟩ := h
  obtain ⟨rfl, hOwns, row, hRow, rfl⟩ := readClaim_completes hRead
  refine ⟨hOwns, ?_⟩
  cases hCall : callOf db claim.runId with
  | some found =>
      simp only [hCall, completes_bind, completes_lift, completes_pure, Prod.mk.injEq] at h
      obtain ⟨_, _, ⟨-, rfl⟩, ⟨rfl, rfl⟩, rfl⟩ := h
      exact .inl ⟨rfl, rfl, rfl⟩
  | none =>
      simp only [hCall, completes_bind, completes_lift, completes_refuseUnless, completes_set, completes_pure, Prod.mk.injEq] at h
      obtain ⟨_, _, ⟨-, rfl⟩, _, _, ⟨hNew, rfl⟩, _, _, rfl, _, _, hActive, ⟨rfl, rfl⟩, rfl⟩ := h
      obtain rfl := checkActive_completes hActive
      exact .inr ⟨row, hRow, rfl, rfl, hNew, rfl, rfl⟩

/-- A response or a failure is stored for the call that the claim has dispatched. -/
theorem recordModelResponse_completes {invocationId : String} {responseJson failureCode : Option String} {resultUnknown : Bool}
    {commitAt : Nat} {value : Unit}
    (h : Completes (Database.recordModelResponse claim invocationId responseJson failureCode resultUnknown commitAt) db value db') :
    Owns db claim ∧ ∃ call, callOf db claim.runId = some call ∧ call.invocationId = invocationId ∧ call.fenceToken = claim.fence ∧
      call.status = .dispatched ∧ db' = { db with
        calls := db.calls.map fun row =>
          if row.runId = claim.runId then
            { row with status := Database.receivedStatus responseJson resultUnknown, responseJson, failureCode }
          else row } := by
  simp only [Database.recordModelResponse, completes_bind, completes_refuseUnless, completes_get, completes_demand,
    completes_set] at h
  obtain ⟨_, _, ⟨-, rfl⟩, _, _, hRead, _, _, ⟨rfl, rfl⟩, call, _, ⟨hCall, rfl⟩, _, _, ⟨⟨hId, hFence, hStatus⟩, rfl⟩, _, _, rfl,
    hActive⟩ := h
  obtain ⟨rfl, hOwns, -⟩ := readClaim_completes hRead
  exact ⟨hOwns, call, hCall, hId, hFence, hStatus, (checkActive_completes hActive).symm⟩

theorem insert_ok {α : Type} {key : α → String} {rows rows' : List α} {row : α} (h : Database.insert key rows row = .ok rows') :
    key row ∉ rows.map key ∧ rows' = rows ++ [row] := by
  unfold Database.insert at h
  split at h
  · cases h
  · cases h
    exact ⟨‹_›, rfl⟩

/-- The end of an execution leaves an artifact, or it does not complete its session. -/
theorem settle_completes {library : ArtifactLibrary} {session next : Session} {result : WorkflowResult} {questionId : String}
    (h : Completes (Database.settle library claim session result questionId) db next db') :
    (∃ candidate, result.artifact = some candidate ∧ session.complete = .ok next ∧
      Database.checkCandidate library db claim session candidate = .ok ⟨⟩ ∧
      (∀ other ∈ db.artifacts, other.sessionId ≠ session.id ∧ other.runId ≠ claim.runId) ∧
      db' = { db with
        artifacts := db.artifacts ++ [⟨candidate.id, session.id, claim.runId, library.payload candidate⟩] }) ∨
    (result.artifact = none ∧ session.Concluded next ∧ ∃ questions, db' = { db with questions }) := by
  unfold Database.settle at h
  cases hArtifact : result.artifact with
  | some candidate =>
      simp only [hArtifact, completes_bind, Database.storeArtifact, completes_get, completes_lift, completes_refuseUnless,
        completes_set] at h
      obtain ⟨_, _, ⟨_, _, ⟨rfl, rfl⟩, _, _, ⟨hCheck, rfl⟩, _, _, ⟨-, rfl⟩, _, _, ⟨hNew, rfl⟩, rows, _, ⟨hRows, rfl⟩, rfl⟩,
        hNext, rfl⟩ := h
      obtain ⟨-, rfl⟩ := insert_ok hRows
      exact .inl ⟨candidate, rfl, hNext, hCheck, hNew, rfl⟩
  | none =>
      cases hQuestion : result.question with
      | some question =>
          simp only [hArtifact, hQuestion, completes_bind, Database.storeQuestion, completes_get, completes_lift,
            completes_set] at h
          obtain ⟨_, _, ⟨_, _, ⟨rfl, rfl⟩, questions, _, ⟨-, rfl⟩, rfl⟩, hNext, rfl⟩ := h
          exact .inr ⟨rfl, .inl ⟨questionId, hNext⟩, questions, rfl⟩
      | none =>
          simp only [hArtifact, hQuestion, completes_lift] at h
          obtain ⟨hNext, rfl⟩ := h
          exact .inr ⟨rfl, .inr ⟨_, hNext⟩, db.questions, rfl⟩

theorem checkCandidate_ok {library : ArtifactLibrary} {session : Session} {candidate : ArtifactCandidate}
    (h : Database.checkCandidate library db claim session candidate = .ok ⟨⟩) :
    ∃ evidence call, Database.evidenceOf db session.id = some evidence ∧ callOf db claim.runId = some call ∧
      candidate.evidenceSetId = evidence.id ∧ candidate.evidenceFingerprint = evidence.fingerprint ∧
      call.status = .responseReceived ∧ candidate.invocationId = call.invocationId := by
  unfold Database.checkCandidate at h
  cases hEvidence : Database.evidenceOf db session.id with
  | none => simp [hEvidence] at h
  | some evidence =>
      cases hCall : callOf db claim.runId with
      | none => simp [hEvidence, hCall] at h
      | some call =>
          simp only [hEvidence, hCall] at h
          split at h
          · next hFacts =>
              obtain ⟨-, -, hSet, hFingerprint, hStatus, hInvocation, -⟩ := hFacts
              exact ⟨evidence, call, rfl, rfl, hSet, hFingerprint, hStatus, hInvocation⟩
          · cases h

/-- The rows after the end of an execution. -/
def finishing (claim : Claim) (next : Session) (checkpointRef : String) (time : DateTime) (events : List StateEvent)
    (settled : Database) : Database :=
  { settled with
    sessions := storeSession settled.sessions next
    events
    runs := settled.runs.map (onKey (·.id) claim.runId fun row =>
      { row with status := next.status, checkpointRef := some checkpointRef })
    jobs := settled.jobs.map (onKey (·.id) claim.jobId fun row => { row with status := .done })
    leases := settled.leases.map (onKey (·.threadId) next.id fun lease => { lease with expiresAt := settled.clock })
    reservations := settled.reservations.map (releasing time next) }

theorem finishIn_completes {library : ArtifactLibrary} {result : WorkflowResult} {questionId : String} {commitAt : Nat}
    {value : Unit} (h : Completes (Database.finishIn library resources claim result questionId commitAt) db value db') :
    Owns db claim ∧ ∃ row next settled events, db.row claim.session.id = some row ∧
      Completes (Database.settle library claim row.session result questionId) db next settled ∧
      Saved settled next resources.stateEventId events ∧
      (next.usesQsSnapshot = true → db' = finishing claim next result.checkpointRef resources.time events settled) := by
  simp only [Database.finishIn, completes_bind, completes_lift, completes_modify] at h
  obtain ⟨_, _, ⟨-, rfl⟩, session, _, hRead, next, settled, hSettle, _, _, hSave, _, _, rfl, _, _, hActive, _, _, rfl, hRelease⟩ := h
  obtain ⟨rfl, hOwns, row, hRow, rfl⟩ := readClaim_completes hRead
  obtain ⟨events, hSaved, rfl⟩ := Database.save_completes hSave
  obtain rfl := checkActive_completes hActive
  refine ⟨hOwns, row, next, settled, events, hRow, hSettle, hSaved, fun hSnapshot => ?_⟩
  rw [Database.releaseSnapshot, if_pos hSnapshot, Database.releaseCapacity, completes_modify] at hRelease
  exact hRelease.symm

/-- The session after an execution. -/
structure Session.Finished (next session : Session) : Prop where
  follows : next.Follows session
  active : next.activeRunId = session.activeRunId
  later : session.version < next.version

theorem finished_of_complete {session next : Session} (h : session.complete = .ok next) : next.Finished session := by
  obtain ⟨-, rfl⟩ := Session.complete_ok h
  exact ⟨⟨rfl, rfl, rfl, rfl⟩, rfl, Nat.lt_succ_self _⟩

theorem finished_of_concluded {session next : Session} (h : session.Concluded next) :
    next.Finished session ∧ next.status ≠ .completed := by
  rcases h with ⟨question, hAwait⟩ | ⟨code, hBlock⟩
  · obtain ⟨-, rfl⟩ := Session.awaitAnswer_ok hAwait
    exact ⟨⟨⟨rfl, rfl, rfl, rfl⟩, rfl, Nat.lt_succ_self _⟩, nofun⟩
  · obtain ⟨-, rfl⟩ := Session.block_ok hBlock
    exact ⟨⟨⟨rfl, rfl, rfl, rfl⟩, rfl, Nat.lt_succ_self _⟩, nofun⟩

/-- What the end of an execution stores before its session. -/
structure Settled (db settled : Database) : Prop where
  clock : settled.clock = db.clock
  quotas : settled.quotas = db.quotas
  sessions : settled.sessions = db.sessions
  events : settled.events = db.events
  calls : settled.calls = db.calls
  retries : settled.retries = db.retries
  reservations : settled.reservations = db.reservations

/-- The rows after an execution are an edit of its thread. -/
theorem finishing_commit (hSound : db.work.Sound db.clock) {settled : Database} (hSettled : Settled db settled) {t : Thread}
    (hShows : Shows db.work t) (hValid : t.Valid db.clock) {job : Job} (hJob : t.current.job = some job) (hJobId : job.id = claim.jobId)
    (hRun : t.current.run.id = claim.runId) {next : Session} (hFinished : next.Finished t.session) {checkpointRef : String}
    {events : List StateEvent} (hSaved : Saved settled next resources.stateEventId events) {artifact : Option Artifact}
    (hFirst : Moves db.work settled.work t.id) (hThread : Shows settled.work { t with artifact })
    (hStep : Advance db.clock t ({ t with artifact }.edit (.finished db.clock resources.time next checkpointRef))) :
    Commit db (finishing claim next checkpointRef resources.time events settled) resources t
      ({ t with artifact }.edit (.finished db.clock resources.time next checkpointRef)) := by
  have hTargets : Targets settled.work { t with artifact } (.finished db.clock resources.time next checkpointRef) job.id := by
    refine ⟨hThread, hValid.linked, Edit.finished_linking _ _ _ _, hFinished.follows.id, ⟨job, hJob, rfl⟩, ?_⟩
    intro slot hSlot hOwn
    have hOld : slot ∈ db.work.slots := by
      rw [Database.work, ← hSettled.reservations]
      exact hSlot
    exact hSound.slot_of_run hShows hValid hOld hOwn
  obtain ⟨hMoves, hLast⟩ := hTargets.moves hFirst.tidy
  have hReleased : settled.reservations.map (releasing resources.time next) =
      settled.reservations.map (onKey (·.runId) t.current.run.id (Edit.release resources.time)) := by
    rw [hSettled.reservations]
    exact releasing_rows hSound hShows hValid hFinished.active hFinished.follows.actor resources.time
  have hWork : (finishing claim next checkpointRef resources.time events settled).work =
      settled.work.rewrite ((Edit.finished db.clock resources.time next checkpointRef).at { t with artifact } job.id) := by
    rw [finishing, work_mk, hFinished.follows.id, ← hJobId, ← hRun, hReleased, hSettled.clock]
    rfl
  rw [← hWork] at hMoves hLast
  refine ⟨⟨hShows, hValid, hStep, hLast, hFirst.trans hMoves⟩, hSettled.clock, hSettled.quotas,
    congrArg (storeSession · next) hSettled.sessions, .inr (hSaved.congr hSettled.sessions hSettled.events), hSettled.calls, ?_⟩
  change SlotStep db resources next (settled.reservations.map (releasing resources.time next))
  rw [hReleased, hSettled.reservations]
  exact .released t.current.run.id resources.time

/-- The end of an execution takes the session of the claim a step further. -/
theorem finishIn_commit (hSound : db.work.Sound db.clock) (hKnown : claim.Known db.work) {library : ArtifactLibrary}
    {result : WorkflowResult} {questionId : String} {commitAt : Nat} {value : Unit}
    (h : Completes (Database.finishIn library resources claim result questionId commitAt) db value db') :
    Owns db claim ∧ db'.retries = db.retries ∧ ∃ t t', t.id = claim.session.id ∧ Commit db db' resources t t' ∧
      t'.session.Finished t.session ∧ t.current.run.id = claim.runId ∧
      (t'.session.status = .completed → ∃ call, callOf db claim.runId = some call ∧ call.status = .responseReceived) := by
  obtain ⟨hOwns, row, next, settled, events, hRow, hSettle, hSaved, hLast⟩ := finishIn_completes h
  obtain ⟨t, job, hId, hShows, hValid, hJob, hJobId, hRun, hStatus, -, hSession, -⟩ := hSound.of_owns hKnown hOwns
  rw [hRow, Option.map_some, Option.some.injEq] at hSession
  rw [hSession] at hSettle
  refine ⟨hOwns, ?_⟩
  rcases settle_completes hSettle with ⟨candidate, -, hComplete, hCheck, -, hSettled⟩ | ⟨-, hNext, questions, hSettled⟩
  · have hFinished := finished_of_complete hComplete
    obtain rfl := hLast (hFinished.follows.snapshot.trans hValid.snapshot)
    obtain ⟨hFirst, hThread⟩ := hSound.tidy.artifact_moves ⟨candidate.id, t.session.id, claim.runId, library.payload candidate⟩
      hShows rfl (hValid.no_artifact (by simp [hStatus]))
    have hRows : Settled db settled := by
      rw [hSettled]
      exact ⟨rfl, rfl, rfl, rfl, rfl, rfl, rfl⟩
    have hMoved : Moves db.work settled.work t.id := by
      rw [hSettled]
      exact hFirst
    have hShown : Shows settled.work { t with
        artifact := some ⟨candidate.id, t.session.id, claim.runId, library.payload candidate⟩ } := by
      rw [hSettled]
      exact hThread
    have hCommit := finishing_commit hSound hRows hShows hValid hJob hJobId hRun hFinished hSaved hMoved hShown
      (.completed resources.time result.checkpointRef _ hComplete hRun.symm)
    refine ⟨hRows.retries, t, _, hId, hCommit, hFinished, hRun, fun _ => ?_⟩
    obtain ⟨_, call, -, hCall, -, -, hReceived, -⟩ := checkCandidate_ok hCheck
    exact ⟨call, hCall, hReceived⟩
  · obtain ⟨hFinished, hOpen⟩ := finished_of_concluded hNext
    obtain rfl := hLast (hFinished.follows.snapshot.trans hValid.snapshot)
    have hRows : Settled db settled := by
      rw [hSettled]
      exact ⟨rfl, rfl, rfl, rfl, rfl, rfl, rfl⟩
    have hMoved : Moves db.work settled.work t.id ∧ Shows settled.work t := by
      rw [hSettled]
      exact ⟨hSound.tidy.moves t.id, hShows⟩
    have hCommit := finishing_commit hSound hRows hShows hValid hJob hJobId hRun hFinished hSaved hMoved.1 hMoved.2
      (.concluded resources.time result.checkpointRef hNext)
    exact ⟨hRows.retries, t, _, hId, hCommit, hFinished, hRun, fun hCompleted => absurd hCompleted hOpen⟩

end Workers

end Interpretation

end QsAi
