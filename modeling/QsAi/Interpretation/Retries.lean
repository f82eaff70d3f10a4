import Mathlib.Logic.Relation
import QsAi.Interpretation.Calls

/-! Retries of blocked runs. They form lines, and the calls of a line send one request. -/
namespace QsAi

namespace Interpretation

open Keyed

/-- What holds of the retries. -/
structure Database.Retrying (db : Database) : Prop where
  sources : UniqueOn (·.sourceRunId) db.retries
  runs : UniqueOn (·.runId) db.retries
  source : ∀ row ∈ db.retries, ∃ run ∈ db.runs, run.id = row.sourceRunId ∧ run.sessionId = row.sessionId ∧ run.status = .blocked
  run : ∀ row ∈ db.retries, ∃ run ∈ db.runs, run.id = row.runId ∧ run.sessionId = row.sessionId
  session : ∀ row ∈ db.retries, ∃ own ∈ db.sessions, own.id = row.sessionId ∧
    row.organizationId = organizationNumber own.session.actor.orgId
  order : db.retries.Pairwise fun first second => second.runId ≠ first.sourceRunId
  other : ∀ row ∈ db.retries, row.runId ≠ row.sourceRunId
  frozen : ∀ row ∈ db.retries, row.frozenRequestJson = frozenRequest db row.sourceRunId row.sessionId
  sent : ∀ row ∈ db.retries, ∀ call ∈ db.calls, call.runId = row.runId → ∀ request ∈ row.frozenRequestJson,
    call.requestJson = request
  risk : ∀ row ∈ db.retries, (callOf db row.sourceRunId).any (·.status.uncertain) = true → row.acceptedUnknownRisk = true

section Retries

variable {db db' : Database}

theorem frozenRequest_congr (hCalls : db'.calls = db.calls) (hRetries : db'.retries = db.retries) (runId sessionId : String) :
    frozenRequest db' runId sessionId = frozenRequest db runId sessionId := by
  rw [frozenRequest, callOf, inherited, hCalls, hRetries]
  rfl

/-- What leaves the retries and the calls keeps what holds of them. -/
theorem Database.Retrying.kept (h : db.Retrying) (hPrecedes : db.Precedes db') (hRetries : db'.retries = db.retries)
    (hCalls : db'.calls = db.calls)
    (hRuns : ∀ run ∈ db.runs, ∃ run' ∈ db'.runs, run'.id = run.id ∧ run'.sessionId = run.sessionId) :
    db'.Retrying where
  sources := hRetries ▸ h.sources
  runs := hRetries ▸ h.runs
  source row hRow := by
    obtain ⟨run, hRun, hId, hSession, hStatus⟩ := h.source row (hRetries ▸ hRow)
    exact ⟨run, hPrecedes.runs run hRun (by simp [hStatus]) (by simp [hStatus]), hId, hSession, hStatus⟩
  run row hRow := by
    obtain ⟨run, hRun, hId, hSession⟩ := h.run row (hRetries ▸ hRow)
    obtain ⟨run', hRun', hSameId, hSameSession⟩ := hRuns run hRun
    exact ⟨run', hRun', hSameId.trans hId, hSameSession.trans hSession⟩
  session row hRow := by
    obtain ⟨own, hOwn, hId, hOrganization⟩ := h.session row (hRetries ▸ hRow)
    obtain ⟨next, hNext, hSucceeds⟩ := hPrecedes.sessions own hOwn
    refine ⟨next, hNext, hSucceeds.follows.id.trans hId, ?_⟩
    rw [hOrganization, hSucceeds.follows.actor]
  order := hRetries ▸ h.order
  other := hRetries ▸ h.other
  frozen row hRow := (h.frozen row (hRetries ▸ hRow)).trans (frozenRequest_congr hCalls hRetries _ _).symm
  sent row hRow call hCall := h.sent row (hRetries ▸ hRow) call (hCalls ▸ hCall)
  risk row hRow := by
    rw [callOf, hCalls]
    exact h.risk row (hRetries ▸ hRow)

/-- A run that was retried is not the one that a worker owns. -/
theorem Database.Retrying.not_owned (h : db.Retrying) (hSound : db.work.Sound db.clock) {claim : Claim}
    (hKnown : claim.Known db.work) (hOwns : Owns db claim) : ∀ row ∈ db.retries, row.sourceRunId ≠ claim.runId := by
  intro row hRow hSame
  obtain ⟨t, job, -, hShows, hValid, -, -, hRunId, hStatus, -⟩ := hSound.of_owns hKnown hOwns
  obtain ⟨run, hRun, hId, -, hBlocked⟩ := h.source row hRow
  have hOwn := (hShows.run_mem t.current_mem).1
  have hCurrent : run = t.current.run := hSound.tidy.runs.eq_of_key hRun hOwn (hId.trans (hSame.trans hRunId.symm))
  rw [hCurrent, (hValid.running hStatus).run] at hBlocked
  cases hBlocked

/-- A new retry, whose run has no call. -/
theorem Database.Retrying.added {rows : List RetryRow} {row : RetryRow} (h : Database.Retrying { db with retries := rows })
    (hRows : db.retries = rows ++ [row]) (hSources : ∀ other ∈ rows, other.sourceRunId ≠ row.sourceRunId)
    (hTargets : ∀ other ∈ rows, other.runId ≠ row.runId) (hOther : ∀ other ∈ db.retries, row.runId ≠ other.sourceRunId)
    (hSource : ∃ run ∈ db.runs, run.id = row.sourceRunId ∧ run.sessionId = row.sessionId ∧ run.status = .blocked)
    (hRun : ∃ run ∈ db.runs, run.id = row.runId ∧ run.sessionId = row.sessionId)
    (hSession : ∃ own ∈ db.sessions, own.id = row.sessionId ∧ row.organizationId = organizationNumber own.session.actor.orgId)
    (hFrozen : row.frozenRequestJson = frozenRequest { db with retries := rows } row.sourceRunId row.sessionId)
    (hUnsent : ∀ call ∈ db.calls, call.runId ≠ row.runId)
    (hRisk : (callOf db row.sourceRunId).any (·.status.uncertain) = true → row.acceptedUnknownRisk = true) : db.Retrying := by
  have hEach : ∀ {P : RetryRow → Prop}, (∀ other ∈ rows, P other) → P row → ∀ other ∈ db.retries, P other := by
    intro P hOld hNew other hMem
    rw [hRows] at hMem
    rcases List.mem_append.mp hMem with hOther | hLast
    · exact hOld other hOther
    · exact List.mem_singleton.mp hLast ▸ hNew
  -- The new row is of another run than any source.
  have hInherited : ∀ other ∈ db.retries, ∀ sessionId,
      frozenRequest db other.sourceRunId sessionId = frozenRequest { db with retries := rows } other.sourceRunId sessionId := by
    intro other hMem sessionId
    have hSkip : (row.runId == other.sourceRunId && row.sessionId == sessionId) = false := by
      simp [hOther other hMem]
    rw [frozenRequest, frozenRequest, inherited, inherited, hRows, List.find?_append, List.find?_singleton, hSkip]
    simp [callOf]
  constructor
  · rw [hRows]
    refine h.sources.snoc fun hMem => ?_
    obtain ⟨other, hMem, hSame⟩ := List.mem_map.mp hMem
    exact hSources other hMem hSame
  · rw [hRows]
    refine h.runs.snoc fun hMem => ?_
    obtain ⟨other, hMem, hSame⟩ := List.mem_map.mp hMem
    exact hTargets other hMem hSame
  · exact hEach h.source hSource
  · exact hEach h.run hRun
  · exact hEach h.session hSession
  · rw [hRows]
    refine List.pairwise_append.mpr ⟨h.order, List.pairwise_singleton _ _, fun first hFirst second hSecond => ?_⟩
    obtain rfl := List.mem_singleton.mp hSecond
    exact hOther first (hRows ▸ List.mem_append_left _ hFirst)
  · exact hEach h.other (hOther row (hRows ▸ List.mem_append_right _ (List.mem_singleton_self _)))
  · intro other hMem
    rw [hInherited other hMem]
    exact hEach (P := fun other => other.frozenRequestJson = frozenRequest { db with retries := rows } other.sourceRunId other.sessionId)
      h.frozen hFrozen other hMem
  · exact hEach h.sent fun call hCall hOwn => absurd hOwn (hUnsent call hCall)
  · exact hEach h.risk hRisk

/-- The retry of a blocked run. -/
theorem Database.Retrying.retried (h : db.Retrying) {resources : Resources} {t t' : Thread} {row : RetryRow}
    (hCommit : Commit db db' resources t t') (hPrecedes : db.Precedes db')
    (hRuns : ∀ run ∈ db.runs, ∃ run' ∈ db'.runs, run'.id = run.id ∧ run'.sessionId = run.sessionId)
    (hCalled : ∀ call ∈ db.calls, ∃ run ∈ db.runs, run.id = call.runId) (hRows : db'.retries = db.retries ++ [row])
    (hOf : row.Of db t t') : db'.Retrying := by
  have hTakes := hCommit.takes
  have hKept : Database.Retrying { db' with retries := db.retries } :=
    h.kept ⟨hPrecedes.sessions, hPrecedes.runs, hPrecedes.jobs, hPrecedes.slots,
      hPrecedes.leases, hPrecedes.artifacts⟩ rfl hCommit.calls hRuns
  obtain ⟨hCurrent, hCurrentSession⟩ := hTakes.shows.run_mem t.current_mem
  have hBlocked : t.current.run.status = .blocked := by
    rcases hTakes.valid.run_status with hSame | ⟨hCancelled, -⟩
    · exact hSame.trans hOf.blocked
    · rw [hOf.blocked] at hCancelled
      cases hCancelled
  have hFresh : ∀ run ∈ db.runs, row.runId ≠ run.id := fun run hRun hSame => hOf.fresh (hSame ▸ List.mem_map_of_mem hRun)
  refine hKept.added hRows hOf.newSource hOf.newRun ?_ ?_ ?_ ?_ ?_ ?_ ?_
  · intro other hMem
    rw [hRows] at hMem
    rcases List.mem_append.mp hMem with hOld | hLast
    · obtain ⟨run, hRun, hId, -⟩ := h.source other hOld
      rw [← hId]
      exact hFresh run hRun
    · rw [List.mem_singleton.mp hLast, hOf.source]
      exact hFresh _ hCurrent
  · refine ⟨t.current.run, hPrecedes.runs _ hCurrent ?_ ?_, hOf.source.symm, hCurrentSession.trans hOf.session.symm, hBlocked⟩
    · simp [hBlocked]
    · simp [hBlocked]
  · obtain ⟨hLast, hLastSession⟩ := hTakes.next.run_mem t'.current_mem
    exact ⟨t'.current.run, hLast, hOf.run.symm, hLastSession.trans (hTakes.id.trans hOf.session.symm)⟩
  · obtain ⟨own, hOwn, hSession⟩ := hTakes.shows.session_row
    obtain ⟨next, hNext, hSucceeds⟩ := hPrecedes.sessions own hOwn
    refine ⟨next, hNext, ?_, ?_⟩
    · exact hSucceeds.follows.id.trans ((congrArg Session.id hSession).trans hOf.session.symm)
    · rw [hOf.organization, hSucceeds.follows.actor, hSession]
  · have hCalls : ({ db' with retries := db.retries } : Database).calls = db.calls := hCommit.calls
    rw [hOf.frozen, frozenRequest_congr hCalls rfl]
  · intro call hCall hSame
    obtain ⟨run, hRun, hId⟩ := hCalled call (hCommit.calls ▸ hCall)
    exact hFresh run hRun (hSame.symm.trans hId.symm)
  · rw [callOf, hCommit.calls]
    exact hOf.risk

/-- The calls of the runs that were retried stay. -/
theorem Database.Retrying.called (h : db.Retrying) {calls : List ModelCall}
    (hKept : ∀ row ∈ db.retries, lookup (·.runId) calls row.sourceRunId = callOf db row.sourceRunId)
    (hSent : ∀ row ∈ db.retries, ∀ call ∈ calls, call.runId = row.runId → ∀ request ∈ row.frozenRequestJson,
      call.requestJson = request) :
    Database.Retrying { db with calls } := by
  refine ⟨h.sources, h.runs, h.source, h.run, h.session, h.order, h.other, fun row hRow => ?_, hSent, fun row hRow => ?_⟩
  · rw [h.frozen row hRow, frozenRequest, frozenRequest, callOf, callOf, hKept row hRow]
    rfl
  · rw [callOf, hKept row hRow]
    exact h.risk row hRow

/-- A retried run sends the request that it inherited. -/
theorem Database.Retrying.original (h : db.Retrying) (hSound : db.work.Sound db.clock) {claim : Claim} (hKnown : claim.Known db.work)
    (hOwns : Owns db claim) {own : SessionRow} (hOwn : db.row claim.session.id = some own) {row : RetryRow} (hRow : row ∈ db.retries)
    (hRun : row.runId = claim.runId) : Database.originalRequest db claim own.session = row.frozenRequestJson := by
  obtain ⟨t, job, hId, hShows, hValid, -, -, hRunId, -, -, hSession, -⟩ := hSound.of_owns hKnown hOwns
  rw [hOwn, Option.map_some, Option.some.injEq] at hSession
  obtain ⟨hCurrent, hCurrentSession⟩ := hShows.run_mem t.current_mem
  obtain ⟨run, hMem, hSame, hRowSession⟩ := h.run row hRow
  obtain rfl : run = t.current.run := hSound.tidy.runs.eq_of_key hMem hCurrent (hSame.trans (hRun.trans hRunId.symm))
  have hOwnSession : row.sessionId = own.session.id := hRowSession.symm.trans (hCurrentSession.trans (congrArg Session.id hSession).symm)
  obtain ⟨other, hOther, hOtherId, hOrganization⟩ := h.session row hRow
  have hOwnRow : other.session = own.session :=
    hSound.tidy.sessions.eq_of_key (List.mem_map_of_mem hOther) (List.mem_map_of_mem (lookup_some hOwn).1) (hOtherId.trans hOwnSession)
  rw [hOwnRow] at hOrganization
  unfold Database.originalRequest
  cases hFind : db.retries.find? fun row => row.runId == claim.runId && row.sessionId == own.session.id &&
      row.organizationId == organizationNumber own.session.actor.orgId with
  | none =>
      have hNone := List.find?_eq_none.mp hFind row hRow
      simp [hRun, hOwnSession, hOrganization] at hNone
  | some found =>
      have hFacts := List.find?_some hFind
      rw [Bool.and_eq_true, Bool.and_eq_true, beq_iff_eq] at hFacts
      rw [h.runs.eq_of_key (List.mem_of_find?_eq_some hFind) hRow (hFacts.1.1.trans hRun.symm)]
      rfl

theorem Database.Retrying.marked (h : db.Retrying) (hSound : db.work.Sound db.clock) {claim : Claim} (hKnown : claim.Known db.work)
    (hOwns : Owns db claim) {own : SessionRow} (hOwn : db.row claim.session.id = some own) {call : ModelCall} {requestJson : String}
    (hRunId : call.runId = claim.runId) (hRequest : call.requestJson = (Database.originalRequest db claim own.session).getD requestJson) :
    Database.Retrying { db with calls := db.calls ++ [call] } := by
  refine h.called (fun row hRow => ?_) fun row hRow other hOther hSame request hFrozen => ?_
  · have hOther : call.runId ≠ row.sourceRunId := fun hSame => h.not_owned hSound hKnown hOwns row hRow (hSame.symm.trans hRunId)
    rw [callOf, lookup, List.find?_append, List.find?_singleton, decide_eq_false hOther]
    simp [lookup]
  · rcases List.mem_append.mp hOther with hOld | hNew
    · exact h.sent row hRow other hOld hSame request hFrozen
    · obtain rfl := List.mem_singleton.mp hNew
      rw [hRequest, h.original hSound hKnown hOwns hOwn hRow (hSame.symm.trans hRunId), hFrozen]
      rfl

theorem Database.Retrying.recorded (h : db.Retrying) (hSound : db.work.Sound db.clock) {claim : Claim} (hKnown : claim.Known db.work)
    (hOwns : Owns db claim) (responseJson failureCode : Option String) (resultUnknown : Bool) : Database.Retrying { db with
      calls := db.calls.map (onKey (·.runId) claim.runId (·.answered responseJson failureCode resultUnknown)) } := by
  have hMarks := ModelCall.marks_answered claim.runId responseJson failureCode resultUnknown
  refine h.called (fun row hRow => ?_) fun row hRow other hOther hSame request hFrozen => ?_
  · rw [lookup_map fun call _ => (hMarks call).runId, callOf]
    cases hFound : lookup (·.runId) db.calls row.sourceRunId with
    | none => rfl
    | some call =>
        have hOther : call.runId ≠ claim.runId :=
          fun hSame => h.not_owned hSound hKnown hOwns row hRow ((lookup_some hFound).2.symm.trans hSame)
        exact congrArg some (onKey_other hOther)
  · obtain ⟨call, hCall, rfl⟩ := List.mem_map.mp hOther
    rw [(hMarks call).requestJson]
    exact h.sent row hRow call hCall ((hMarks call).runId.symm.trans hSame) request hFrozen

theorem Effect.retrying {system next : System} {given : Option Resources} (h : Effect system given next) (hOrdered : system.Ordered)
    (hDispatching : system.Dispatching) (hRetrying : system.db.Retrying) : next.db.Retrying := by
  have hPrecedes := h.precedes hOrdered
  have hRuns := fun run (hRun : run ∈ system.db.runs) => h.run hOrdered hRun
  have hSound := hOrdered.sound
  cases h with
  | same => exact hRetrying
  | waited => exact hRetrying.kept hPrecedes rfl rfl hRuns
  | opened hOpened => exact hRetrying.kept hPrecedes hOpened.retries hOpened.calls hRuns
  | asked hCommit _ hRetries =>
      rcases hRetries with hSame | ⟨row, hRows, hOf⟩
      · exact hRetrying.kept hPrecedes hSame hCommit.calls hRuns
      · exact hRetrying.retried hCommit hPrecedes hRuns hDispatching.runs hRows hOf
  | claimed _ hCommit _ _ hRetries => exact hRetrying.kept hPrecedes hRetries hCommit.calls hRuns
  | renewed _ _ _ _ _ hRows =>
      refine hRetrying.kept hPrecedes ?_ ?_ hRuns
      · rw [hRows]
      · rw [hRows]
  | marked hClaim hOwns hRow _ _ call hCall =>
      exact hRetrying.marked hSound (hOrdered.claims _ hClaim).known hOwns hRow (congrArg ModelCall.runId hCall)
        (congrArg ModelCall.requestJson hCall)
  | sent => exact hRetrying
  | recorded responseJson failureCode resultUnknown hClaim hOwns =>
      exact hRetrying.recorded hSound (hOrdered.claims _ hClaim).known hOwns responseJson failureCode resultUnknown
  | finished _ _ _ hCommit _ _ _ hRetries => exact hRetrying.kept hPrecedes hRetries hCommit.calls hRuns

/-! Lines of retries. -/

/-- The run was made by the retry of the source. -/
def Database.RetriedAs (db : Database) (source run : String) : Prop :=
  ∃ row ∈ db.retries, row.sourceRunId = source ∧ row.runId = run

/-- A retry is never the source of an earlier one. -/
theorem Database.Retrying.apart (h : db.Retrying) {i j : Nat} {first second : RetryRow} (hFirst : db.retries[i]? = some first)
    (hSecond : db.retries[j]? = some second) (hLe : i ≤ j) : second.runId ≠ first.sourceRunId := by
  obtain ⟨hLeft, rfl⟩ := List.getElem?_eq_some_iff.mp hFirst
  obtain ⟨hRight, rfl⟩ := List.getElem?_eq_some_iff.mp hSecond
  rcases Nat.lt_or_eq_of_le hLe with hLess | rfl
  · exact List.pairwise_iff_getElem.mp h.order i j hLeft hRight hLess
  · exact h.other _ (List.getElem_mem hLeft)

theorem Database.Retrying.acyclic (h : db.Retrying) (run : String) : ¬ Relation.TransGen db.RetriedAs run run := by
  have hPlaces : ∀ {first last : String}, Relation.TransGen db.RetriedAs first last → ∃ (i j : Nat) (row row' : RetryRow),
      db.retries[i]? = some row ∧ db.retries[j]? = some row' ∧ row.sourceRunId = first ∧ row'.runId = last ∧ i ≤ j := by
    intro first last hLine
    induction hLine with
    | single hRetry =>
        obtain ⟨row, hRow, hSource, hRun⟩ := hRetry
        obtain ⟨i, hPlace⟩ := List.mem_iff_getElem?.mp hRow
        exact ⟨i, i, row, row, hPlace, hPlace, hSource, hRun, Nat.le_refl i⟩
    | tail _ hRetry ih =>
        obtain ⟨i, j, row, row', hFirst, hSecond, hSource, hRun, hLe⟩ := ih
        obtain ⟨last, hLast, hLastSource, hLastRun⟩ := hRetry
        obtain ⟨k, hPlace⟩ := List.mem_iff_getElem?.mp hLast
        have hLater : j ≤ k := by
          by_contra hEarlier
          exact h.apart hPlace hSecond (Nat.le_of_not_le hEarlier) (hRun.trans hLastSource.symm)
        exact ⟨i, k, row, last, hFirst, hPlace, hSource, hLastRun, Nat.le_trans hLe hLater⟩
  intro hLine
  obtain ⟨i, j, row, row', hFirst, hSecond, hSource, hRun, hLe⟩ := hPlaces hLine
  exact h.apart hFirst hSecond hLe (hRun.trans hSource.symm)

/-- A retry passes the request on. -/
theorem Database.Retrying.carries (h : db.Retrying) (hRuns : UniqueOn (·.id) db.runs) {request first last : String}
    (hLine : Relation.ReflTransGen db.RetriedAs first last)
    (hFirst : ∀ run ∈ db.runs, run.id = first → frozenRequest db first run.sessionId = some request) :
    ∀ run ∈ db.runs, run.id = last → frozenRequest db last run.sessionId = some request := by
  induction hLine with
  | refl => exact hFirst
  | tail _ hRetry ih =>
      obtain ⟨row, hRow, rfl, rfl⟩ := hRetry
      intro run hRun hId
      obtain ⟨source, hSource, hSourceId, hSourceSession, -⟩ := h.source row hRow
      obtain ⟨own, hOwn, hOwnId, hOwnSession⟩ := h.run row hRow
      obtain rfl : run = own := hRuns.eq_of_key hRun hOwn (hId.trans hOwnId.symm)
      have hFrozen := ih source hSource hSourceId
      rw [hSourceSession, ← h.frozen row hRow] at hFrozen
      rw [hOwnSession, frozenRequest]
      cases hCall : callOf db row.runId with
      | some call =>
          obtain ⟨hMem, hSame⟩ := lookup_some hCall
          exact congrArg some (h.sent row hRow call hMem hSame request hFrozen)
      | none =>
          change inherited db row.runId row.sessionId = some request
          unfold inherited
          cases hFind : db.retries.find? fun other => other.runId == row.runId && other.sessionId == row.sessionId with
          | none =>
              have hNone := List.find?_eq_none.mp hFind row hRow
              simp at hNone
          | some found =>
              have hFacts := List.find?_some hFind
              rw [Bool.and_eq_true, beq_iff_eq] at hFacts
              rw [h.runs.eq_of_key (List.mem_of_find?_eq_some hFind) hRow hFacts.1]
              exact hFrozen

/-- The lines of retries: each run is retried once at most, and the calls of a line send one request. -/
structure Database.Retried (db : Database) : Prop where
  retrying : db.Retrying
  acyclic : ∀ run, ¬ Relation.TransGen db.RetriedAs run run
  request : ∀ first last, Relation.ReflTransGen db.RetriedAs first last → ∀ call ∈ db.calls, call.runId = first →
    ∀ later ∈ db.calls, later.runId = last → later.requestJson = call.requestJson

theorem Database.Retrying.retried_lines (h : db.Retrying) (hRuns : UniqueOn (·.id) db.runs) (hCalls : UniqueOn (·.runId) db.calls)
    (hCalled : ∀ call ∈ db.calls, ∃ run ∈ db.runs, run.id = call.runId) : db.Retried := by
  refine ⟨h, h.acyclic, ?_⟩
  rintro first last hLine call hCall rfl later hLater rfl
  have hRequest : ∀ own ∈ db.calls, ∀ sessionId, frozenRequest db own.runId sessionId = some own.requestJson := by
    intro own hOwn sessionId
    rw [frozenRequest, callOf, hCalls.lookup_iff.mpr ⟨hOwn, rfl⟩]
  obtain ⟨run, hRun, hId⟩ := hCalled later hLater
  have hCarried := h.carries hRuns hLine (fun run _ _ => hRequest call hCall run.sessionId) run hRun hId
  exact Option.some.inj ((hRequest later hLater run.sessionId).symm.trans hCarried)

end Retries

/-- In every run, retries form lines without branches and without cycles, and all calls of a line send its first request. -/
theorem run_retried (library : Library) (setting : Setting) (clock : Nat) (operations : List Operation) :
    ((System.initial setting clock).run library operations).db.Retried := by
  have hNone : ∀ {P : RetryRow → Prop}, ∀ row ∈ (System.initial setting clock).db.retries, P row :=
    fun _ hMem => absurd hMem List.not_mem_nil
  have hStart : (System.initial setting clock).db.Retrying :=
    ⟨uniqueOn_nil _, uniqueOn_nil _, hNone, hNone, hNone, List.Pairwise.nil, hNone, hNone, hNone, hNone⟩
  obtain ⟨hOrdered, hDispatching, hRetrying⟩ := (initial_ordered setting clock).run library
    (P := fun system => system.Dispatching ∧ system.db.Retrying) ⟨initial_dispatching setting clock, hStart⟩
    (fun hOrdered hFacts hEffect => ⟨hEffect.dispatching hOrdered hFacts.1, hEffect.retrying hOrdered hFacts.1 hFacts.2⟩) operations
  exact hRetrying.retried_lines hOrdered.sound.tidy.runs hDispatching.calls hDispatching.runs

end Interpretation

end QsAi
