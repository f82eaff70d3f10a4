import QsAi.Interpretation.Fences

/-! Calls of the model. A run has one marker, its request is sent at most once, and an
answer stays as it was recorded. -/
namespace QsAi

namespace Interpretation

open Keyed

section Calls

variable {system next : System} {given : Option Resources}

/-- The same marker, whatever its answer. -/
structure ModelCall.Marks (row call : ModelCall) : Prop where
  runId : row.runId = call.runId
  invocationId : row.invocationId = call.invocationId
  fenceToken : row.fenceToken = call.fenceToken
  requestJson : row.requestJson = call.requestJson

theorem ModelCall.Marks.refl (call : ModelCall) : call.Marks call :=
  ⟨rfl, rfl, rfl, rfl⟩

theorem ModelCall.Marks.trans {row call last : ModelCall} (h : row.Marks call) (h' : call.Marks last) : row.Marks last :=
  ⟨h.runId.trans h'.runId, h.invocationId.trans h'.invocationId, h.fenceToken.trans h'.fenceToken,
    h.requestJson.trans h'.requestJson⟩

/-- Writing an answer leaves each marker what it was. -/
theorem ModelCall.marks_answered (id : String) (responseJson failureCode : Option String) (resultUnknown : Bool) (row : ModelCall) :
    (onKey (·.runId) id (·.answered responseJson failureCode resultUnknown) row).Marks row := by
  unfold onKey
  split
  · exact ⟨rfl, rfl, rfl, rfl⟩
  · exact .refl row

/-- The permits and the sent requests are those of the markers, one for a run. -/
structure System.Dispatching (system : System) : Prop where
  calls : UniqueOn (·.runId) system.db.calls
  invocations : UniqueOn (·.invocationId) system.db.calls
  runs : ∀ call ∈ system.db.calls, ∃ run ∈ system.db.runs, run.id = call.runId
  marked : ∀ call ∈ system.permits ++ system.sent, ∃ row ∈ system.db.calls, row.Marks call
  once : UniqueOn (·.runId) (system.permits ++ system.sent)

/-- A run stays. -/
theorem Takes.run_kept {clock : Nat} {work work' : Work} {t t' : Thread} (h : Takes clock work work' t t') (hSound : work.Sound clock)
    {run : Run} (hRun : run ∈ work.runs) : ∃ run' ∈ work'.runs, run'.id = run.id ∧ run'.sessionId = run.sessionId := by
  by_cases hOwn : run.sessionId = t.id
  · obtain ⟨attempt, hAttempt, rfl⟩ := h.shows.attempt_of_run hRun hOwn
    obtain ⟨attempt', hAttempt', hId, -⟩ := h.step.keeps attempt hAttempt
    obtain ⟨hRun', hSession⟩ := h.next.run_mem hAttempt'
    exact ⟨attempt'.run, hRun', hId, hSession.trans (h.id.trans hOwn.symm)⟩
  · exact ⟨run, h.moves.run hSound hRun hOwn, rfl, rfl⟩

theorem Effect.run (h : Effect system given next) (hOrdered : system.Ordered) {run : Run} (hRun : run ∈ system.db.runs) :
    ∃ run' ∈ next.db.runs, run'.id = run.id ∧ run'.sessionId = run.sessionId := by
  have hSound := hOrdered.sound
  cases h with
  | same => exact ⟨run, hRun, rfl, rfl⟩
  | waited => exact ⟨run, hRun, rfl, rfl⟩
  | opened hOpened =>
      have hKept := hOpened.moves.run hSound hRun fun hSame => hOpened.new (hSame ▸ hSound.tidy.runOf run hRun)
      exact ⟨run, hKept, rfl, rfl⟩
  | asked hCommit => exact hCommit.takes.run_kept hSound hRun
  | claimed _ hCommit => exact hCommit.takes.run_kept hSound hRun
  | renewed _ _ _ _ hTakes => exact hTakes.run_kept hSound hRun
  | marked => exact ⟨run, hRun, rfl, rfl⟩
  | sent => exact ⟨run, hRun, rfl, rfl⟩
  | recorded => exact ⟨run, hRun, rfl, rfl⟩
  | finished _ _ _ hCommit => exact hCommit.takes.run_kept hSound hRun

/-- The run of a claim is there. -/
theorem Claim.Issued.run {clock : Nat} {work : Work} {claim : Claim} (h : claim.Issued work) (hSound : work.Sound clock) :
    ∃ run ∈ work.runs, run.id = claim.runId := by
  obtain ⟨job, hJob, -, hRun, -⟩ := h.known
  obtain ⟨t, attempt, hShows, hValid, -, hAttempt, hOwn⟩ := hSound.attempt_of_job hJob
  exact ⟨attempt.run, (hShows.run_mem hAttempt).1, (((hValid.linked attempt hAttempt).job job hOwn).1.symm.trans hRun)⟩

/-- Whatever leaves the calls keeps the dispatching. -/
theorem System.Dispatching.congr (h : system.Dispatching) (hCalls : next.db.calls = system.db.calls)
    (hRuns : ∀ run ∈ system.db.runs, ∃ run' ∈ next.db.runs, run'.id = run.id ∧ run'.sessionId = run.sessionId)
    (hPermits : next.permits = system.permits)    (hSent : next.sent = system.sent) : next.Dispatching := by
  constructor
  · rw [hCalls]
    exact h.calls
  · rw [hCalls]
    exact h.invocations
  · rw [hCalls]
    intro call hCall
    obtain ⟨run, hRun, hId⟩ := h.runs call hCall
    obtain ⟨run', hRun', hSame, -⟩ := hRuns run hRun
    exact ⟨run', hRun', hSame.trans hId⟩
  · rw [hCalls, hPermits, hSent]
    exact h.marked
  · rw [hPermits, hSent]
    exact h.once

theorem Effect.dispatching (h : Effect system given next) (hOrdered : system.Ordered) (hDispatching : system.Dispatching) :
    next.Dispatching := by
  have hRuns := fun run (hRun : run ∈ system.db.runs) => h.run hOrdered hRun
  cases h with
  | same => exact hDispatching
  | waited => exact hDispatching.congr rfl hRuns rfl rfl
  | opened hOpened => exact hDispatching.congr hOpened.calls hRuns rfl rfl
  | asked hCommit => exact hDispatching.congr hCommit.calls hRuns rfl rfl
  | claimed _ hCommit => exact hDispatching.congr hCommit.calls hRuns rfl rfl
  | renewed _ _ _ _ _ hRows =>
      refine hDispatching.congr ?_ hRuns rfl rfl
      rw [hRows]
  | finished _ _ _ hCommit => exact hDispatching.congr hCommit.calls hRuns rfl rfl
  | marked hClaim _ _ hNone hNew call hCall =>
      obtain ⟨hCalls, hInvocations, hKnown, hMarked, hOnce⟩ := hDispatching
      have hNewRun : call.runId ∉ system.db.calls.map (·.runId) := by
        intro hMem
        obtain ⟨row, hRow, hSame⟩ := List.mem_map.mp hMem
        exact lookup_eq_none.mp hNone row hRow (hSame.trans (congrArg ModelCall.runId hCall))
      have hNewInvocation : call.invocationId ∉ system.db.calls.map (·.invocationId) := by
        intro hMem
        obtain ⟨row, hRow, hSame⟩ := List.mem_map.mp hMem
        exact hNew row hRow (hSame.trans (congrArg ModelCall.invocationId hCall))
      have hPerm : (system.permits ++ system.sent ++ [call]).Perm (system.permits ++ [call] ++ system.sent) := by
        rw [List.append_assoc, List.append_assoc]
        exact List.perm_append_comm.append_left _
      refine ⟨hCalls.snoc hNewRun, hInvocations.snoc hNewInvocation, ?_, ?_, ?_⟩
      · intro row hRow
        rcases List.mem_append.mp hRow with hOld | hLast
        · exact hKnown row hOld
        · rw [List.mem_singleton.mp hLast, hCall]
          exact (hOrdered.claims _ hClaim).run hOrdered.sound
      · intro own hOwn
        rcases List.mem_append.mp (hPerm.symm.mem_iff.mp hOwn) with hOld | hLast
        · obtain ⟨row, hRow, hFacts⟩ := hMarked own hOld
          exact ⟨row, List.mem_append_left _ hRow, hFacts⟩
        · rw [List.mem_singleton.mp hLast]
          exact ⟨call, List.mem_append_right _ (List.mem_singleton_self _), .refl call⟩
      · refine (hOnce.snoc ?_).perm hPerm
        intro hMem
        obtain ⟨own, hOwn, hSame⟩ := List.mem_map.mp hMem
        obtain ⟨row, hRow, hMarks⟩ := hMarked own hOwn
        exact hNewRun (List.mem_map.mpr ⟨row, hRow, hMarks.runId.trans hSame⟩)
  | @sent before after call hPermits =>
      have hPerm : (system.permits ++ system.sent).Perm (before ++ after ++ (system.sent ++ [call])) := by
        rw [hPermits, List.append_assoc, List.append_assoc, List.cons_append, ← List.append_assoc after]
        exact (List.perm_append_singleton call (after ++ system.sent)).symm.append_left before
      exact { hDispatching with
        marked := fun own hOwn => hDispatching.marked own (hPerm.mem_iff.mpr hOwn)
        once := hDispatching.once.perm hPerm }
  | @recorded claim call responseJson failureCode resultUnknown =>
      obtain ⟨hCalls, hInvocations, hKnown, hMarked, hOnce⟩ := hDispatching
      have hMarks := ModelCall.marks_answered claim.runId responseJson failureCode resultUnknown
      refine ⟨hCalls.map_of fun row _ => (hMarks row).runId, hInvocations.map_of fun row _ => (hMarks row).invocationId,
        ?_, ?_, hOnce⟩
      · intro row hRow
        obtain ⟨old, hOld, rfl⟩ := List.mem_map.mp hRow
        rw [(hMarks old).runId]
        exact hKnown old hOld
      · intro own hOwn
        obtain ⟨row, hRow, hFacts⟩ := hMarked own hOwn
        exact ⟨_, List.mem_map_of_mem hRow, (hMarks row).trans hFacts⟩

/-! Answers stay. -/

/-- What a later system still has of the calls of an earlier one. -/
structure System.Answered (later system : System) : Prop where
  calls : ∀ call ∈ system.db.calls, ∃ row ∈ later.db.calls, row.Marks call ∧ (call.status ≠ .dispatched → row = call)
  sent : ∃ further, later.sent = system.sent ++ further

theorem System.Answered.refl (system : System) : system.Answered system :=
  ⟨fun call hCall => ⟨call, hCall, .refl call, fun _ => rfl⟩, [], (List.append_nil _).symm⟩

theorem System.Answered.trans {later : System} (h' : later.Answered next) (h : next.Answered system) : later.Answered system := by
  refine ⟨fun call hCall => ?_, ?_⟩
  · obtain ⟨row, hRow, hMarks, hKept⟩ := h.calls call hCall
    obtain ⟨last, hLast, hSame, hStays⟩ := h'.calls row hRow
    refine ⟨last, hLast, hSame.trans hMarks, fun hStatus => ?_⟩
    obtain rfl := hKept hStatus
    exact hStays hStatus
  · obtain ⟨given, hGiven⟩ := h.sent
    obtain ⟨further, hFurther⟩ := h'.sent
    exact ⟨given ++ further, by rw [hFurther, hGiven, List.append_assoc]⟩

theorem System.Answered.of_calls (hCalls : next.db.calls = system.db.calls) (hSent : next.sent = system.sent) :
    next.Answered system := by
  refine ⟨fun call hCall => ⟨call, ?_, .refl call, fun _ => rfl⟩, [], ?_⟩
  · rwa [hCalls]
  · rw [hSent, List.append_nil]

theorem Effect.answered (h : Effect system given next) (hDispatching : system.Dispatching) : next.Answered system := by
  cases h with
  | same => exact .refl _
  | waited => exact .of_calls rfl rfl
  | opened hOpened => exact .of_calls hOpened.calls rfl
  | asked hCommit => exact .of_calls hCommit.calls rfl
  | claimed _ hCommit => exact .of_calls hCommit.calls rfl
  | renewed _ _ _ _ _ hRows => exact .of_calls (by rw [hRows]) rfl
  | finished _ _ _ hCommit => exact .of_calls hCommit.calls rfl
  | marked =>
      refine ⟨fun call hCall => ?_, [], (List.append_nil _).symm⟩
      exact ⟨call, List.mem_append_left _ hCall, .refl call, fun _ => rfl⟩
  | sent call =>
      refine ⟨fun call hCall => ?_, [call], rfl⟩
      exact ⟨call, hCall, .refl call, fun _ => rfl⟩
  | @recorded claim marker responseJson failureCode resultUnknown _ _ hCall _ hStatus =>
      refine ⟨fun call hMem => ?_, [], (List.append_nil _).symm⟩
      refine ⟨_, List.mem_map_of_mem hMem, ModelCall.marks_answered _ _ _ _ call, fun hOver => ?_⟩
      -- Only the marker without an answer is written.
      refine onKey_other fun hRun => hOver ?_
      obtain ⟨hMarker, hOwn⟩ := lookup_some hCall
      rw [hDispatching.calls.eq_of_key hMem hMarker (hRun.trans hOwn.symm)]
      exact hStatus

end Calls

theorem initial_dispatching (setting : Setting) (clock : Nat) : (System.initial setting clock).Dispatching where
  calls := uniqueOn_nil _
  invocations := uniqueOn_nil _
  runs _ hMem := absurd hMem List.not_mem_nil
  marked _ hMem := absurd hMem List.not_mem_nil
  once := uniqueOn_nil _

/-- Only the creator's fence may record an answer. -/
theorem recordModelResponse_fenced {db : Database} {claim : Claim}
    (h : ∀ call ∈ db.calls, call.runId = claim.runId → call.fenceToken ≠ claim.fence) (invocationId : String)
    (responseJson failureCode : Option String) (resultUnknown : Bool) (commitAt : Nat) : ∃ refusal,
      transact (Database.recordModelResponse claim invocationId responseJson failureCode resultUnknown commitAt) db =
        (.error refusal, db) := by
  refine transact_refused fun value db' hDone => ?_
  obtain ⟨-, call, hCall, -, hFence, -⟩ := recordModelResponse_completes hDone
  obtain ⟨hMem, hRun⟩ := lookup_some hCall
  exact h call hMem hRun hFence

/-- The calls before and after some operations. -/
structure System.SendsOnce (later system : System) : Prop where
  dispatching : later.Dispatching
  answered : later.Answered system
  once : UniqueOn (·.runId) later.sent
  fenced : ∀ claim : Claim, (∀ call ∈ later.db.calls, call.runId = claim.runId → call.fenceToken ≠ claim.fence) →
    ∀ invocationId responseJson failureCode resultUnknown commitAt, ∃ refusal,
      transact (Database.recordModelResponse claim invocationId responseJson failureCode resultUnknown commitAt) later.db =
        (.error refusal, later.db)

/-- In every run, each run of a session has one marker, its request is sent at most once, an answer is
never changed, and only a claim with the marker's fence records one. -/
theorem run_sends_once (library : Library) (setting : Setting) (clock : Nat) (first rest : List Operation) :
    ((System.initial setting clock).run library (first ++ rest)).SendsOnce ((System.initial setting clock).run library first) := by
  obtain ⟨hOrdered, hDispatching⟩ := (initial_ordered setting clock).run library (P := System.Dispatching)
    (initial_dispatching setting clock) (fun hOrdered hDispatching hEffect => hEffect.dispatching hOrdered hDispatching) first
  rw [System.run_append]
  generalize (System.initial setting clock).run library first = system at hOrdered hDispatching
  obtain ⟨-, hLast, hAnswered⟩ := hOrdered.run library (P := fun later => later.Dispatching ∧ later.Answered system)
    ⟨hDispatching, .refl system⟩
    (fun hMiddle hFacts hEffect => ⟨hEffect.dispatching hMiddle hFacts.1, (hEffect.answered hFacts.1).trans hFacts.2⟩) rest
  exact ⟨hLast, hAnswered, hLast.once.sublist (List.sublist_append_right _ _), fun _ hOther => recordModelResponse_fenced hOther⟩

end Interpretation

end QsAi
