import QsAi.Interpretation.Service

/-! Idempotency keys. Only a reservation and a receipt touch the rows of the
keys, so a committed request has exactly one row, with its receipt. -/
namespace QsAi

namespace Interpretation

open Keyed Interrupted

/-! A value or a refusal, without an effect. -/

section

variable {σ α : Type} {inv : σ → Prop}

theorem lift_holds (value : Except Refusal α) :
    Holds inv (fun _ => True) (lift value : Program σ α) fun _ _ => True := by
  cases value with
  | ok value => exact holds_pure fun _ _ => trivial
  | error refusal => exact holds_throw refusal

theorem demand_holds (value : Option α) (refusal : Refusal) :
    Holds inv (fun _ => True) (demand value refusal : Program σ α) fun _ _ => True := by
  cases value with
  | none => exact holds_throw refusal
  | some value => exact holds_pure fun _ _ => trivial

theorem refuseUnless_holds (condition : Prop) [Decidable condition] (refusal : Refusal) :
    Holds inv (fun _ => True) (refuseUnless condition refusal : Program σ Unit) fun _ _ => True :=
  Holds.ite (fun _ => holds_pure fun _ _ => trivial) fun _ => holds_throw refusal

end

/-- A program does not touch the rows of the keys. -/
abbrev Keeps {α : Type} (rows : List IdempotencyRow) (program : Program Database α) : Prop :=
  Holds (fun db : Database => db.idempotency = rows) (fun _ => True) program fun _ _ => True

section

variable {rows : List IdempotencyRow} {α β : Type}

theorem keeps_pure (value : α) : Keeps rows (pure value) := holds_pure fun _ _ => trivial

theorem keeps_throw (refusal : Refusal) : Keeps rows (throw refusal : Program Database α) := holds_throw refusal

theorem Keeps.bind {first : Program Database α} {next : α → Program Database β} (hFirst : Keeps rows first)
    (hNext : ∀ value, Keeps rows (next value)) : Keeps rows (first >>= next) := Holds.bind hFirst hNext

theorem keeps_get {next : Database → Program Database β}
    (hNext : ∀ db : Database, db.idempotency = rows → Keeps rows (next db)) : Keeps rows (get >>= next) :=
  fun db hRows hTrue => hNext db hRows db hRows hTrue

theorem keeps_set {next : Database} (hNext : next.idempotency = rows) : Keeps rows (set next : Program Database PUnit) :=
  holds_set fun _ _ _ => ⟨hNext, trivial⟩

theorem keeps_modify {f : Database → Database} (h : ∀ db, (f db).idempotency = db.idempotency) :
    Keeps rows (modify f : Program Database PUnit) :=
  holds_modify (fun db hRows _ => (h db).trans hRows) fun _ _ _ => trivial

theorem keeps_ite {condition : Prop} [Decidable condition] {first other : Program Database α} (hFirst : Keeps rows first)
    (hOther : Keeps rows other) : Keeps rows (if condition then first else other) :=
  Holds.ite (fun _ => hFirst) fun _ => hOther

theorem lift_keeps (value : Except Refusal α) : Keeps rows (lift value : Program Database α) := lift_holds value

theorem demand_keeps (value : Option α) (refusal : Refusal) : Keeps rows (demand value refusal : Program Database α) :=
  demand_holds value refusal

theorem refuseUnless_keeps (condition : Prop) [Decidable condition] (refusal : Refusal) :
    Keeps rows (refuseUnless condition refusal : Program Database Unit) := refuseUnless_holds condition refusal

/-! The unit of work. -/

theorem session_keeps (sessionId : String) : Keeps rows (Database.session sessionId) :=
  keeps_get fun _ _ => (demand_keeps _ _).bind fun _ => keeps_pure _

theorem bindRequest_keeps (sessionId requestId : String) : Keeps rows (Database.bindRequest sessionId requestId) :=
  keeps_get fun _ hRows => (demand_keeps _ _).bind fun _ => (refuseUnless_keeps _ _).bind fun _ =>
    (refuseUnless_keeps _ _).bind fun _ => keeps_set hRows

theorem bindConfiguration_keeps (expected : Option PlannedConfiguration) (session : Session) (evidence : EvidenceSet) :
    Keeps rows (Database.bindConfiguration expected session evidence) :=
  keeps_get fun _ hRows => (lift_keeps _).bind fun _ => (refuseUnless_keeps _ _).bind fun _ =>
    (lift_keeps _).bind fun _ => keeps_set hRows

theorem add_keeps (session : Session) : Keeps rows (Database.add session) :=
  keeps_get fun _ hRows => (lift_keeps _).bind fun _ => keeps_set hRows

theorem addEvidence_keeps (evidence : EvidenceSet) : Keeps rows (Database.addEvidence evidence) :=
  keeps_get fun _ hRows => (refuseUnless_keeps _ _).bind fun _ => (lift_keeps _).bind fun _ => keeps_set hRows

theorem stageState_keeps (eventId : String) (session : Session) : Keeps rows (Database.stageState eventId session) := by
  refine keeps_get fun db hRows => ?_
  cases (db.row session.id).bind (·.requestId) with
  | none => exact keeps_pure _
  | some requestId =>
      exact (lift_keeps _).bind fun _ => keeps_ite (keeps_pure _) (keeps_set hRows)

theorem save_keeps (eventId : String) (session : Session) : Keeps rows (Database.save eventId session) := by
  refine Keeps.bind ?_ fun _ => stageState_keeps eventId session
  exact keeps_modify fun _ => rfl

theorem question_keeps (questionId : String) : Keeps rows (Database.question questionId) :=
  keeps_get fun _ _ => demand_keeps _ _

theorem answer_keeps (question : Question) (actor : Actor) (answer : Option String) (skip : Bool) :
    Keeps rows (Database.answer question actor answer skip) := keeps_modify fun _ => rfl

theorem reserveCapacity_keeps (resources : Resources) (session : Session) :
    Keeps rows (Database.reserveCapacity resources session) := by
  refine keeps_get fun db hRows => (lift_keeps _).bind fun row => ?_
  cases row with
  | none => exact keeps_pure _
  | some row => exact keeps_set hRows

theorem enqueue_keeps (resources : Resources) (session : Session) (answer : Option String) (skip : Bool)
    (questionId : Option String) : Keeps rows (Database.enqueue resources session answer skip questionId) := by
  have hRest : Keeps rows (Database.enqueueRun resources session answer skip questionId) :=
    keeps_get fun _ hRows => (demand_keeps _ _).bind fun _ => (lift_keeps _).bind fun _ =>
      (lift_keeps _).bind fun _ => keeps_set hRows
  exact Keeps.bind (keeps_ite (reserveCapacity_keeps resources session) (keeps_pure _)) fun _ => hRest

theorem rejectRun_keeps (session : Session) : Keeps rows (Database.rejectRun session) := by
  refine Keeps.bind (refuseUnless_keeps _ _) fun _ => ?_
  exact keeps_get fun _ hRows => (demand_keeps _ _).bind fun _ => (lift_keeps _).bind fun _ => keeps_set hRows

theorem cancelJobs_keeps (resources : Resources) (session : Session) :
    Keeps rows (Database.cancelJobs resources session) := by
  refine Keeps.bind ?_ fun _ => keeps_ite ?_ (keeps_pure _)
  · exact keeps_modify fun _ => rfl
  · exact keeps_modify fun _ => rfl

/-! The commands, up to their receipt. -/

theorem refusable_keeps {program : Program Database Unit} (h : Keeps rows program) : Keeps rows (refusable program) := by
  refine Holds.tryCatch (h.bind fun _ => keeps_pure _) ?_
  rintro (code | code | _ | _ | _ | _ | reason)
  all_goals first
    | exact keeps_throw _
    | exact keeps_pure _

theorem enqueueFirst_keeps (resources : Resources) (session : Session) :
    Keeps rows (enqueueFirst (mysqlUnitOfWork resources) session) := by
  refine Holds.tryCatch (enqueue_keeps resources session none false none) ?_
  intro refusal
  split
  · exact keeps_throw _
  · exact keeps_throw _

theorem admit_keeps (library : Library) (resources : Resources) (evidenceId : String) (session : Session)
    (command : StartCommand) : Keeps rows (admitSession library (mysqlUnitOfWork resources) evidenceId session command) := by
  unfold admitSession
  cases validateEvidence command.evidence command.testeeId command.assessmentIds with
  | error refusal => exact keeps_pure _
  | ok _ =>
      refine Keeps.bind (addEvidence_keeps _) fun _ => (refusable_keeps ?_).bind fun _ => keeps_pure _
      exact (bindConfiguration_keeps _ _ _).bind fun _ => enqueueFirst_keeps resources _

theorem settleAdmission_keeps (resources : Resources) (session : Session) (refused : Option String) :
    Keeps rows (settleAdmission (mysqlUnitOfWork resources) session refused) := by
  cases refused with
  | none => exact keeps_pure _
  | some code =>
      exact (lift_keeps _).bind fun _ => (lift_keeps _).bind fun _ => (rejectRun_keeps _).bind fun _ => keeps_pure _

theorem recordAnswer_keeps (resources : Resources) (session : Session) (actor : Actor) (command : AnswerCommand) :
    Keeps rows (recordAnswer (mysqlUnitOfWork resources) session actor command) := by
  refine Keeps.bind (refuseUnless_keeps _ _) fun _ => Keeps.bind (refuseUnless_keeps _ _) fun _ => ?_
  refine Keeps.bind (question_keeps _) fun question => Keeps.bind (refuseUnless_keeps _ _) fun _ => ?_
  exact Keeps.bind (refuseUnless_keeps _ _) fun _ => answer_keeps _ _ _ _

theorem changeSession_keeps (resources : Resources) (runId : String) (session : Session) (actor : Actor)
    (command : ChangeCommand) : Keeps rows (changeSession (mysqlUnitOfWork resources) runId session actor command) := by
  cases command with
  | cancel version =>
      exact (lift_keeps _).bind fun next => Keeps.bind (cancelJobs_keeps resources next) fun _ => keeps_pure _
  | answer command =>
      refine (recordAnswer_keeps resources session actor command).bind fun _ => (lift_keeps _).bind fun next => ?_
      exact Keeps.bind (enqueue_keeps resources next _ _ _) fun _ => keeps_pure _

/-! A receipt is written to the row of its key. -/

/-- The rows after a receipt. -/
def answered (rows : List IdempotencyRow) (scope key : String) (receipt : Receipt) : List IdempotencyRow :=
  rows.map fun row => if row.identity = (scope, key) then { row with response := some receipt } else row

/-- A program touches only the row of its key: it writes its receipt there. -/
abbrev Answers (rows : List IdempotencyRow) (scope key : String) (program : Program Database Receipt) : Prop :=
  Holds (fun _ => True) (fun db : Database => db.idempotency = rows) program fun receipt db =>
    db.idempotency = answered rows scope key receipt

theorem Keeps.answers {scope key : String} {first : Program Database α} {next : α → Program Database Receipt}
    (h : Keeps rows first) (hNext : ∀ value, Answers rows scope key (next value)) : Answers rows scope key (first >>= next) :=
  Holds.bind h.relax hNext

theorem receipt_answers (scope key : String) (receipt : Receipt) :
    Answers rows scope key (do Database.receipt scope key receipt; pure receipt) := by
  refine Holds.bind (show Holds _ _ _ fun _ db => db.idempotency = answered rows scope key receipt from ?_) fun _ =>
    holds_pure ?_
  · refine holds_modify (fun _ _ _ => trivial) ?_
    rintro db - rfl
    rfl
  · exact fun _ hRows => hRows

theorem applyChange_answers (resources : Resources) (runId : String) (actor : Actor) (sessionId : String)
    (command : ChangeCommand) (scope key : String) :
    Answers rows scope key (applyChange (mysqlUnitOfWork resources) runId actor sessionId command scope key) := by
  refine Keeps.answers (session_keeps sessionId) fun session => Keeps.answers (refuseUnless_keeps _ _) fun _ => ?_
  refine (changeSession_keeps resources runId session actor command).answers fun next => ?_
  exact Keeps.answers (save_keeps _ next) fun _ => receipt_answers scope key next.receipt

theorem applyStart_answers (library : Library) (resources : Resources) (identity : IdentityRole → String)
    (command : StartCommand) (scope : String) :
    Answers rows scope command.requestId (applyStart library (mysqlUnitOfWork resources) identity command scope) := by
  refine Keeps.answers (lift_keeps _) fun session => Keeps.answers (add_keeps session) fun _ => ?_
  refine Keeps.answers (bindRequest_keeps _ _) fun _ => (admit_keeps library resources _ _ command).answers fun admitted => ?_
  refine (settleAdmission_keeps resources admitted.1 admitted.2).answers fun next => ?_
  exact Keeps.answers (save_keeps _ next) fun _ => receipt_answers scope command.requestId next.receipt

theorem recordRetry_keeps (row : RetryRow) : Keeps rows (recordRetry row) := by
  refine keeps_get fun db hRows => Keeps.bind ?_ fun _ => keeps_set hRows
  apply refuseUnless_keeps

theorem applyRetry_answers (library : Library) (resources : Resources) (newRun : String) (command : ParticipantRetry)
    (scope : String) : Answers rows scope command.commandId (applyRetry library resources newRun command scope) := by
  refine Keeps.answers (session_keeps _) fun session => Keeps.answers (refuseUnless_keeps _ _) fun _ => ?_
  refine Keeps.answers (refuseUnless_keeps _ _) fun _ => ?_
  refine Holds.bind (holds_get.post fun _ _ hState => hState.2) fun db => Keeps.answers (lift_keeps _) fun checked => ?_
  refine Keeps.answers (lift_keeps _) fun next => Keeps.answers (enqueue_keeps resources next _ _ _) fun _ => ?_
  refine Keeps.answers (save_keeps _ next) fun _ => Keeps.answers (recordRetry_keeps _) fun _ => ?_
  exact receipt_answers scope command.commandId next.receipt

end

/-! A reservation, then the earlier receipt or the command. -/

def replaying (scope key requestHash : String) (apply : Program Database Receipt) : Program Database Receipt := do
  let previous ← Database.reserve scope key requestHash
  match previous with
  | some receipt => pure receipt
  | none => apply

theorem get_run (db : Database) : (get : Program Database Database) db = .ok db db := rfl

/-- A used key answers with its receipt or refuses, and changes nothing. -/
theorem replaying_used {db : Database} {scope key requestHash : String} {apply : Program Database Receipt}
    {row : IdempotencyRow} {receipt : Receipt} (hRow : lookup IdempotencyRow.identity db.idempotency (scope, key) = some row)
    (hResponse : row.response = some receipt) :
    transact (replaying scope key requestHash apply) db =
      (if row.requestHash = requestHash then .ok receipt else .error (.rule "idempotency_conflict"), db) := by
  have hReserve : (Database.reserve scope key requestHash).run db =
      if row.requestHash = requestHash then .ok (some receipt) db else .error (.rule "idempotency_conflict") db := by
    simp only [Database.reserve, EStateM.run, bind, EStateM.bind, get_run, hRow,
      refuseUnless]
    by_cases hHash : row.requestHash = requestHash
    · simp [hHash, pure, EStateM.pure, hResponse]
    · simp only [hHash, if_false]
      rfl
  unfold transact replaying
  simp only [EStateM.run, bind, EStateM.bind] at hReserve ⊢
  rw [hReserve]
  split_ifs
  · rfl
  · rfl

/-- An unused key gets a row with the receipt of its command. -/
theorem replaying_unused {db : Database} {scope key requestHash : String} {apply : Program Database Receipt}
    (hRow : lookup IdempotencyRow.identity db.idempotency (scope, key) = none)
    (hApply : ∀ rows, Answers rows scope key apply) {receipt : Receipt} {next : Database}
    (hRun : transact (replaying scope key requestHash apply) db = (.ok receipt, next)) :
    next.idempotency = db.idempotency ++ [⟨scope, key, requestHash, some receipt⟩] := by
  have hReserve : (Database.reserve scope key requestHash).run db =
      .ok none { db with idempotency := db.idempotency ++ [⟨scope, key, requestHash, none⟩] } := by
    simp only [Database.reserve, EStateM.run, bind, EStateM.bind, get_run, hRow]
    rfl
  unfold transact replaying at hRun
  simp only [EStateM.run, bind, EStateM.bind] at hReserve hRun
  rw [hReserve] at hRun
  have hAnswer := hApply _ { db with idempotency := db.idempotency ++ [⟨scope, key, requestHash, none⟩] } trivial rfl
  cases hResult : apply { db with idempotency := db.idempotency ++ [⟨scope, key, requestHash, none⟩] } with
  | error refusal last =>
      simp only [hResult] at hRun
      cases congrArg Prod.fst hRun
  | ok value last =>
      simp only [EStateM.run, hResult] at hRun hAnswer
      obtain rfl : value = receipt := Except.ok.inj (congrArg Prod.fst hRun)
      obtain rfl : last = next := congrArg Prod.snd hRun
      rw [hAnswer.2, answered, List.map_append]
      congr 1
      · refine (List.map_congr_left fun row hMem => if_neg ?_).trans (List.map_id _)
        exact lookup_eq_none.mp hRow row hMem
      · simp [IdempotencyRow.identity]

theorem transact_error {α : Type} {program : Program Database α} {db next : Database} {refusal : Refusal}
    (h : transact program db = (.error refusal, next)) : next = db := by
  unfold transact at h
  split at h
  · cases congrArg Prod.fst h
  · exact (congrArg Prod.snd h).symm

end Interpretation

end QsAi
