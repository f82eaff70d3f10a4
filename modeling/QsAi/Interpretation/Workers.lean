import QsAi.Interpretation.RequestCommits

/-! The system of requests and workers. Transactions come in any order, a worker may
stop at any point, and time passes between them. -/
namespace QsAi

namespace Interpretation

open Keyed Interrupted

/-- What is set from outside: quotas, publications and the check of requests. -/
structure Setting where
  quotas : String → QuotaBook
  publications : Session → EvidenceSet → Except PlanRefusal PlannedConfiguration
  validGeneration : Session → Option EvidenceSet → String → Bool

def Database.under (db : Database) (setting : Setting) (clock : Nat) : Database :=
  { db with quotas := setting.quotas, publications := setting.publications, validGeneration := setting.validGeneration, clock }

structure System where
  db : Database
  /-- The claims that workers were given. -/
  claims : List Claim := []
  /-- The calls that their creators may send. -/
  permits : List ModelCall := []
  /-- The calls that were sent. -/
  sent : List ModelCall := []

/-- A worker is known by the number of its claim, and a permit by its number. -/
inductive Operation
  | ask (request : Request) (supply : Supply)
  | claim (resources : Resources) (jobId sessionId : String) (ttlSeconds : Nat)
  | renew (worker ttlSeconds : Nat)
  | beginModelCall (worker : Nat) (requestJson invocationId : String) (commitAt : Nat)
  | generate (permit : Nat)
  | recordModelResponse (worker : Nat) (invocationId : String) (responseJson failureCode : Option String)
      (resultUnknown : Bool) (commitAt : Nat)
  | finish (worker : Nat) (library : ArtifactLibrary) (resources : Resources) (result : WorkflowResult) (questionId : String)
      (commitAt : Nat)
  | wait (clock : Nat) (setting : Setting)

namespace System

/-- No session is there yet. -/
def initial (setting : Setting) (clock : Nat) : System where
  db := { quotas := setting.quotas, publications := setting.publications, validGeneration := setting.validGeneration, clock }

def claim (system : System) (resources : Resources) (jobId sessionId : String) (ttlSeconds : Nat) : System :=
  match transact (Database.claimIn resources jobId sessionId ttlSeconds) system.db with
  | (.ok stage, db) => { system with db, claims := system.claims ++ stage.claim.toList }
  | (.error _, db) => { system with db }

/-- A transaction under the claim of a worker. -/
def work (system : System) (worker : Nat) (program : Claim → Program Database Unit) : System :=
  match system.claims[worker]? with
  | none => system
  | some claim => { system with db := (transact (program claim) system.db).2 }

/-- The creator of the marker may send the call. -/
def beginModelCall (system : System) (claim : Claim) (requestJson invocationId : String) (commitAt : Nat) : System :=
  match transact (Database.beginModelCall claim requestJson invocationId commitAt) system.db with
  | (.ok (call, created), db) => { system with db, permits := if created = true then system.permits ++ [call] else system.permits }
  | (.error _, db) => { system with db }

/-- A call is sent by its creator, once. -/
def generate (system : System) (permit : Nat) : System :=
  match system.permits[permit]? with
  | none => system
  | some call => { system with permits := system.permits.eraseIdx permit, sent := system.sent ++ [call] }

def step (library : Library) (system : System) : Operation → System
  | .ask request supply => { system with db := (transact (request.program library supply) system.db).2 }
  | .claim resources jobId sessionId ttlSeconds => system.claim resources jobId sessionId ttlSeconds
  | .renew worker ttlSeconds => system.work worker (Database.renew · ttlSeconds)
  | .beginModelCall worker requestJson invocationId commitAt =>
      match system.claims[worker]? with
      | none => system
      | some claim => system.beginModelCall claim requestJson invocationId commitAt
  | .generate permit => system.generate permit
  | .recordModelResponse worker invocationId responseJson failureCode resultUnknown commitAt =>
      system.work worker (Database.recordModelResponse · invocationId responseJson failureCode resultUnknown commitAt)
  | .finish worker library resources result questionId commitAt =>
      system.work worker (Database.finishIn library resources · result questionId commitAt)
  | .wait clock setting => { system with db := system.db.under setting (max system.db.clock clock) }

def run (library : Library) (system : System) (operations : List Operation) : System := operations.foldl (step library) system

end System

/-! What an operation does. -/

/-- A claim that a worker was given, with the session as it was and the fence that it has. -/
structure Claim.Issued (claim : Claim) (work : Work) : Prop where
  known : claim.Known work
  session : ∃ session, lookup Session.id work.sessions claim.session.id = some session ∧ claim.session.version ≤ session.version
  lease : ∃ lease, lookup (·.threadId) work.leases claim.session.id = some lease ∧ claim.fence ≤ lease.fence

/-- The sessions have their rows, and the claims are of sessions. -/
structure System.Ordered (system : System) : Prop where
  sound : system.db.work.Sound system.db.clock
  claims : ∀ claim ∈ system.claims, claim.Issued system.db.work

/-- The response or the failure of a call. -/
def ModelCall.answered (call : ModelCall) (responseJson failureCode : Option String) (resultUnknown : Bool) : ModelCall :=
  { call with status := Database.receivedStatus responseJson resultUnknown, responseJson, failureCode }

/-- The limits, the quotas and the identities that the transaction of an operation is given. -/
def Operation.resources : Operation → Option Resources
  | .ask _ supply => some supply.resources
  | .claim resources _ _ _ => some resources
  | .finish _ _ resources _ _ _ => some resources
  | _ => none

/-- The effect of one operation, with the resources that it was given. -/
inductive Effect (system : System) (given : Option Resources) : System → Prop
  | same : Effect system given system
  | waited (clock : Nat) (setting : Setting) (hClock : system.db.clock ≤ clock) :
      Effect system given { system with db := system.db.under setting clock }
  | opened {db : Database} {resources : Resources} {t : Thread} (hOpened : Opened system.db db resources t)
      (hGiven : given = some resources) :
      Effect system given { system with db }
  | asked {db : Database} {resources : Resources} {t t' : Thread} (hCommit : Commit system.db db resources t t')
      (hLater : t'.session.Asked t.session)
      (hRetries : db.retries = system.db.retries ∨ ∃ row, db.retries = system.db.retries ++ [row] ∧ row.Of system.db t t')
      (hGiven : given = some resources) :
      Effect system given { system with db }
  | claimed {db : Database} {resources : Resources} {t t' : Thread} (stage : ClaimStage)
      (hCommit : Commit system.db db resources t t') (hClaims : ∀ claim ∈ stage.claim, claim.Of t t')
      (hOpen : t'.session.status ≠ .completed) (hRetries : db.retries = system.db.retries)
      (hGiven : given = some resources) :
      Effect system given { system with db, claims := system.claims ++ stage.claim.toList }
  | renewed {db : Database} {t : Thread} {claim : Claim} {expiresAt : Nat} (hClaim : claim ∈ system.claims)
      (hOwns : Owns system.db claim) (hId : t.id = claim.session.id) (hStatus : t.session.status = .running)
      (hTakes : Takes system.db.clock system.db.work db.work t (t.edit (.renewed expiresAt)))
      (hRows : db = { system.db with leases := db.leases, jobs := db.jobs }) : Effect system given { system with db }
  | marked {claim : Claim} {row : SessionRow} {requestJson invocationId : String} (hClaim : claim ∈ system.claims)
      (hOwns : Owns system.db claim) (hRow : system.db.row claim.session.id = some row) (hNone : callOf system.db claim.runId = none)
      (hNew : ∀ other ∈ system.db.calls, other.invocationId ≠ invocationId) (call : ModelCall)
      (hCall : call = ⟨claim.runId, invocationId, claim.fence, .dispatched,
        (Database.originalRequest system.db claim row.session).getD requestJson, none, none⟩) :
      Effect system given { system with db := { system.db with calls := system.db.calls ++ [call] }, permits := system.permits ++ [call] }
  | sent {before after : List ModelCall} (call : ModelCall) (hPermits : system.permits = before ++ call :: after) :
      Effect system given { system with permits := before ++ after, sent := system.sent ++ [call] }
  | recorded {claim : Claim} {call : ModelCall} (responseJson failureCode : Option String) (resultUnknown : Bool)
      (hClaim : claim ∈ system.claims) (hOwns : Owns system.db claim) (hCall : callOf system.db claim.runId = some call)
      (hFence : call.fenceToken = claim.fence) (hStatus : call.status = .dispatched) :
      Effect system given { system with db := { system.db with
        calls := system.db.calls.map (onKey (·.runId) claim.runId (·.answered responseJson failureCode resultUnknown)) } }
  | finished {db : Database} {resources : Resources} {t t' : Thread} {claim : Claim} (hClaim : claim ∈ system.claims)
      (hOwns : Owns system.db claim) (hId : t.id = claim.session.id) (hCommit : Commit system.db db resources t t')
      (hFinished : t'.session.Finished t.session) (hRun : t.current.run.id = claim.runId)
      (hCompleted : t'.session.status = .completed →
        ∃ call, callOf system.db claim.runId = some call ∧ call.status = .responseReceived)
      (hRetries : db.retries = system.db.retries) (hGiven : given = some resources) : Effect system given { system with db }

section Effects

variable {library : Library} {system : System} {given : Option Resources}

theorem transact_cases {α : Type} (program : Program Database α) (db : Database) :
    (∃ refusal, transact program db = (.error refusal, db)) ∨
      ∃ value db', transact program db = (.ok value, db') ∧ Completes program db value db' := by
  cases hRun : program.run db with
  | error refusal next => exact .inl ⟨refusal, by rw [transact, hRun]⟩
  | ok value next =>
      have hTransact : transact program db = (.ok value, next) := by rw [transact, hRun]
      exact .inr ⟨value, next, hTransact, transact_ok.mp hTransact⟩

/-- A transaction that is refused leaves nothing. -/
theorem transact_after {α : Type} {program : Program Database α} {db : Database} {P : Database → Prop} (hSame : P db)
    (hCompletes : ∀ value db', Completes program db value db' → P db') : P (transact program db).2 := by
  rcases transact_cases program db with ⟨refusal, hTransact⟩ | ⟨value, db', hTransact, hDone⟩
  · rw [hTransact]
    exact hSame
  · rw [hTransact]
    exact hCompletes value db' hDone

theorem Effect.of_ask (hOrdered : system.Ordered) (request : Request) (supply : Supply) :
    Effect system (some supply.resources) { system with db := (transact (request.program library supply) system.db).2 } := by
  refine transact_after (P := fun db => Effect system (some supply.resources) { system with db }) .same fun receipt db' hDone => ?_
  cases request with
  | start command =>
      rcases start_commit hOrdered.sound hDone with rfl | ⟨t, hOpened, -⟩
      · exact .same
      · exact .opened hOpened rfl
  | change actor sessionId command key =>
      simp only [Request.program, completes_bind, completes_lift] at hDone
      obtain ⟨scope, _, ⟨-, rfl⟩, hChange⟩ := hDone
      rcases change_commit hOrdered.sound hChange with rfl | ⟨t, t', -, hCommit, hLater, hRetries⟩
      · exact .same
      · exact .asked hCommit hLater (.inl hRetries) rfl
  | retry command =>
      rcases retry_commit hOrdered.sound hDone with rfl | ⟨t, t', row, -, hCommit, hLater, hRetries, hRow⟩
      · exact .same
      · exact .asked hCommit hLater (.inr ⟨row, hRetries, hRow⟩) rfl

theorem Effect.of_claim (hOrdered : system.Ordered) (resources : Resources) (jobId sessionId : String) (ttlSeconds : Nat) :
    Effect system (some resources) (system.claim resources jobId sessionId ttlSeconds) := by
  unfold System.claim
  rcases transact_cases (Database.claimIn resources jobId sessionId ttlSeconds) system.db with
    ⟨refusal, hTransact⟩ | ⟨stage, db', hTransact, hDone⟩
  · rw [hTransact]
    exact .same
  · rw [hTransact]
    rcases claimIn_commit hOrdered.sound hDone with ⟨rfl, hNone⟩ | ⟨t, t', -, hCommit, hClaims, hOpen, hRetries⟩
    · simp only [hNone, Option.toList_none, List.append_nil]
      exact .same
    · exact .claimed stage hCommit hClaims hOpen hRetries rfl

/-- A worker's transaction is under a claim that was issued. -/
theorem Effect.of_work (worker : Nat) (program : Claim → Program Database Unit)
    (h : ∀ claim ∈ system.claims, ∀ value db', Completes (program claim) system.db value db' →
      Effect system given { system with db := db' }) :
    Effect system given (system.work worker program) := by
  unfold System.work
  cases hClaim : system.claims[worker]? with
  | none => exact .same
  | some claim =>
      exact transact_after (P := fun db => Effect system given { system with db }) .same
        (h claim (List.mem_of_getElem? hClaim))

theorem Effect.of_begin {claim : Claim} (hClaim : claim ∈ system.claims) (requestJson invocationId : String) (commitAt : Nat) :
    Effect system given (system.beginModelCall claim requestJson invocationId commitAt) := by
  unfold System.beginModelCall
  rcases transact_cases (Database.beginModelCall claim requestJson invocationId commitAt) system.db with
    ⟨refusal, hTransact⟩ | ⟨⟨call, created⟩, db', hTransact, hDone⟩
  · rw [hTransact]
    exact .same
  · rw [hTransact]
    obtain ⟨hOwns, ⟨rfl, rfl, -⟩ | ⟨row, hRow, rfl, hNone, hNew, hCall, rfl⟩⟩ := beginModelCall_completes hDone
    · exact .same
    · exact .marked hClaim hOwns hRow hNone hNew call hCall

theorem Effect.of_generate (permit : Nat) : Effect system given (system.generate permit) := by
  unfold System.generate
  cases hPermit : system.permits[permit]? with
  | none => exact .same
  | some call =>
      obtain ⟨hBound, hCall⟩ := List.getElem?_eq_some_iff.mp hPermit
      have hPermits : system.permits = system.permits.take permit ++ call :: system.permits.drop (permit + 1) := by
        rw [← hCall, ← List.drop_eq_getElem_cons hBound, List.take_append_drop]
      rw [List.eraseIdx_eq_take_drop_succ]
      exact .sent call hPermits

variable (library) in
/-- Every operation has an effect of these. -/
theorem Effect.of_step (hOrdered : system.Ordered) (operation : Operation) :
    Effect system operation.resources (system.step library operation) := by
  have hSound := hOrdered.sound
  cases operation with
  | ask request supply => exact .of_ask hOrdered request supply
  | claim resources jobId sessionId ttlSeconds => exact .of_claim hOrdered resources jobId sessionId ttlSeconds
  | renew worker ttlSeconds =>
      refine .of_work worker _ fun claim hClaim value db' hDone => ?_
      obtain ⟨hOwns, hRows, t, expiresAt, hId, hStatus, hTakes⟩ := renew_takes hSound (hOrdered.claims claim hClaim).known hDone
      exact .renewed hClaim hOwns hId hStatus hTakes hRows
  | beginModelCall worker requestJson invocationId commitAt =>
      simp only [System.step]
      cases hClaim : system.claims[worker]? with
      | none => exact .same
      | some claim => exact .of_begin (List.mem_of_getElem? hClaim) requestJson invocationId commitAt
  | generate permit => exact .of_generate permit
  | recordModelResponse worker invocationId responseJson failureCode resultUnknown commitAt =>
      refine .of_work worker _ fun claim hClaim value db' hDone => ?_
      obtain ⟨hOwns, call, hCall, -, hFence, hStatus, rfl⟩ := recordModelResponse_completes hDone
      exact .recorded responseJson failureCode resultUnknown hClaim hOwns hCall hFence hStatus
  | finish worker library resources result questionId commitAt =>
      refine .of_work worker _ fun claim hClaim value db' hDone => ?_
      obtain ⟨hOwns, hRetries, t, t', hId, hCommit, hFinished, hRun, hCompleted⟩ :=
        finishIn_commit hSound (hOrdered.claims claim hClaim).known hDone
      exact .finished hClaim hOwns hId hCommit hFinished hRun hCompleted hRetries rfl
  | wait clock setting => exact .waited _ setting (Nat.le_max_left _ _)

end Effects

/-! Claims stay on record. -/

section Claims

variable {clock : Nat} {work work' : Work} {t t' : Thread} {claim : Claim}

theorem Claim.Issued.other (h : claim.Issued work) (hSound : work.Sound clock) {id : String} (hMoves : Moves work work' id)
    (hOther : claim.session.id ≠ id) : claim.Issued work' := by
  obtain ⟨job, hJob, hJobId, hRun, hSession⟩ := h.known
  obtain ⟨u, hId, hShows⟩ := hSound.of_job hJob
  have hSame : u.id = claim.session.id := hId.trans hSession
  have hNext := hMoves.others u (by rwa [hSame]) hShows
  constructor
  · obtain ⟨attempt, hAttempt, hFound⟩ := hShows.attempt_of_job hJob hId.symm
    exact ⟨job, (hNext.job_mem hAttempt hFound).1, hJobId, hRun, hSession⟩
  · obtain ⟨session, hFound, hVersion⟩ := h.session
    rw [← hSame, hShows.session] at hFound
    exact ⟨session, by rw [← hSame, hNext.session, hFound], hVersion⟩
  · obtain ⟨lease, hFound, hFence⟩ := h.lease
    rw [← hSame, hShows.lease] at hFound
    exact ⟨lease, by rw [← hSame, hNext.lease, hFound], hFence⟩

theorem Claim.Issued.takes (h : claim.Issued work) (hSound : work.Sound clock) (hTakes : Takes clock work work' t t') :
    claim.Issued work' := by
  by_cases hOwn : claim.session.id = t.id
  · constructor
    · obtain ⟨job, hJob, hJobId, hRun, hSession⟩ := h.known
      obtain ⟨job', hJob', hSame, hSameRun, hSameSession, -⟩ := hTakes.job hSound hJob
      exact ⟨job', hJob', hSame.trans hJobId, hSameRun.trans hRun, hSameSession.trans hSession⟩
    · obtain ⟨session, hFound, hVersion⟩ := h.session
      rw [hOwn, hTakes.shows.session, Option.some.injEq] at hFound
      refine ⟨t'.session, by rw [hOwn, ← hTakes.id, hTakes.next.session], ?_⟩
      rcases hTakes.step.version with hRests | hLater
      · rwa [hRests.session, hFound]
      · rw [← hFound] at hVersion
        exact Nat.le_trans hVersion (Nat.le_of_lt hLater)
    · obtain ⟨lease, hFound, hFence⟩ := h.lease
      rw [hOwn, hTakes.shows.lease] at hFound
      obtain ⟨lease', hLease', hHigher⟩ := hTakes.step.fence lease hFound
      exact ⟨lease', by rw [hOwn, ← hTakes.id, hTakes.next.lease]; exact hLease', Nat.le_trans hFence hHigher⟩
  · exact h.other hSound hTakes.moves hOwn

/-- The claim that was just given to a worker. -/
theorem Claim.Of.issued (h : claim.Of t t') (hTakes : Takes clock work work' t t') : claim.Issued work' := by
  have hId : claim.session.id = t'.id := congrArg Session.id h.session
  constructor
  · obtain ⟨_, job, -, hJob, hJobId, -⟩ := h.job
    obtain ⟨hMem, hSession⟩ := hTakes.next.job_mem t'.current_mem hJob
    have hLinked := (hTakes.step.valid hTakes.valid).linked _ t'.current_mem
    exact ⟨job, hMem, hJobId, (hLinked.job job hJob).1.trans h.run.symm, hSession.trans hId.symm⟩
  · exact ⟨t'.session, by rw [hId, hTakes.next.session], by rw [h.session]⟩
  · obtain ⟨lease, hLease, hFence⟩ := h.fence
    exact ⟨lease, by rw [hId, hTakes.next.lease, hLease], hFence.symm.le⟩

end Claims

/-! The order is kept. -/

section Run

variable {library : Library} {system next : System} {given : Option Resources}

theorem Opened.sound {db db' : Database} {resources : Resources} {t : Thread} (h : Opened db db' resources t)
    (hSound : db.work.Sound db.clock) : db'.work.Sound db'.clock := by
  rw [h.clock]
  exact hSound.moved h.moves rfl h.shows h.valid

theorem Commit.sound {db db' : Database} {resources : Resources} {t t' : Thread} (h : Commit db db' resources t t')
    (hSound : db.work.Sound db.clock) : db'.work.Sound db'.clock := by
  rw [h.clock]
  exact h.takes.sound hSound

/-- A claim of a session that is there stays when another session is opened. -/
theorem Claim.Issued.opened {db db' : Database} {resources : Resources} {t : Thread} {claim : Claim} (h : claim.Issued db.work)
    (hSound : db.work.Sound db.clock) (hOpened : Opened db db' resources t) : claim.Issued db'.work := by
  refine h.other hSound hOpened.moves fun hSame => hOpened.new ?_
  obtain ⟨session, hFound, -⟩ := h.session
  obtain ⟨hMem, hId⟩ := lookup_some hFound
  rw [← hSame, ← hId]
  exact List.mem_map_of_mem hMem

theorem Effect.ordered (h : Effect system given next) (hOrdered : system.Ordered) : next.Ordered := by
  obtain ⟨hSound, hClaims⟩ := hOrdered
  cases h with
  | same => exact ⟨hSound, hClaims⟩
  | waited clock setting hClock => exact ⟨hSound.later hClock, hClaims⟩
  | opened hOpened => exact ⟨hOpened.sound hSound, fun claim hMem => (hClaims claim hMem).opened hSound hOpened⟩
  | asked hCommit => exact ⟨hCommit.sound hSound, fun claim hMem => (hClaims claim hMem).takes hSound hCommit.takes⟩
  | claimed stage hCommit hNew =>
      refine ⟨hCommit.sound hSound, fun claim hMem => ?_⟩
      rcases List.mem_append.mp hMem with hOld | hNewest
      · exact (hClaims claim hOld).takes hSound hCommit.takes
      · exact (hNew claim (Option.mem_toList.mp hNewest)).issued hCommit.takes
  | renewed _ _ _ _ hTakes hRows =>
      refine ⟨?_, fun claim hMem => (hClaims claim hMem).takes hSound hTakes⟩
      have hNext := hTakes.sound hSound
      rw [hRows] at hNext ⊢
      exact hNext
  | marked => exact ⟨hSound, hClaims⟩
  | sent => exact ⟨hSound, hClaims⟩
  | recorded => exact ⟨hSound, hClaims⟩
  | finished _ _ _ hCommit =>
      exact ⟨hCommit.sound hSound, fun claim hMem => (hClaims claim hMem).takes hSound hCommit.takes⟩

theorem System.run_append (system : System) (first rest : List Operation) :
    system.run library (first ++ rest) = (system.run library first).run library rest :=
  List.foldl_append

/-- What an ordered system has, and every effect keeps, holds after every run. -/
theorem System.Ordered.run (library : Library) {P : System → Prop} (hOrdered : system.Ordered) (hStart : P system)
    (hEffect : ∀ {first second : System} {given : Option Resources}, first.Ordered → P first → Effect first given second → P second)
    (operations : List Operation) :
    (system.run library operations).Ordered ∧ P (system.run library operations) := by
  induction operations generalizing system with
  | nil => exact ⟨hOrdered, hStart⟩
  | cons operation operations ih =>
      have hStep := Effect.of_step library hOrdered operation
      exact ih (hStep.ordered hOrdered) (hEffect hOrdered hStart hStep)

theorem initial_ordered (setting : Setting) (clock : Nat) : (System.initial setting clock).Ordered := by
  refine ⟨⟨⟨?_, ?_, ?_, ?_, ?_, ?_, ?_, ?_, ?_, ?_⟩, ?_⟩, ?_⟩
  all_goals first
    | exact uniqueOn_nil _
    | exact fun _ hMem => absurd hMem List.not_mem_nil

theorem run_ordered (library : Library) (setting : Setting) (clock : Nat) (operations : List Operation) :
    ((System.initial setting clock).run library operations).Ordered :=
  ((initial_ordered setting clock).run library (P := fun _ => True) ⟨⟩ (fun _ _ _ => ⟨⟩) operations).1

end Run

end Interpretation

end QsAi
