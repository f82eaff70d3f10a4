import QsAi.Governance.Quotas
import QsAi.Run.Activity

/-! Evaluation admission. The Runs of one organization share a number of active
slots and a daily budget of provider calls. An admission holds the lock of the
organization, counts the other active Runs in its first snapshot and is decided
when its own Run changes. -/
namespace QsAi

open Guarded Keyed

namespace DateTime

/-- The UTC day of an instant. -/
def utcDay (t : DateTime) : Int := t.instant / dayMicroseconds

end DateTime

structure EvaluationReservation where
  runId : String
  budgetDay : Int
  providerCalls : Nat
  dailyLimit : Nat
  quotaSnapshot : QuotaSnapshot
  requestedBy : String
  reservedAt : DateTime

/-- The transaction that holds the admission lock, with the other active Runs
it counted. -/
structure OpenAdmission where
  runId : String
  active : Nat

inductive AdmissionRefusal
  | capacityExceeded (message : String)
  | run (rejection : Rejection)
  | quota (refusal : QuotaRefusal)
  | notFound
  | invalid
  | locked

/-- What the deployment brings to an admission. -/
structure Deployment where
  capacity : EvaluationCapacityPolicy := {}
  quotaBaseline : Option QuotaBaseline := none
  baseline : QuotaBaseline
  editableModels : Creation → Bool

structure Organization where
  runs : List (String × Store) := []
  reservations : List EvaluationReservation := []
  quotas : QuotaBook := {}
  admission : Option OpenAdmission := none

namespace Organization

def run (org : Organization) (runId : String) : Except AdmissionRefusal Store :=
  demand ((lookup Prod.fst org.runs runId).map Prod.snd) .notFound

def save (org : Organization) (runId : String) (store : Store) : Organization :=
  { org with runs := update Prod.fst org.runs (runId, store) }

def activeRuns (org : Organization) : Nat := org.runs.countP fun entry => decide entry.2.Active

/-- The active Runs beside the given one. -/
def otherActive (org : Organization) (runId : String) : Nat :=
  org.runs.countP fun entry => decide entry.2.Active && decide (entry.1 ≠ runId)

/-- The provider calls reserved on a day. -/
def used (org : Organization) (day : Int) : Nat :=
  ((org.reservations.filter (·.budgetDay = day)).map (·.providerCalls)).sum

def evaluationPolicy (org : Organization) (deployment : Deployment) :
    Except AdmissionRefusal (EvaluationCapacityPolicy × QuotaSnapshot) :=
  (org.quotas.evaluationPolicy deployment.capacity deployment.quotaBaseline).mapError .quota

/-- The worst-case reservation of a Run on its day, if the day has room for it. -/
def planReservation (org : Organization) (policy : EvaluationCapacityPolicy) (snapshot : QuotaSnapshot) (runId : String)
    (actor : String) (time : DateTime) : Except AdmissionRefusal EvaluationReservation := do
  let store ← org.run runId
  let calls := store.creation.policy.generationPerRun + store.creation.policy.semanticPerRun
  let day := time.utcDay
  require (org.used day + calls ≤ policy.dailyProviderCalls)
    (.capacityExceeded "Organization daily evaluation budget reached")
  pure {
    runId
    budgetDay := day
    providerCalls := calls
    dailyLimit := policy.dailyProviderCalls
    quotaSnapshot := snapshot
    requestedBy := actor
    reservedAt := time }

/-- Resuming the same frozen Run consumes its original reservation. -/
def reserve (org : Organization) (policy : EvaluationCapacityPolicy) (snapshot : QuotaSnapshot) (runId actor : String)
    (time : DateTime) : Except AdmissionRefusal Organization :=
  match lookup (·.runId) org.reservations runId with
  | some _ => pure org
  | none => do
      let reservation ← org.planReservation policy snapshot runId actor time
      pure { org with reservations := org.reservations ++ [reservation] }

/-- Admit the Run whose transaction holds the lock. -/
def admitRun (org : Organization) (deployment : Deployment) (opened : OpenAdmission) (actor : String) (time : DateTime) :
    Except AdmissionRefusal Organization := do
  let (policy, snapshot) ← org.evaluationPolicy deployment
  require (opened.active < policy.maxActiveRuns)
    (.capacityExceeded "Organization active evaluation limit reached")
  org.reserve policy snapshot opened.runId actor time

/-- Start the Run of the open admission. -/
def start (org : Organization) (deployment : Deployment) (opened : OpenAdmission) (expectedVersion : Nat)
    (actor reason : String) (time : DateTime) (confirm : Bool) : Except AdmissionRefusal Organization := do
  require (confirm = true ∧ 1 ≤ expectedVersion) .invalid
  let store ← org.run opened.runId
  require (store.progress.status = .requested → deployment.editableModels store.creation = true) .invalid
  let next ← (store.perform (.transitionRequested expectedVersion .collecting actor reason time)).mapError .run
  (org.save opened.runId next).admitRun deployment opened actor time

/-- An admission is needed only when the decision resumes the Run. -/
def admitResumed (org : Organization) (deployment : Deployment) (opened : OpenAdmission) (next : Store)
    (value : ResultUnknownResolution) : Except AdmissionRefusal Organization :=
  if next.progress.status = .collecting then org.admitRun deployment opened value.actor value.resolvedAt else pure org

/-- Decide about an unknown result of the Run of the open admission. -/
def resolve (org : Organization) (deployment : Deployment) (opened : OpenAdmission) (expectedVersion : Nat)
    (value : ResultUnknownResolution) (confirm : Bool) : Except AdmissionRefusal Organization := do
  let store ← org.run opened.runId
  let next ← (store.perform (.acceptResolution expectedVersion value confirm)).mapError .run
  (org.save opened.runId next).admitResumed deployment opened next value

/-- The transactions on an organization. -/
inductive Step
  | create (runId : String) (creation : Creation)
  | work (runId : String) (op : Operation)
  | quotas (operatorUserId commandId : Nat) (request : QuotaRequest) (time : DateTime)
  | lock (runId : String)
  | start (expectedVersion : Nat) (actor reason : String) (time : DateTime) (confirm : Bool)
  | resolve (expectedVersion : Nat) (value : ResultUnknownResolution) (confirm : Bool)
  | abandon

/-- One committed transaction, or the lock of an admission before it commits.
Only the quota commands wait for the lock; the other work of the Runs, a
cancellation and a contract recovery included, does not take it. -/
def step (org : Organization) (deployment : Deployment) : Step → Except AdmissionRefusal Organization
  | .create runId creation => do
      require (lookup Prod.fst org.runs runId = none) .invalid
      pure { org with runs := org.runs ++ [(runId, createRun creation)] }
  | .work runId op => do
      require (op.admitted = false) .invalid
      let store ← org.run runId
      let next ← (store.perform op).mapError .run
      pure (org.save runId next)
  | .quotas operatorUserId commandId request time => do
      require (org.admission = none) .locked
      let answered ← (org.quotas.apply deployment.baseline operatorUserId commandId request time).mapError .quota
      pure { org with quotas := answered.2 }
  | .lock runId => do
      require (org.admission = none) .locked
      pure { org with admission := some ⟨runId, org.otherActive runId⟩ }
  | .start expectedVersion actor reason time confirm => do
      let opened ← demand org.admission .invalid
      let started ← org.start deployment opened expectedVersion actor reason time confirm
      pure { started with admission := none }
  | .resolve expectedVersion value confirm => do
      let opened ← demand org.admission .invalid
      let resolved ← org.resolve deployment opened expectedVersion value confirm
      pure { resolved with admission := none }
  | .abandon => pure { org with admission := none }

/-- The organizations that allowed steps lead to, from one without Runs. -/
inductive Reaches (deployment : Deployment) (allowed : Organization → Step → Prop) : Organization → Prop
  | empty : Reaches deployment allowed {}
  | step {org next : Organization} {step : Step} (hReaches : Reaches deployment allowed org) (hAllowed : allowed org step)
      (hStep : org.step deployment step = .ok next) : Reaches deployment allowed next

/-- What any further steps make of an organization. -/
inductive Continues (deployment : Deployment) (org : Organization) : Organization → Prop
  | refl : Continues deployment org org
  | step {middle next : Organization} {step : Step} (hFirst : Continues deployment org middle)
      (hStep : middle.step deployment step = .ok next) : Continues deployment org next

/-- The Run collects. -/
def Collects (org : Organization) (runId : String) : Prop :=
  ∃ store, org.run runId = .ok store ∧ store.progress.status = .collecting

end Organization

end QsAi
