import QsAi.Foundation.Guarded
import QsAi.Foundation.Keyed
import QsAi.Text
import QsAi.Time

/-! Organization quotas. An organization writes limits under the ceilings of its
deployment; every admission reads the limits in force then. -/
namespace QsAi

open Guarded Keyed

/-- Participant provider-call limits. -/
structure ParticipantCapacityPolicy where
  dailyOrg : Nat := 500
  dailyUser : Nat := 5
  dailyAssessment : Nat := 3
  activeOrg : Nat := 10
  activeUser : Nat := 2
  activeAssessment : Nat := 1
  positive : 0 < dailyOrg ∧ 0 < dailyUser ∧ 0 < dailyAssessment ∧ 0 < activeOrg ∧ 0 < activeUser ∧
    0 < activeAssessment := by decide
deriving DecidableEq

theorem ParticipantCapacityPolicy.default_positive : 0 < 500 ∧ 0 < 5 ∧ 0 < 3 ∧ 0 < 10 ∧ 0 < 2 ∧ 0 < 1 := by decide

/-- Limits of the evaluation Runs of an organization. -/
structure EvaluationCapacityPolicy where
  dailyProviderCalls : Nat := 1024
  maxActiveRuns : Nat := 1
  positive : 0 < dailyProviderCalls ∧ 0 < maxActiveRuns := by decide
deriving DecidableEq

structure QuotaValues where
  participant : ParticipantCapacityPolicy
  evaluation : EvaluationCapacityPolicy
deriving DecidableEq

inductive QuotaRefusal
  | invalid
  | notFound
  | conflict
deriving DecidableEq

/-- The value, or the limit when the value is above it. -/
def capped (value limit : Nat) : Nat := if limit < value then limit else value

theorem capped_pos {value limit : Nat} (hValue : 0 < value) (hLimit : 0 < limit) : 0 < capped value limit := by
  unfold capped
  split <;> assumption

theorem capped_le (value limit : Nat) : capped value limit ≤ limit := by
  unfold capped
  split <;> omega

namespace QuotaValues

/-- The limits under the names of their fields. -/
def fields (values : QuotaValues) : List (String × Nat) :=
  [("participant.daily_org", values.participant.dailyOrg),
    ("participant.daily_user", values.participant.dailyUser),
    ("participant.daily_assessment", values.participant.dailyAssessment),
    ("participant.active_org", values.participant.activeOrg),
    ("participant.active_user", values.participant.activeUser),
    ("participant.active_assessment", values.participant.activeAssessment),
    ("evaluation.daily_provider_calls", values.evaluation.dailyProviderCalls),
    ("evaluation.max_active_runs", values.evaluation.maxActiveRuns)]

/-- The fields in which the values are above the ceiling. -/
def constrained (values ceiling : QuotaValues) : List String :=
  ((values.fields.zip ceiling.fields).filter fun pair => decide (pair.2.2 < pair.1.2)).map fun pair => pair.1.1

def bounded (values ceiling : QuotaValues) : QuotaValues × List String :=
  (⟨{ dailyOrg := capped values.participant.dailyOrg ceiling.participant.dailyOrg
      dailyUser := capped values.participant.dailyUser ceiling.participant.dailyUser
      dailyAssessment := capped values.participant.dailyAssessment ceiling.participant.dailyAssessment
      activeOrg := capped values.participant.activeOrg ceiling.participant.activeOrg
      activeUser := capped values.participant.activeUser ceiling.participant.activeUser
      activeAssessment := capped values.participant.activeAssessment ceiling.participant.activeAssessment
      positive := by
        obtain ⟨h₁, h₂, h₃, h₄, h₅, h₆⟩ := values.participant.positive
        obtain ⟨g₁, g₂, g₃, g₄, g₅, g₆⟩ := ceiling.participant.positive
        exact ⟨capped_pos h₁ g₁, capped_pos h₂ g₂, capped_pos h₃ g₃, capped_pos h₄ g₄, capped_pos h₅ g₅,
          capped_pos h₆ g₆⟩ },
    { dailyProviderCalls := capped values.evaluation.dailyProviderCalls ceiling.evaluation.dailyProviderCalls
      maxActiveRuns := capped values.evaluation.maxActiveRuns ceiling.evaluation.maxActiveRuns
      positive := ⟨capped_pos values.evaluation.positive.1 ceiling.evaluation.positive.1,
        capped_pos values.evaluation.positive.2 ceiling.evaluation.positive.2⟩ }⟩,
    values.constrained ceiling)

/-- What is in force never exceeds the ceiling in any field. -/
theorem bounded_le (values ceiling : QuotaValues) :
    ∀ pair ∈ (values.bounded ceiling).1.fields.zip ceiling.fields, pair.1.2 ≤ pair.2.2 := by
  simp [bounded, fields, capped_le]

def validateWrite (values ceiling : QuotaValues) : Except QuotaRefusal Unit :=
  require ((values.bounded ceiling).2 = []) .invalid

@[simp] theorem constrained_self (values : QuotaValues) : values.constrained values = [] := by
  simp [constrained, fields]

/-- Values that a write accepts are in force as they were written. -/
theorem bounded_of_validateWrite {values ceiling : QuotaValues} {done : Unit}
    (h : values.validateWrite ceiling = .ok done) : (values.bounded ceiling).1 = values := by
  have hNone : values.constrained ceiling = [] := (require_ok _ _ _).mp h
  have hWithin : ∀ pair ∈ values.fields.zip ceiling.fields, ¬ pair.2.2 < pair.1.2 := by
    unfold constrained at hNone
    rw [List.map_eq_nil_iff, List.filter_eq_nil_iff] at hNone
    exact fun pair hPair hLess => hNone pair hPair (decide_eq_true hLess)
  obtain ⟨participant, evaluation⟩ := values
  simp only [fields, List.zip_cons_cons, List.zip_nil_right, List.forall_mem_cons] at hWithin
  obtain ⟨h₁, h₂, h₃, h₄, h₅, h₆, h₇, h₈, _⟩ := hWithin
  simp only [bounded, capped, if_neg h₁, if_neg h₂, if_neg h₃, if_neg h₄, if_neg h₅, if_neg h₆, if_neg h₇,
    if_neg h₈]

end QuotaValues

/-- The defaults and ceilings of a deployment. -/
structure QuotaBaseline where
  defaults : QuotaValues
  ceilings : QuotaValues
  within : defaults.validateWrite ceilings = .ok ⟨⟩

/-- The baseline of a deployment that names one set of limits. -/
def QuotaBaseline.exactly (values : QuotaValues) : QuotaBaseline where
  defaults := values
  ceilings := values
  within := (require_ok _ _ _).mpr values.constrained_self

/-- The limits in force with their origin. -/
structure QuotaSnapshot where
  revision : Nat
  source : String
  defaults : QuotaValues
  ceilings : QuotaValues
  configured : Option QuotaValues
  effective : QuotaValues
  constrainedFields : List String
deriving DecidableEq

def QuotaBaseline.resolve (baseline : QuotaBaseline) (configured : Option QuotaValues) (revision : Nat) :
    Except QuotaRefusal QuotaSnapshot := do
  require (configured = none ↔ revision = 0) .invalid
  let bounded := (configured.getD baseline.defaults).bounded baseline.ceilings
  pure {
    revision
    source := if configured = none then "deployment_default" else "organization"
    defaults := baseline.defaults
    ceilings := baseline.ceilings
    configured
    effective := bounded.1
    constrainedFields := bounded.2 }

structure QuotaVersion where
  revision : Nat
  values : QuotaValues
  operatorUserId : Nat
  reason : String
  createdAt : DateTime
deriving DecidableEq

structure QuotaRequest where
  expectedRevision : Nat
  reason : String
  values : Option QuotaValues
  targetRevision : Option Nat
deriving DecidableEq

structure QuotaReceipt extends QuotaSnapshot where
  commandId : Nat
  reason : String
  operatorUserId : Nat
  createdAt : DateTime
deriving DecidableEq

structure QuotaCommand where
  commandId : Nat
  operatorUserId : Nat
  request : QuotaRequest
  receipt : QuotaReceipt
deriving DecidableEq

/-- The quota rows of one organization. -/
structure QuotaBook where
  pointer : Option Nat := none
  versions : List QuotaVersion := []
  commands : List QuotaCommand := []
deriving DecidableEq

/-- A reason an operator may give. -/
def PromptDraft.validReason (value : String) : Bool :=
  strip value != "" && byteLength value ≤ 1000 && !containsAny value ['<', '>', '\x00']

namespace QuotaBook

def configuration (book : QuotaBook) : Except QuotaRefusal (Option QuotaValues × Nat) :=
  match book.pointer with
  | none => pure (none, 0)
  | some revision => do
      let row ← demand (lookup (·.revision) book.versions revision) .notFound
      pure (some row.values, revision)

def effective (book : QuotaBook) (baseline : QuotaBaseline) : Except QuotaRefusal QuotaSnapshot := do
  let configured ← book.configuration
  baseline.resolve configured.1 configured.2

/-- An earlier answer to the command, when it belongs to the same operator and
the same request. -/
def receipt (book : QuotaBook) (operatorUserId commandId : Nat) (request : Option QuotaRequest) :
    Except QuotaRefusal (Option QuotaReceipt) :=
  match lookup (·.commandId) book.commands commandId with
  | none => pure none
  | some row => do
      require (row.operatorUserId = operatorUserId) .notFound
      require (∀ asked ∈ request, row.request = asked) .conflict
      pure (some row.receipt)

/-- The values a command writes: its own, or those of an earlier version. -/
def written (book : QuotaBook) (values : Option QuotaValues) : Option Nat → Except QuotaRefusal QuotaValues
  | none => demand values .invalid
  | some target => do
      let row ← demand (lookup (·.revision) book.versions target) .notFound
      pure row.values

def write (book : QuotaBook) (baseline : QuotaBaseline) (operatorUserId commandId : Nat) (request : QuotaRequest)
    (time : DateTime) : Except QuotaRefusal (QuotaReceipt × QuotaBook) := do
  let current ← book.configuration
  require (request.expectedRevision = current.2) .conflict
  let values ← book.written request.values request.targetRevision
  values.validateWrite baseline.ceilings
  let revision := current.2 + 1
  let snapshot ← baseline.resolve (some values) revision
  let receipt : QuotaReceipt :=
    { toQuotaSnapshot := snapshot, commandId, reason := request.reason, operatorUserId, createdAt := time }
  pure (receipt, {
    pointer := some revision
    versions := book.versions ++ [⟨revision, values, operatorUserId, request.reason, time⟩]
    commands := book.commands ++ [⟨commandId, operatorUserId, request, receipt⟩] })

/-- A repeated command returns its first answer, a new one adds a version. -/
def apply (book : QuotaBook) (baseline : QuotaBaseline) (operatorUserId commandId : Nat) (request : QuotaRequest)
    (time : DateTime) : Except QuotaRefusal (QuotaReceipt × QuotaBook) := do
  require (commandId ≠ 0 ∧ PromptDraft.validReason request.reason = true ∧
    (request.values = none ↔ request.targetRevision ≠ none)) .invalid
  require (∀ target ∈ request.targetRevision, 1 ≤ target) .invalid
  match ← book.receipt operatorUserId commandId (some request) with
  | some prior => pure (prior, book)
  | none => book.write baseline operatorUserId commandId request time

def participantPolicy (book : QuotaBook) (defaults : ParticipantCapacityPolicy) (baseline : Option QuotaBaseline) :
    Except QuotaRefusal (ParticipantCapacityPolicy × QuotaSnapshot) := do
  let snapshot ← book.effective (baseline.getD (.exactly ⟨defaults, {}⟩))
  pure (snapshot.effective.participant, snapshot)

def evaluationPolicy (book : QuotaBook) (defaults : EvaluationCapacityPolicy) (baseline : Option QuotaBaseline) :
    Except QuotaRefusal (EvaluationCapacityPolicy × QuotaSnapshot) := do
  let snapshot ← book.effective (baseline.getD (.exactly ⟨{}, defaults⟩))
  pure (snapshot.effective.evaluation, snapshot)

/-- The pointer names a stored version, numbered from one. -/
def Sound (book : QuotaBook) : Prop :=
  ∀ revision ∈ book.pointer, 0 < revision ∧ ∃ row, lookup (·.revision) book.versions revision = some row

theorem Sound.configuration_total {book : QuotaBook} (h : book.Sound) :
    ∃ configured, book.configuration = .ok configured ∧ (configured.1 = none ↔ configured.2 = 0) := by
  cases hPointer : book.pointer with
  | none => exact ⟨(none, 0), by rw [configuration, hPointer]; rfl, by simp⟩
  | some revision =>
      obtain ⟨hPos, row, hRow⟩ := h revision hPointer
      refine ⟨(some row.values, revision), ?_, ?_⟩
      · rw [configuration, hPointer]
        exact (bind_ok _ _ _).mpr ⟨row, (demand_ok _ _ _).mpr hRow, rfl⟩
      · simp only [reduceCtorEq, false_iff]
        omega

/-- The limits in force can always be read. -/
theorem Sound.effective_total {book : QuotaBook} (h : book.Sound) (baseline : QuotaBaseline) :
    ∃ snapshot, book.effective baseline = .ok snapshot := by
  obtain ⟨configured, hConfigured, hPointer⟩ := h.configuration_total
  refine bind_total hConfigured ?_
  rw [QuotaBaseline.resolve, require_bind_pos hPointer]
  exact ⟨_, rfl⟩

theorem Sound.evaluationPolicy_total {book : QuotaBook} (h : book.Sound) (defaults : EvaluationCapacityPolicy)
    (baseline : Option QuotaBaseline) : ∃ policy, book.evaluationPolicy defaults baseline = .ok policy := by
  obtain ⟨snapshot, hSnapshot⟩ := h.effective_total (baseline.getD (.exactly ⟨{}, defaults⟩))
  exact ⟨_, (bind_ok _ _ _).mpr ⟨snapshot, hSnapshot, rfl⟩⟩

theorem Sound.apply {book next : QuotaBook} {baseline : QuotaBaseline} {operatorUserId commandId : Nat}
    {request : QuotaRequest} {time : DateTime} {answer : QuotaReceipt} (h : book.Sound)
    (hApply : book.apply baseline operatorUserId commandId request time = .ok (answer, next)) : next.Sound := by
  unfold QuotaBook.apply at hApply
  obtain ⟨_, hApply⟩ := (require_bind_ok _ _ _ _).mp hApply
  obtain ⟨_, hApply⟩ := (require_bind_ok _ _ _ _).mp hApply
  obtain ⟨prior, _, hApply⟩ := (bind_ok _ _ _).mp hApply
  cases prior with
  | some prior =>
      cases (pure_ok _ _).mp hApply
      exact h
  | none =>
      simp only [write, bind_ok, require_ok, exists_const, pure_ok, Prod.mk.injEq] at hApply
      obtain ⟨current, _, _, values, _, _, _, snapshot, _, _, rfl⟩ := hApply
      intro revision hRevision
      cases hRevision
      refine ⟨Nat.succ_pos _, Option.ne_none_iff_exists'.mp fun hNone => ?_⟩
      exact lookup_eq_none.mp hNone _ (List.mem_append_right _ (List.mem_singleton_self _)) rfl

end QuotaBook

end QsAi
