import QsAi.Evaluation.Step

/-! When a response leaves the step. A response is digested when every reading
that takes place stays within the nesting the interpreter allows, when its bytes
are not taken for another encoding, and when the judge's decisions do not reach
an error that only its own class of errors is caught for. -/
namespace QsAi

open Guarded Keyed PyJson

/-- How the walk over a judge's decisions ends: at a text or an ordinal that the
parser cannot take, at an invalid decision, or with all of them bound. -/
inductive Walk
  | stops
  | invalid
  | valid
deriving DecidableEq, Repr

/-- The result of a parser agrees with the end of a walk. -/
def Walk.Ends {α : Type} (result : Except Rejection α) : Walk → Prop
  | .stops => ∃ message, result = .error (.invalid message)
  | .invalid => ∃ message, result = .error (.decisionInvalid message)
  | .valid => ∃ value, result = .ok value

theorem Walk.ends_bind {α β : Type} {result : Except Rejection α} {f : α → Except Rejection β} {walk : Walk}
    (h : walk.Ends result) (hValid : walk ≠ .valid) : walk.Ends (result >>= f) := by
  cases walk with
  | stops =>
      obtain ⟨message, rfl⟩ := h
      exact ⟨message, rfl⟩
  | invalid =>
      obtain ⟨message, rfl⟩ := h
      exact ⟨message, rfl⟩
  | valid => exact absurd rfl hValid

theorem ite_bind {ε α β : Type} {condition : Prop} [Decidable condition] (a b : Except ε α) (f : α → Except ε β) :
    ((if condition then a else b) >>= f) = if condition then a >>= f else b >>= f := by
  split <;> rfl

/-- What every recorded evidence satisfies, whatever the response was. -/
structure Recordable (step : PreparedStep) (evidence : ResponseEvidence) (failure : Option ClassifiedFailure) :
    Prop where
  bounded : evidence.raw.bounded ∧ evidence.normalized.bounded
  receipt : ∀ receipt ∈ evidence.receipt, receipt.invocationId = step.cp.invocationId
  complete : failure = none → evidence.receipt ≠ none ∧ evidence.raw.isEmpty = false ∧
    evidence.normalized.isEmpty = false
  failed : ∀ value ∈ failure, FailureOf step.cp.kind value

namespace PreparedStep

variable {interpreter : Interpreter} {step : PreparedStep} {evidence : ResponseEvidence}
  {failure : Option ClassifiedFailure} {finishedAt : DateTime}

end PreparedStep

/-- The bytes of the text are taken for what they are. -/
def Plain (content : String) : Prop := detectEncoding (octets content) = .utf8

namespace PreparedStep

variable {interpreter : Interpreter} {step : PreparedStep} {response : ModelResponse} {value : Option Value}
  {evidence : ResponseEvidence}

variable {failure : Option ClassifiedFailure} {finishedAt now : DateTime} {candidateId : Option String} {fresh : String}

end PreparedStep

namespace Trial

def noon (second : Fin 60) : DateTime where
  year := 2026
  month := 1
  day := 1
  hour := 12
  minute := 0
  second
  microsecond := 0
  utcoffset := 0
  date := DateTime.newYear_date
  clock := ⟨by decide, by decide, second.isLt, by decide⟩
  zone := DateTime.utc_zone

/-- A prepared generation call whose schema accepts everything. -/
def step : PreparedStep where
  cp :=
    { executionId := "e1", kind := .generation, caseId := "c1", slotOrdinal := 1, candidateId := ""
      executionOrdinal := 1, owner := "w1", invocationId := "i1", phase := .prepared, claimedAt := noon 0
      leaseExpiresAt := noon 30, checked := by decide +kernel }
  startedAt := noon 0
  candidateFingerprint := ""
  assertions := []
  inventory := []
  route := ⟨"zhipu", "glm"⟩
  schema := fun _ => true
  maxOutputCharacters := 8000
  semantic := none
  judge := fun hKind => by cases hKind

def response (content : Text) : ModelResponse where
  invocationId := "i1"
  requestId := "r1"
  model := "glm"
  rawOutput := content
  validationOutput := content
  inputTokens := some 1
  outputTokens := some 1
  latencyMilliseconds := 1

def interpreter : Interpreter := ⟨990, 985, 985, fun _ => "sha256:0"⟩

example : (step.prepareStepCompletion interpreter (some (response [0x7b, 0x7d])) none (noon 1) none "g1").toOption.isSome =
    true := by
  decide +kernel

end Trial

end QsAi
