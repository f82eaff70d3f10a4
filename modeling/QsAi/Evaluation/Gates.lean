import QsAi.Evaluation.Closure
import QsAi.Evaluation.Review

/-! The quality gates. Over a closed inventory and its signatures the gates
compute execution rates, the outcome of every candidate and the completeness of
the review; the result alone approves nothing. -/
namespace QsAi

open Guarded Keyed PyJson Binary64

/-- A JSON number: an integer literal or a finite double. -/
inductive Number
  | int (value : Int)
  | double (value : ℚ)
deriving DecidableEq

def Number.value : Number → ℚ
  | .int value => value
  | .double value => value

/-- `/` on integers: the nearest double to the quotient. -/
def divide (numerator denominator : Nat) : ℚ :=
  match round (numerator / denominator) with
  | .finite value => value
  | .infinite _ => 0

structure QualityThresholds where
  generationCases : Nat
  candidatesPerCase : Nat
  reviewCount : Nat
  minInfrastructureRate : Number
  minContractRate : Number
  minSemanticRate : Number
  minCasePasses : Nat
  minOverallPasses : Nat
  minimumScores : List Number
  minimumAverages : List Number
  counts : 1 ≤ generationCases ∧ 1 ≤ candidatesPerCase ∧ 1 ≤ minCasePasses ∧ 1 ≤ minOverallPasses ∧
    reviewCount = generationCases * candidatesPerCase * 2 ∧ minCasePasses ≤ candidatesPerCase ∧
    minOverallPasses ≤ generationCases * candidatesPerCase
  rates : ∀ rate ∈ [minInfrastructureRate, minContractRate, minSemanticRate], 0 ≤ rate.value ∧ rate.value ≤ 1
  scores : ∀ minimums ∈ [minimumScores, minimumAverages], minimums.length = scoreNames.length ∧
    ∀ minimum ∈ minimums, 1 ≤ minimum.value ∧ minimum.value ≤ 5

structure QualityCandidate where
  caseId : String
  slotOrdinal : Nat
  generationExecutionId : String
  evidence : ReviewCandidate
deriving DecidableEq

inductive Gate
  | g3
  | g4
  | g5
deriving DecidableEq, Repr

inductive ReasonCode
  | infrastructureRateBelowThreshold
  | contractRateBelowThreshold
  | semanticRateBelowThreshold
  | candidateCompletionIncomplete
  | candidateCaseAssertionFailed
  | candidateHardAssertionFailed
  | candidateScoreBelowMinimum
  | humanReviewRejected
  | humanReviewIncomplete
  | caseStabilityFailed
  | caseOverallFailed
  | semanticAverageBelowThreshold
  | humanReviewCountIncomplete
deriving DecidableEq, Repr

structure GateReason where
  gate : Gate
  code : ReasonCode
  evidenceRefs : List String := []
deriving DecidableEq

structure GateMetric where
  name : String
  numerator : Nat
  denominator : Nat
  value : Number
  threshold : Option Number
deriving DecidableEq

structure QualityGateResult where
  evaluatedAt : DateTime
  gatePasses : List (Gate × Bool)
  metrics : List GateMetric
  reasons : List GateReason
  semanticAdjudications : List SemanticAdjudication
deriving DecidableEq

/-! Assertions of one candidate. -/

/-- All receipts under one name: whether one of them is hard, passed or failed. -/
structure AssertionGroup where
  hard : Bool
  passed : Bool
  failed : Bool

def assertionGroup (assertions : List AssertionReceipt) (key : AssertionKey) : AssertionGroup :=
  let group := assertions.filter (·.key = key)
  ⟨group.any fun a => a.hard || a.scope == .default, group.any (·.status == .passed),
    group.any fun a => a.status == .failed || a.status == .blocked⟩

def AssertionGroup.effective (group : AssertionGroup) : Bool := group.passed && !group.failed

/-- Whether the case asserts anything, whether it passed, and whether every hard
assertion did. -/
def assertionOutcome (assertions : List AssertionReceipt) : Bool × Bool × Bool :=
  let keys := (assertions.map (·.key)).dedup
  let cases := keys.filter fun key => key.2.1 == .case
  (!cases.isEmpty, cases.all fun key => (assertionGroup assertions key).effective,
    keys.all fun key => !(assertionGroup assertions key).hard || (assertionGroup assertions key).effective)

/-- The provider answered, even if the answer broke the contract. -/
def infrastructureSuccess (value : Completion) (receipt : Option ProviderReceipt) : Bool :=
  match value.status, value.failure, receipt with
  | .succeeded, _, _ => true
  | .failed, some failure, some _ =>
      failure.kind == .outputContractConformance ||
        (failure.kind == .semanticExecution &&
          ["semantic_output_missing_or_too_large", "semantic_output_schema_invalid",
            "semantic_output_decode_invalid", "semantic_decision_contract_invalid"].contains failure.code)
  | _, _, _ => false

/-! The evidence of a closed Run that the gates read. -/

structure GateEvidence where
  candidates : List QualityCandidate
  generations : List GenerationCompletion
  semantics : List SemanticCompletion
  thresholds : QualityThresholds
  closedAt : DateTime
  completionRule : Bool

namespace GateEvidence

variable (evidence : GateEvidence)

def targets : List ReviewCandidate := evidence.candidates.map (·.evidence)

def caseIds : List String := (evidence.candidates.map (·.caseId)).dedup

/-- The candidates are the complete frozen inventory. -/
def checkInventory : Except Rejection Unit :=
  require (evidence.caseIds.length = evidence.thresholds.generationCases ∧
      (∀ id ∈ evidence.caseIds,
        (evidence.candidates.filter (·.caseId = id)).length = evidence.thresholds.candidatesPerCase) ∧
      UniqueOn (fun c : QualityCandidate => (c.caseId, c.slotOrdinal)) evidence.candidates ∧
      (∀ c ∈ evidence.candidates, 1 ≤ c.slotOrdinal ∧ c.slotOrdinal ≤ evidence.thresholds.candidatesPerCase) ∧
      UniqueOn (·.evidence.candidateId) evidence.candidates)
    (.invalid "Quality gates require the complete unique candidate inventory")

/-- A candidate is the accepted outcome of its executions. -/
def Accepts (item : QualityCandidate) : Prop :=
  (∃ g ∈ lookup (·.executionId) evidence.generations item.generationExecutionId, g.status = .succeeded ∧
      g.caseId = item.caseId ∧ g.slotOrdinal = item.slotOrdinal ∧
      g.normalizedOutput.bytes = item.evidence.normalizedOutput.bytes) ∧
    lookup (·.executionId) evidence.semantics item.evidence.semantic.executionId = some item.evidence.semantic ∧
    item.evidence.semantic.finishedAt ≤ evidence.closedAt

instance (item : QualityCandidate) : Decidable (evidence.Accepts item) := inferInstanceAs (Decidable (_ ∧ _))

def checkExecutions : Except Rejection Unit := do
  require (UniqueOn (·.executionId) evidence.generations ∧ UniqueOn (·.executionId) evidence.semantics)
    (.invalid "Execution evidence must be unique")
  require (∀ item ∈ evidence.candidates, evidence.Accepts item)
    (.invalid "Quality candidate differs from accepted execution evidence")

/-! Rates. -/

/-- One observed rate and, without the completion rule, its gate. -/
def rate (name : String) (numerator denominator : Nat) (minimum : Number) (code : ReasonCode) :
    GateMetric × List GateReason :=
  let value := if denominator = 0 then 0 else divide numerator denominator
  (⟨if evidence.completionRule then "observed_" ++ name else name, numerator, denominator, .double value,
      if evidence.completionRule then none else some minimum⟩,
    if evidence.completionRule = false ∧ value < minimum.value then [⟨.g3, code, []⟩] else [])

def infrastructureRate : GateMetric × List GateReason :=
  let generated := evidence.generations.filter (·.providerCallCount = 1)
  let judged := evidence.semantics.filter (·.providerCallCount = 1)
  evidence.rate "infrastructure_success_rate"
    ((generated.filter fun g => infrastructureSuccess (.generation g) g.receipt).length +
      (judged.filter fun s => infrastructureSuccess (.semantic s) s.receipt).length)
    (generated.length + judged.length) evidence.thresholds.minInfrastructureRate .infrastructureRateBelowThreshold

def contractRate : GateMetric × List GateReason :=
  let definite := evidence.generations.filter fun g => g.rawOutput.isEmpty = false ∧ g.status ≠ .resultUnknown
  evidence.rate "generation_contract_conformance_rate" (definite.filter (·.status = .succeeded)).length
    definite.length evidence.thresholds.minContractRate .contractRateBelowThreshold

def semanticRate : GateMetric × List GateReason :=
  evidence.rate "semantic_execution_success_rate" (evidence.semantics.filter (·.status = .succeeded)).length
    (evidence.semantics.map (·.providerCallCount)).sum evidence.thresholds.minSemanticRate .semanticRateBelowThreshold

/-- First attempts and retries of one stage, observed only. -/
def attempts (kind : String) (records : List Completion) (callCounts : List Nat) (expected : Nat) : List GateMetric :=
  let first := (records.filter fun r => r.executionOrdinal = 1 ∧ r.status = .succeeded).length
  let retries := ((records.zip callCounts).filter fun r => 1 < r.1.executionOrdinal ∧ r.2 = 1).length
  [⟨"observed_" ++ kind ++ "_first_attempt_success_rate", first, expected, .double (divide first expected), none⟩,
    ⟨"observed_" ++ kind ++ "_retry_count", retries, 1, .double retries, none⟩]

/-- The completion rule gates on complete candidates instead of rates. -/
def completion : List GateMetric × List GateReason :=
  if evidence.completionRule then
    let expected := evidence.thresholds.generationCases * evidence.thresholds.candidatesPerCase
    let complete := (evidence.candidates.filter (·.evidence.semantic.status = .succeeded)).length
    (⟨"candidate_completion_rate", complete, expected, .double (divide complete expected), some (.double 1)⟩ ::
        attempts "generation" (evidence.generations.map .generation)
          (evidence.generations.map (·.providerCallCount)) expected ++
        attempts "semantic" (evidence.semantics.map .semantic)
          (evidence.semantics.map (·.providerCallCount)) expected,
      if complete ≠ expected then [⟨.g3, .candidateCompletionIncomplete, []⟩] else [])
  else ([], [])

/-- Every metric of the gates. They depend on the executions only. -/
def metrics : List GateMetric :=
  [evidence.infrastructureRate.1, evidence.contractRate.1, evidence.semanticRate.1] ++ evidence.completion.1

def rateReasons : List GateReason :=
  evidence.infrastructureRate.2 ++ evidence.contractRate.2 ++ evidence.semanticRate.2 ++ evidence.completion.2

/-! Candidates. -/

/-- The scores of an accepted judge output: the five names, each an `int` between
one and five. -/
def gateScores (semantic : SemanticCompletion) : Except Rejection (List Int) := do
  let document ← demand semantic.normalizedOutput.judgement (.invalid "scores")
  require ((document.scores.map (·.1)).toFinset = scoreNames.toFinset ∧
      ∀ score ∈ document.scores, score.2.spelling = .integer ∧ 1 ≤ score.2.value ∧ score.2.value ≤ 5)
    (.invalid "Accepted semantic scores are incomplete or invalid")
  scoreNames.mapM fun name =>
    demand ((lookup (·.1) document.scores name).map (·.2.value)) (.invalid "scores")

/-- What the gates have collected over the candidates so far. -/
structure Tally where
  reasons : List GateReason := []
  adjudications : List SemanticAdjudication := []
  passes : List String := []
  totals : List Int := scoreNames.map fun _ => 0

def reject (gate : Gate) (code : ReasonCode) (id : String) (condition : Prop) [Decidable condition] :
    List GateReason :=
  if condition then [⟨gate, code, [id]⟩] else []

/-- One candidate: its effective assertions, its scores and its signatures. -/
def tallyCandidate (reviews : List CandidateHumanReview) (tally : Tally) (item : QualityCandidate) :
    Except Rejection Tally := do
  let candidate := item.evidence
  let own := reviews.filter (·.candidateId = candidate.candidateId)
  let effective ← effectiveCandidateAssertions candidate own evidence.closedAt "v2"
  let (present, passed, hardPassed) := assertionOutcome effective.assertions
  let values ← gateScores candidate.semantic
  let missing := [ReviewRole.assessmentSemantics, .safetyProduct].filter fun role => role ∉ own.map (·.role)
  pure
    { reasons := tally.reasons ++
        reject .g4 .candidateCaseAssertionFailed candidate.candidateId (present = false) ++
        reject .g4 .candidateHardAssertionFailed candidate.candidateId (hardPassed = false) ++
        reject .g4 .candidateScoreBelowMinimum candidate.candidateId
          (∃ pair ∈ values.zip evidence.thresholds.minimumScores, (pair.1 : ℚ) < pair.2.value) ++
        reject .g5 .humanReviewRejected candidate.candidateId (∃ r ∈ own, r.decision = .reject) ++
        missing.map fun _ => ⟨.g5, .humanReviewIncomplete, [candidate.candidateId]⟩
      adjudications := tally.adjudications ++ effective.adjudication.toList
      passes := if present ∧ passed then tally.passes ++ [item.caseId] else tally.passes
      totals := tally.totals.zipWith (· + ·) values }

def tallyCandidates (reviews : List CandidateHumanReview) :
    Tally → List QualityCandidate → Except Rejection Tally
  | tally, [] => pure tally
  | tally, item :: rest => do
      let next ← evidence.tallyCandidate reviews tally item
      tallyCandidates reviews next rest

/-- The reasons over all candidates together. -/
def overallReasons (reviews : List CandidateHumanReview) (tally : Tally) : List GateReason :=
  ((evidence.caseIds.mergeSort (· ≤ ·)).filter fun id => tally.passes.count id < evidence.thresholds.minCasePasses).map
      (fun id => ⟨.g4, .caseStabilityFailed, [id]⟩) ++
    (if tally.passes.length < evidence.thresholds.minOverallPasses then [⟨.g4, .caseOverallFailed, []⟩] else []) ++
    (if ∃ pair ∈ tally.totals.zip evidence.thresholds.minimumAverages,
        divide pair.1.toNat evidence.candidates.length < pair.2.value then
      [⟨.g4, .semanticAverageBelowThreshold, []⟩] else []) ++
    (if reviews.length ≠ evidence.thresholds.reviewCount then [⟨.g5, .humanReviewCountIncomplete, []⟩] else [])

def gateResult (reviews : List CandidateHumanReview) (evaluatedAt : DateTime) (tally : Tally) : QualityGateResult :=
  let reasons := evidence.rateReasons ++ tally.reasons ++ evidence.overallReasons reviews tally
  { evaluatedAt
    gatePasses := [Gate.g3, .g4, .g5].map fun gate => (gate, !reasons.any (·.gate == gate))
    metrics := evidence.metrics
    reasons
    semanticAdjudications := tally.adjudications }

/-- Quality and accountability after the inventory was accepted as closed. -/
def evaluateQualityGates (reviews : List CandidateHumanReview) (evaluatedAt : DateTime) :
    Except Rejection QualityGateResult := do
  require (evidence.closedAt ≤ evaluatedAt ∧ ∀ r ∈ reviews, r.reviewedAt ≤ evaluatedAt)
    (.invalid "Gate time cannot predate closed evidence or reviews")
  evidence.checkInventory
  evidence.checkExecutions
  if reviews ≠ [] then
    let _ ← addHumanReviews .awaitingReview evidence.closedAt evidence.targets [] reviews "v2"
  let tally ← evidence.tallyCandidates reviews {} evidence.candidates
  pure (evidence.gateResult reviews evaluatedAt tally)

end GateEvidence

end QsAi
