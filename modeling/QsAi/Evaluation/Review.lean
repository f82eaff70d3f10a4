import QsAi.Evaluation.Actions
import QsAi.Evaluation.Semantic

/-! Human review. Two people with different roles sign every candidate; a
signature may contest one decision of the judge, bound to the evidence it
contests, and two agreeing contests derive another judgement without touching
the judge's own. -/
namespace QsAi

open Guarded Keyed PyJson

inductive ReviewRole
  | assessmentSemantics
  | safetyProduct
deriving DecidableEq, Repr

inductive ReviewDecision
  | approve
  | reject
deriving DecidableEq, Repr

def contradictionPolicy : String := "semantic-contradiction-dual-review/v1"

/-- A bounded free text. -/
def reviewText (value : String) (limit : Nat) : Bool :=
  strip value != "" && byteLength value ≤ limit && !containsAny value ['<', '>']

/-- One contested decision of the judge. -/
structure SemanticContradictionReview where
  policyVersion : String
  executionId : String
  outputFingerprint : String
  assertionOrdinal : Nat
  originalDetail : String
  candidateExcerpt : String
  reason : String
  valid : policyVersion = contradictionPolicy ∧ validId executionId = true ∧ 1 ≤ assertionOrdinal ∧
    reviewText originalDetail 2000 = true ∧ reviewText candidateExcerpt 1000 = true ∧ reviewText reason 1000 = true
deriving DecidableEq

/-- One signature. -/
structure CandidateHumanReview where
  candidateId : String
  role : ReviewRole
  reviewer : String
  decision : ReviewDecision
  reviewedAt : DateTime
  reason : String
  semanticReview : Option SemanticContradictionReview := none
  valid : validId candidateId = true ∧ validId reviewer = true ∧ reviewText reason 1000 = true
deriving DecidableEq

namespace CandidateHumanReview

/-- Each role signs a candidate once. -/
def key (review : CandidateHumanReview) : String × ReviewRole := (review.candidateId, review.role)

/-- Equal signatures: times are compared as instants. -/
def Same (a b : CandidateHumanReview) : Prop :=
  a.candidateId = b.candidateId ∧ a.role = b.role ∧ a.reviewer = b.reviewer ∧ a.decision = b.decision ∧
    a.reviewedAt.same b.reviewedAt ∧ a.reason = b.reason ∧ a.semanticReview = b.semanticReview

instance (a b : CandidateHumanReview) : Decidable (a.Same b) := inferInstanceAs (Decidable (_ ∧ _))

theorem Same.refl (a : CandidateHumanReview) : a.Same a := ⟨rfl, rfl, rfl, rfl, rfl, rfl, rfl⟩

end CandidateHumanReview

/-- The evidence that a candidate is reviewed with. -/
structure ReviewFields where
  candidateId : String
  acceptedAt : DateTime
  normalizedOutput : Output
  semantic : SemanticCompletion
  semanticEvaluator : String
  assertions : List AssertionReceipt
  semanticAssertions : List AssertionReceipt
deriving DecidableEq

def ReviewFields.check (f : ReviewFields) : Except Rejection Unit :=
  require (f.semantic.status = .succeeded ∧ f.candidateId = f.semantic.candidateId ∧
      f.acceptedAt ≤ f.semantic.startedAt ∧ f.normalizedOutput.isEmpty = false ∧
      f.normalizedOutput.fingerprint = f.semantic.candidateOutputFingerprint ∧ f.semanticAssertions ≠ [] ∧
      strip f.semanticEvaluator ≠ "" ∧ f.assertions ≠ [])
    (.invalid "Review candidate lacks accepted evidence")

/-- A candidate with the judge call that accepted it. -/
structure ReviewCandidate extends ReviewFields where
  checked : toReviewFields.check = .ok ()
deriving DecidableEq

def ReviewCandidate.make (fields : ReviewFields) : Except Rejection ReviewCandidate :=
  certify fields.check fun h => ⟨fields, h⟩

/-- The receipt that a contest is about. -/
def SemanticContradictionReview.Contests (review : SemanticContradictionReview) (evaluator : String)
    (receipt : AssertionReceipt) : Prop :=
  receipt.type = "forbidden_claims_absent" ∧ receipt.scope = .default ∧ receipt.ordinal = review.assertionOrdinal ∧
    receipt.status = .failed ∧ receipt.detail = review.originalDetail ∧ receipt.evaluator = evaluator

instance (review : SemanticContradictionReview) (evaluator : String) (receipt : AssertionReceipt) :
    Decidable (review.Contests evaluator receipt) := inferInstanceAs (Decidable (_ ∧ _))

/-- The decision of the judge that a contest is about. -/
def SemanticContradictionReview.ContestsRaw (review : SemanticContradictionReview) (decision : RawDecision) : Prop :=
  decision.type = "forbidden_claims_absent" ∧ decision.scope = .default ∧
    decision.ordinal = review.assertionOrdinal ∧ decision.status = .failed ∧
    decision.detail = text review.originalDetail

instance (review : SemanticContradictionReview) (decision : RawDecision) : Decidable (review.ContestsRaw decision) :=
  inferInstanceAs (Decidable (_ ∧ _))

/-- A contest names exactly one failed decision, in the candidate and in the
judge's own output, and quotes the candidate. -/
def validateSemanticReview (value : CandidateHumanReview) (candidate : ReviewCandidate) (gatePolicyVersion : String) :
    Except Rejection Unit :=
  match value.semanticReview with
  | none => pure ()
  | some review => do
      require (gatePolicyVersion = "v2" ∧ value.decision = .approve ∧
          review.executionId = candidate.semantic.executionId ∧
          review.outputFingerprint = candidate.semantic.outputFingerprint ∧
          review.candidateExcerpt.toUTF8.data.toList <:+: candidate.normalizedOutput.bytes)
        (.invalid "Semantic review does not bind accepted evidence")
      let original ← demand candidate.semantic.normalizedOutput.judgement (.invalid "decisions")
      require ((candidate.assertions.filter (review.Contests candidate.semanticEvaluator)).length = 1 ∧
          (candidate.semanticAssertions.filter (review.Contests candidate.semanticEvaluator)).length = 1 ∧
          (original.decisions.filter review.ContestsRaw).length = 1)
        (.invalid "Original failed forbidden-claims assertion required")

/-- The whole history, signature by signature. -/
def checkReviews (closedAt : DateTime) (candidates : List ReviewCandidate) (gatePolicyVersion : String) :
    List CandidateHumanReview → List CandidateHumanReview → Except Rejection Unit
  | _, [] => pure ()
  | seen, review :: rest => do
      let candidate ← demand (lookup (·.candidateId) candidates review.candidateId)
        (.invalid "Review target or timestamp outside closed evidence")
      require (closedAt ≤ review.reviewedAt) (.invalid "Review target or timestamp outside closed evidence")
      require (review.key ∉ seen.map (·.key) ∧
          (review.candidateId, review.reviewer) ∉ seen.map fun r => (r.candidateId, r.reviewer))
        (.invalid "Candidate requires unique roles and distinct reviewers")
      validateSemanticReview review candidate gatePolicyVersion
      checkReviews closedAt candidates gatePolicyVersion (review :: seen) rest

/-- Validate the complete proposed history, then append. -/
def addHumanReviews (status : RunStatus) (closedAt : DateTime) (candidates : List ReviewCandidate)
    (prior values : List CandidateHumanReview) (gatePolicyVersion : String) :
    Except Rejection (List CandidateHumanReview) := do
  require (status = .awaitingReview ∧ candidates ≠ [] ∧ values ≠ [])
    (.invalid "Closed reviewable Run and nonempty review batch required")
  require (UniqueOn (·.candidateId) candidates ∧ ∀ c ∈ candidates, c.semantic.finishedAt ≤ closedAt)
    (.invalid "Candidate evidence differs from closed Run")
  checkReviews closedAt candidates gatePolicyVersion [] (prior ++ values)
  pure (prior ++ values)

/-! Adjudication. -/

structure SemanticAdjudication where
  policyVersion : String
  candidateId : String
  executionId : String
  outputFingerprint : String
  assertionType : String
  assertionOrdinal : Nat
  originalStatus : AssertionStatus
  effectiveStatus : AssertionStatus
  reviewers : String × String
deriving DecidableEq

structure EffectiveCandidateAssertions where
  assertions : List AssertionReceipt
  adjudication : Option SemanticAdjudication := none
deriving DecidableEq

/-- The contest that a role signed together with its approval. -/
def signedContest (reviews : List CandidateHumanReview) (role : ReviewRole) :
    Option (CandidateHumanReview × SemanticContradictionReview) := do
  let review ← dict (·.role) (reviews.filter fun r => r.decision = .approve ∧ r.semanticReview ≠ none) role
  let contest ← review.semanticReview
  some (review, contest)

/-- Both roles contest the same decision; passages and reasons may differ. -/
def sameContest (a b : SemanticContradictionReview) : Prop :=
  a.policyVersion = b.policyVersion ∧ a.executionId = b.executionId ∧ a.outputFingerprint = b.outputFingerprint ∧
    a.assertionOrdinal = b.assertionOrdinal ∧ a.originalDetail = b.originalDetail

instance (a b : SemanticContradictionReview) : Decidable (sameContest a b) := inferInstanceAs (Decidable (_ ∧ _))

/-- The judgement of a candidate after its signatures. -/
def effectiveCandidateAssertions (candidate : ReviewCandidate) (reviews : List CandidateHumanReview)
    (closedAt : DateTime) (gatePolicyVersion : String) : Except Rejection EffectiveCandidateAssertions :=
  if reviews = [] then pure ⟨candidate.assertions, none⟩
  else do
    let _ ← addHumanReviews .awaitingReview closedAt [candidate] [] reviews gatePolicyVersion
    match signedContest reviews .assessmentSemantics, signedContest reviews .safetyProduct with
    | some (assessment, a), some (safety, b) =>
        if sameContest a b then
          pure ⟨candidate.assertions.map fun value =>
              if a.Contests candidate.semanticEvaluator value then { value with status := .passed } else value,
            some ⟨a.policyVersion, candidate.candidateId, a.executionId, a.outputFingerprint,
              "forbidden_claims_absent", a.assertionOrdinal, .failed, .passed,
              (assessment.reviewer, safety.reviewer)⟩⟩
        else pure ⟨candidate.assertions, none⟩
    | _, _ => pure ⟨candidate.assertions, none⟩

end QsAi
