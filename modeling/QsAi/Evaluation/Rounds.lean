import QsAi.Evaluation.Corrections
import QsAi.Evaluation.Gates

/-! Review rounds. A complete round of signatures is finalized into a record of
its gates; a rejection that rests only on the judge's forbidden claims may be
reopened, and the round it ends is kept as it was. -/
namespace QsAi

open Guarded Keyed

/-! Finalization. -/

structure FinalReview where
  actor : String
  reason : String
  finalizedAt : DateTime
  passed : Bool
  valid : validId actor = true ∧ reviewText reason 1000 = true
deriving DecidableEq

def FinalReview.make (actor reason : String) (finalizedAt : DateTime) (passed : Bool) :
    Except Rejection FinalReview :=
  if h : validId actor = true ∧ reviewText reason 1000 = true then pure ⟨actor, reason, finalizedAt, passed, h⟩
  else throw (.invalid "Invalid final review audit")

def FinalReview.status (review : FinalReview) : RunStatus := if review.passed then .approved else .rejected

/-- A decision over a complete review; what is incomplete stays pending. -/
def finalizeReview (quality : QualityGateResult) (actor reason : String) : Except Rejection FinalReview := do
  require (quality.gatePasses.length = 3 ∧ (∀ gate ∈ [Gate.g3, .g4, .g5], gate ∈ quality.gatePasses.map (·.1)) ∧
      ∀ r ∈ quality.reasons, r.code ≠ .humanReviewIncomplete ∧ r.code ≠ .humanReviewCountIncomplete)
    (.invalid "Finalization requires complete validated human review")
  FinalReview.make actor reason quality.evaluatedAt (quality.gatePasses.all (·.2))

/-- The stored decision with the gates it rests on. -/
structure FinalRecord where
  sourceVersion : Nat
  version : Nat
  releaseFingerprint : String
  actor : String
  reason : String
  finalizedAt : DateTime
  passed : Bool
  status : RunStatus
  gateResult : QualityGateResult
deriving DecidableEq

/-! Reopening. -/

/-- The round that a reopening ends, and the candidates whose signatures it asks
for again. -/
structure ReviewReopening where
  previousReviews : List CandidateHumanReview
  previousGate : QualityGateResult
  candidateIds : List String
  actor : String
  reason : String
  reopenedAt : DateTime
deriving DecidableEq

def ReviewReopening.check (f : ReviewReopening) : Except Rejection Unit := do
  let _ ← FinalReview.make f.actor f.reason f.reopenedAt false
  require (f.previousReviews ≠ [] ∧ f.candidateIds ≠ [] ∧ f.candidateIds.Nodup ∧
      (∀ id ∈ f.candidateIds, id ∈ f.previousReviews.map (·.candidateId)) ∧
      f.previousGate.evaluatedAt ≤ f.reopenedAt)
    (.invalid "Invalid immutable review reopening audit")

/-- The signatures that stay. -/
def ReviewReopening.retainedReviews (reopening : ReviewReopening) : List CandidateHumanReview :=
  reopening.previousReviews.filter (·.candidateId ∉ reopening.candidateIds)

/-- The hard failures of a candidate that a reopening can address: the judge's
own decisions about forbidden claims. Another failure rules the Run out. -/
def reopenable (candidate : ReviewCandidate) (assertion : AssertionReceipt) : Prop :=
  assertion.status = .failed ∧ assertion.type = "forbidden_claims_absent" ∧ assertion.scope = .default ∧
    assertion.evaluator = candidate.semanticEvaluator ∧ assertion ∈ candidate.semanticAssertions

instance (candidate : ReviewCandidate) (assertion : AssertionReceipt) : Decidable (reopenable candidate assertion) :=
  inferInstanceAs (Decidable (_ ∧ _))

def hardFailures (assertions : List AssertionReceipt) : List AssertionReceipt :=
  assertions.filter fun a => a.hard ∧ a.status ≠ .passed

/-- The candidates to reopen, or `none` when one of them cannot be. -/
def failedCandidateIds (reviews : List CandidateHumanReview) (closedAt : DateTime) (gatePolicyVersion : String) :
    List ReviewCandidate → Except Rejection (Option (List String))
  | [] => pure (some [])
  | candidate :: rest => do
      let effective ← effectiveCandidateAssertions candidate
        (reviews.filter (·.candidateId = candidate.candidateId)) closedAt gatePolicyVersion
      let failures := hardFailures effective.assertions
      if ∃ assertion ∈ failures, ¬ reopenable candidate assertion then pure none
      else
        let others ← failedCandidateIds reviews closedAt gatePolicyVersion rest
        pure (others.map fun ids => if failures = [] then ids else candidate.candidateId :: ids)

/-- The rejection rests on failed hard assertions and on nothing else. -/
def reopenableGate (gate : QualityGateResult) (status : RunStatus) (gatePolicyVersion : String)
    (reopeningCount : Nat) : Prop :=
  reopeningCount < 3 ∧ status = .rejected ∧ gatePolicyVersion = "v2" ∧
    gate.gatePasses = [(.g3, true), (.g4, false), (.g5, true)] ∧ gate.reasons ≠ [] ∧
    ∀ r ∈ gate.reasons, r.gate = .g4 ∧ r.code = .candidateHardAssertionFailed

instance (gate : QualityGateResult) (status : RunStatus) (gatePolicyVersion : String) (reopeningCount : Nat) :
    Decidable (reopenableGate gate status gatePolicyVersion reopeningCount) := inferInstanceAs (Decidable (_ ∧ _))

def eligibleCandidateIds (candidates : List ReviewCandidate) (reviews : List CandidateHumanReview)
    (gate : QualityGateResult) (closedAt : DateTime) (status : RunStatus) (gatePolicyVersion : String)
    (reopeningCount : Nat) : Except Rejection (List String) :=
  if reopenableGate gate status gatePolicyVersion reopeningCount then do
    let _ ← addHumanReviews .awaitingReview closedAt candidates [] reviews gatePolicyVersion
    require (reviews.length = candidates.length * 2 ∧ ∀ r ∈ reviews, r.reviewedAt ≤ gate.evaluatedAt)
      (.invalid "Final gate requires complete preceding reviews")
    let ids ← failedCandidateIds reviews closedAt gatePolicyVersion candidates
    pure (ids.getD [])
  else pure []

def reopenReview (candidates : List ReviewCandidate) (reviews : List CandidateHumanReview) (gate : QualityGateResult)
    (closedAt : DateTime) (actor reason : String) (time : DateTime) (status : RunStatus) (gatePolicyVersion : String)
    (reopeningCount : Nat) : Except Rejection ReviewReopening := do
  let ids ← eligibleCandidateIds candidates reviews gate closedAt status gatePolicyVersion reopeningCount
  let _ ← FinalReview.make actor reason time false
  require (ids ≠ [] ∧ gate.evaluatedAt ≤ time)
    (.invalid "Run is not eligible for audited semantic review reopening")
  let reopening := ⟨reviews, gate, ids, actor, reason, time⟩
  ReviewReopening.check reopening
  pure reopening

/-- New signatures follow the reopening, the other ones stay as they were. -/
def validateReopenedReviews (reopening : ReviewReopening) (current : List CandidateHumanReview) :
    Except Rejection Unit := do
  require (∀ r ∈ current, r.candidateId ∈ reopening.candidateIds → reopening.reopenedAt ≤ r.reviewedAt)
    (.invalid "New signature predates review reopening")
  require (∀ r ∈ reopening.retainedReviews, ∃ kept ∈ current, kept.Same r)
    (.invalid "Unaffected review was changed or removed")

/-- One reopening after the other; `index` counts the ones before. -/
def checkReopenings (candidates : List ReviewCandidate) (closedAt : DateTime) (gatePolicyVersion : String) :
    Nat → Option ReviewReopening → List ReviewReopening → Except Rejection Unit
  | _, _, [] => pure ()
  | index, previous, entry :: rest => do
      let expected ← reopenReview candidates entry.previousReviews entry.previousGate closedAt entry.actor entry.reason
        entry.reopenedAt .rejected gatePolicyVersion index
      require (expected = entry) (.invalid "Reopening candidates differ from validated semantic evidence")
      match previous with
      | none => pure ()
      | some previous => do
          require (previous.reopenedAt ≤ entry.previousGate.evaluatedAt)
            (.invalid "Previous finalization predates its review round")
          validateReopenedReviews previous entry.previousReviews
      checkReopenings candidates closedAt gatePolicyVersion (index + 1) (some entry) rest

/-- Every reopening is derived again, and signatures are kept across rounds. -/
def validateReopeningHistory (history : List ReviewReopening) (current : List CandidateHumanReview)
    (candidates : List ReviewCandidate) (closedAt : DateTime) (gatePolicyVersion : String) :
    Except Rejection Unit := do
  require (history.length ≤ 3) (.invalid "At most three immutable reopening rounds are permitted")
  checkReopenings candidates closedAt gatePolicyVersion 0 none history
  match history.getLast? with
  | none => pure ()
  | some last => validateReopenedReviews last current

/-! Stored rounds. -/

/-- An ended round as it is stored. The corrections of the round are kept with
the signatures they started from. -/
structure RoundEntry where
  sourceVersion : Nat
  version : Nat
  transitionCount : Nat
  previousFinalization : FinalRecord
  previousReviews : List CandidateHumanReview
  candidateIds : List String
  actor : String
  reason : String
  reopenedAt : DateTime
  archived : Option (List CandidateHumanReview × List ReviewCorrection) := none
deriving DecidableEq

def openingRecord (plan : ReviewReopening) (final : FinalRecord) (transitionCount : Nat) : RoundEntry where
  sourceVersion := final.version
  version := final.version + 1
  transitionCount
  previousFinalization := final
  previousReviews := plan.previousReviews
  candidateIds := plan.candidateIds
  actor := plan.actor
  reason := plan.reason
  reopenedAt := plan.reopenedAt

/-- How stored reviews are named and measured, and what storage makes of a
double. Storing what was stored before changes nothing. -/
structure ReviewEncoding where
  reviewFingerprint : CandidateHumanReview → String
  recordSize : FinalRecord → Nat
  historySize : List RoundEntry → Nat
  storedDouble : ℚ → ℚ
  stable : ∀ value, storedDouble (storedDouble value) = storedDouble value

namespace ReviewEncoding

variable (encoding : ReviewEncoding)

def storedNumber : Number → Number
  | .int value => .int value
  | .double value => .double (encoding.storedDouble value)

def storedMetric (metric : GateMetric) : GateMetric :=
  { metric with value := encoding.storedNumber metric.value, threshold := metric.threshold.map encoding.storedNumber }

def storedResult (result : QualityGateResult) : QualityGateResult :=
  { result with metrics := result.metrics.map encoding.storedMetric }

/-- A record as it is read back. -/
def stored (record : FinalRecord) : FinalRecord :=
  { record with gateResult := encoding.storedResult record.gateResult }

/-- The record of a decision about the gates of one version of the Run. -/
def finalRecord (version : Nat) (releaseFingerprint : String) (quality : QualityGateResult) (actor reason : String) :
    Except Rejection FinalRecord := do
  let decision ← finalizeReview quality actor reason
  let record : FinalRecord :=
    ⟨version, version + 1, releaseFingerprint, decision.actor, decision.reason, decision.finalizedAt, decision.passed,
      decision.status, quality⟩
  require (encoding.recordSize record ≤ 256 * 1024) (.invalid "Finalization evidence exceeds response bound")
  pure record

end ReviewEncoding

end QsAi
