import QsAi.Run.Completions

/-! The review phase of a Run. Every step derives the gates again from the
stored evidence and every ended round from its own records; only then it
appends signatures, a correction, a decision or another round. -/
namespace QsAi

open Guarded Keyed Numbered

/-! Transitions of the review. -/

def finalTransition (record : FinalRecord) : Transition where
  source := some .awaitingReview
  target := record.status
  actor := record.actor
  cause := .humanReviewFinalized
  time := record.finalizedAt
  reason := some record.reason

def openingTransition (entry : RoundEntry) : Transition where
  source := some .rejected
  target := .awaitingReview
  actor := entry.actor
  cause := .semanticReviewReopened
  time := entry.reopenedAt
  reason := some entry.reason

/-- Two lists of signatures are equal, times compared as instants. -/
def sameReviews (a b : List CandidateHumanReview) : Prop :=
  a.length = b.length ∧ ∀ pair ∈ a.zip b, pair.1.Same pair.2

instance (a b : List CandidateHumanReview) : Decidable (sameReviews a b) := inferInstanceAs (Decidable (_ ∧ _))

/-- The closed evidence of a Run: what its gates are computed from, and the
number of transitions up to the closure. -/
structure GateContext where
  evidence : GateEvidence
  closureCount : Nat

structure GateSnapshot where
  quality : QualityGateResult
  candidates : List ReviewCandidate
  reviews : List CandidateHumanReview
  closedAt : DateTime

/-- An archive that is missing must not hide its transitions. -/
def Progress.hasReviewRounds (progress : Progress) : Prop :=
  progress.reviewReopenings ≠ [] ∨ ∃ t ∈ progress.transitions, t.cause = .semanticReviewReopened

instance (progress : Progress) : Decidable progress.hasReviewRounds := inferInstanceAs (Decidable (_ ∨ _))

/-- The transitions that closed the collection. -/
def Progress.closures (progress : Progress) : List Transition :=
  progress.transitions.filter (·.cause = .candidateEvidenceComplete)

namespace Store

variable (store : Store)

/-! The closed evidence. -/

/-- The candidate of a row as it is reviewed. -/
def reviewCandidate (row : GenerationRow) (stored : Candidate) : Except Rejection ReviewCandidate := do
  let generated ← decodeCompletion row
  let accepted ← demand (stored.acceptedSemanticExecutionId.bind (dict (·.executionId) store.semantics))
    (.invalid "accepted_semantic_execution_id")
  let semantic ← decodeSemanticCompletion accepted
  let result ← demand accepted.result (.invalid "result_json")
  let semanticAssertions ← demand stored.semanticAssertions (.invalid "semantic_assertions")
  ReviewCandidate.make
    { candidateId := stored.id, acceptedAt := generated.finishedAt, normalizedOutput := generated.normalizedOutput
      semantic, semanticEvaluator := result.evaluatorVersion, assertions := stored.assertions, semanticAssertions }

/-- The rows that own a candidate. -/
def acceptedRows : List (GenerationRow × Candidate) :=
  store.generations.filterMap fun row => row.candidate.map fun stored => (row, stored)

def qualityCandidates : Except Rejection (List QualityCandidate) :=
  store.acceptedRows.mapM fun (row, stored) => do
    let generated ← decodeCompletion row
    let candidate ← store.reviewCandidate row stored
    pure ⟨generated.caseId, generated.slotOrdinal, generated.executionId, candidate⟩

def slotOrder (a b : QualityCandidate) : Bool :=
  a.caseId < b.caseId || (a.caseId == b.caseId && a.slotOrdinal ≤ b.slotOrdinal)

/-- The history of the Run up to its closure, as it is validated. -/
def closedInventory (preflight : PreflightEvidence) (slots : List SlotProgress)
    (generations : List GenerationCompletion) (semantics : List SemanticCompletion) (closureCount : Nat) :
    ClosedInventory where
  createdAt := store.creation.createdAt
  requestedBy := store.creation.requestedBy
  transitions := (store.progress.transitions.take closureCount).map (·.toClosureTransition)
  preflight
  slots
  generations
  semantics
  resolutions := store.progress.resultUnknownResolutions
  policy := store.creation.policy
  contractRecoveries := store.progress.semanticContractRecoveries

/-- Derive the closed evidence again from all records of the Run. -/
def gateContext : Except Rejection GateContext := do
  let preflight ← demand store.progress.preflight (.invalid "preflight")
  require (store.creation.assets.runPreflight preflight.evaluatedAt = some preflight)
    (.invalid "Preflight evidence differs from frozen rejection case")
  require (store.generations.length ≤ store.creation.policy.generationPerRun ∧
      store.semantics.length ≤ store.creation.policy.semanticPerRun ∧
      store.dispatches.length ≤ store.creation.policy.generationPerRun + store.creation.policy.semanticPerRun)
    (.invalid "Persisted execution budget exceeded")
  let slots ← projectSlots store.creation.slots store.generations store.dispatches store.semantics
    store.progress.resultUnknownResolutions store.progress.semanticContractRecoveries store.creation.policy
  let generations ← store.generations.mapM decodeCompletion
  let semantics ← store.semantics.mapM decodeSemanticCompletion
  require (store.progress.closures.length = 1) (.invalid "Unique original collection closure required")
  let closureCount := store.progress.transitions.findIdx (·.cause = .candidateEvidenceComplete) + 1
  require (∀ t ∈ store.progress.transitions, t.cause = .evaluationStarted → validReason (t.reason.getD "") = true)
    (.invalid "Start transition requires an audited reason")
  require (store.progress.transitions.take 1 = (createRun store.creation).progress.transitions)
    (.invalid "Initial Run history differs from frozen creation")
  let closedAt ← (store.closedInventory preflight slots generations semantics closureCount).validateClosedInventory
  require (∀ row ∈ store.dispatches,
      preflight.evaluatedAt ≤ row.checkpoint.claimedAt ∧ row.checkpoint.claimedAt ≤ closedAt)
    (.invalid "Dispatch preparation is outside evidence collection")
  let candidates ← store.qualityCandidates
  pure ⟨⟨candidates.mergeSort slotOrder, generations, semantics, store.creation.assets.thresholds, closedAt,
    store.creation.assets.completionRule⟩, closureCount⟩

/-! Ended rounds. -/

/-- The signatures of an ended round follow from its originals and corrections. -/
def checkArchive (context : GateContext) (entry : RoundEntry) : Except Rejection Unit :=
  match entry.archived with
  | none => pure ()
  | some (originals, stored) => do
      let corrections ← decodeCorrections store.creation.assets.encoding.reviewFingerprint stored
      let projected ← validateCorrections originals corrections context.evidence.targets context.evidence.closedAt
        entry.previousFinalization.sourceVersion entry.previousFinalization.finalizedAt "v2"
      require (sameReviews projected entry.previousReviews)
        (.invalid "Archived correction projection differs from final reviews")

/-- One ended round: its gates and its reopening are computed again and compared
with what was stored. -/
def checkRound (context : GateContext) (time : DateTime) (index previousVersion : Nat) (entry : RoundEntry) :
    Except Rejection ReviewReopening := do
  let final := entry.previousFinalization
  require (previousVersion ≤ final.sourceVersion) (.invalid "Historical finalization version is invalid")
  store.checkArchive context entry
  let quality ← context.evidence.evaluateQualityGates entry.previousReviews final.finalizedAt
  let expected ← store.creation.assets.encoding.finalRecord final.sourceVersion store.creation.releaseFingerprint
    quality final.actor final.reason
  require (final = expected) (.invalid "Historical final gate differs from original evidence")
  let plan ← reopenReview context.evidence.targets entry.previousReviews quality context.evidence.closedAt entry.actor
    entry.reason entry.reopenedAt final.status "v2" index
  let boundary := context.closureCount + index * 2 + 1
  require (entry = { openingRecord plan expected boundary with archived := entry.archived } ∧
      store.progress.transitions[boundary - 1]? = some (finalTransition final) ∧
      store.progress.transitions[boundary]? = some (openingTransition entry) ∧
      entry.version ≤ store.version ∧ plan.reopenedAt ≤ time)
    (.invalid "Historical reopening audit differs from its Run boundary")
  pure plan

def checkRounds (context : GateContext) (time : DateTime) :
    Nat → Nat → List RoundEntry → Except Rejection (List ReviewReopening)
  | _, _, [] => pure []
  | index, previousVersion, entry :: rest => do
      let plan ← store.checkRound context time index previousVersion entry
      let plans ← checkRounds context time (index + 1) entry.version rest
      pure (plan :: plans)

/-- Every ended round before the current one is trusted. -/
def validateRounds (context : GateContext) (time : DateTime) : Except Rejection Unit := do
  require (store.progress.reviewReopenings.length ≤ 3) (.invalid "Bounded review history required")
  require (store.creation.assets.encoding.historySize store.progress.reviewReopenings ≤ 2 * 1024 * 1024)
    (.invalid "Review history exceeds response bound")
  require (store.progress.transitions.length = context.closureCount + 2 * store.progress.reviewReopenings.length)
    (.invalid "Review transitions differ from archived rounds")
  let plans ← store.checkRounds context time 0 1 store.progress.reviewReopenings
  let corrections ← decodeCorrections store.creation.assets.encoding.reviewFingerprint store.progress.reviewCorrections
  require (∀ last ∈ store.progress.reviewReopenings.getLast?, ∀ c ∈ corrections,
      last.reopenedAt ≤ c.review.reviewedAt)
    (.invalid "Correction predates current review round")
  validateReopeningHistory plans store.progress.humanReviews context.evidence.targets context.evidence.closedAt "v2"

/-! The snapshot. -/

/-- The gates of the closed evidence under the current signatures. -/
def reviewSnapshot (context : GateContext) (time : DateTime) : Except Rejection GateSnapshot := do
  let corrections ← decodeCorrections store.creation.assets.encoding.reviewFingerprint store.progress.reviewCorrections
  let reviews ← validateCorrections store.progress.humanReviews corrections context.evidence.targets
    context.evidence.closedAt store.version time store.creation.assets.gateVersion
  store.validateRounds context time
  let quality ← context.evidence.evaluateQualityGates reviews time
  pure ⟨quality, context.evidence.targets, reviews, context.evidence.closedAt⟩

def loadSnapshot (expectedVersion : Nat) (time : DateTime) : Except Rejection GateSnapshot := do
  require (store.version = expectedVersion) (.conflict "Gate preview version changed")
  require (store.checkpoint = none) (.conflict "Gate preview requires no active execution")
  require (store.progress.status = .awaitingReview) (.conflict "Gate preview requires a closed review inventory")
  require (store.progress.unresolvedResultUnknownCount = 0 ∧ store.progress.canceledAt = none ∧
      store.progress.gateResult = none ∧ store.progress.finalizedAt = none)
    (.conflict "Closed Run progress requires reconciliation")
  let context ← store.gateContext
  store.reviewSnapshot context time

/-- The Run under its lock, without active work. -/
def lockReview (expectedVersion : Nat) : Except Rejection Unit :=
  require (store.version = expectedVersion ∧ store.checkpoint = none) (.conflict "Finalization version changed")

/-- Save a progress under the next version. -/
def saveProgress (expectedVersion : Nat) (progress : Progress) : Except Rejection Store := do
  let saved ← store.saveCheckpoint expectedVersion none
  pure { saved with progress }

/-! Signatures. -/

/-- New signatures of reopened candidates follow the reopening. -/
def checkReopened (values : List CandidateHumanReview) : Except Rejection Unit :=
  if store.progress.hasReviewRounds then do
    let latest ← demand store.progress.reviewReopenings.getLast? (.invalid "IndexError")
    require (∀ v ∈ values, v.candidateId ∈ latest.candidateIds → latest.reopenedAt ≤ v.reviewedAt)
      (.invalid "New signature predates reopening")
  else pure ()

/-- The evidence is complete: nothing is left to execute. -/
def checkReviewable : Except Rejection DateTime := do
  let slots ← projectSlots store.creation.slots store.generations store.dispatches store.semantics
    store.progress.resultUnknownResolutions store.progress.semanticContractRecoveries store.creation.policy
  let preflight ← demand store.progress.preflight (.invalid "preflight")
  let action ← nextAction .collecting preflight.status preflight.caseId slots store.creation.policy none
    store.progress.unresolvedResultUnknownCount
  require (action.kind = .awaitReview) (.conflict "Review requires complete frozen candidate evidence")
  match store.progress.closures with
  | [closure] => pure closure.time
  | _ => throw (.conflict "Unique candidate evidence closure required")

/-- Accept a batch of signatures of one reviewer in one role. -/
def acceptReviews (expectedVersion : Nat) (actor : String) (values : List CandidateHumanReview) :
    Except Rejection Store := do
  require (1 ≤ expectedVersion ∧ (1 ≤ values.length ∧ values.length ≤ 35) ∧ (∀ v ∈ values, v.reviewer = actor) ∧
      (values.map (·.role)).dedup.length = 1)
    (.invalid "Trusted reviewer, single role and Run version required")
  require (store.version = expectedVersion ∧ store.checkpoint = none)
    (.conflict "Run version changed or execution is active")
  require (store.progress.status = .awaitingReview) (.conflict "Run is not awaiting review")
  if store.progress.hasReviewRounds ∨ store.progress.reviewCorrections ≠ [] then
    let first ← demand (values.map (·.reviewedAt)).head? (.invalid "max() arg is an empty sequence")
    let _ ← store.loadSnapshot expectedVersion (DateTime.latest first (values.map (·.reviewedAt)).tail)
  store.checkReopened values
  let closedAt ← store.checkReviewable
  let candidates ← store.acceptedRows.mapM fun (row, stored) => store.reviewCandidate row stored
  let reviews ← addHumanReviews store.progress.status closedAt candidates store.progress.humanReviews values
    store.creation.assets.gateVersion
  store.saveProgress expectedVersion { store.progress with humanReviews := reviews }

/-! Corrections. -/

/-- The corrections of the current round and of every ended one. -/
def correctionArchives : List (List ReviewCorrection) :=
  store.progress.reviewCorrections ::
    store.progress.reviewReopenings.map fun entry => (entry.archived.map (·.2)).getD []

/-- Every correction the Run ever recorded. -/
def recordedCorrections : List ReviewCorrection := store.correctionArchives.flatten

/-- The correction that a command left; an archive is read again when the ones
before it do not hold the command. -/
def findCorrection (fingerprint : CandidateHumanReview → String) (commandId : String) :
    List (List ReviewCorrection) → Except Rejection (Option ReviewCorrection)
  | [] => pure none
  | archive :: rest => do
      let corrections ← decodeCorrections fingerprint archive
      match lookup (·.commandId) corrections commandId with
      | some prior => pure (some prior)
      | none => findCorrection fingerprint commandId rest

/-- The command as it was recorded before. -/
def ReplaysCorrection (expectedVersion : Nat) (actor previousReviewFingerprint candidateOutputFingerprint : String)
    (value : CandidateHumanReview) (prior : ReviewCorrection) : Prop :=
  prior.sourceVersion = expectedVersion ∧ prior.previousReviewFingerprint = previousReviewFingerprint ∧
    prior.candidateOutputFingerprint = candidateOutputFingerprint ∧ prior.review.candidateId = value.candidateId ∧
    prior.review.role = value.role ∧ prior.review.reviewer = actor ∧ prior.review.decision = value.decision ∧
    prior.review.reason = value.reason

instance (expectedVersion : Nat) (actor previousReviewFingerprint candidateOutputFingerprint : String)
    (value : CandidateHumanReview) (prior : ReviewCorrection) : Decidable (ReplaysCorrection expectedVersion actor
      previousReviewFingerprint candidateOutputFingerprint value prior) := inferInstanceAs (Decidable (_ ∧ _))

/-- Correct one's own signature. A command that was recorded before changes
nothing. -/
def correctReview (expectedVersion : Nat) (actor commandId previousReviewFingerprint candidateOutputFingerprint : String)
    (value : CandidateHumanReview) : Except Rejection Store := do
  require (1 ≤ expectedVersion ∧ value.reviewer = actor)
    (.invalid "Trusted original reviewer and explicit version required")
  store.lockReview store.version
  let recorded ← findCorrection store.creation.assets.encoding.reviewFingerprint commandId store.correctionArchives
  match recorded with
  | some prior => do
      require (ReplaysCorrection expectedVersion actor previousReviewFingerprint candidateOutputFingerprint value prior)
        (.conflict "Correction command ID reused with different intent")
      pure store
  | none => do
      require (store.version = expectedVersion ∧ store.progress.status = .awaitingReview)
        (.conflict "Review correction requires current awaiting-review version")
      let snapshot ← store.loadSnapshot store.version value.reviewedAt
      match snapshot.reviews.filter (·.key = value.key) with
      | [previous] => do
          require (previous.reviewer = actor) (.invalid "Only the original reviewer may correct their own decision")
          let entry ← ReviewCorrection.make store.creation.assets.encoding.reviewFingerprint
            { commandId, sourceVersion := store.version, version := store.version + 1, previousReviewFingerprint
              candidateOutputFingerprint, previousReview := previous, review := value }
          let corrections := store.progress.reviewCorrections ++ [entry]
          let _ ← validateCorrections store.progress.humanReviews corrections snapshot.candidates snapshot.closedAt
            (store.version + 1) value.reviewedAt "v2"
          store.saveProgress store.version { store.progress with reviewCorrections := corrections }
      | _ => throw (.invalid "Only the original reviewer may correct their own decision")

/-! Decisions. -/

/-- Decide a complete review under its gates. -/
def finalize (expectedVersion : Nat) (actor : String) (expectedPassed : Bool) (reason : String) (time : DateTime)
    (confirm : Bool) : Except Rejection Store := do
  require (confirm = true ∧ 1 ≤ expectedVersion)
    (.invalid "Explicit version, expected outcome and confirmation required")
  store.lockReview expectedVersion
  let snapshot ← store.loadSnapshot expectedVersion time
  let record ← store.creation.assets.encoding.finalRecord store.version store.creation.releaseFingerprint
    snapshot.quality actor reason
  require (record.passed = expectedPassed) (.conflict "Gate outcome changed; refresh preview")
  store.saveProgress expectedVersion
    { store.progress with
      status := record.status
      finalizedAt := some record.finalizedAt
      gateResult := some (store.creation.assets.encoding.stored record)
      transitions := store.progress.transitions ++ [finalTransition record] }

/-- The Run as it was before its decision. -/
def awaiting (record : FinalRecord) : Store :=
  { store with
    version := record.sourceVersion
    progress := { store.progress with
      status := .awaitingReview
      gateResult := none
      finalizedAt := none
      transitions := store.progress.transitions.dropLast } }

/-- The decision as it is derived from the evidence, compared after storage made
the same of its numbers. -/
def verifiedFinalSnapshot : Except Rejection GateSnapshot := do
  let record ← demand store.progress.gateResult (.invalid "Final status and gate decision disagree")
  require (store.progress.status = .approved ∨ store.progress.status = .rejected)
    (.invalid "Final status and gate decision disagree")
  require (1 ≤ record.sourceVersion ∧ store.version = record.sourceVersion + 1 ∧
      store.progress.finalizedAt = some record.finalizedAt ∧ store.progress.status = record.status ∧
      store.progress.transitions.getLast? = some (finalTransition record))
    (.invalid "Finalized Run audit requires reconciliation")
  let snapshot ← (store.awaiting record).loadSnapshot record.sourceVersion record.finalizedAt
  let expected ← store.creation.assets.encoding.finalRecord record.sourceVersion store.creation.releaseFingerprint
    snapshot.quality record.actor record.reason
  require (record = store.creation.assets.encoding.stored expected) (.invalid "Final gate differs from original evidence")
  pure snapshot

/-- The decision of the Run and whether it can be reopened. -/
def readFinalization (now : DateTime) : Except Rejection (Option FinalRecord × Bool) :=
  if store.progress.gateResult = none ∧ ¬ (store.progress.status = .approved ∨ store.progress.status = .rejected) then do
    require (store.progress.finalizedAt = none) (.invalid "Finalization audit without a gate decision")
    if store.progress.hasReviewRounds ∨ store.progress.reviewCorrections ≠ [] then
      let _ ← store.loadSnapshot store.version now
    pure (none, false)
  else do
    let snapshot ← store.verifiedFinalSnapshot
    let ids ← eligibleCandidateIds snapshot.candidates snapshot.reviews snapshot.quality snapshot.closedAt
      store.progress.status "v2" store.progress.reviewReopenings.length
    pure (store.progress.gateResult, !ids.isEmpty)

/-- Keep the rejected round and open another one for the reviews it rests on. -/
def reopenedProgress (actor reason : String) (time : DateTime) (snapshot : GateSnapshot) :
    Except Rejection Progress := do
  require (store.progress.status = .rejected) (.conflict "Only a finalized rejection can be reopened")
  let plan ← reopenReview snapshot.candidates snapshot.reviews snapshot.quality snapshot.closedAt actor reason time
    store.progress.status "v2" store.progress.reviewReopenings.length
  let final ← demand store.progress.gateResult (.invalid "gate_result")
  let entry := { openingRecord plan final store.progress.transitions.length with
    archived := if store.progress.reviewCorrections ≠ [] then
      some (store.progress.humanReviews, store.progress.reviewCorrections) else none }
  let history := store.progress.reviewReopenings ++ [entry]
  require (store.creation.assets.encoding.historySize history ≤ 2 * 1024 * 1024)
    (.invalid "Review history exceeds response bound")
  pure { store.progress with
    status := .awaitingReview
    gateResult := none
    finalizedAt := none
    humanReviews := plan.retainedReviews
    reviewReopenings := history
    reviewCorrections := []
    transitions := store.progress.transitions ++ [openingTransition entry] }

def reopen (expectedVersion : Nat) (actor reason : String) (time : DateTime) (confirm : Bool) :
    Except Rejection Store := do
  require (confirm = true ∧ 1 ≤ expectedVersion) (.invalid "Explicit version and confirmation required")
  store.lockReview expectedVersion
  require (store.progress.status = .rejected) (.conflict "Only a finalized rejection can be reopened")
  let snapshot ← store.verifiedFinalSnapshot
  let progress ← store.reopenedProgress actor reason time snapshot
  store.saveProgress expectedVersion progress

end Store

end QsAi
