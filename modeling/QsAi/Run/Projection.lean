import QsAi.Foundation.Numbered
import QsAi.Run.Records

/-! Reconstruction of the slots of a Run from its rows. Every dispatch needs
terminal evidence, every completion needs its dispatch, and every accepted
candidate is checked against the judge calls that follow it. -/
namespace QsAi

open Guarded Keyed Numbered PyJson

def GenerationRow.IndexMatches (row : GenerationRow) : Prop :=
  row.evidence.executionId = row.executionId ∧ row.evidence.invocationId = row.invocationId ∧
    row.evidence.caseId = row.caseId ∧ row.evidence.slotOrdinal = row.slotOrdinal ∧
    row.evidence.executionOrdinal = row.executionOrdinal

instance (row : GenerationRow) : Decidable row.IndexMatches := inferInstanceAs (Decidable (_ ∧ _))

def SemanticRow.IndexMatches (row : SemanticRow) : Prop :=
  row.evidence.outputFingerprint = row.outputFingerprint ∧ row.evidence.executionId = row.executionId ∧
    row.evidence.invocationId = row.invocationId ∧ row.evidence.candidateId = row.candidateId ∧
    row.evidence.executionOrdinal = row.executionOrdinal

instance (row : SemanticRow) : Decidable row.IndexMatches := inferInstanceAs (Decidable (_ ∧ _))

def DispatchRow.IndexMatches (row : DispatchRow) : Prop :=
  row.executionId = row.checkpoint.executionId ∧ row.invocationId = row.checkpoint.invocationId ∧
    row.kind = row.checkpoint.kind ∧ row.caseId = row.checkpoint.caseId ∧
    row.slotOrdinal = row.checkpoint.slotOrdinal ∧ row.candidateId = row.checkpoint.candidateId

instance (row : DispatchRow) : Decidable row.IndexMatches := inferInstanceAs (Decidable (_ ∧ _))

def decodeCompletion (row : GenerationRow) : Except Rejection GenerationCompletion := do
  require row.IndexMatches (.conflict "Stored terminal identity differs from index")
  pure row.evidence

def decodeSemanticCompletion (row : SemanticRow) : Except Rejection SemanticCompletion := do
  require row.IndexMatches (.conflict "Semantic bytes or index differ from evidence")
  pure row.evidence

/-- A stored generation and the dispatch it ends. -/
def projectRecord (plan : List (String × Nat)) (ledger : List DispatchRow) (seen : List String)
    (row : GenerationRow) : Except Rejection String := do
  let value ← decodeCompletion row
  let entry ← demand (lookup (·.invocationId) ledger value.invocationId)
    (.conflict "Terminal evidence requires unique generation dispatch")
  require (entry.kind = .generation ∧ value.invocationId ∉ seen)
    (.conflict "Terminal evidence requires unique generation dispatch")
  require (value.matchesCheckpoint entry.checkpoint entry.checkpoint.owner)
    (.conflict "Stored completion does not match dispatch checkpoint")
  require entry.IndexMatches (.conflict "Dispatch index differs from checkpoint evidence")
  require ((value.caseId, value.slotOrdinal) ∈ plan) (.conflict "Stored completion outside frozen slots")
  pure value.invocationId

def projectRecords (plan : List (String × Nat)) (ledger : List DispatchRow) :
    List String → List GenerationRow → Except Rejection (List String)
  | seen, [] => pure seen
  | seen, row :: rest => do
      let invocationId ← projectRecord plan ledger seen row
      projectRecords plan ledger (invocationId :: seen) rest

/-- The stored result of a judge call is the reading of its bytes, and the
candidate holds exactly its decisions. -/
def checkSemanticResult (stored : Candidate) (value : SemanticCompletion) (result : Option SemanticResult) :
    Except Rejection Unit :=
  if value.status = .succeeded then do
    let output ← demand value.normalizedOutput.judgement (.invalid "scores")
    let result ← demand result (.conflict "Semantic result differs from normalized evidence")
    require (result.outputFingerprint = value.outputFingerprint ∧ (scoreNumbers result.scores).Perm (scoreNumbers output.scores) ∧
        encode (stripText output.rationale) = some result.rationale)
      (.conflict "Semantic result differs from normalized evidence")
    require (UniqueOn (·.key) output.decisions ∧ result.decisions.length = output.decisions.length)
      (.conflict "Semantic decisions incomplete or duplicated")
    let current ← demand stored.semanticAssertions (.invalid "semantic_assertions")
    checkDecisions result.evaluatorVersion current output.decisions result.decisions
  else require (result = none) (.conflict "Failed semantic execution cannot contain result")

/-- What the walk over a candidate's judge calls has found so far. -/
structure JudgeWalk where
  accepted : Option String
  seen : List String
  executions : List ExecutionResult

/-- The executions that recorded decisions authorize to replace and to repeat. -/
structure Authorizations where
  replaced : List String
  recovered : List String

def projectJudgeCall (stored : Candidate) (generated : GenerationCompletion) (ledger : List DispatchRow)
    (authorized : Authorizations) (walk : JudgeWalk) (row : SemanticRow) : Except Rejection JudgeWalk := do
  require (walk.accepted = none) (.conflict "Semantic execution continued after accepted result")
  let value ← decodeSemanticCompletion row
  let entry ← demand (lookup (·.invocationId) ledger value.invocationId)
    (.conflict "Semantic completion does not match candidate dispatch")
  require (value.matchesCheckpoint entry.checkpoint entry.checkpoint.owner generated.normalizedFingerprint ∧
      entry.checkpoint.slot = (generated.caseId, generated.slotOrdinal) ∧ value.invocationId ∉ walk.seen)
    (.conflict "Semantic completion does not match candidate dispatch")
  require entry.IndexMatches (.conflict "Semantic dispatch index mismatch")
  checkSemanticResult stored value row.result
  let execution ← ExecutionResult.make
    ⟨value.status, value.failure, decide (value.executionId ∈ authorized.replaced),
      decide (value.executionId ∈ authorized.recovered)⟩
  pure ⟨if value.status = .succeeded then some value.executionId else none, value.invocationId :: walk.seen,
    walk.executions ++ [execution]⟩

def projectJudgeCalls (stored : Candidate) (generated : GenerationCompletion) (ledger : List DispatchRow)
    (authorized : Authorizations) : JudgeWalk → List SemanticRow → Except Rejection JudgeWalk
  | walk, [] => pure walk
  | walk, row :: rest => do
      let next ← projectJudgeCall stored generated ledger authorized walk row
      projectJudgeCalls stored generated ledger authorized next rest

def projectCandidate (stored : Candidate) (generated : GenerationCompletion) (records : List SemanticRow)
    (ledger : List DispatchRow) (seen : List String) (authorized : Authorizations) :
    Except Rejection (CandidateProgress × List String) := do
  let history := sorted (·.executionOrdinal) (records.filter (·.candidateId = stored.id))
  require (history.map (·.executionOrdinal) = List.range' 1 history.length)
    (.conflict "Incomplete semantic execution sequence")
  let walk ← projectJudgeCalls stored generated ledger authorized ⟨none, seen, []⟩ history
  require (stored.reviewReady = walk.accepted.isSome ∧ stored.acceptedSemanticExecutionId = walk.accepted)
    (.conflict "Candidate review readiness lacks matching semantic evidence")
  let candidate ← CandidateProgress.make ⟨stored.id, stored.reviewReady, walk.executions⟩
  pure (candidate, walk.seen)

/-- What the walk over a slot's generations has found so far. -/
structure SlotWalk where
  candidate : Option CandidateProgress
  seen : List String
  executions : List ExecutionResult

/-- The candidate of one generation: a success owns one, a failure none. -/
def projectOutcome (records : List SemanticRow) (ledger : List DispatchRow) (authorized : Authorizations)
    (seen : List String) (row : GenerationRow) (value : GenerationCompletion) :
    Except Rejection (Option CandidateProgress × List String) :=
  if value.status = .succeeded then do
    let stored ← demand row.candidate (.conflict "Successful generation missing matching candidate")
    require (some stored.id = row.candidateId ∧ stored.generationExecutionId = value.executionId ∧
        stored.normalizedOutputFingerprint = value.normalizedFingerprint ∧
        stored.acceptedAt = value.finishedAt.isoformat ∧ stored.assertions ≠ [])
      (.conflict "Successful generation missing matching candidate")
    let (candidate, seen) ← projectCandidate stored value records ledger seen authorized
    pure (some candidate, seen)
  else do
    require (row.candidate = none ∧ row.candidateId = none) (.conflict "Failed execution cannot own candidate")
    pure (none, seen)

def projectGeneration (records : List SemanticRow) (ledger : List DispatchRow) (authorized : Authorizations)
    (walk : SlotWalk) (row : GenerationRow) : Except Rejection SlotWalk := do
  require (walk.candidate = none) (.conflict "Generation continued after candidate acceptance")
  let value := row.evidence
  let (candidate, seen) ← projectOutcome records ledger authorized walk.seen row value
  let execution ← ExecutionResult.make
    ⟨value.status, value.failure, decide (value.executionId ∈ authorized.replaced), false⟩
  pure ⟨candidate, seen, walk.executions ++ [execution]⟩

def projectGenerations (records : List SemanticRow) (ledger : List DispatchRow) (authorized : Authorizations) :
    SlotWalk → List GenerationRow → Except Rejection SlotWalk
  | walk, [] => pure walk
  | walk, row :: rest => do
      let next ← projectGeneration records ledger authorized walk row
      projectGenerations records ledger authorized next rest

def projectSlot (generations : List GenerationRow) (records : List SemanticRow) (ledger : List DispatchRow)
    (authorized : Authorizations) (seen : List String) (slot : String × Nat) :
    Except Rejection (SlotProgress × List String) := do
  let history := sorted (·.executionOrdinal) (generations.filter (·.slot = slot))
  require (history.map (·.executionOrdinal) = List.range' 1 history.length)
    (.conflict "Incomplete terminal execution sequence")
  let walk ← projectGenerations records ledger authorized ⟨none, seen, []⟩ history
  let progress ← SlotProgress.make ⟨slot.1, slot.2, walk.executions, walk.candidate⟩
  pure (progress, walk.seen)

def projectPlan (generations : List GenerationRow) (records : List SemanticRow) (ledger : List DispatchRow)
    (authorized : Authorizations) :
    List String → List (String × Nat) → Except Rejection (List SlotProgress × List String)
  | seen, [] => pure ([], seen)
  | seen, slot :: rest => do
      let (progress, seen) ← projectSlot generations records ledger authorized seen slot
      let (slots, seen) ← projectPlan generations records ledger authorized seen rest
      pure (progress :: slots, seen)

/-- All unknown executions of the rows, generations first. -/
def unknownExecutions (generations : List GenerationRow) (semantics : List SemanticRow) : List UnknownExecution :=
  ((generations.filter (·.evidence.status = .resultUnknown)).map fun r =>
      ⟨r.executionId, .generation, r.executionOrdinal, r.evidence.finishedAt⟩) ++
    (semantics.filter (·.evidence.status = .resultUnknown)).map fun r =>
      ⟨r.executionId, .semantic, r.executionOrdinal, r.evidence.finishedAt⟩

/-- The executions whose replacement the resolutions authorize. -/
def replacedExecutions (resolutions : List ResultUnknownResolution) : List String :=
  (resolutions.filter (·.decision = .authorizeReplacement)).map (·.executionId)

/-- Every dispatch must have terminal evidence before new preparation. -/
def projectSlots (plan : List (String × Nat)) (records : List GenerationRow) (dispatches : List DispatchRow)
    (semanticRecords : List SemanticRow) (resolutions : List ResultUnknownResolution)
    (contractRecoveries : List ContractRecovery) (policy : ExecutionPolicy) :
    Except Rejection (List SlotProgress) := do
  let semantics ← semanticRecords.mapM decodeSemanticCompletion
  let recovered ← validateRecoveries contractRecoveries semantics policy
  replayResolutions (unknownExecutions records semanticRecords) policy [] resolutions
  require (UniqueOn (·.invocationId) dispatches ∧ records.length + semanticRecords.length = dispatches.length)
    (.conflict "Dispatch and terminal evidence require reconciliation")
  let seen ← projectRecords plan dispatches [] records
  let (slots, seen) ← projectPlan records semanticRecords dispatches
    ⟨replacedExecutions resolutions, recovered⟩ seen plan
  require (∀ row ∈ dispatches, row.invocationId ∈ seen) (.conflict "Unmatched dispatch or semantic candidate")
  pure slots

end QsAi
