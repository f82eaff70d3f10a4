import QsAi.Evaluation.Checkpoint
import QsAi.Evaluation.Judgement
import QsAi.Evaluation.Policy

/-! Terminal evidence. A completion is what one dispatched call left behind: a
generation completion binds to a slot, a semantic completion to the accepted
candidate of a slot. Stored bytes come with their digest and with the document
they decode to, which is all that any reader takes from them. -/
namespace QsAi

open Guarded PyJson

inductive CompletionStatus
  | succeeded
  | failed
  | resultUnknown
deriving DecidableEq, Repr

/-- The value that UTF-8 bytes spell, if they spell one. -/
def readDocument (bytes : List UInt8) : Option Value :=
  (String.fromUTF8? ⟨bytes.toArray⟩).bind fun content => (loads overwrite none (text content)).toOption

/-- Output bytes, their SHA-256 in hexadecimal and their JSON reading, if any. -/
structure Output where
  bytes : List UInt8
  sha256 : String
  document : Option Value
  decoded : document = readDocument bytes

instance : DecidableEq Output := fun a b =>
  decidable_of_iff (a.bytes = b.bytes ∧ a.sha256 = b.sha256) <| by
    constructor
    · rintro ⟨hBytes, hDigest⟩
      cases a with
      | mk bytes sha256 document decoded =>
          cases b with
          | mk bytes' sha256' document' decoded' =>
              cases hBytes
              cases hDigest
              cases decoded.trans decoded'.symm
              rfl
    · rintro rfl
      exact ⟨rfl, rfl⟩

namespace Output

/-- No bytes at all. -/
def empty : Output where
  bytes := []
  sha256 := "e3b0c44298fc1c149afbf4c8996fb92427ae41e4649b934ca495991b7852b855"
  document := none
  decoded := by decide +kernel

/-- The encoded bytes of a text under the given digest. -/
def ofString (content sha256 : String) : Output where
  bytes := content.toUTF8.data.toList
  sha256
  document := (loads overwrite none (text content)).toOption
  decoded := by
    have hValid : ByteArray.IsValidUTF8 ⟨content.toUTF8.data⟩ := content.isValidUTF8
    rw [readDocument, String.fromUTF8?, Array.toArray_toList, dif_pos hValid]
    rfl

/-- The judge's reading of the bytes. -/
def judgement (output : Output) : Option SemanticDocument := output.document.bind readJudgement

def isEmpty (output : Output) : Bool := output.bytes.isEmpty

def fingerprint (output : Output) : String := "sha256:" ++ output.sha256

def bounded (output : Output) : Prop := output.bytes.length ≤ 256 * 1024

instance (output : Output) : Decidable output.bounded := inferInstanceAs (Decidable (_ ≤ _))

end Output

/-- What the provider reported about one call. -/
structure ProviderReceipt where
  invocationId : String
  requestId : String
  provider : String
  model : String
  inputTokens : Option Nat
  outputTokens : Option Nat
  latencyNs : Nat
  identity : validId invocationId = true ∧ validId requestId = true
  route : validCode provider = true ∧ strip model ≠ "" ∧ byteLength model ≤ 128
  usage : ∀ count ∈ inputTokens.toList ++ outputTokens.toList, count < 2 ^ 63
  latency : latencyNs < 2 ^ 63
deriving DecidableEq

structure GenerationFields where
  executionId : String
  caseId : String
  slotOrdinal : Nat
  executionOrdinal : Nat
  invocationId : String
  status : CompletionStatus
  startedAt : DateTime
  finishedAt : DateTime
  providerCallCount : Nat
  receipt : Option ProviderReceipt := none
  rawOutput : Output := .empty
  normalizedOutput : Output := .empty
  normalizedFingerprint : String := ""
  failure : Option ClassifiedFailure := none
deriving DecidableEq

/-- The recorded fingerprint is the digest of the normalized JSON bytes. -/
def GenerationFields.checkNormalized (f : GenerationFields) : Except Rejection Unit :=
  if f.normalizedOutput.isEmpty then
    require (f.normalizedFingerprint = "") (.invalid "Fingerprint requires normalized output")
  else do
    require (f.normalizedOutput.document ≠ none) (.invalid "Non-JSON normalized output")
    require (f.normalizedFingerprint = f.normalizedOutput.fingerprint)
      (.invalid "Normalized output fingerprint mismatch")

def GenerationFields.checkStatus (f : GenerationFields) : Except Rejection Unit :=
  match f.status with
  | .succeeded =>
      require (f.receipt ≠ none ∧ f.rawOutput.isEmpty = false ∧ f.normalizedOutput.isEmpty = false ∧
        f.failure = none) (.invalid "Successful execution evidence incomplete")
  | status =>
      match f.failure with
      | none => throw (.invalid "Terminal failure classification mismatch")
      | some failure =>
          require (failure.candidateExists = false ∧ failure.resultUnknown = (status == .resultUnknown))
            (.invalid "Terminal failure classification mismatch")

/-- A receipt stands for exactly one call of this invocation. -/
def receiptMatches (receipt : Option ProviderReceipt) (callCount : Nat) (invocationId : String) : Prop :=
  ∀ value ∈ receipt, callCount = 1 ∧ value.invocationId = invocationId

instance (receipt : Option ProviderReceipt) (callCount : Nat) (invocationId : String) :
    Decidable (receiptMatches receipt callCount invocationId) :=
  inferInstanceAs (Decidable (∀ value ∈ receipt, _))

def GenerationFields.check (f : GenerationFields) : Except Rejection Unit := do
  require (∀ value ∈ [f.executionId, f.caseId, f.invocationId], validId value = true)
    (.invalid "Invalid execution identity")
  require ((1 ≤ f.slotOrdinal ∧ f.slotOrdinal ≤ 5) ∧ 1 ≤ f.executionOrdinal ∧ f.executionOrdinal ≤ 2)
    (.invalid "Invalid execution ordinal")
  require (f.startedAt ≤ f.finishedAt) (.invalid "Invalid execution times")
  require (f.providerCallCount = 0 ∨ f.providerCallCount = 1) (.invalid "Invalid provider call count")
  require (f.rawOutput.bounded ∧ f.normalizedOutput.bounded)
    (.invalid "Output evidence exceeds bound or is not bytes")
  f.checkNormalized
  require (receiptMatches f.receipt f.providerCallCount f.invocationId)
    (.invalid "Receipt does not match execution")
  f.checkStatus

structure GenerationCompletion extends GenerationFields where
  checked : toGenerationFields.check = .ok ()
deriving DecidableEq

namespace GenerationCompletion

def make (fields : GenerationFields) : Except Rejection GenerationCompletion :=
  certify fields.check fun h => ⟨fields, h⟩

theorem make_ok {fields : GenerationFields} {completion : GenerationCompletion}
    (h : make fields = .ok completion) : completion.toGenerationFields = fields := by
  obtain ⟨_, rfl⟩ := (certify_ok _ _ _).mp h
  rfl

/-- The completion ends exactly the dispatched call the checkpoint owns. -/
def matchesCheckpoint (completion : GenerationCompletion) (cp : ExecutionCheckpoint) (owner : String) : Prop :=
  cp.phase = .dispatching ∧ cp.kind = .generation ∧ cp.owner = strip owner ∧
    completion.executionId = cp.executionId ∧ completion.invocationId = cp.invocationId ∧
    completion.caseId = cp.caseId ∧ completion.slotOrdinal = cp.slotOrdinal ∧
    completion.executionOrdinal = cp.executionOrdinal ∧
    ∃ time ∈ cp.dispatchStartedAt, time ≤ completion.startedAt

instance (completion : GenerationCompletion) (cp : ExecutionCheckpoint) (owner : String) :
    Decidable (completion.matchesCheckpoint cp owner) :=
  inferInstanceAs (Decidable (_ ∧ _))

theorem startedAt_le_finishedAt (completion : GenerationCompletion) :
    completion.startedAt ≤ completion.finishedAt := by
  have h := completion.checked
  simp only [GenerationFields.check, bind_ok, require_ok, exists_const] at h
  exact h.2.2.1

/-- The status part of the check, as facts about the failure. -/
theorem status_facts (completion : GenerationCompletion) :
    (completion.status = .succeeded → completion.receipt ≠ none ∧
      completion.normalizedOutput.isEmpty = false ∧ completion.failure = none) ∧
    (completion.status ≠ .succeeded → ∃ failure, completion.failure = some failure ∧
      failure.resultUnknown = (completion.status == .resultUnknown)) := by
  have h := completion.checked
  simp only [GenerationFields.check, bind_ok, require_ok, exists_const] at h
  obtain ⟨_, _, _, _, _, _, _, _, hStatus⟩ := h
  unfold GenerationFields.checkStatus at hStatus
  constructor
  · intro hSucceeded
    simp only [hSucceeded, require_ok] at hStatus
    exact ⟨hStatus.1, hStatus.2.2.1, hStatus.2.2.2⟩
  · intro hNot
    cases hFailure : completion.failure with
    | none => cases hCase : completion.status <;> simp_all
    | some failure => cases hCase : completion.status <;> simp_all

theorem ids_valid (completion : GenerationCompletion) :
    validId completion.executionId = true ∧ validId completion.invocationId = true := by
  have h := completion.checked
  simp only [GenerationFields.check, bind_ok, require_ok, exists_const, List.forall_mem_cons] at h
  exact ⟨h.1.1, h.1.2.2.1⟩

end GenerationCompletion

structure SemanticFields where
  executionId : String
  candidateId : String
  candidateOutputFingerprint : String
  executionOrdinal : Nat
  invocationId : String
  status : CompletionStatus
  startedAt : DateTime
  finishedAt : DateTime
  providerCallCount : Nat
  receipt : Option ProviderReceipt := none
  rawOutput : Output := .empty
  normalizedOutput : Output := .empty
  failure : Option ClassifiedFailure := none
deriving DecidableEq

private def semanticFailureKind (kind : FailureKind) : Bool :=
  kind == .resultUnknown || kind == .semanticExecution || kind == .infrastructureExecution ||
    kind == .providerProtocol

def SemanticFields.checkSucceeded (f : SemanticFields) : Except Rejection Unit := do
  require (f.receipt ≠ none ∧ f.rawOutput.isEmpty = false ∧ f.normalizedOutput.isEmpty = false ∧
    f.failure = none) (.invalid "Successful semantic evidence incomplete")
  require (f.normalizedOutput.document ≠ none) (.invalid "Invalid semantic JSON")

def SemanticFields.checkStatus (f : SemanticFields) : Except Rejection Unit :=
  match f.status with
  | .succeeded => f.checkSucceeded
  | status =>
      match f.failure with
      | none => throw (.invalid "Invalid semantic failure classification")
      | some failure =>
          require (failure.resultUnknown = (status == .resultUnknown) ∧
            semanticFailureKind failure.kind = true) (.invalid "Invalid semantic failure classification")

def SemanticFields.check (f : SemanticFields) : Except Rejection Unit := do
  require (∀ value ∈ [f.executionId, f.candidateId, f.invocationId], validId value = true)
    (.invalid "Invalid semantic execution identity")
  require (validFingerprint f.candidateOutputFingerprint = true)
    (.invalid "Semantic execution requires candidate output fingerprint")
  require (1 ≤ f.executionOrdinal ∧ f.executionOrdinal ≤ 2) (.invalid "Invalid semantic execution ordinal")
  require (f.startedAt ≤ f.finishedAt) (.invalid "Invalid semantic execution times")
  require (f.providerCallCount = 0 ∨ f.providerCallCount = 1)
    (.invalid "Invalid semantic provider call count")
  require (f.rawOutput.bounded ∧ f.normalizedOutput.bounded)
    (.invalid "Semantic output exceeds bound or is not bytes")
  require (receiptMatches f.receipt f.providerCallCount f.invocationId)
    (.invalid "Semantic receipt does not match invocation")
  f.checkStatus

structure SemanticCompletion extends SemanticFields where
  checked : toSemanticFields.check = .ok ()
deriving DecidableEq

namespace SemanticCompletion

def make (fields : SemanticFields) : Except Rejection SemanticCompletion :=
  certify fields.check fun h => ⟨fields, h⟩

theorem make_ok {fields : SemanticFields} {completion : SemanticCompletion}
    (h : make fields = .ok completion) : completion.toSemanticFields = fields := by
  obtain ⟨_, rfl⟩ := (certify_ok _ _ _).mp h
  rfl

def outputFingerprint (completion : SemanticCompletion) : String :=
  completion.normalizedOutput.fingerprint

/-- The completion ends the judge call of the candidate with this fingerprint. -/
def matchesCheckpoint (completion : SemanticCompletion) (cp : ExecutionCheckpoint) (owner : String)
    (candidateFingerprint : String) : Prop :=
  cp.kind = .semantic ∧ cp.phase = .dispatching ∧ cp.owner = strip owner ∧
    completion.executionId = cp.executionId ∧ completion.candidateId = cp.candidateId ∧
    completion.executionOrdinal = cp.executionOrdinal ∧ completion.invocationId = cp.invocationId ∧
    completion.candidateOutputFingerprint = candidateFingerprint ∧
    ∃ time ∈ cp.dispatchStartedAt, time ≤ completion.startedAt

instance (completion : SemanticCompletion) (cp : ExecutionCheckpoint) (owner fingerprint : String) :
    Decidable (completion.matchesCheckpoint cp owner fingerprint) :=
  inferInstanceAs (Decidable (_ ∧ _))

theorem startedAt_le_finishedAt (completion : SemanticCompletion) :
    completion.startedAt ≤ completion.finishedAt := by
  have h := completion.checked
  simp only [SemanticFields.check, bind_ok, require_ok, exists_const] at h
  exact h.2.2.2.1

theorem status_facts (completion : SemanticCompletion) :
    (completion.status = .succeeded → completion.receipt ≠ none ∧
      completion.normalizedOutput.isEmpty = false ∧ completion.failure = none) ∧
    (completion.status ≠ .succeeded → ∃ failure, completion.failure = some failure ∧
      failure.resultUnknown = (completion.status == .resultUnknown)) := by
  have h := completion.checked
  simp only [SemanticFields.check, bind_ok, require_ok, exists_const] at h
  obtain ⟨_, _, _, _, _, _, _, hStatus⟩ := h
  unfold SemanticFields.checkStatus at hStatus
  constructor
  · intro hSucceeded
    simp only [hSucceeded, SemanticFields.checkSucceeded, bind_ok, require_ok, exists_const] at hStatus
    exact ⟨hStatus.1.1, hStatus.1.2.2.1, hStatus.1.2.2.2⟩
  · intro hNot
    cases hFailure : completion.failure with
    | none => cases hCase : completion.status <;> simp_all
    | some failure => cases hCase : completion.status <;> simp_all

theorem ids_valid (completion : SemanticCompletion) :
    validId completion.executionId = true ∧ validId completion.candidateId = true ∧
    validId completion.invocationId = true := by
  have h := completion.checked
  simp only [SemanticFields.check, bind_ok, require_ok, exists_const, List.forall_mem_cons] at h
  exact ⟨h.1.1, h.1.2.1, h.1.2.2.1⟩

end SemanticCompletion

/-- Terminal evidence of either stage. -/
inductive Completion
  | generation (value : GenerationCompletion)
  | semantic (value : SemanticCompletion)
deriving DecidableEq

namespace Completion

def kind : Completion → ExecutionKind
  | .generation _ => .generation
  | .semantic _ => .semantic

def executionId : Completion → String
  | .generation value => value.executionId
  | .semantic value => value.executionId

def invocationId : Completion → String
  | .generation value => value.invocationId
  | .semantic value => value.invocationId

def executionOrdinal : Completion → Nat
  | .generation value => value.executionOrdinal
  | .semantic value => value.executionOrdinal

def status : Completion → CompletionStatus
  | .generation value => value.status
  | .semantic value => value.status

def failure : Completion → Option ClassifiedFailure
  | .generation value => value.failure
  | .semantic value => value.failure

def startedAt : Completion → DateTime
  | .generation value => value.startedAt
  | .semantic value => value.startedAt

def finishedAt : Completion → DateTime
  | .generation value => value.finishedAt
  | .semantic value => value.finishedAt

theorem startedAt_le_finishedAt (completion : Completion) : completion.startedAt ≤ completion.finishedAt := by
  cases completion with
  | generation value => exact value.startedAt_le_finishedAt
  | semantic value => exact value.startedAt_le_finishedAt

end Completion

end QsAi
