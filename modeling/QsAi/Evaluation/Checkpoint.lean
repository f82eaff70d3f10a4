import QsAi.Foundation.Guarded
import QsAi.Text
import QsAi.Time

/-! One in-flight execution. A checkpoint names the call it owns, the worker
that owns it and the lease, and moves once from `prepared` to `dispatching`. -/
namespace QsAi

open Guarded

inductive ExecutionKind
  | generation
  | semantic
deriving DecidableEq, Repr

inductive Phase
  | prepared
  | dispatching
deriving DecidableEq, Repr

structure CheckpointFields where
  executionId : String
  kind : ExecutionKind
  caseId : String
  slotOrdinal : Nat
  candidateId : String
  executionOrdinal : Nat
  owner : String
  invocationId : String
  phase : Phase
  claimedAt : DateTime
  leaseExpiresAt : DateTime
  dispatchStartedAt : Option DateTime := none
deriving DecidableEq

/-- A generation call has no candidate yet, a semantic call needs one. -/
def CheckpointFields.checkCandidate (f : CheckpointFields) : Except Rejection Unit :=
  match f.kind with
  | .generation => require (f.candidateId = "") (.invalid "Generation checkpoint cannot reference a candidate")
  | .semantic => require (validId f.candidateId = true) (.invalid "Semantic checkpoint requires a candidate")

/-- Only a dispatched checkpoint has a dispatch time, inside its lease. -/
def CheckpointFields.checkDispatch (f : CheckpointFields) : Except Rejection Unit :=
  match f.phase, f.dispatchStartedAt with
  | .prepared, none => pure ()
  | .prepared, some _ => throw (.invalid "Prepared checkpoint cannot have dispatch time")
  | .dispatching, none => throw (.invalid "Invalid checkpoint dispatch time")
  | .dispatching, some time =>
      require (f.claimedAt ≤ time ∧ time ≤ f.leaseExpiresAt) (.invalid "Invalid checkpoint dispatch time")

def CheckpointFields.check (f : CheckpointFields) : Except Rejection Unit := do
  require (∀ value ∈ [f.executionId, f.caseId, f.owner, f.invocationId], validId value = true)
    (.invalid "Invalid checkpoint identity")
  require ((1 ≤ f.slotOrdinal ∧ f.slotOrdinal ≤ 5) ∧ 1 ≤ f.executionOrdinal ∧ f.executionOrdinal ≤ 2)
    (.invalid "Invalid checkpoint ordinal")
  f.checkCandidate
  require (f.claimedAt < f.leaseExpiresAt) (.invalid "Invalid checkpoint lease")
  f.checkDispatch

structure ExecutionCheckpoint extends CheckpointFields where
  checked : toCheckpointFields.check = .ok ()
deriving DecidableEq

namespace ExecutionCheckpoint

def make (fields : CheckpointFields) : Except Rejection ExecutionCheckpoint :=
  certify fields.check fun h => ⟨fields, h⟩

theorem make_ok {fields : CheckpointFields} {cp : ExecutionCheckpoint} (h : make fields = .ok cp) :
    cp.toCheckpointFields = fields := by
  obtain ⟨_, rfl⟩ := (certify_ok _ _ _).mp h
  rfl

/-- The facts every checkpoint carries. -/
structure Facts (f : CheckpointFields) : Prop where
  executionId : validId f.executionId = true
  caseId : validId f.caseId = true
  owner : validId f.owner = true
  invocationId : validId f.invocationId = true
  slotOrdinal : 1 ≤ f.slotOrdinal ∧ f.slotOrdinal ≤ 5
  executionOrdinal : 1 ≤ f.executionOrdinal ∧ f.executionOrdinal ≤ 2
  generation : f.kind = .generation → f.candidateId = ""
  semantic : f.kind = .semantic → validId f.candidateId = true
  lease : f.claimedAt < f.leaseExpiresAt
  prepared : f.phase = .prepared → f.dispatchStartedAt = none
  dispatching : f.phase = .dispatching →
    ∃ time, f.dispatchStartedAt = some time ∧ f.claimedAt ≤ time ∧ time ≤ f.leaseExpiresAt

theorem facts (cp : ExecutionCheckpoint) : Facts cp.toCheckpointFields := by
  have h := cp.checked
  simp only [CheckpointFields.check, bind_ok, require_ok, exists_const] at h
  obtain ⟨hIds, ⟨hSlot, hExecution⟩, ⟨_, hKind, hLease, hPhase⟩⟩ := h
  simp only [List.forall_mem_cons] at hIds
  refine ⟨hIds.1, hIds.2.1, hIds.2.2.1, hIds.2.2.2.1, hSlot, hExecution, ?_, ?_, hLease, ?_, ?_⟩
  · intro h
    simpa [CheckpointFields.checkCandidate, h] using hKind
  · intro h
    simpa [CheckpointFields.checkCandidate, h] using hKind
  · intro h
    cases hAt : cp.dispatchStartedAt with
    | none => rfl
    | some _ => simp [CheckpointFields.checkDispatch, h, hAt] at hPhase
  · intro h
    cases hAt : cp.dispatchStartedAt with
    | none => simp [CheckpointFields.checkDispatch, h, hAt] at hPhase
    | some time =>
        simp only [CheckpointFields.checkDispatch, h, hAt, require_ok] at hPhase
        exact ⟨time, rfl, hPhase⟩

/-- The slot a checkpoint works on. -/
def slot (cp : ExecutionCheckpoint) : String × Nat := (cp.caseId, cp.slotOrdinal)

def markDispatching (cp : ExecutionCheckpoint) (owner : String) (time : DateTime) :
    Except Rejection ExecutionCheckpoint := do
  require (cp.phase = .prepared ∧ strip owner = cp.owner)
    (.invalid "Prepared execution with matching owner required")
  make { cp.toCheckpointFields with phase := .dispatching, dispatchStartedAt := some time }

/-- Dispatching changes the phase and the dispatch time and nothing else. -/
theorem markDispatching_ok {cp dispatched : ExecutionCheckpoint} {owner : String} {time : DateTime}
    (h : cp.markDispatching owner time = .ok dispatched) :
    cp.phase = .prepared ∧ strip owner = cp.owner ∧
    dispatched.toCheckpointFields =
      { cp.toCheckpointFields with phase := .dispatching, dispatchStartedAt := some time } := by
  unfold markDispatching at h
  rw [require_bind_ok] at h
  exact ⟨h.1.1, h.1.2, make_ok h.2⟩

/-- The lease is moved, everything else stays. -/
def renew (cp : ExecutionCheckpoint) (expiresAt : DateTime) : Except Rejection ExecutionCheckpoint :=
  make { cp.toCheckpointFields with leaseExpiresAt := expiresAt }

end ExecutionCheckpoint

end QsAi
