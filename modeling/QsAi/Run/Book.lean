import QsAi.Foundation.Ledger
import QsAi.Run.Claims

/-! The book of a Run: the paid calls it issued, who owns them and what they
left behind, apart from the status of the Run and from the way the owner is
stored. Serial and candidate Runs keep the same book; its invariant says what
every later reader of the evidence relies on. -/
namespace QsAi

open Guarded Keyed Numbered

/-- What the executions of one stage belong to. -/
inductive Target
  | slot (id : String × Nat)
  | candidate (id : String)
deriving DecidableEq

def Target.kind : Target → ExecutionKind
  | .slot _ => .generation
  | .candidate _ => .semantic

namespace ExecutionCheckpoint

def target (cp : ExecutionCheckpoint) : Target :=
  match cp.kind with
  | .generation => .slot cp.slot
  | .semantic => .candidate cp.candidateId

@[simp] theorem kind_target (cp : ExecutionCheckpoint) : cp.target.kind = cp.kind := by
  unfold target
  cases cp.kind <;> rfl

/-- The call a checkpoint owns: everything except the lease. -/
def call (cp : ExecutionCheckpoint) : CheckpointFields :=
  { cp.toCheckpointFields with leaseExpiresAt := cp.claimedAt }

theorem target_of_call {a b : ExecutionCheckpoint} (h : a.call = b.call) : a.target = b.target := by
  simp only [call, CheckpointFields.mk.injEq] at h
  simp only [target, slot, h]

end ExecutionCheckpoint

namespace Completion

def target : Completion → Target
  | .generation value => .slot (value.caseId, value.slotOrdinal)
  | .semantic value => .candidate value.candidateId

@[simp] theorem kind_target (completion : Completion) : completion.target.kind = completion.kind := by
  cases completion <;> rfl

/-- The completion is the outcome of the dispatched call. -/
structure Ends (completion : Completion) (cp : ExecutionCheckpoint) : Prop where
  phase : cp.phase = .dispatching
  executionId : completion.executionId = cp.executionId
  invocationId : completion.invocationId = cp.invocationId
  executionOrdinal : completion.executionOrdinal = cp.executionOrdinal
  target : completion.target = cp.target
  started : ∃ time ∈ cp.dispatchStartedAt, time ≤ completion.startedAt

theorem Ends.kind {completion : Completion} {cp : ExecutionCheckpoint} (h : completion.Ends cp) :
    completion.kind = cp.kind := by
  rw [← completion.kind_target, ← cp.kind_target, h.target]

theorem ends_of_generation {value : GenerationCompletion} {cp : ExecutionCheckpoint} {owner : String}
    (h : value.matchesCheckpoint cp owner) : (Completion.generation value).Ends cp := by
  obtain ⟨hPhase, hKind, _, hExecution, hInvocation, hCase, hSlot, hOrdinal, hStarted⟩ := h
  refine ⟨hPhase, hExecution, hInvocation, hOrdinal, ?_, hStarted⟩
  simp only [target, ExecutionCheckpoint.target, hKind, ExecutionCheckpoint.slot, hCase, hSlot]

theorem ends_of_semantic {value : SemanticCompletion} {cp : ExecutionCheckpoint} {owner fingerprint : String}
    (h : value.matchesCheckpoint cp owner fingerprint) : (Completion.semantic value).Ends cp := by
  obtain ⟨hKind, hPhase, _, hExecution, hCandidate, hOrdinal, hInvocation, _, hStarted⟩ := h
  refine ⟨hPhase, hExecution, hInvocation, hOrdinal, ?_, hStarted⟩
  simp only [target, ExecutionCheckpoint.target, hKind, hCandidate]

end Completion

/-- The evidence of a Run, whoever owns its live calls. -/
structure Book where
  creation : Creation
  live : List ExecutionCheckpoint
  dispatches : List DispatchRow
  generations : List GenerationRow
  semantics : List SemanticRow
  resolutions : List ResultUnknownResolution
  recoveries : List ContractRecovery

/-- A success owns one matching candidate, anything else owns none. -/
structure GenerationRow.Outcome (row : GenerationRow) : Prop where
  succeeded : row.evidence.status = .succeeded → ∃ stored, row.candidate = some stored ∧
    row.candidateId = some stored.id ∧ validId stored.id = true ∧
    stored.generationExecutionId = row.evidence.executionId ∧
    stored.normalizedOutputFingerprint = row.evidence.normalizedFingerprint ∧
    stored.acceptedAt = row.evidence.finishedAt.isoformat ∧ stored.assertions ≠ []
  otherwise : row.evidence.status ≠ .succeeded → row.candidate = none ∧ row.candidateId = none

namespace Book

variable (b : Book)

/-- The terminal evidence of both stages. -/
def completions : List Completion :=
  b.generations.map (fun row => .generation row.evidence) ++ b.semantics.map fun row => .semantic row.evidence

/-- The terminal evidence of one slot or candidate. -/
def history (target : Target) : List Completion := b.completions.filter (·.target = target)

/-- The calls issued for one slot or candidate. -/
def issued (target : Target) : List DispatchRow := b.dispatches.filter (·.checkpoint.target = target)

def openInvocations : List String := (b.live.filter (·.phase = .dispatching)).map (·.invocationId)

def settledInvocations : List String := b.completions.map (·.invocationId)

/-- The executions that recorded decisions let repeat. -/
def authorizations : Authorizations := ⟨replacedExecutions b.resolutions, b.recoveries.map (·.executionId)⟩

/-- Every issued call is owned by a live checkpoint or ended by one completion. -/
structure Calls : Prop where
  recorded : ∀ row ∈ b.dispatches, row = DispatchRow.record row.checkpoint ∧ row.checkpoint.phase = .dispatching
  planned : ∀ row ∈ b.dispatches, row.checkpoint.slot ∈ b.creation.slots
  executions : UniqueOn (·.executionId) b.dispatches
  balanced : Ledger.Balanced (b.dispatches.map (·.invocationId)) b.openInvocations b.settledInvocations
  ended : ∀ completion ∈ b.completions, ∃ row ∈ b.dispatches, completion.Ends row.checkpoint
  slots : UniqueOn (·.slot) b.live

/-- Executions are numbered without gaps and stay inside the frozen budgets. -/
structure Numbering : Prop where
  histories : ∀ target, Complete (·.executionOrdinal) (b.history target)
  issued : ∀ target, Complete (·.checkpoint.executionOrdinal) (b.issued target)
  limits : ∀ target, (b.issued target).length ≤ b.creation.policy.limit target.kind
  totals : ∀ kind, (b.dispatches.filter (·.kind = kind)).length ≤ b.creation.policy.runLimit kind

/-- The candidate belongs to the slot. -/
def Accepts (slot : String × Nat) (candidateId : String) : Prop :=
  ∃ row ∈ b.generations, row.candidateId = some candidateId ∧ row.slot = slot

/-- The candidate is reviewable exactly when a judge call of it was accepted,
and every judge call reads back as it was stored. -/
structure Reviewed (stored : Candidate) : Prop where
  results : ∀ row ∈ b.semantics, row.candidateId = stored.id →
    checkSemanticResult stored row.evidence row.result = .ok ()
  ready : stored.reviewReady = stored.acceptedSemanticExecutionId.isSome
  accepted : ∀ id, stored.acceptedSemanticExecutionId = some id ↔
    ∃ row ∈ b.semantics, row.candidateId = stored.id ∧ row.evidence.status = .succeeded ∧ row.executionId = id

/-- Rows carry the identities of their evidence, and candidates their content. -/
structure Candidates : Prop where
  generationIndex : ∀ row ∈ b.generations, row.IndexMatches
  semanticIndex : ∀ row ∈ b.semantics, row.IndexMatches
  outcome : ∀ row ∈ b.generations, row.Outcome
  unique : ∀ row ∈ b.generations, ∀ other ∈ b.generations, row.candidateId = other.candidateId →
    row.candidateId ≠ none → row = other
  judged : ∀ row ∈ b.semantics, ∃ source ∈ b.generations, source.candidateId = some row.candidateId ∧
    source.evidence.normalizedFingerprint = row.evidence.candidateOutputFingerprint
  issued : ∀ row ∈ b.dispatches, row.checkpoint.kind = .semantic →
    b.Accepts row.checkpoint.slot row.checkpoint.candidateId
  reviewed : ∀ row ∈ b.generations, ∀ stored, row.candidate = some stored → b.Reviewed stored

/-- The frozen policy or a manual decision lets another execution follow. -/
def Permits (completion : Completion) : Prop :=
  completion.executionOrdinal < b.creation.policy.limit completion.kind ∧
  match completion.status with
  | .succeeded => False
  | .resultUnknown => completion.executionId ∈ replacedExecutions b.resolutions
  | .failed => completion.failure.any (b.creation.policy.allowsRecovery completion.kind) = true ∨
      (completion.kind = .semantic ∧ completion.executionId ∈ b.recoveries.map (·.executionId))

/-- Every execution that another one follows was permitted to be followed. -/
def Permitted : Prop :=
  ∀ completion ∈ b.completions, completion.executionOrdinal < (b.history completion.target).length →
    b.Permits completion

/-- The recorded decisions are sound for the evidence. -/
structure Decisions : Prop where
  resolved : Resolved (unknownExecutions b.generations b.semantics) b.creation.policy b.resolutions
  recoveries : UniqueOn (·.executionId) b.recoveries
  excepted : ∀ value ∈ b.recoveries, Excepts (b.semantics.map (·.evidence)) b.creation.policy value

/-- A live checkpoint works on the next execution of its slot: everything
before it is permitted, its call is recorded once it is dispatched, and it was
claimed after every exception. -/
structure Holds (cp : ExecutionCheckpoint) : Prop where
  planned : cp.slot ∈ b.creation.slots
  owned : cp.phase = .dispatching → ∃ row ∈ b.dispatches, row.checkpoint.call = cp.call
  next : cp.executionOrdinal = (b.history cp.target).length + 1
  permitted : ∀ completion ∈ b.history cp.target, b.Permits completion
  accepted : cp.kind = .semantic → b.Accepts cp.slot cp.candidateId
  claimed : ∀ value ∈ b.recoveries, value.resolvedAt ≤ cp.claimedAt

structure Sound : Prop where
  calls : b.Calls
  numbering : b.Numbering
  candidates : b.Candidates
  permitted : b.Permitted
  decisions : b.Decisions
  live : ∀ cp ∈ b.live, b.Holds cp

end Book

/-- The execution as manual decisions refer to it. -/
def Completion.asUnknown (completion : Completion) : UnknownExecution :=
  ⟨completion.executionId, completion.kind, completion.executionOrdinal, completion.finishedAt⟩

/-! What a sound book says about its evidence. -/
namespace Book

variable {b : Book} {completion : Completion}

theorem mem_completions : completion ∈ b.completions ↔
    (∃ row ∈ b.generations, completion = .generation row.evidence) ∨
    ∃ row ∈ b.semantics, completion = .semantic row.evidence := by
  simp only [completions, List.mem_append, List.mem_map, eq_comm]

theorem mem_history {target : Target} :
    completion ∈ b.history target ↔ completion ∈ b.completions ∧ completion.target = target := by
  simp [history]

theorem generation_mem {row : GenerationRow} (h : row ∈ b.generations) :
    Completion.generation row.evidence ∈ b.completions := mem_completions.mpr (.inl ⟨row, h, rfl⟩)

theorem semantic_mem {row : SemanticRow} (h : row ∈ b.semantics) :
    Completion.semantic row.evidence ∈ b.completions := mem_completions.mpr (.inr ⟨row, h, rfl⟩)

theorem Calls.invocations (h : b.Calls) : UniqueOn (·.invocationId) b.dispatches := h.balanced.nodup

theorem Calls.completions_unique (h : b.Calls) : UniqueOn (·.invocationId) b.completions :=
  h.balanced.settled_nodup

/-- A completion and its call, found by the invocation. -/
theorem Calls.entry (h : b.Calls) (hMem : completion ∈ b.completions) :
    ∃ row ∈ b.dispatches, row.invocationId = completion.invocationId ∧ completion.Ends row.checkpoint := by
  obtain ⟨row, hRow, hEnds⟩ := h.ended completion hMem
  refine ⟨row, hRow, ?_, hEnds⟩
  rw [hEnds.invocationId, (h.recorded row hRow).1]
  rfl

/-- Execution identities are unique across both stages. -/
theorem Calls.executions_unique (h : b.Calls) : UniqueOn (·.executionId) b.completions := by
  refine List.Nodup.map_on ?_ (List.Nodup.of_map _ h.completions_unique)
  intro first hFirst second hSecond hSame
  obtain ⟨row, hRow, hInvocation, hEnds⟩ := h.entry hFirst
  obtain ⟨other, hOther, hOtherInvocation, hOtherEnds⟩ := h.entry hSecond
  have hExecution : row.executionId = other.executionId := by
    rw [(h.recorded row hRow).1, (h.recorded other hOther).1]
    exact hEnds.executionId.symm.trans (hSame.trans hOtherEnds.executionId)
  have hEq := h.executions.eq_of_key hRow hOther hExecution
  refine h.completions_unique.eq_of_key hFirst hSecond ?_
  rw [← hInvocation, ← hOtherInvocation, hEq]

/-- The generations of a slot are its history. -/
theorem Candidates.history_slot (h : b.Candidates) (slot : String × Nat) :
    b.history (.slot slot) =
      (b.generations.filter (·.slot = slot)).map fun row => Completion.generation row.evidence := by
  have hGenerations : ∀ row ∈ b.generations, (Completion.generation row.evidence).target = .slot row.slot := by
    intro row hRow
    obtain ⟨_, _, hCase, hSlot, _⟩ := h.generationIndex row hRow
    simp only [Completion.target, GenerationRow.slot, hCase, hSlot]
  rw [history, completions, List.filter_append, List.filter_map, List.filter_map]
  have hNone : b.semantics.filter ((fun c : Completion => decide (c.target = .slot slot)) ∘
      fun row => Completion.semantic row.evidence) = [] := by
    rw [List.filter_eq_nil_iff]
    intro row _
    simp [Completion.target]
  rw [hNone, List.map_nil, List.append_nil]
  congr 1
  refine List.filter_congr ?_
  intro row hRow
  simp only [Function.comp, hGenerations row hRow, Target.slot.injEq]

/-- The judge calls of a candidate are its history. -/
theorem Candidates.history_candidate (h : b.Candidates) (candidateId : String) :
    b.history (.candidate candidateId) =
      (b.semantics.filter (·.candidateId = candidateId)).map fun row => Completion.semantic row.evidence := by
  rw [history, completions, List.filter_append, List.filter_map, List.filter_map]
  have hNone : b.generations.filter ((fun c : Completion => decide (c.target = .candidate candidateId)) ∘
      fun row => Completion.generation row.evidence) = [] := by
    rw [List.filter_eq_nil_iff]
    intro row _
    simp [Completion.target]
  rw [hNone, List.map_nil, List.nil_append]
  congr 1
  refine List.filter_congr ?_
  intro row hRow
  obtain ⟨_, _, _, hCandidate, _⟩ := h.semanticIndex row hRow
  simp only [Function.comp, Completion.target, hCandidate, Target.candidate.injEq]

/-- The unknown executions are the unknown completions. -/
theorem Candidates.unknownExecutions_eq (h : b.Candidates) : unknownExecutions b.generations b.semantics =
    (b.completions.filter (·.status = .resultUnknown)).map Completion.asUnknown := by
  rw [unknownExecutions, completions, List.filter_append, List.filter_map, List.filter_map, List.map_append,
    List.map_map, List.map_map]
  congr 1
  · refine List.map_congr_left ?_
    intro row hRow
    obtain ⟨hExecution, _, _, _, hOrdinal⟩ := h.generationIndex row (List.mem_filter.mp hRow).1
    simp only [Function.comp, Completion.asUnknown, Completion.executionId, Completion.kind,
      Completion.executionOrdinal, Completion.finishedAt, hExecution, hOrdinal]
  · refine List.map_congr_left ?_
    intro row hRow
    obtain ⟨_, hExecution, _, _, hOrdinal⟩ := h.semanticIndex row (List.mem_filter.mp hRow).1
    simp only [Function.comp, Completion.asUnknown, Completion.executionId, Completion.kind,
      Completion.executionOrdinal, Completion.finishedAt, hExecution, hOrdinal]

theorem Numbering.ordinal_le (h : b.Numbering) (hMem : completion ∈ b.completions) :
    1 ≤ completion.executionOrdinal ∧ completion.executionOrdinal ≤ (b.history completion.target).length :=
  (h.histories completion.target).number_le (mem_history.mpr ⟨hMem, rfl⟩)

theorem Permits.not_succeeded (h : b.Permits completion) : completion.status ≠ .succeeded := by
  intro hStatus
  have hMatch := h.2
  rw [hStatus] at hMatch
  exact hMatch

/-- A success ends its history. -/
theorem Sound.succeeded_last (h : b.Sound) (hMem : completion ∈ b.completions)
    (hStatus : completion.status = .succeeded) :
    completion.executionOrdinal = (b.history completion.target).length := by
  have hBound := h.numbering.ordinal_le hMem
  by_contra hNot
  exact (h.permitted completion hMem (by omega)).not_succeeded hStatus

end Book

end QsAi
