import QsAi.Run.Draining
import QsAi.Run.Script
import QsAi.TimeOrder

/-! The evidence that a Run is blocked by. Of several unknown results the code takes
the one whose stored time sorts first as a text. -/
namespace QsAi

open Guarded

/-- The block evidence of the records that a terminal overlay proposes. -/
def virtualBlockedExecution (generations : List GenerationRow) (semantics : List SemanticRow) (progress : Progress)
    (cause : Cause) (blocked : List NextAction) : Except Rejection (String × DateTime) :=
  if cause = .resultUnknownRequiresReview then do
    let row ← demand (earliest (unresolvedEvidence generations semantics progress))
      (.conflict "Unresolved unknown result lacks terminal evidence")
    pure (row.executionId, row.finishedAt)
  else do
    let action ← blockedAction cause blocked
    match stoppedEvidence generations semantics action (cause.startsWith "semantic_") with
    | [row] => do
        require (row.status ≠ .succeeded) (.conflict "Candidate block lacks failed terminal evidence")
        pure (row.executionId, row.finishedAt)
    | _ => throw (.conflict "Candidate block lacks failed terminal evidence")

/-- The text of no other row sorts before the text of the first one. -/
theorem earliest_least {rows : List Evidence} {row : Evidence} (h : earliest rows = some row) :
    ∀ other ∈ rows, ¬ other.finishedAt.isoformat < row.finishedAt.isoformat := by
  induction rows generalizing row with
  | nil => cases h
  | cons first rest ih =>
      unfold earliest at h
      cases hRest : earliest rest with
      | none =>
          rw [hRest] at h
          obtain rfl := Option.some.inj h
          have hNil : rest = [] := by
            by_contra hSome
            obtain ⟨other, hOther⟩ := Store.earliest_total hSome
            rw [hRest] at hOther
            cases hOther
          rw [hNil, List.forall_mem_singleton]
          exact String.lt_irrefl _
      | some other =>
          simp only [hRest] at h
          have hLeast := ih hRest
          split at h
          · rename_i hBefore
            obtain rfl := Option.some.inj h
            rw [List.forall_mem_cons]
            exact ⟨fun hAfter => String.lt_irrefl _ (String.lt_trans hBefore hAfter), hLeast⟩
          · rename_i hNot
            obtain rfl := Option.some.inj h
            rw [List.forall_mem_cons]
            refine ⟨String.lt_irrefl _, fun later hLater => ?_⟩
            rw [String.not_lt]
            exact String.le_trans (String.not_lt.mp hNot) (String.not_lt.mp (hLeast later hLater))

/-- The chosen execution is one of the rows, and none of them finished before it. -/
def ChoosesEarliest (rows : List Evidence) (chosen : String × DateTime) : Prop :=
  (∃ row ∈ rows, row.executionId = chosen.1 ∧ row.finishedAt = chosen.2) ∧ ∀ row ∈ rows, chosen.2 ≤ row.finishedAt

/-- The row reads the earliest local time; of equal readings, its offset sorts first. -/
def Evidence.ReadsFirst (row : Evidence) (rows : List Evidence) : Prop :=
  ∀ other ∈ rows, row.finishedAt.wall < other.finishedAt.wall ∨
    row.finishedAt.wall = other.finishedAt.wall ∧
      ¬ DateTime.isoOffset other.finishedAt.utcoffset < DateTime.isoOffset row.finishedAt.utcoffset

/-- No row is further ahead in its offset than in its local reading of a row that
reads first. -/
def OffsetsCovered (rows : List Evidence) : Prop :=
  ∀ row ∈ rows, row.ReadsFirst rows → ∀ other ∈ rows,
    other.finishedAt.utcoffset - row.finishedAt.utcoffset ≤ other.finishedAt.wall - row.finishedAt.wall

theorem readsFirst_iff (row : Evidence) (rows : List Evidence) :
    row.ReadsFirst rows ↔ ∀ other ∈ rows, ¬ other.finishedAt.isoformat < row.finishedAt.isoformat := by
  refine forall₂_congr fun other _ => ?_
  rw [DateTime.isoformat_lt_iff]
  constructor
  · rintro (hWall | ⟨hWall, hOffset⟩) (hBefore | ⟨hSame, hBefore⟩)
    · omega
    · omega
    · omega
    · exact hOffset hBefore
  · intro h
    rw [not_or, not_and] at h
    rcases Int.lt_or_eq_of_le (Int.not_lt.mp h.1) with hWall | hWall
    · exact .inl hWall
    · exact .inr ⟨hWall, h.2 hWall.symm⟩

theorem le_of_wall (a b : DateTime) : a ≤ b ↔ b.utcoffset - a.utcoffset ≤ b.wall - a.wall := by
  rw [DateTime.le_def, DateTime.wall, DateTime.wall]
  omega

/-- The first text is the earliest time exactly when the offsets are covered. -/
theorem earliest_chronological (rows : List Evidence) :
    (∀ row, earliest rows = some row → ChoosesEarliest rows (row.executionId, row.finishedAt)) ↔ OffsetsCovered rows := by
  constructor
  · intro h row hRow hFirst other hOther
    rw [readsFirst_iff] at hFirst
    obtain ⟨chosen, hChosen⟩ := Store.earliest_total (List.ne_nil_of_mem hRow)
    have hTime := (h chosen hChosen).2 other hOther
    obtain ⟨hWall, hOffset⟩ := DateTime.wall_offset_eq (hFirst chosen (Store.earliest_mem hChosen))
      (earliest_least hChosen row hRow)
    rw [le_of_wall, hWall, hOffset] at hTime
    exact hTime
  · intro h row hRow
    have hFirst := (readsFirst_iff row rows).mpr (earliest_least hRow)
    exact ⟨⟨row, Store.earliest_mem hRow, rfl, rfl⟩, fun other hOther =>
      (le_of_wall _ _).mpr (h row (Store.earliest_mem hRow) hFirst other hOther)⟩

/-- Rows of one offset are covered. -/
theorem offsetsCovered_of_same {rows : List Evidence} {offset : Int} (h : ∀ row ∈ rows, row.finishedAt.utcoffset = offset) :
    OffsetsCovered rows := by
  intro row hRow hFirst other hOther
  rw [h row hRow, h other hOther]
  rcases hFirst other hOther with hWall | ⟨hWall, _⟩ <;> omega

theorem blockedExecution_unknown {generations : List GenerationRow} {semantics : List SemanticRow} {progress : Progress}
    {blocked : List NextAction} {chosen : String × DateTime} :
    blockedExecution generations semantics progress .resultUnknownRequiresReview blocked = .ok chosen ↔
      ∃ row, earliest (unresolvedEvidence generations semantics progress) = some row ∧
        (row.executionId, row.finishedAt) = chosen := by
  rw [blockedExecution, if_pos rfl]
  simp only [bind_ok, demand_ok, pure_ok]

/-- Both functions choose the same unknown result. -/
theorem virtualBlockedExecution_unknown (generations : List GenerationRow) (semantics : List SemanticRow)
    (progress : Progress) (blocked : List NextAction) :
    virtualBlockedExecution generations semantics progress .resultUnknownRequiresReview blocked =
      blockedExecution generations semantics progress .resultUnknownRequiresReview blocked := by
  rw [virtualBlockedExecution, blockedExecution, if_pos rfl, if_pos rfl]

/-- The chosen evidence is the earliest unknown exactly when the offsets are covered. -/
theorem block_evidence_earliest_iff (generations : List GenerationRow) (semantics : List SemanticRow)
    (progress : Progress) (blocked : List NextAction) :
    (∀ chosen,
      blockedExecution generations semantics progress .resultUnknownRequiresReview blocked = .ok chosen ∨
        virtualBlockedExecution generations semantics progress .resultUnknownRequiresReview blocked = .ok chosen →
      ChoosesEarliest (unresolvedEvidence generations semantics progress) chosen) ↔
    OffsetsCovered (unresolvedEvidence generations semantics progress) := by
  rw [← earliest_chronological]
  constructor
  · intro h row hRow
    exact h _ (.inl (blockedExecution_unknown.mpr ⟨row, hRow, rfl⟩))
  · intro h chosen hChosen
    rw [virtualBlockedExecution_unknown, or_self, blockedExecution_unknown] at hChosen
    obtain ⟨row, hRow, rfl⟩ := hChosen
    exact h row hRow

namespace Pilot

/-- A call whose outcome is not known. -/
def unknownFailure : ClassifiedFailure where
  stage := .generationExecution
  kind := .resultUnknown
  code := "execution_interrupted"
  retryable := false
  resultUnknown := true
  disposition := .manualAcknowledgement
  safeMessage := "Interrupted"
  evidenceRefs := ["execution"]
  checked := by decide

/-- Nine in the morning in UTC, and five seconds past nine eight hours ahead. -/
def eastern : DateTime := { clock 5 with utcoffset := 28800000000, zone := by decide }

def unknownCall (executionId : String) (time : DateTime) : GenerationFields where
  executionId
  caseId := "case"
  slotOrdinal := 1
  executionOrdinal := 1
  invocationId := "invocation"
  status := .resultUnknown
  startedAt := time
  finishedAt := time
  providerCallCount := 1
  failure := some unknownFailure

theorem unknownCall_check : (unknownCall "later" (clock 0)).check = .ok () ∧ (unknownCall "earlier" eastern).check = .ok () := by
  decide

def unknownRow (fields : GenerationFields) (checked : fields.check = .ok ()) : GenerationRow :=
  ⟨fields.executionId, fields.invocationId, fields.caseId, fields.slotOrdinal, fields.executionOrdinal, none, none,
    ⟨fields, checked⟩⟩

def unknownRows : List GenerationRow :=
  [unknownRow _ unknownCall_check.1, unknownRow _ unknownCall_check.2]

/-- The evidence of nine in UTC is chosen, eight hours after the other one. -/
theorem block_evidence_not_earliest :
    blockedExecution unknownRows [] { status := .collecting, transitions := [] } .resultUnknownRequiresReview [] =
        .ok ("later", clock 0) ∧
      ¬ ChoosesEarliest (unresolvedEvidence unknownRows [] { status := .collecting, transitions := [] })
        ("later", clock 0) := by
  constructor
  · decide
  · rintro ⟨-, hEarliest⟩
    have hLate := hEarliest ⟨"earlier", .resultUnknown, eastern⟩ (by decide)
    exact absurd hLate (by decide)

end Pilot

end QsAi
