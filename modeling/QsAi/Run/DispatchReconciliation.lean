import QsAi.Foundation.PyObject
import QsAi.Run.Claims
import QsAi.Run.Script

/-! Reconciliation of the dispatch ledger as it is stored. Each row carries a
checkpoint that has still to be decoded, and times are compared as instants. -/
namespace QsAi

open Guarded Keyed PyJson

/-- The text of a stage in a column. -/
def ExecutionKind.column : ExecutionKind → String
  | .generation => "generation"
  | .semantic => "semantic"

/-- A row of `evaluation_dispatches`, with the columns that reconciliation reads. -/
structure StoredDispatch (Json : Type) where
  invocationId : String
  executionId : String
  kind : String
  caseId : String
  slotOrdinal : Int
  candidateId : String
  checkpointJson : Json

/-- Two optional times are equal when they name the same instant. -/
def sameTime : Option DateTime → Option DateTime → Prop
  | none, none => True
  | some a, some b => a.same b
  | _, _ => False

instance (a b : Option DateTime) : Decidable (sameTime a b) := by
  cases a <;> cases b <;> unfold sameTime <;> infer_instance

namespace ExecutionCheckpoint

/-- Execution, owner, kind, slot, candidate, ordinal and dispatch time are the same. -/
def Agrees (cp original : ExecutionCheckpoint) : Prop :=
  cp.executionId = original.executionId ∧ cp.owner = original.owner ∧ cp.kind = original.kind ∧
    cp.caseId = original.caseId ∧ cp.slotOrdinal = original.slotOrdinal ∧ cp.candidateId = original.candidateId ∧
    cp.executionOrdinal = original.executionOrdinal ∧ sameTime cp.dispatchStartedAt original.dispatchStartedAt

instance (cp original : ExecutionCheckpoint) : Decidable (cp.Agrees original) :=
  inferInstanceAs (Decidable (_ ∧ _))

end ExecutionCheckpoint

namespace StoredDispatch

variable {Json : Type}

/-- The columns are those of the dispatching checkpoint. -/
def Shows (row : StoredDispatch Json) (original : ExecutionCheckpoint) : Prop :=
  original.phase = .dispatching ∧ original.invocationId = row.invocationId ∧ row.executionId = original.executionId ∧
    row.kind = original.kind.column ∧ row.caseId = original.caseId ∧ row.slotOrdinal = original.slotOrdinal ∧
    row.candidateId = original.candidateId

instance (row : StoredDispatch Json) (original : ExecutionCheckpoint) : Decidable (row.Shows original) :=
  inferInstanceAs (Decidable (_ ∧ _))

variable (decode : Json → Except Fault (Option ExecutionCheckpoint))

/-- The loop over the ledger: the rows that are kept, and the live invocations seen. -/
def filter (terminal : List String) (active : List SlotClaim) :
    List String → List (StoredDispatch Json) → Except (Failure Rejection) (List (StoredDispatch Json) × List String)
  | seen, [] => pure ([], seen)
  | seen, row :: rest =>
      if row.invocationId ∈ terminal then do
        let (filtered, seen) ← filter terminal active seen rest
        pure (row :: filtered, seen)
      else do
        let pending := dict (·.checkpoint.invocationId) active row.invocationId
        let original ← native (decode row.checkpointJson)
        let claim ← demand pending (.refused (.conflict "Unmatched dispatch requires recovery"))
        let original ← demand original (.refused (.conflict "Unmatched dispatch requires recovery"))
        require (claim.checkpoint.phase = .dispatching ∧ row.Shows original ∧ claim.checkpoint.Agrees original)
          (.refused (.conflict "Unmatched dispatch requires recovery"))
        require (row.invocationId ∉ seen) (.refused (.conflict "Duplicate active dispatch"))
        filter terminal active (row.invocationId :: seen) rest

/-- `terminal_dispatches`: only live dispatches proven by exact claims are hidden.
Of the completions, their invocations are read. -/
def reconcile (dispatches : List (StoredDispatch Json)) (completed : List String) (active : List SlotClaim) :
    Except (Failure Rejection) (List (StoredDispatch Json)) := do
  let (filtered, seen) ← filter decode completed active [] dispatches
  require (∀ claim ∈ active, claim.checkpoint.phase = .dispatching →
      claim.checkpoint.invocationId ∈ completed ∨ claim.checkpoint.invocationId ∈ seen)
    (.refused (.conflict "Dispatched claim has no ledger"))
  pure filtered

/-- The row shows its own checkpoint, and a live claim agrees with it. -/
def Owned (active : List SlotClaim) (row : StoredDispatch Json) : Prop :=
  ∃ original, decode row.checkpointJson = .ok (some original) ∧ row.Shows original ∧
    ∃ claim ∈ active, claim.checkpoint.invocationId = row.invocationId ∧ claim.checkpoint.phase = .dispatching ∧
      claim.checkpoint.Agrees original

/-- Each live row is owned, and each dispatched claim has its row. -/
structure Reconciled (dispatches : List (StoredDispatch Json)) (completed : List String) (active : List SlotClaim) :
    Prop where
  owned : ∀ row ∈ dispatches, row.invocationId ∉ completed → row.Owned decode active
  recorded : ∀ claim ∈ active, claim.checkpoint.phase = .dispatching → claim.checkpoint.invocationId ∉ completed →
    ∃ row ∈ dispatches, row.invocationId = claim.checkpoint.invocationId

variable {decode}

/-- What the loop does, from the rows that were seen before it. -/
theorem filter_ok_iff {terminal : List String} {active : List SlotClaim} {seen found : List String}
    {dispatches filtered : List (StoredDispatch Json)} (hActive : UniqueOn (·.checkpoint.invocationId) active)
    (hUnique : UniqueOn (·.invocationId) dispatches) (hNew : ∀ row ∈ dispatches, row.invocationId ∉ seen) :
    filter decode terminal active seen dispatches = .ok (filtered, found) ↔
      (∀ row ∈ dispatches, row.invocationId ∉ terminal → row.Owned decode active) ∧
      filtered = dispatches.filter (·.invocationId ∈ terminal) ∧
      found = ((dispatches.filter (·.invocationId ∉ terminal)).map (·.invocationId)).reverse ++ seen := by
  induction dispatches generalizing seen filtered found with
  | nil =>
      rw [filter, pure_ok, Prod.mk.injEq]
      simp [eq_comm]
  | cons row rest ih =>
      obtain ⟨hFirst, hRest⟩ := uniqueOn_cons.mp hUnique
      obtain ⟨hRowNew, hRestNew⟩ := List.forall_mem_cons.mp hNew
      by_cases hTerminal : row.invocationId ∈ terminal
      · rw [filter, if_pos hTerminal, bind_ok, List.filter_cons_of_pos (by simpa using hTerminal),
          List.filter_cons_of_neg (by simpa using hTerminal), List.forall_mem_cons]
        constructor
        · rintro ⟨⟨kept, later⟩, hFilter, hKept⟩
          obtain ⟨hOwned, rfl, rfl⟩ := (ih hRest hRestNew).mp hFilter
          rw [pure_ok, Prod.mk.injEq] at hKept
          exact ⟨⟨fun hNot => absurd hTerminal hNot, hOwned⟩, hKept.1.symm, hKept.2.symm⟩
        · rintro ⟨⟨_, hOwned⟩, rfl, rfl⟩
          exact ⟨_, (ih hRest hRestNew).mpr ⟨hOwned, rfl, rfl⟩, rfl⟩
      · have hLater : ∀ other ∈ rest, other.invocationId ∉ row.invocationId :: seen := by
          intro other hOther hMem
          rcases List.mem_cons.mp hMem with hSame | hMem
          · exact hFirst (hSame ▸ List.mem_map_of_mem hOther)
          · exact hRestNew other hOther hMem
        rw [filter, if_neg hTerminal, List.filter_cons_of_neg (by simpa using hTerminal),
          List.filter_cons_of_pos (by simpa using hTerminal)]
        simp only [bind_ok, native_ok, demand_ok, require_ok, exists_const, hActive.dict_iff, ih hRest hLater,
          List.forall_mem_cons, List.map_cons, List.reverse_cons, List.append_assoc, List.singleton_append]
        constructor
        · rintro ⟨_, hDecode, claim, ⟨hClaim, hInvocation⟩, original, rfl, ⟨hPhase, hShows, hAgrees⟩, _, hOwned, hKept,
            hFound⟩
          exact ⟨⟨fun _ => ⟨original, hDecode, hShows, claim, hClaim, hInvocation, hPhase, hAgrees⟩, hOwned⟩, hKept, hFound⟩
        · rintro ⟨⟨hRow, hOwned⟩, hKept, hFound⟩
          obtain ⟨original, hDecode, hShows, claim, hClaim, hInvocation, hPhase, hAgrees⟩ := hRow hTerminal
          exact ⟨_, hDecode, claim, ⟨hClaim, hInvocation⟩, original, rfl, ⟨hPhase, hShows, hAgrees⟩, hRowNew, hOwned, hKept,
            hFound⟩

/-- Reconciliation succeeds exactly on reconciled records, and keeps the rows with
a completion. -/
theorem reconcile_ok_iff {dispatches filtered : List (StoredDispatch Json)} {completed : List String}
    {active : List SlotClaim} (hUnique : UniqueOn (·.invocationId) dispatches)
    (hActive : UniqueOn (·.checkpoint.invocationId) active) :
    reconcile decode dispatches completed active = .ok filtered ↔
      Reconciled decode dispatches completed active ∧ filtered = dispatches.filter (·.invocationId ∈ completed) := by
  have hNew : ∀ row ∈ dispatches, row.invocationId ∉ ([] : List String) := by simp
  simp only [reconcile, bind_ok, Prod.exists, require_ok, exists_const, pure_ok, filter_ok_iff hActive hUnique hNew]
  constructor
  · rintro ⟨_, _, ⟨hOwned, rfl, rfl⟩, hRecorded, rfl⟩
    refine ⟨⟨hOwned, fun claim hClaim hPhase hLive => ?_⟩, rfl⟩
    have hSeen := (hRecorded claim hClaim hPhase).resolve_left hLive
    simp only [List.append_nil, List.mem_reverse, List.mem_map, List.mem_filter] at hSeen
    obtain ⟨row, ⟨hRow, _⟩, hInvocation⟩ := hSeen
    exact ⟨row, hRow, hInvocation⟩
  · rintro ⟨h, rfl⟩
    refine ⟨_, _, ⟨h.owned, rfl, rfl⟩, fun claim hClaim hPhase => ?_, rfl⟩
    by_cases hLive : claim.checkpoint.invocationId ∈ completed
    · exact .inl hLive
    · obtain ⟨row, hRow, hInvocation⟩ := h.recorded claim hClaim hPhase hLive
      right
      simp only [List.append_nil, List.mem_reverse, List.mem_map, List.mem_filter]
      exact ⟨row, ⟨hRow, by simpa [hInvocation] using hLive⟩, hInvocation⟩

/-- A claim that is released when its completion is added leaves the others reconciled. -/
theorem Reconciled.complete {dispatches : List (StoredDispatch Json)} {completed : List String}
    {active : List SlotClaim} (h : Reconciled decode dispatches completed active)
    (hActive : UniqueOn (·.checkpoint.invocationId) active) {claim : SlotClaim} (hClaim : claim ∈ active) :
    Reconciled decode dispatches (completed ++ [claim.checkpoint.invocationId]) (active.filter (· ≠ claim)) where
  owned row hRow hLive := by
    rw [List.mem_append, List.mem_singleton, not_or] at hLive
    obtain ⟨original, hDecode, hShows, owner, hOwner, hInvocation, hPhase, hAgrees⟩ := h.owned row hRow hLive.1
    have hOther : owner ≠ claim := by
      rintro rfl
      exact hLive.2 hInvocation.symm
    exact ⟨original, hDecode, hShows, owner, List.mem_filter.mpr ⟨hOwner, by simpa using hOther⟩, hInvocation, hPhase,
      hAgrees⟩
  recorded other hOther hPhase hLive := by
    rw [List.mem_append, not_or] at hLive
    exact h.recorded other (List.mem_filter.mp hOther).1 hPhase hLive.1

/-- Reconciliation is exact, and completing a claim preserves it. -/
theorem dispatch_reconciliation_exact (decode : Json → Except Fault (Option ExecutionCheckpoint))
    (dispatches : List (StoredDispatch Json)) (completed : List String) (active : List SlotClaim)
    (hUnique : UniqueOn (·.invocationId) dispatches) (hActive : UniqueOn (·.checkpoint.invocationId) active) :
    (∀ kept, reconcile decode dispatches completed active = .ok kept ↔
      Reconciled decode dispatches completed active ∧ kept = dispatches.filter (·.invocationId ∈ completed)) ∧
    ∀ claim ∈ active, (∃ kept, reconcile decode dispatches completed active = .ok kept) →
      ∃ kept, reconcile decode dispatches (completed ++ [claim.checkpoint.invocationId]) (active.filter (· ≠ claim)) =
        .ok kept := by
  refine ⟨fun kept => reconcile_ok_iff hUnique hActive, fun claim hClaim ⟨kept, hKept⟩ => ?_⟩
  have hRest : UniqueOn (·.checkpoint.invocationId) (active.filter (· ≠ claim)) := hActive.sublist List.filter_sublist
  exact ⟨_, (reconcile_ok_iff hUnique hRest).mpr
    ⟨((reconcile_ok_iff hUnique hActive).mp hKept).1.complete hActive hClaim, rfl⟩⟩

/-- A generation that is dispatched. -/
def liveFields : CheckpointFields :=
  ⟨"execution", .generation, "case", 1, "", 1, "worker", "live", .dispatching, Pilot.clock 0, Pilot.clock 1,
    some (Pilot.clock 0)⟩

theorem liveFields_check : liveFields.check = .ok () := by decide

def liveClaim : SlotClaim := ⟨1, liveFields, liveFields_check⟩

/-- A completed row, whose checkpoint is not read, and the row of the claim. -/
def pairRows : List (StoredDispatch (Option ExecutionCheckpoint)) :=
  [⟨"done", "finished", "generation", "case", 2, "", none⟩, ⟨"live", "execution", "generation", "case", 1, "",
    some liveClaim.checkpoint⟩]

theorem dispatch_reconciliation_exact_pair :
    (∃ kept, reconcile .ok pairRows (["done"] ++ ["live"]) ([liveClaim].filter (· ≠ liveClaim)) = .ok kept) := by
  have hExact := dispatch_reconciliation_exact .ok pairRows ["done"] [liveClaim] (by decide) (by decide)
  exact hExact.2 liveClaim List.mem_cons_self ⟨_, rfl⟩

/-! Rows of the Run model, whose checkpoints are decoded. -/

/-- The stored form of a row, under the writer of its checkpoint. -/
def ofRow (encode : ExecutionCheckpoint → Json) (row : DispatchRow) : StoredDispatch Json where
  invocationId := row.invocationId
  executionId := row.executionId
  kind := row.kind.column
  caseId := row.caseId
  slotOrdinal := row.slotOrdinal
  candidateId := row.candidateId
  checkpointJson := encode row.checkpoint

theorem sameTime_refl (time : Option DateTime) : sameTime time time := by
  cases time with
  | none => trivial
  | some value => exact rfl

theorem shows_of_ownsDispatch {encode : ExecutionCheckpoint → Json} {cp : ExecutionCheckpoint} {row : DispatchRow}
    (h : ownsDispatch cp row) :
    cp.phase = .dispatching ∧ (ofRow encode row).Shows row.checkpoint ∧ cp.Agrees row.checkpoint := by
  obtain ⟨hPhase, hOriginal, hInvocation, hExecution, hKind, hCase, hSlot, hCandidate, hRest⟩ := h
  obtain ⟨hOwnExecution, hOwner, hOwnKind, hOwnCase, hOwnSlot, hOwnCandidate, hOrdinal, hStarted⟩ := hRest
  refine ⟨hPhase, ⟨hOriginal, hInvocation, hExecution, congrArg ExecutionKind.column hKind, hCase,
      congrArg Int.ofNat hSlot, hCandidate⟩,
    hOwnExecution, hOwner, hOwnKind, hOwnCase, hOwnSlot, hOwnCandidate, hOrdinal, ?_⟩
  rw [hStarted]
  exact sameTime_refl _

theorem filter_ofRow {encode : ExecutionCheckpoint → Json} (hDecode : ∀ cp, decode (encode cp) = .ok (some cp))
    {terminal : List String} {active : List SlotClaim} {seen found : List String} {dispatches filtered : List DispatchRow}
    (h : filterDispatches terminal active seen dispatches = .ok (filtered, found)) :
    filter decode terminal active seen (dispatches.map (ofRow encode)) = .ok (filtered.map (ofRow encode), found) := by
  induction dispatches generalizing seen filtered found with
  | nil =>
      rw [filterDispatches, pure_ok, Prod.mk.injEq] at h
      obtain ⟨rfl, rfl⟩ := h
      rfl
  | cons row rest ih =>
      by_cases hTerminal : row.invocationId ∈ terminal
      · rw [filterDispatches, if_pos hTerminal, bind_ok] at h
        obtain ⟨⟨kept, later⟩, hRest, hKept⟩ := h
        rw [pure_ok, Prod.mk.injEq] at hKept
        obtain ⟨rfl, rfl⟩ := hKept
        have hStored : (ofRow encode row).invocationId ∈ terminal := hTerminal
        rw [List.map_cons, filter, if_pos hStored, ih hRest]
        rfl
      · rw [filterDispatches, if_neg hTerminal] at h
        simp only [bind_ok, demand_ok, require_ok, exists_const] at h
        obtain ⟨claim, hClaim, hOwns, hNew, hRest⟩ := h
        have hStored : (ofRow encode row).invocationId ∉ terminal := hTerminal
        rw [List.map_cons, filter, if_neg hStored]
        simp only [bind_ok, native_ok, demand_ok, require_ok, exists_const]
        exact ⟨_, hDecode _, claim, hClaim, _, rfl, shows_of_ownsDispatch hOwns, hNew, ih hRest⟩

/-- What the Run model reconciles, the stored rows reconcile as well. -/
theorem reconcile_ofRow {encode : ExecutionCheckpoint → Json} (hDecode : ∀ cp, decode (encode cp) = .ok (some cp))
    {completed : List String} {active : List SlotClaim} {dispatches filtered : List DispatchRow}
    (h : terminalDispatches dispatches completed active = .ok filtered) :
    reconcile decode (dispatches.map (ofRow encode)) completed active = .ok (filtered.map (ofRow encode)) := by
  simp only [terminalDispatches, bind_ok, Prod.exists, require_ok, exists_const, pure_ok] at h
  obtain ⟨kept, seen, hFilter, hRecorded, rfl⟩ := h
  rw [reconcile, filter_ofRow hDecode hFilter, ok_bind]
  exact (require_bind_ok _ _ _ _).mpr ⟨hRecorded, rfl⟩

end StoredDispatch

end QsAi
