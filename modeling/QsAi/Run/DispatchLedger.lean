import QsAi.Run.Script

/-! The dispatch ledger. A dispatch record stands for one paid model call: as
long as the call may still answer somebody owns it, and when nobody owns it any
more its outcome is recorded, once. -/
namespace QsAi

open Guarded Keyed Numbered

namespace Store

variable (store : Store)

/-- The live claims or checkpoints that own a recorded call. -/
def owners (row : DispatchRow) : List ExecutionCheckpoint :=
  store.live.filter fun cp => cp.phase = .dispatching ∧ cp.executionId = row.executionId ∧
    cp.invocationId = row.invocationId ∧ cp.owner = row.checkpoint.owner ∧
    cp.executionOrdinal = row.checkpoint.executionOrdinal

/-- The completion carries the identities of the recorded call. -/
def Settled (row : DispatchRow) (completion : Completion) : Prop :=
  completion.kind = row.kind ∧ completion.executionId = row.executionId ∧
    completion.invocationId = row.invocationId ∧ completion.executionOrdinal = row.checkpoint.executionOrdinal ∧
    completion.target = row.checkpoint.target

instance (row : DispatchRow) (completion : Completion) : Decidable (Settled row completion) :=
  inferInstanceAs (Decidable (_ ∧ _))

/-- The terminal completions of a recorded call. -/
def outcomes (row : DispatchRow) : List Completion := store.book.completions.filter (Settled row ·)

/-- The calls of a slot or of a candidate. -/
def generationCalls (slot : String × Nat) : List DispatchRow :=
  store.dispatches.filter fun row => row.kind = .generation ∧ row.slot = slot

def semanticCalls (candidateId : String) : List DispatchRow :=
  store.dispatches.filter fun row => row.kind = .semantic ∧ row.candidateId = candidateId

variable {store} {row : DispatchRow}

theorem settled_of_ends (hRecorded : row = DispatchRow.record row.checkpoint) {completion : Completion}
    (h : completion.Ends row.checkpoint) : Settled row completion := by
  refine ⟨?_, ?_, ?_, h.executionOrdinal, h.target⟩
  · rw [hRecorded]
    exact h.kind
  · rw [hRecorded]
    exact h.executionId
  · rw [hRecorded]
    exact h.invocationId

/-- A live dispatched checkpoint owns the recorded call with its invocation. -/
theorem Valid.owned (h : store.Valid) {cp : ExecutionCheckpoint} (hLive : cp ∈ store.live)
    (hPhase : cp.phase = .dispatching) (hRow : row ∈ store.dispatches)
    (hInvocation : cp.invocationId = row.invocationId) : row.checkpoint.call = cp.call := by
  obtain ⟨other, hOther, hCall⟩ := (h.sound.live cp hLive).owned hPhase
  have hKey : other.invocationId = row.invocationId := by
    rw [congrArg DispatchRow.invocationId (h.sound.calls.recorded other hOther).1, ← hInvocation]
    exact (ExecutionCheckpoint.same_of_call hCall).1
  rw [← h.sound.calls.invocations.eq_of_key hOther hRow hKey]
  exact hCall

/-- Every recorded call has one owner or one outcome, and not both. -/
theorem Valid.owned_or_settled (h : store.Valid) (hRow : row ∈ store.dispatches) :
    (store.owners row).length + (store.outcomes row).length = 1 := by
  have hRecorded := (h.sound.calls.recorded row hRow).1
  have hBalanced := h.sound.calls.balanced
  have hIssued : row.invocationId ∈ store.book.dispatches.map (·.invocationId) := List.mem_map_of_mem hRow
  by_cases hOpen : row.invocationId ∈ store.book.openInvocations
  · obtain ⟨cp, hMem, hInvocation⟩ := List.mem_map.mp hOpen
    obtain ⟨hLive, hPhase⟩ := List.mem_filter.mp hMem
    have hPhase : cp.phase = .dispatching := by simpa using hPhase
    have hCall := h.owned hLive hPhase hRow hInvocation
    have hFields := hCall
    simp only [ExecutionCheckpoint.call, CheckpointFields.mk.injEq] at hFields
    have hExecution : cp.executionId = row.executionId := by
      rw [congrArg DispatchRow.executionId hRecorded]
      exact hFields.1.symm
    have hOwners : store.owners row = [cp] := by
      have hUnique : UniqueOn (·.invocationId) (store.live.filter (·.phase = .dispatching)) := hBalanced.live_nodup
      have hFilter : store.owners row = (store.live.filter (·.phase = .dispatching)).filter (fun cp =>
          cp.executionId = row.executionId ∧ cp.invocationId = row.invocationId ∧
          cp.owner = row.checkpoint.owner ∧ cp.executionOrdinal = row.checkpoint.executionOrdinal) := by
        rw [List.filter_filter, owners]
        refine List.filter_congr fun other _ => ?_
        simp [and_comm]
      rw [hFilter]
      refine hUnique.filter_eq_singleton hMem ?_ ?_
      · obtain ⟨_, _, _, _, hOrdinal, _, hOwner⟩ := ExecutionCheckpoint.same_of_call hCall
        simp [hExecution, hInvocation, hOrdinal, hOwner]
      · intro other _ hOther
        simp only [decide_eq_true_eq] at hOther
        exact hOther.2.1.trans hInvocation.symm
    have hOutcomes : store.outcomes row = [] := by
      rw [outcomes, List.filter_eq_nil_iff]
      intro completion hCompletion hSettled
      refine hBalanced.not_settled_of_live hOpen (List.mem_map.mpr ⟨completion, hCompletion, ?_⟩)
      exact (of_decide_eq_true hSettled).2.2.1
    rw [hOwners, hOutcomes]
    rfl
  · obtain ⟨completion, hCompletion, hInvocation⟩ := List.mem_map.mp (hBalanced.settled_of_not_live hIssued hOpen)
    obtain ⟨other, hOther, hKey, hEnds⟩ := h.sound.calls.entry hCompletion
    have hSame := h.sound.calls.invocations.eq_of_key hOther hRow (hKey.trans hInvocation)
    rw [hSame] at hEnds
    have hOutcomes : store.outcomes row = [completion] := by
      refine h.sound.calls.completions_unique.filter_eq_singleton hCompletion ?_ ?_
      · exact decide_eq_true (settled_of_ends hRecorded hEnds)
      · intro found _ hFound
        exact (of_decide_eq_true hFound).2.2.1.trans hInvocation.symm
    have hOwners : store.owners row = [] := by
      rw [owners, List.filter_eq_nil_iff]
      intro cp hLive hOwns
      simp only [decide_eq_true_eq] at hOwns
      refine hOpen (List.mem_map.mpr ⟨cp, List.mem_filter.mpr ⟨hLive, ?_⟩, hOwns.2.2.1⟩)
      exact decide_eq_true hOwns.1
    rw [hOwners, hOutcomes]
    rfl

theorem Valid.generationCalls_eq (h : store.Valid) (slot : String × Nat) :
    store.generationCalls slot = store.book.issued (.slot slot) := by
  refine List.filter_congr fun row hRow => ?_
  have hRecorded := (h.sound.calls.recorded row hRow).1
  rw [decide_eq_decide, DispatchRow.slot, hRecorded]
  cases hKind : row.checkpoint.kind <;>
    simp [DispatchRow.record, ExecutionCheckpoint.target, ExecutionCheckpoint.slot, hKind]

theorem Valid.semanticCalls_eq (h : store.Valid) (candidateId : String) :
    store.semanticCalls candidateId = store.book.issued (.candidate candidateId) := by
  refine List.filter_congr fun row hRow => ?_
  have hRecorded := (h.sound.calls.recorded row hRow).1
  rw [decide_eq_decide, hRecorded]
  cases hKind : row.checkpoint.kind <;> simp [DispatchRow.record, ExecutionCheckpoint.target, hKind]

end Store

/-- The ledger of every reachable Run, in either mode and under any interleaving
of its transactions. -/
theorem dispatch_ledger {creation : Creation} {now : DateTime} {store : Store}
    (hReaches : Reaches (fun _ _ _ => True) creation now store) :
    (∀ row ∈ store.dispatches, (store.owners row).length + (store.outcomes row).length = 1) ∧
    (∀ completion ∈ store.book.completions, ∃ row ∈ store.dispatches, Store.Settled row completion) ∧
    (∀ slot, Complete (·.checkpoint.executionOrdinal) (store.generationCalls slot) ∧
      (store.generationCalls slot).length ≤ creation.policy.generationPerSlot) ∧
    (∀ candidateId, Complete (·.checkpoint.executionOrdinal) (store.semanticCalls candidateId) ∧
      (store.semanticCalls candidateId).length ≤ creation.policy.semanticPerCandidate) ∧
    (store.dispatches.filter (·.kind = .generation)).length ≤ creation.policy.generationPerRun ∧
    (store.dispatches.filter (·.kind = .semantic)).length ≤ creation.policy.semanticPerRun ∧
    (store.live.map (·.slot)).Nodup := by
  obtain ⟨hCoherent, rfl⟩ := hReaches.coherent
  have hValid := hCoherent.toValid
  have hNumbering := hValid.sound.numbering
  refine ⟨fun row hRow => hValid.owned_or_settled hRow, ?_, ?_, ?_, hNumbering.totals .generation,
    hNumbering.totals .semantic, hValid.sound.calls.slots⟩
  · intro completion hCompletion
    obtain ⟨row, hRow, hEnds⟩ := hValid.sound.calls.ended completion hCompletion
    exact ⟨row, hRow, Store.settled_of_ends (hValid.sound.calls.recorded row hRow).1 hEnds⟩
  · intro slot
    rw [hValid.generationCalls_eq]
    exact ⟨hNumbering.issued _, hNumbering.limits (.slot slot)⟩
  · intro candidateId
    rw [hValid.semanticCalls_eq]
    exact ⟨hNumbering.issued _, hNumbering.limits (.candidate candidateId)⟩

/-- The ledger of a Run with one call under way. -/
theorem dispatch_ledger_pilot : ∃ now store, Reaches (fun _ _ _ => True) (Pilot.creation .candidateV2) now store ∧
    store.dispatches.length = 1 ∧
    ∀ row ∈ store.dispatches, (store.owners row).length + (store.outcomes row).length = 1 := by
  obtain ⟨now, store, hReaches, hCheck⟩ := exists_reaches (fun _ _ _ => True) (Pilot.creation .candidateV2)
    (Pilot.start ++ [Pilot.dispatch 1 "e1" 1]) (fun store => store.dispatches.length = 1) (by decide +kernel)
  exact ⟨now, store, hReaches, by simpa using hCheck, (dispatch_ledger hReaches).1⟩

end QsAi
