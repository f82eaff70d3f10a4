import QsAi.Run.SerialCompletion
import QsAi.Run.ReviewPilot

/-! Replayed corrections. Whatever happens to the Run afterwards, the entry that
a correction command left stays where the search finds it, in the current round
or in an archived one, so the same command is answered and another one under its
id is refused. -/
namespace QsAi

open Guarded Keyed

/-- What a correction asks for. The time of the signature is not part of it. -/
structure CorrectionIntent where
  expectedVersion : Nat
  previousReviewFingerprint : String
  candidateOutputFingerprint : String
  candidateId : String
  role : ReviewRole
  reviewer : String
  decision : ReviewDecision
  reason : String
deriving DecidableEq

/-- A correction as a reviewer sends it: an own signature that contests nothing. -/
structure CorrectionCommand where
  expectedVersion : Nat
  actor : String
  commandId : String
  previousReviewFingerprint : String
  candidateOutputFingerprint : String
  value : CandidateHumanReview
  own : 1 ≤ expectedVersion ∧ value.reviewer = actor ∧ value.semanticReview = none

def CorrectionCommand.intent (command : CorrectionCommand) : CorrectionIntent :=
  ⟨command.expectedVersion, command.previousReviewFingerprint, command.candidateOutputFingerprint,
    command.value.candidateId, command.value.role, command.actor, command.value.decision, command.value.reason⟩

/-- The command that an entry answers. -/
def ReviewCorrection.intent (entry : ReviewCorrection) : CorrectionIntent :=
  ⟨entry.sourceVersion, entry.previousReviewFingerprint, entry.candidateOutputFingerprint, entry.review.candidateId,
    entry.review.role, entry.review.reviewer, entry.review.decision, entry.review.reason⟩

def Operation.Cancels : Operation → Prop
  | .cancel .. | .finishCancellation .. => True
  | _ => False

/-- The operations on a Run whose collection is closed. -/
def Operation.Concludes (op : Operation) : Prop := op.IsReview ∨ op.Cancels

namespace Store

variable {store next : Store}

def correct (store : Store) (command : CorrectionCommand) : Except Rejection Store :=
  store.correctReview command.expectedVersion command.actor command.commandId command.previousReviewFingerprint
    command.candidateOutputFingerprint command.value

theorem replaysCorrection_iff (command : CorrectionCommand) (prior : ReviewCorrection) :
    ReplaysCorrection command.expectedVersion command.actor command.previousReviewFingerprint
      command.candidateOutputFingerprint command.value prior ↔ command.intent = prior.intent := by
  rw [CorrectionCommand.intent, ReviewCorrection.intent, CorrectionIntent.mk.injEq, ReplaysCorrection]
  constructor
  · rintro ⟨hVersion, hPrevious, hOutput, hCandidate, hRole, hReviewer, hDecision, hReason⟩
    exact ⟨hVersion.symm, hPrevious.symm, hOutput.symm, hCandidate.symm, hRole.symm, hReviewer.symm,
      hDecision.symm, hReason.symm⟩
  · rintro ⟨hVersion, hPrevious, hOutput, hCandidate, hRole, hReviewer, hDecision, hReason⟩
    exact ⟨hVersion.symm, hPrevious.symm, hOutput.symm, hCandidate.symm, hRole.symm, hReviewer.symm,
      hDecision.symm, hReason.symm⟩

/-! The records of a Run. -/

/-- Nothing is left to collect. -/
def Concluded (store : Store) : Prop :=
  store.progress.status = .awaitingReview ∨ store.progress.status = .approved ∨
    store.progress.status = .rejected ∨ store.progress.status = .canceled

/-- The entries of a concluded Run: each of them reads back, and its command is
its own. -/
structure Recorded (store : Store) : Prop where
  named : ∀ c ∈ store.recordedCorrections,
    c.previousReviewFingerprint = store.creation.assets.encoding.reviewFingerprint c.previousReview
  unique : UniqueOn (·.commandId) store.recordedCorrections
  concluded : store.Concluded

/-- No entry is lost. -/
def Retains (store next : Store) : Prop := ∀ c ∈ store.recordedCorrections, c ∈ next.recordedCorrections

theorem Recorded.findCorrection (h : store.Recorded) (commandId : String) :
    findCorrection store.creation.assets.encoding.reviewFingerprint commandId store.correctionArchives =
      .ok (lookup (·.commandId) store.recordedCorrections commandId) := by
  have hNamed := h.named
  unfold recordedCorrections at hNamed ⊢
  generalize store.correctionArchives = archives at hNamed ⊢
  induction archives with
  | nil => rfl
  | cons archive rest ih =>
      rw [List.flatten_cons, List.forall_mem_append] at hNamed
      have hDecode := decodeCorrections_ok.mpr ⟨rfl, hNamed.1⟩
      rw [Store.findCorrection, hDecode, ok_bind, lookup, lookup, List.flatten_cons, List.find?_append]
      cases List.find? (fun row => decide (row.commandId = commandId)) archive with
      | some prior => rfl
      | none => exact ih hNamed.2

/-- The entries of the next store are the same and in the same order. -/
theorem Recorded.same (h : store.Recorded) (hCreation : next.creation = store.creation)
    (hRecords : next.recordedCorrections = store.recordedCorrections) (hConcluded : next.Concluded) :
    next.Recorded ∧ store.Retains next := by
  refine ⟨⟨?_, ?_, hConcluded⟩, ?_⟩
  · rw [hCreation, hRecords]
    exact h.named
  · rw [hRecords]
    exact h.unique
  · intro c hc
    rw [hRecords]
    exact hc

theorem Signs.recorded {time : DateTime} {values : List CandidateHumanReview} (hSigns : store.Signs next time values)
    (h : store.Recorded) : next.Recorded ∧ store.Retains next := by
  have hNext := hSigns.next
  subst hNext
  exact h.same rfl rfl (.inl hSigns.awaits)

theorem Corrects.recorded {time : DateTime} {entry : ReviewCorrection} (hCorrects : store.Corrects next time entry)
    (h : store.Recorded) : next.Recorded ∧ store.Retains next ∧ entry ∈ next.recordedCorrections := by
  have hNext := hCorrects.next
  have hPerm : next.recordedCorrections.Perm (store.recordedCorrections ++ [entry]) := by
    rw [hNext]
    simp only [recordedCorrections, correctionArchives, List.flatten_cons, List.append_assoc]
    exact List.perm_append_comm.append_left _
  refine ⟨⟨?_, ?_, ?_⟩, ?_, ?_⟩
  · intro c hc
    rw [hNext]
    rcases List.mem_append.mp (hPerm.mem_iff.mp hc) with hc | hc
    · exact h.named c hc
    · rw [List.mem_singleton.mp hc]
      exact hCorrects.named
  · exact (h.unique.snoc hCorrects.fresh).perm hPerm.symm
  · rw [hNext]
    exact .inl hCorrects.awaits
  · exact fun c hc => hPerm.mem_iff.mpr (List.mem_append_left _ hc)
  · exact hPerm.mem_iff.mpr (List.mem_append_right _ (List.mem_singleton_self entry))

theorem Finalizes.recorded {time : DateTime} {snapshot : GateSnapshot} {record : FinalRecord}
    (hFinalizes : store.Finalizes next time snapshot record) (h : store.Recorded) :
    next.Recorded ∧ store.Retains next := by
  obtain ⟨_, _, _, _, _, _, hFinal⟩ := finalRecord_ok hFinalizes.derived
  have hNext := hFinalizes.next
  subst hNext
  refine h.same rfl rfl ?_
  rcases hFinal with hFinal | hFinal
  · exact .inr (.inl hFinal)
  · exact .inr (.inr (.inl hFinal))

/-- A reopening moves the entries of the round it ends to its archive. -/
theorem Reopens.recorded {time : DateTime} {snapshot : GateSnapshot} (hReopens : store.Reopens next time snapshot)
    (h : store.Recorded) : next.Recorded ∧ store.Retains next := by
  obtain ⟨actor, reason, hOpened⟩ := hReopens.opened
  obtain ⟨plan, record, entry, _, _, hEntry, _, hProgress⟩ := reopenedProgress_ok hOpened
  have hNext := hReopens.next
  have hArchived : (entry.archived.map (·.2)).getD [] = store.progress.reviewCorrections := by
    rw [hEntry]
    by_cases hSome : store.progress.reviewCorrections = []
    · simp [hSome]
    · simp [hSome]
  have hPerm : next.recordedCorrections.Perm store.recordedCorrections := by
    rw [recordedCorrections, correctionArchives, hProgress]
    simp only [recordedCorrections, correctionArchives, List.map_append, List.map_cons, List.map_nil,
      List.flatten_cons, List.flatten_append, List.flatten_nil, List.append_nil, List.nil_append, hArchived]
    exact List.perm_append_comm
  have hCreation : next.creation = store.creation := by rw [hNext]
  refine ⟨⟨?_, h.unique.perm hPerm.symm, ?_⟩, fun c hc => hPerm.mem_iff.mpr hc⟩
  · intro c hc
    rw [hCreation]
    exact h.named c (hPerm.mem_iff.mp hc)
  · rw [Concluded, hProgress]
    exact .inl rfl

theorem Reviews.recorded {time : DateTime} (hReviews : store.Reviews next time) (h : store.Recorded) :
    next.Recorded ∧ store.Retains next := by
  cases hReviews with
  | signs hSigns => exact hSigns.recorded h
  | corrects hCorrects => exact ⟨(hCorrects.recorded h).1, (hCorrects.recorded h).2.1⟩
  | finalizes hFinalizes => exact hFinalizes.recorded h
  | reopens hReopens => exact hReopens.recorded h

/-- A review and a cancellation keep the entries, and start no work. -/
theorem perform_keepsEntries {op : Operation} (hConcludes : op.Concludes) (hOp : store.perform op = .ok next)
    (h : store.Recorded) :
    next.Recorded ∧ store.Retains next ∧ (store.checkpoint = none → next.checkpoint = none) := by
  have hReview : ∀ {time : DateTime}, store.Reviews next time →
      next.Recorded ∧ store.Retains next ∧ (store.checkpoint = none → next.checkpoint = none) := by
    intro time hReviews
    obtain ⟨hNext, hRetains⟩ := hReviews.recorded h
    refine ⟨hNext, hRetains, fun hIdle => ?_⟩
    rw [hReviews.reviewed.next]
    exact hIdle
  have hEnd : ∀ {decision : CancellationDecision} {now : DateTime} {record : CancellationRecord},
      store.EndsCanceled next decision now record →
      next.Recorded ∧ store.Retains next ∧ (store.checkpoint = none → next.checkpoint = none) := by
    intro decision now record hEnds
    have hNext := hEnds.next
    have hCreation : next.creation = store.creation := by rw [hNext]
    have hRecords : next.recordedCorrections = store.recordedCorrections := by
      rw [hNext]
      rfl
    have hCanceled : next.progress.status = .canceled := by rw [hNext]
    obtain ⟨hRecorded, hRetains⟩ := h.same hCreation hRecords (.inr (.inr (.inr hCanceled)))
    refine ⟨hRecorded, hRetains, fun _ => ?_⟩
    rw [hNext]
  have hSame : next = store → next.Recorded ∧ store.Retains next ∧ (store.checkpoint = none → next.checkpoint = none) := by
    rintro rfl
    exact ⟨h, fun _ hc => hc, id⟩
  cases op with
  | acceptReviews expectedVersion actor values =>
      obtain ⟨_, _, hSigns⟩ := acceptReviews_ok hOp
      exact hReview (.signs hSigns)
  | correctReview expectedVersion actor commandId previousReviewFingerprint candidateOutputFingerprint value =>
      rcases correctReview_ok hOp with hUnchanged | ⟨entry, hCorrects⟩
      · exact hSame hUnchanged
      · exact hReview (.corrects hCorrects)
  | finalize expectedVersion actor expectedPassed reason time confirm =>
      obtain ⟨_, _, hFinalizes⟩ := finalize_ok hOp
      exact hReview (.finalizes hFinalizes)
  | reopen expectedVersion actor reason time confirm =>
      obtain ⟨_, hReopens⟩ := reopen_ok hOp
      exact hReview (.reopens hReopens)
  | cancel expectedVersion decision confirm now =>
      rcases cancel_ok hOp with hRequests | ⟨record, hEnds⟩
      · -- A concluded Run has nothing to drain.
        rcases hRequests.running with hStatus | hStatus <;> rcases h.concluded with hDone | hDone | hDone | hDone <;>
          rw [hStatus] at hDone <;> cases hDone
      · exact hEnd hEnds
  | finishCancellation time now =>
      rcases finishCancellation_ok hOp with hUnchanged | ⟨_, _, _, _, _, hEnds⟩
      · exact hSame hUnchanged
      · exact hEnd hEnds
  | _ => exact absurd hConcludes (by simp [Operation.Concludes, Operation.IsReview, Operation.Cancels])

theorem Collected.recorded {base : Store} (h : base.Collected) : base.Recorded := by
  have hNone : base.recordedCorrections = [] := by
    rw [recordedCorrections, correctionArchives, h.unsigned.2, h.unopened]
    rfl
  refine ⟨?_, ?_, .inl h.awaits⟩
  · rw [hNone]
    exact fun _ hc => absurd hc List.not_mem_nil
  · rw [hNone]
    exact uniqueOn_nil _

/-- A review is one way to go on after the collection. -/
theorem ReviewRun.continues {allowed : Store → Operation → Prop} {base : Store} (h : ReviewRun allowed base store) :
    Continues Operation.Concludes base store := by
  induction h with
  | start => exact .refl
  | step _ hReview _ hOp ih => exact .step ih (.inl hReview) hOp

end Store

/-- A Run that goes on keeps its entries. -/
theorem Continues.keepsEntries {store later : Store} (hLater : Continues Operation.Concludes store later)
    (h : store.Recorded) :
    later.Recorded ∧ store.Retains later ∧ (store.checkpoint = none → later.checkpoint = none) := by
  induction hLater with
  | refl => exact ⟨h, fun _ hc => hc, id⟩
  | step _ hConcludes hOp ih =>
      obtain ⟨hMiddle, hFirst, hBefore⟩ := ih
      obtain ⟨hLast, hRest, hAfter⟩ := Store.perform_keepsEntries hConcludes hOp hMiddle
      exact ⟨hLast, fun c hc => hRest c (hFirst c hc), fun hIdle => hAfter (hBefore hIdle)⟩

namespace Store

variable {store next : Store}

/-- The entry that an accepted command leaves, or finds. -/
theorem correct_recorded {command : CorrectionCommand} (h : store.Recorded)
    (hAccepted : store.correct command = .ok next) :
    store.checkpoint = none ∧ ∃ receipt ∈ next.recordedCorrections, receipt.commandId = command.commandId ∧
      receipt.intent = command.intent := by
  simp only [correct, correctReview] at hAccepted
  obtain ⟨⟨_, hOwn⟩, hAccepted⟩ := (require_bind_ok _ _ _ _).mp hAccepted
  obtain ⟨_, hLock, hAccepted⟩ := (bind_ok _ _ _).mp hAccepted
  refine ⟨(lockReview_ok hLock).2, ?_⟩
  rw [h.findCorrection, ok_bind] at hAccepted
  split at hAccepted
  · next prior hPrior =>
      obtain ⟨hReplays, hAccepted⟩ := (require_bind_ok _ _ _ _).mp hAccepted
      obtain ⟨hMem, hId⟩ := lookup_some hPrior
      obtain rfl := (pure_ok _ _).mp hAccepted
      exact ⟨prior, hMem, hId, ((replaysCorrection_iff command prior).mp hReplays).symm⟩
  · obtain ⟨⟨hVersion, _⟩, hAccepted⟩ := (require_bind_ok _ _ _ _).mp hAccepted
    obtain ⟨snapshot, _, hAccepted⟩ := (bind_ok _ _ _).mp hAccepted
    split at hAccepted
    · obtain ⟨_, hAccepted⟩ := (require_bind_ok _ _ _ _).mp hAccepted
      obtain ⟨entry, hEntry, hAccepted⟩ := (bind_ok _ _ _).mp hAccepted
      obtain ⟨_, _, hSave⟩ := (bind_ok _ _ _).mp hAccepted
      obtain ⟨hFields, _⟩ := ReviewCorrection.make_ok hEntry
      obtain ⟨_, rfl⟩ := saveProgress_ok hSave
      refine ⟨entry, ?_, ?_, ?_⟩
      · simp [recordedCorrections, correctionArchives]
      · rw [hFields]
      · rw [ReviewCorrection.intent, CorrectionCommand.intent, hFields, ← hVersion, ← hOwn]
    · cases hAccepted

/-- A recorded command is answered by its entry, whatever the Run does now. -/
theorem Recorded.correct_again (h : store.Recorded) (hIdle : store.checkpoint = none) {receipt : ReviewCorrection}
    (hReceipt : receipt ∈ store.recordedCorrections) {again : CorrectionCommand}
    (hId : again.commandId = receipt.commandId) :
    store.correct again = if again.intent = receipt.intent then .ok store
      else .error (.conflict "Correction command ID reused with different intent") := by
  have hLookup : lookup (·.commandId) store.recordedCorrections again.commandId = some receipt :=
    h.unique.lookup_iff.mpr ⟨hReceipt, hId.symm⟩
  rw [correct, correctReview, require_bind_pos ⟨again.own.1, again.own.2.1⟩, lockReview, require_bind_pos ⟨rfl, hIdle⟩,
    h.findCorrection, ok_bind, hLookup]
  by_cases hSame : again.intent = receipt.intent
  · rw [if_pos hSame]
    simp only [require_bind_pos ((replaysCorrection_iff again receipt).mpr hSame)]
    rfl
  · rw [if_neg hSame]
    simp only [require_bind_neg (mt (replaysCorrection_iff again receipt).mp hSame)]

end Store

/-- Whatever a Run does after it accepted a correction, the entry of the command
stays the one that is found under its id: the same command is answered without a
change, another one under the id is refused. -/
theorem correction_replay_safe {base store next later : Store} (hBase : base.Collected)
    (hRun : Continues Operation.Concludes base store) {command : CorrectionCommand}
    (hAccepted : store.correct command = .ok next) (hLater : Continues Operation.Concludes next later) :
    ∃ receipt, receipt.intent = command.intent ∧
      lookup (·.commandId) next.recordedCorrections command.commandId = some receipt ∧
      lookup (·.commandId) later.recordedCorrections command.commandId = some receipt ∧
      ∀ again : CorrectionCommand, again.commandId = command.commandId →
        later.correct again = if again.intent = command.intent then .ok later
          else .error (.conflict "Correction command ID reused with different intent") := by
  obtain ⟨hStore, _⟩ := hRun.keepsEntries hBase.recorded
  obtain ⟨hIdle, receipt, hMem, hId, hIntent⟩ := Store.correct_recorded hStore hAccepted
  have hOp : store.perform (.correctReview command.expectedVersion command.actor command.commandId
      command.previousReviewFingerprint command.candidateOutputFingerprint command.value) = .ok next := hAccepted
  have hReview : Operation.Concludes (.correctReview command.expectedVersion command.actor command.commandId
      command.previousReviewFingerprint command.candidateOutputFingerprint command.value) := .inl trivial
  obtain ⟨hNext, _, hStill⟩ := Store.perform_keepsEntries hReview hOp hStore
  obtain ⟨hKept, hRetains, hLast⟩ := hLater.keepsEntries hNext
  refine ⟨receipt, hIntent, hNext.unique.lookup_iff.mpr ⟨hMem, hId⟩,
    hKept.unique.lookup_iff.mpr ⟨hRetains receipt hMem, hId⟩, fun again hAgain => ?_⟩
  rw [← hIntent]
  exact hKept.correct_again (hLast (hStill hIdle)) (hRetains receipt hMem) (hAgain.trans hId.symm)

namespace Panel

open Pilot

/-- The first signature of the pilot review and what its reviewer makes of it. -/
def approved : CandidateHumanReview := signature .assessmentSemantics "ann" ann_valid first

def revoked : CandidateHumanReview := { approved with decision := .reject, reviewedAt := clock 3 }

/-- Ann takes back her first approval. -/
def revocation : CorrectionCommand where
  expectedVersion := 215
  actor := "ann"
  commandId := "00000000-0000-4000-8000-000000000001"
  previousReviewFingerprint := Pilot.encoding.reviewFingerprint approved
  candidateOutputFingerprint := explanation.fingerprint
  value := revoked
  own := ⟨by decide, rfl, rfl⟩

def revocationFields : CorrectionFields where
  commandId := revocation.commandId
  sourceVersion := 215
  version := 216
  previousReviewFingerprint := revocation.previousReviewFingerprint
  candidateOutputFingerprint := revocation.candidateOutputFingerprint
  previousReview := approved
  review := revoked

theorem revocation_check : revocationFields.check = .ok () := by
  have hIds : validUuid revocation.commandId = true ∧ validFingerprint explanation.fingerprint = true := by
    decide
  have hTime : approved.reviewedAt ≤ revoked.reviewedAt := by decide
  exact (require_ok _ _ _).mpr ⟨hIds.1, by decide, rfl, hIds.2, ⟨rfl, rfl, rfl⟩, hTime, rfl, rfl⟩

def revocationEntry : ReviewCorrection := ⟨revocationFields, revocation_check⟩

theorem revocation_valid : validateCorrections (ann ++ bob) [revocationEntry] (seats.map review) (clock 1) 216 (clock 3)
    "v2" = .ok (replaceReview (ann ++ bob) revoked) := by
  have hReplaces : replaces (ann ++ bob) revocationEntry = true := by decide
  have hReviews : ann ++ bob ≠ [] := by decide
  have hCandidate : dict (·.candidateId) (seats.map review) "e01" = some (review first) := by
    have hUnique : UniqueOn (·.candidateId) (seats.map review) := by decide
    refine hUnique.dict_iff.mpr ⟨List.mem_map_of_mem ?_, rfl⟩
    exact List.mem_cons_self
  have hAdded : (addHumanReviews .awaitingReview (clock 1) (seats.map review) [] (replaceReview (ann ++ bob) revoked)
      "v2").toOption.isSome = true := by
    decide +kernel
  obtain ⟨result, hResult⟩ := Option.isSome_iff_exists.mp hAdded
  have hEffective : effectiveReviews (ann ++ bob) [revocationEntry] 216 =
      .ok (replaceReview (ann ++ bob) revoked) := by
    refine (require_bind_ok _ _ _ _).mpr ⟨by decide, (require_bind_ok _ _ _ _).mpr ⟨?_, ?_⟩⟩
    · exact ⟨hReplaces, List.not_mem_nil, fun _ hLast => absurd hLast (by simp), by decide⟩
    · exact (require_bind_ok _ _ _ _).mpr ⟨by decide, rfl⟩
  rw [validateCorrections, if_pos hReviews]
  refine (bind_ok _ _ _).mpr ⟨_, added_both, (bind_ok _ _ _).mpr ⟨(), ?_, hEffective⟩⟩
  refine (bind_ok _ _ _).mpr ⟨_, (demand_ok _ _ _).mpr hCandidate, (require_bind_ok _ _ _ _).mpr ⟨⟨rfl, le_rfl⟩, ?_⟩⟩
  exact (bind_ok _ _ _).mpr ⟨_, hEffective, (bind_ok _ _ _).mpr ⟨_, toOption_some.mp hResult, rfl⟩⟩

/-- The pilot review with the corrected signature. -/
def corrected : Store :=
  { signed Pilot.encoding 216 (ann ++ bob) with
    progress := { (signed Pilot.encoding 216 (ann ++ bob)).progress with reviewCorrections := [revocationEntry] } }

theorem corrects : (signed Pilot.encoding 215 (ann ++ bob)).correct revocation = .ok corrected := by
  obtain ⟨gates, hGates, _⟩ := rejected
  have hOnly : (ann ++ bob).filter (·.key = revoked.key) = [approved] := by decide
  have hFilter : (⟨gates, seats.map review, ann ++ bob, clock 1⟩ : GateSnapshot).reviews.filter
      (·.key = revocation.value.key) = [approved] := hOnly
  have hEntry : ReviewCorrection.make Pilot.encoding.reviewFingerprint revocationFields = .ok revocationEntry :=
    revocationEntry.make_self rfl
  refine (require_bind_ok _ _ _ _).mpr ⟨⟨by decide, rfl⟩, (require_bind_ok _ _ _ _).mpr ⟨⟨rfl, rfl⟩, ?_⟩⟩
  refine (bind_ok _ _ _).mpr ⟨none, rfl, (require_bind_ok _ _ _ _).mpr ⟨⟨rfl, rfl⟩, ?_⟩⟩
  refine (bind_ok _ _ _).mpr ⟨_, loaded (by decide) hGates, ?_⟩
  rw [hFilter]
  refine (require_bind_ok _ _ _ _).mpr ⟨rfl, (bind_ok _ _ _).mpr ⟨_, hEntry, ?_⟩⟩
  refine (bind_ok _ _ _).mpr ⟨_, revocation_valid, ?_⟩
  exact (bind_ok _ _ _).mpr ⟨_, (require_bind_ok _ _ _ _).mpr ⟨rfl, rfl⟩, rfl⟩

end Panel

/-- The revoked approval of the pilot review is found again, and its command id is
spent. -/
theorem correction_replay_safe_panel : ∃ (base store next : Store) (command : CorrectionCommand), base.Collected ∧
    Continues Operation.Concludes base store ∧ store.correct command = .ok next ∧
    ∃ receipt, receipt.intent = command.intent ∧
      lookup (·.commandId) next.recordedCorrections command.commandId = some receipt ∧
      next.correct command = .ok next := by
  have hSigned : Store.ReviewRun (fun _ _ => True) (Panel.collected Pilot.encoding)
      (Panel.signed Pilot.encoding 215 (Panel.ann ++ Panel.bob)) :=
    Panel.signed_run Pilot.encoding fun _ _ _ _ => trivial
  have hRun := hSigned.continues
  obtain ⟨receipt, hIntent, hFound, _, hAgain⟩ :=
    correction_replay_safe (Panel.collected_base _) hRun Panel.corrects .refl
  refine ⟨_, _, _, Panel.revocation, Panel.collected_base _, hRun, Panel.corrects, receipt, hIntent, hFound, ?_⟩
  rw [hAgain _ rfl, if_pos rfl]

end QsAi
