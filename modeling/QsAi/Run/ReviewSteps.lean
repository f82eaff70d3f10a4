import QsAi.Run.Transactions

/-! What the steps of a review do. Each of them found the closed evidence in
order and writes one part of the progress; the evidence itself stays as it
was. -/
namespace QsAi

open Guarded Keyed Numbered

namespace Store

variable {store next : Store}

/-- A batch of signatures was appended. -/
structure Signs (store next : Store) (time : DateTime) (values : List CandidateHumanReview) : Prop where
  idle : store.checkpoint = none
  awaits : store.progress.status = .awaitingReview
  timed : ∀ v ∈ values, v.reviewedAt ≤ time
  loaded : store.progress.hasReviewRounds ∨ store.progress.reviewCorrections ≠ [] →
    ∃ snapshot, store.loadSnapshot store.version time = .ok snapshot
  reopened : store.checkReopened values = .ok ()
  next : next = { store with
    version := store.version + 1
    progress := { store.progress with humanReviews := store.progress.humanReviews ++ values } }

/-- A signature was corrected, by a command that was not recorded before. -/
structure Corrects (store next : Store) (time : DateTime) (entry : ReviewCorrection) : Prop where
  idle : store.checkpoint = none
  awaits : store.progress.status = .awaitingReview
  fresh : entry.commandId ∉ store.recordedCorrections.map (·.commandId)
  loaded : ∃ snapshot, store.loadSnapshot store.version time = .ok snapshot
  timed : entry.review.reviewedAt = time
  named : entry.previousReviewFingerprint = store.creation.assets.encoding.reviewFingerprint entry.previousReview
  next : next = { store with
    version := store.version + 1
    progress := { store.progress with reviewCorrections := store.progress.reviewCorrections ++ [entry] } }

/-- The review was decided. -/
structure Finalizes (store next : Store) (time : DateTime) (snapshot : GateSnapshot) (record : FinalRecord) : Prop where
  version : 1 ≤ store.version
  idle : store.checkpoint = none
  loaded : store.loadSnapshot store.version time = .ok snapshot
  derived : store.creation.assets.encoding.finalRecord store.version store.creation.releaseFingerprint
    snapshot.quality record.actor record.reason = .ok record
  next : next = { store with
    version := store.version + 1
    progress := { store.progress with
      status := record.status
      finalizedAt := some record.finalizedAt
      gateResult := some (store.creation.assets.encoding.stored record)
      transitions := store.progress.transitions ++ [finalTransition record] } }

/-- A rejected round was kept and another one opened. -/
structure Reopens (store next : Store) (time : DateTime) (snapshot : GateSnapshot) : Prop where
  idle : store.checkpoint = none
  rejected : store.progress.status = .rejected
  verified : store.verifiedFinalSnapshot = .ok snapshot
  opened : ∃ actor reason, store.reopenedProgress actor reason time snapshot = .ok next.progress
  next : next = { store with version := store.version + 1, progress := next.progress }

theorem saveProgress_ok {expectedVersion : Nat} {progress : Progress}
    (h : store.saveProgress expectedVersion progress = .ok next) : store.version = expectedVersion ∧
    next = { store with version := store.version + 1, checkpoint := none, progress } := by
  simp only [saveProgress, bind_ok, pure_ok] at h
  obtain ⟨saved, hSave, rfl⟩ := h
  obtain ⟨hVersion, rfl⟩ := saveCheckpoint_ok hSave
  exact ⟨hVersion, rfl⟩

theorem lockReview_ok {expectedVersion : Nat} {done : Unit} (h : store.lockReview expectedVersion = .ok done) :
    store.version = expectedVersion ∧ store.checkpoint = none :=
  (require_ok _ _ _).mp h

theorem addHumanReviews_ok {status : RunStatus} {closedAt : DateTime} {candidates : List ReviewCandidate}
    {prior values result : List CandidateHumanReview} {gatePolicyVersion : String}
    (h : addHumanReviews status closedAt candidates prior values gatePolicyVersion = .ok result) :
    result = prior ++ values := by
  simp only [addHumanReviews, bind_ok, pure_ok] at h
  obtain ⟨_, _, _, _, _, _, rfl⟩ := h
  rfl

/-- The latest time of a batch. -/
def latestReview : List CandidateHumanReview → Option DateTime
  | [] => none
  | first :: rest => some (DateTime.latest first.reviewedAt (rest.map (·.reviewedAt)))

theorem acceptReviews_ok {expectedVersion : Nat} {actor : String} {values : List CandidateHumanReview}
    (h : store.acceptReviews expectedVersion actor values = .ok next) :
    ∃ time, latestReview values = some time ∧ store.Signs next time values := by
  simp only [acceptReviews] at h
  obtain ⟨⟨_, ⟨hSome, _⟩, _⟩, h⟩ := (require_bind_ok _ _ _ _).mp h
  obtain ⟨⟨rfl, hIdle⟩, h⟩ := (require_bind_ok _ _ _ _).mp h
  obtain ⟨hStatus, h⟩ := (require_bind_ok _ _ _ _).mp h
  cases values with
  | nil => simp at hSome
  | cons first rest =>
      -- The reading of the rounds comes first, when there are any.
      have hSteps : (store.progress.hasReviewRounds ∨ store.progress.reviewCorrections ≠ [] →
          ∃ snapshot, store.loadSnapshot store.version
            (DateTime.latest first.reviewedAt (rest.map (·.reviewedAt))) = .ok snapshot) ∧
          ∃ done, store.checkReopened (first :: rest) = .ok done ∧ ∃ closedAt candidates reviews,
            addHumanReviews store.progress.status closedAt candidates store.progress.humanReviews (first :: rest)
              store.creation.assets.gateVersion = .ok reviews ∧
            store.saveProgress store.version { store.progress with humanReviews := reviews } = .ok next := by
        split at h
        · simp only [List.map_cons, List.head?_cons, List.tail_cons, demand, ok_bind, bind_ok] at h
          obtain ⟨snapshot, hLoad, done, hReopened, closedAt, _, candidates, _, reviews, hAdd, hSave⟩ := h
          exact ⟨fun _ => ⟨snapshot, hLoad⟩, done, hReopened, closedAt, candidates, reviews, hAdd, hSave⟩
        · rename_i hNone
          simp only [bind_ok] at h
          obtain ⟨done, hReopened, closedAt, _, candidates, _, reviews, hAdd, hSave⟩ := h
          exact ⟨fun hSome => absurd hSome hNone, done, hReopened, closedAt, candidates, reviews, hAdd, hSave⟩
      obtain ⟨hLoaded, done, hReopened, closedAt, candidates, reviews, hAdd, hSave⟩ := hSteps
      obtain ⟨_, rfl⟩ := saveProgress_ok hSave
      rw [addHumanReviews_ok hAdd]
      refine ⟨_, rfl, hIdle, hStatus, ?_, hLoaded, hReopened, by rw [hIdle]⟩
      refine List.forall_mem_cons.mpr ⟨DateTime.le_latest _ _, fun v hv => ?_⟩
      exact DateTime.le_latest_of_mem (List.mem_map_of_mem hv)

/-- The search through the archives is a lookup in all they recorded. -/
theorem findCorrection_ok {fingerprint : CandidateHumanReview → String} {commandId : String}
    {archives : List (List ReviewCorrection)} {found : Option ReviewCorrection}
    (h : findCorrection fingerprint commandId archives = .ok found) :
    found = lookup (·.commandId) archives.flatten commandId := by
  induction archives with
  | nil => exact ((pure_ok _ _).mp h).symm
  | cons archive rest ih =>
      rw [findCorrection] at h
      obtain ⟨corrections, hDecode, hFound⟩ := (bind_ok _ _ _).mp h
      obtain ⟨rfl, _⟩ := decodeCorrections_ok.mp hDecode
      rw [lookup, List.flatten_cons, List.find?_append]
      split at hFound
      · next prior hPrior =>
          rw [lookup] at hPrior
          rw [hPrior]
          exact ((pure_ok _ _).mp hFound).symm
      · next hNone =>
          rw [lookup] at hNone
          rw [hNone]
          exact ih hFound

theorem correctReview_ok {expectedVersion : Nat}
    {actor commandId previousReviewFingerprint candidateOutputFingerprint : String} {value : CandidateHumanReview}
    (h : store.correctReview expectedVersion actor commandId previousReviewFingerprint candidateOutputFingerprint
      value = .ok next) :
    next = store ∨ ∃ entry, store.Corrects next value.reviewedAt entry := by
  simp only [correctReview] at h
  obtain ⟨_, h⟩ := (require_bind_ok _ _ _ _).mp h
  obtain ⟨_, hLock, h⟩ := (bind_ok _ _ _).mp h
  obtain ⟨_, hIdle⟩ := lockReview_ok hLock
  obtain ⟨recorded, hFound, h⟩ := (bind_ok _ _ _).mp h
  have hLookup := findCorrection_ok hFound
  split at h
  · obtain ⟨_, h⟩ := (require_bind_ok _ _ _ _).mp h
    exact .inl ((pure_ok _ _).mp h).symm
  · obtain ⟨⟨_, hStatus⟩, h⟩ := (require_bind_ok _ _ _ _).mp h
    obtain ⟨snapshot, hLoad, h⟩ := (bind_ok _ _ _).mp h
    split at h
    · obtain ⟨_, h⟩ := (require_bind_ok _ _ _ _).mp h
      obtain ⟨entry, hEntry, h⟩ := (bind_ok _ _ _).mp h
      obtain ⟨_, _, hSave⟩ := (bind_ok _ _ _).mp h
      obtain ⟨hFields, hNamed⟩ := ReviewCorrection.make_ok hEntry
      obtain ⟨_, rfl⟩ := saveProgress_ok hSave
      refine .inr ⟨entry, hIdle, hStatus, ?_, ⟨snapshot, hLoad⟩, ?_, ?_, by rw [hIdle]⟩
      · rw [hFields]
        intro hMem
        obtain ⟨prior, hPrior, hSame⟩ := List.mem_map.mp hMem
        exact lookup_eq_none.mp hLookup.symm prior hPrior hSame
      · rw [hFields]
      · rw [hFields]
        exact hNamed
    · cases h

theorem finalRecord_ok {encoding : ReviewEncoding} {version : Nat} {releaseFingerprint actor reason : String}
    {quality : QualityGateResult} {record : FinalRecord}
    (h : encoding.finalRecord version releaseFingerprint quality actor reason = .ok record) :
    record.actor = actor ∧ record.reason = reason ∧ record.sourceVersion = version ∧ record.version = version + 1 ∧
    record.finalizedAt = quality.evaluatedAt ∧ record.gateResult = quality ∧
    (record.status = .approved ∨ record.status = .rejected) := by
  simp only [ReviewEncoding.finalRecord, finalizeReview, bind_ok, require_ok, exists_const, pure_ok] at h
  obtain ⟨decision, ⟨_, hDecision⟩, _, rfl⟩ := h
  unfold FinalReview.make at hDecision
  split at hDecision
  · rw [pure_ok] at hDecision
    subst hDecision
    refine ⟨rfl, rfl, rfl, rfl, rfl, rfl, ?_⟩
    unfold FinalReview.status
    split
    · exact .inl rfl
    · exact .inr rfl
  · cases hDecision

theorem finalize_ok {expectedVersion : Nat} {actor reason : String} {expectedPassed confirm : Bool} {time : DateTime}
    (h : store.finalize expectedVersion actor expectedPassed reason time confirm = .ok next) :
    ∃ snapshot record, store.Finalizes next time snapshot record := by
  simp only [finalize, bind_ok, require_ok, exists_const] at h
  obtain ⟨⟨_, hVersion⟩, _, hLock, snapshot, hLoad, record, hRecord, _, hSave⟩ := h
  obtain ⟨rfl, hIdle⟩ := lockReview_ok hLock
  obtain ⟨_, rfl⟩ := saveProgress_ok hSave
  obtain ⟨hActor, hReason, _⟩ := finalRecord_ok hRecord
  refine ⟨snapshot, record, hVersion, hIdle, hLoad, ?_, by rw [hIdle]⟩
  rw [hActor, hReason]
  exact hRecord

theorem reopen_ok {expectedVersion : Nat} {actor reason : String} {time : DateTime} {confirm : Bool}
    (h : store.reopen expectedVersion actor reason time confirm = .ok next) :
    ∃ snapshot, store.Reopens next time snapshot := by
  simp only [reopen, bind_ok, require_ok, exists_const] at h
  obtain ⟨_, _, hLock, hStatus, snapshot, hVerified, progress, hOpened, hSave⟩ := h
  obtain ⟨rfl, hIdle⟩ := lockReview_ok hLock
  obtain ⟨_, rfl⟩ := saveProgress_ok hSave
  exact ⟨snapshot, hIdle, hStatus, hVerified, ⟨actor, reason, hOpened⟩, by rw [hIdle]⟩

/-- A step of the review. -/
inductive Reviews (store next : Store) (time : DateTime) : Prop
  | signs {values : List CandidateHumanReview} (hSigns : store.Signs next time values)
  | corrects {entry : ReviewCorrection} (hCorrects : store.Corrects next time entry)
  | finalizes {snapshot : GateSnapshot} {record : FinalRecord} (hFinalizes : store.Finalizes next time snapshot record)
  | reopens {snapshot : GateSnapshot} (hReopens : store.Reopens next time snapshot)

theorem loadSnapshot_ok {expectedVersion : Nat} {time : DateTime} {snapshot : GateSnapshot}
    (h : store.loadSnapshot expectedVersion time = .ok snapshot) :
    store.version = expectedVersion ∧ store.checkpoint = none ∧ store.progress.status = .awaitingReview ∧
    (store.progress.unresolvedResultUnknownCount = 0 ∧ store.progress.canceledAt = none ∧
      store.progress.gateResult = none ∧ store.progress.finalizedAt = none) ∧
    ∃ context, store.gateContext = .ok context ∧ store.reviewSnapshot context time = .ok snapshot := by
  simp only [loadSnapshot, bind_ok, require_ok, exists_const] at h
  exact h

theorem reviewSnapshot_ok {context : GateContext} {time : DateTime} {snapshot : GateSnapshot}
    (h : store.reviewSnapshot context time = .ok snapshot) :
    ∃ corrections, decodeCorrections store.creation.assets.encoding.reviewFingerprint store.progress.reviewCorrections =
        .ok corrections ∧
      validateCorrections store.progress.humanReviews corrections context.evidence.targets context.evidence.closedAt
        store.version time store.creation.assets.gateVersion = .ok snapshot.reviews ∧
      store.validateRounds context time = .ok () ∧
      context.evidence.evaluateQualityGates snapshot.reviews time = .ok snapshot.quality ∧
      snapshot.candidates = context.evidence.targets ∧ snapshot.closedAt = context.evidence.closedAt := by
  simp only [reviewSnapshot, bind_ok, pure_ok] at h
  obtain ⟨corrections, hDecode, reviews, hReviews, _, hRounds, quality, hQuality, rfl⟩ := h
  exact ⟨corrections, hDecode, hReviews, hRounds, hQuality, rfl, rfl⟩

theorem evaluatedAt_of_quality {evidence : GateEvidence} {reviews : List CandidateHumanReview} {time : DateTime}
    {quality : QualityGateResult} (h : evidence.evaluateQualityGates reviews time = .ok quality) :
    quality.evaluatedAt = time := by
  simp only [GateEvidence.evaluateQualityGates, bind_ok, require_ok, exists_const] at h
  obtain ⟨_, _, _, _, _, h⟩ := h
  split at h
  · simp only [bind_ok, pure_ok] at h
    obtain ⟨_, _, _, _, rfl⟩ := h
    rfl
  · simp only [bind_ok, pure_ok] at h
    obtain ⟨_, _, rfl⟩ := h
    rfl

/-- What every step of the review leaves as it was. -/
structure Reviewed (store next : Store) (time : DateTime) : Prop where
  idle : store.checkpoint = none
  before : store.progress.status = .awaitingReview ∨ store.progress.status = .rejected
  after : next.progress.status = .awaitingReview ∨ next.progress.status = .approved ∨
    next.progress.status = .rejected
  transitions : ∃ added, next.progress.transitions = store.progress.transitions ++ added ∧ ∀ t ∈ added,
    t.time = time ∧ (t.cause = .humanReviewFinalized ∨ t.cause = .semanticReviewReopened)
  next : next = { store with
    version := store.version + 1
    progress := { store.progress with
      status := next.progress.status
      transitions := next.progress.transitions
      humanReviews := next.progress.humanReviews
      reviewCorrections := next.progress.reviewCorrections
      reviewReopenings := next.progress.reviewReopenings
      gateResult := next.progress.gateResult
      finalizedAt := next.progress.finalizedAt } }

/-- The round that a reopening ends. -/
theorem reopenedProgress_ok {actor reason : String} {time : DateTime} {snapshot : GateSnapshot} {final : Progress}
    (h : store.reopenedProgress actor reason time snapshot = .ok final) :
    ∃ plan record entry, reopenReview snapshot.candidates snapshot.reviews snapshot.quality snapshot.closedAt actor
        reason time .rejected "v2" store.progress.reviewReopenings.length = .ok plan ∧
      store.progress.gateResult = some record ∧
      entry = { openingRecord plan record store.progress.transitions.length with
        archived := if store.progress.reviewCorrections ≠ [] then
          some (store.progress.humanReviews, store.progress.reviewCorrections) else none } ∧
      store.creation.assets.encoding.historySize (store.progress.reviewReopenings ++ [entry]) ≤ 2 * 1024 * 1024 ∧
      final = { store.progress with
        status := .awaitingReview
        gateResult := none
        finalizedAt := none
        humanReviews := plan.retainedReviews
        reviewReopenings := store.progress.reviewReopenings ++ [entry]
        reviewCorrections := []
        transitions := store.progress.transitions ++ [openingTransition entry] } := by
  simp only [reopenedProgress, bind_ok, require_ok, exists_const, demand_ok, pure_ok] at h
  obtain ⟨hRejected, plan, hPlan, record, hRecord, hSize, rfl⟩ := h
  rw [hRejected] at hPlan
  exact ⟨plan, record, _, hPlan, hRecord, rfl, hSize, rfl⟩

theorem reopenReview_ok {candidates : List ReviewCandidate} {reviews : List CandidateHumanReview}
    {gate : QualityGateResult} {closedAt time : DateTime} {actor reason gatePolicyVersion : String}
    {status : RunStatus} {count : Nat} {plan : ReviewReopening}
    (h : reopenReview candidates reviews gate closedAt actor reason time status gatePolicyVersion count = .ok plan) :
    ∃ ids, eligibleCandidateIds candidates reviews gate closedAt status gatePolicyVersion count = .ok ids ∧ ids ≠ [] ∧
      gate.evaluatedAt ≤ time ∧ plan = ⟨reviews, gate, ids, actor, reason, time⟩ := by
  simp only [reopenReview, bind_ok, require_ok, exists_const, pure_ok] at h
  obtain ⟨ids, hIds, _, _, ⟨hSome, hTime⟩, _, _, rfl⟩ := h
  exact ⟨ids, hIds, hSome, hTime, rfl⟩

theorem Reviews.reviewed {time : DateTime} (h : store.Reviews next time) : store.Reviewed next time := by
  cases h with
  | signs hSigns =>
      have hNext := hSigns.next
      subst hNext
      exact ⟨hSigns.idle, .inl hSigns.awaits, .inl hSigns.awaits, ⟨[], by simp, by simp⟩, rfl⟩
  | corrects hCorrects =>
      have hNext := hCorrects.next
      subst hNext
      exact ⟨hCorrects.idle, .inl hCorrects.awaits, .inl hCorrects.awaits, ⟨[], by simp, by simp⟩, rfl⟩
  | @finalizes snapshot record hFinalizes =>
      have hNext := hFinalizes.next
      subst hNext
      obtain ⟨_, _, hStatus, _, context, _, hSnapshot⟩ := loadSnapshot_ok hFinalizes.loaded
      obtain ⟨_, _, _, _, hQuality, _⟩ := reviewSnapshot_ok hSnapshot
      obtain ⟨_, _, _, _, hTime, _, hFinal⟩ := finalRecord_ok hFinalizes.derived
      refine ⟨hFinalizes.idle, .inl hStatus, .inr hFinal, ⟨_, rfl, ?_⟩, rfl⟩
      intro t ht
      obtain rfl := List.mem_singleton.mp ht
      exact ⟨hTime.trans (evaluatedAt_of_quality hQuality), .inl rfl⟩
  | reopens hReopens =>
      obtain ⟨actor, reason, hOpened⟩ := hReopens.opened
      obtain ⟨plan, record, entry, hPlan, _, hEntry, _, hFinal⟩ := reopenedProgress_ok hOpened
      obtain ⟨ids, _, _, _, rfl⟩ := reopenReview_ok hPlan
      have hNext := hReopens.next
      refine ⟨hReopens.idle, .inr hReopens.rejected, .inl (by rw [hFinal]), ⟨[openingTransition entry], ?_, ?_⟩, ?_⟩
      · rw [hFinal]
      · intro t ht
        obtain rfl := List.mem_singleton.mp ht
        rw [hEntry]
        exact ⟨rfl, .inr rfl⟩
      · rw [hNext, hFinal]

end Store

end QsAi
