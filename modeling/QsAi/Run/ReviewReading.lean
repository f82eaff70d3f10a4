import QsAi.Run.ReviewSteps

/-! Reading a review again. What was accepted once under a version and a time is
accepted under every later version and time, as long as the records it rests on
are only appended to. -/
namespace QsAi

open Guarded Keyed Numbered

/-! Corrections. -/

theorem applyCorrections_later {version later : Nat} (hVersion : version ≤ later) {corrections : List ReviewCorrection}
    {prior : List ReviewCorrection} {reviews result : List CandidateHumanReview}
    (h : applyCorrections version prior reviews corrections = .ok result) :
    applyCorrections later prior reviews corrections = .ok result := by
  induction corrections generalizing prior reviews with
  | nil => exact h
  | cons entry rest ih =>
      simp only [applyCorrections, bind_ok, require_ok, exists_const] at h ⊢
      obtain ⟨⟨hReplaces, hNew, hOrder, hBound⟩, hLimit, h⟩ := h
      exact ⟨⟨hReplaces, hNew, hOrder, hBound.trans hVersion⟩, hLimit, ih h⟩

theorem effectiveReviews_later {version later : Nat} (hVersion : version ≤ later)
    {original result : List CandidateHumanReview} {corrections : List ReviewCorrection}
    (h : effectiveReviews original corrections version = .ok result) :
    effectiveReviews original corrections later = .ok result := by
  simp only [effectiveReviews, bind_ok, require_ok, exists_const] at h ⊢
  exact ⟨h.1, applyCorrections_later hVersion h.2⟩

theorem checkCorrections_later {version later : Nat} (hVersion : version ≤ later) {limit moment : DateTime}
    (hTime : limit ≤ moment) {original : List CandidateHumanReview} {candidates : List ReviewCandidate}
    {closedAt : DateTime} {gatePolicyVersion : String} {prior corrections : List ReviewCorrection}
    (h : checkCorrections original candidates closedAt version limit gatePolicyVersion prior corrections = .ok ()) :
    checkCorrections original candidates closedAt later moment gatePolicyVersion prior corrections = .ok () := by
  induction corrections generalizing prior with
  | nil => exact h
  | cons entry rest ih =>
      simp only [checkCorrections, bind_ok, demand_ok, require_ok, exists_const] at h ⊢
      obtain ⟨candidate, hCandidate, ⟨hFingerprint, hReviewed⟩, values, hValues, reviews, hReviews, h⟩ := h
      exact ⟨candidate, hCandidate, ⟨hFingerprint, hReviewed.trans hTime⟩, values,
        effectiveReviews_later hVersion hValues, reviews, hReviews, ih h⟩

theorem validateCorrections_later {version later : Nat} (hVersion : version ≤ later) {limit moment : DateTime}
    (hTime : limit ≤ moment) {original result : List CandidateHumanReview} {corrections : List ReviewCorrection}
    {candidates : List ReviewCandidate} {closedAt : DateTime} {gatePolicyVersion : String}
    (h : validateCorrections original corrections candidates closedAt version limit gatePolicyVersion = .ok result) :
    validateCorrections original corrections candidates closedAt later moment gatePolicyVersion = .ok result := by
  have hRest : ∀ {result : List CandidateHumanReview}, (do
        checkCorrections original candidates closedAt version limit gatePolicyVersion [] corrections
        effectiveReviews original corrections version) = .ok result →
      (do
        checkCorrections original candidates closedAt later moment gatePolicyVersion [] corrections
        effectiveReviews original corrections later) = .ok result := by
    intro result h
    simp only [bind_ok] at h ⊢
    obtain ⟨⟨⟩, hCheck, hEffective⟩ := h
    exact ⟨(), checkCorrections_later hVersion hTime hCheck, effectiveReviews_later hVersion hEffective⟩
  unfold validateCorrections at h ⊢
  split at h
  · rename_i hSome
    rw [if_pos hSome]
    obtain ⟨reviews, hReviews, h⟩ := (bind_ok _ _ _).mp h
    exact (bind_ok _ _ _).mpr ⟨reviews, hReviews, hRest h⟩
  · rename_i hNone
    rw [if_neg hNone]
    exact hRest h

/-! Gates. -/

theorem evaluateQualityGates_later {evidence : GateEvidence} {reviews : List CandidateHumanReview}
    {time later : DateTime} (hTime : time ≤ later) {quality : QualityGateResult}
    (h : evidence.evaluateQualityGates reviews time = .ok quality) :
    ∃ quality, evidence.evaluateQualityGates reviews later = .ok quality := by
  unfold GateEvidence.evaluateQualityGates at h ⊢
  obtain ⟨⟨hClosed, hReviewed⟩, h⟩ := (require_bind_ok _ _ _ _).mp h
  rw [require_bind_pos ⟨hClosed.trans hTime, fun r hr => (hReviewed r hr).trans hTime⟩]
  obtain ⟨_, hInventory, h⟩ := (bind_ok _ _ _).mp h
  obtain ⟨_, hExecutions, h⟩ := (bind_ok _ _ _).mp h
  rw [hInventory, ok_bind, hExecutions, ok_bind]
  split at h
  · rename_i hSome
    rw [if_pos hSome]
    obtain ⟨_, hReviews, h⟩ := (bind_ok _ _ _).mp h
    obtain ⟨tally, hTally, _⟩ := (bind_ok _ _ _).mp h
    rw [hReviews, ok_bind, hTally]
    exact ⟨_, rfl⟩
  · rename_i hNone
    rw [if_neg hNone]
    obtain ⟨tally, hTally, _⟩ := (bind_ok _ _ _).mp h
    rw [hTally]
    exact ⟨_, rfl⟩

/-! Ended rounds. -/

namespace Store

variable {store later : Store} {context : GateContext} {time moment : DateTime}

theorem checkArchive_creation (hCreation : later.creation = store.creation) (context : GateContext)
    (entry : RoundEntry) : later.checkArchive context entry = store.checkArchive context entry := by
  unfold checkArchive
  rw [hCreation]

theorem getElem?_of_append {transitions longer : List Transition} (h : transitions <+: longer) {index : Nat}
    {transition : Transition} (hSome : transitions[index]? = some transition) : longer[index]? = some transition := by
  obtain ⟨added, rfl⟩ := h
  have hIndex := (List.getElem?_eq_some_iff.mp hSome).1
  rw [List.getElem?_append_left hIndex]
  exact hSome

theorem checkRound_later (hCreation : later.creation = store.creation) (hVersion : store.version ≤ later.version)
    (hTransitions : store.progress.transitions <+: later.progress.transitions) (hTime : time ≤ moment)
    {index previousVersion : Nat} {entry : RoundEntry} {plan : ReviewReopening}
    (h : store.checkRound context time index previousVersion entry = .ok plan) :
    later.checkRound context moment index previousVersion entry = .ok plan := by
  simp only [checkRound, bind_ok, require_ok, exists_const, pure_ok] at h ⊢
  rw [checkArchive_creation hCreation, hCreation]
  obtain ⟨hPrevious, archived, hArchive, quality, hQuality, expected, hExpected, hSame, reopening, hReopening,
    ⟨hEntry, hFinal, hOpening, hBound, hReopened⟩, rfl⟩ := h
  exact ⟨hPrevious, archived, hArchive, quality, hQuality, expected, hExpected, hSame, reopening, hReopening,
    ⟨hEntry, getElem?_of_append hTransitions hFinal, getElem?_of_append hTransitions hOpening, hBound.trans hVersion,
      hReopened.trans hTime⟩, rfl⟩

theorem checkRounds_later (hCreation : later.creation = store.creation) (hVersion : store.version ≤ later.version)
    (hTransitions : store.progress.transitions <+: later.progress.transitions) (hTime : time ≤ moment)
    {index previousVersion : Nat} {entries : List RoundEntry} {plans : List ReviewReopening}
    (h : store.checkRounds context time index previousVersion entries = .ok plans) :
    later.checkRounds context moment index previousVersion entries = .ok plans := by
  induction entries generalizing index previousVersion plans with
  | nil => exact h
  | cons entry rest ih =>
      simp only [checkRounds, bind_ok, pure_ok] at h ⊢
      obtain ⟨plan, hPlan, plans, hPlans, rfl⟩ := h
      exact ⟨plan, checkRound_later hCreation hVersion hTransitions hTime hPlan, plans, ih hPlans, rfl⟩

theorem validateRounds_later (hTime : time ≤ moment) (h : store.validateRounds context time = .ok ()) :
    store.validateRounds context moment = .ok () := by
  simp only [validateRounds, bind_ok, require_ok, exists_const] at h ⊢
  obtain ⟨hCount, hSize, hLength, plans, hPlans, h⟩ := h
  exact ⟨hCount, hSize, hLength, plans, checkRounds_later rfl le_rfl ⟨[], List.append_nil _⟩ hTime hPlans, h⟩

theorem reviewSnapshot_later (hTime : time ≤ moment) {snapshot : GateSnapshot}
    (h : store.reviewSnapshot context time = .ok snapshot) :
    ∃ snapshot, store.reviewSnapshot context moment = .ok snapshot := by
  obtain ⟨corrections, hDecode, hReviews, hRounds, hQuality, _⟩ := reviewSnapshot_ok h
  obtain ⟨quality, hLater⟩ := evaluateQualityGates_later hTime hQuality
  rw [reviewSnapshot, hDecode, ok_bind, validateCorrections_later le_rfl hTime hReviews, ok_bind,
    validateRounds_later hTime hRounds, ok_bind, hLater]
  exact ⟨_, rfl⟩

theorem loadSnapshot_later {expectedVersion : Nat} (hTime : time ≤ moment) {snapshot : GateSnapshot}
    (h : store.loadSnapshot expectedVersion time = .ok snapshot) :
    ∃ snapshot, store.loadSnapshot expectedVersion moment = .ok snapshot := by
  obtain ⟨hVersion, hIdle, hStatus, hProgress, context, hContext, hSnapshot⟩ := loadSnapshot_ok h
  obtain ⟨next, hNext⟩ := reviewSnapshot_later hTime hSnapshot
  rw [loadSnapshot, require_bind_pos hVersion, require_bind_pos hIdle, require_bind_pos hStatus,
    require_bind_pos hProgress, hContext, ok_bind, hNext]
  exact ⟨next, rfl⟩

/-- A Run that has no decision is read under every later time, also without the
checkpoint it gives up. -/
theorem readFinalization_later (hTime : time ≤ moment) (hOpen : store.progress.status ≠ .approved)
    (hKept : store.progress.status ≠ .rejected) {result : Option FinalRecord × Bool}
    (h : store.readFinalization time = .ok result) :
    Store.readFinalization { store with checkpoint := none } moment = .ok (none, false) := by
  have hNone : store.progress.gateResult = none := by
    by_contra hSome
    rw [readFinalization, if_neg (fun hBoth => hSome hBoth.1)] at h
    simp only [verifiedFinalSnapshot, bind_ok, require_ok, exists_const] at h
    obtain ⟨_, ⟨_, _, hStatus, _⟩, _⟩ := h
    exact hStatus.elim hOpen hKept
  have hOther : ¬ (store.progress.status = .approved ∨ store.progress.status = .rejected) := by
    rintro (hStatus | hStatus)
    · exact hOpen hStatus
    · exact hKept hStatus
  rw [readFinalization, if_pos ⟨hNone, hOther⟩] at h ⊢
  obtain ⟨hFinalized, h⟩ := (require_bind_ok _ _ _ _).mp h
  rw [require_bind_pos hFinalized]
  split at h
  · rename_i hRounds
    rw [if_pos hRounds]
    obtain ⟨snapshot, hSnapshot, _⟩ := (bind_ok _ _ _).mp h
    obtain ⟨next, hNext⟩ := loadSnapshot_later hTime hSnapshot
    have hIdle := (loadSnapshot_ok hSnapshot).2.1
    have hSame : ({ store with checkpoint := none } : Store) = store := by
      cases store
      cases hIdle
      rfl
    rw [hSame, hNext]
    rfl
  · rename_i hRounds
    rw [if_neg hRounds]
    rfl

end Store

end QsAi
