import QsAi.Run.ReviewReading

/-! Ended rounds. A decision is derived again from the Run as it was before it,
and a reopened Run is accepted by the validation of its rounds exactly when
storage kept the decision as it was written and the signatures that the round
before had kept are still in force. -/
namespace QsAi

open Guarded Keyed Numbered

/-! What the second gate policy accepts. -/

theorem validateSemanticReview_v2 {value : CandidateHumanReview} {candidate : ReviewCandidate} {version : String}
    {done : Unit} (h : validateSemanticReview value candidate version = .ok done) :
    validateSemanticReview value candidate "v2" = .ok () := by
  unfold validateSemanticReview at h ⊢
  split at h
  · rfl
  · obtain ⟨⟨rfl, _⟩, _⟩ := (require_bind_ok _ _ _ _).mp h
    exact h

theorem checkReviews_v2 {closedAt : DateTime} {candidates : List ReviewCandidate} {version : String}
    {seen reviews : List CandidateHumanReview} {done : Unit}
    (h : checkReviews closedAt candidates version seen reviews = .ok done) :
    checkReviews closedAt candidates "v2" seen reviews = .ok () := by
  induction reviews generalizing seen with
  | nil => rfl
  | cons review rest ih =>
      simp only [checkReviews, bind_ok, demand_ok, require_ok, exists_const] at h ⊢
      obtain ⟨candidate, hCandidate, hTime, hNew, _, hContest, hRest⟩ := h
      exact ⟨candidate, hCandidate, hTime, hNew, (), validateSemanticReview_v2 hContest, ih hRest⟩

theorem addHumanReviews_v2 {status : RunStatus} {closedAt : DateTime} {candidates : List ReviewCandidate}
    {prior values result : List CandidateHumanReview} {version : String}
    (h : addHumanReviews status closedAt candidates prior values version = .ok result) :
    addHumanReviews status closedAt candidates prior values "v2" = .ok result := by
  simp only [addHumanReviews, bind_ok, require_ok, exists_const] at h ⊢
  obtain ⟨hBatch, hCandidates, _, hCheck, hResult⟩ := h
  exact ⟨hBatch, hCandidates, (), checkReviews_v2 hCheck, hResult⟩

theorem checkCorrections_v2 {original : List CandidateHumanReview} {candidates : List ReviewCandidate}
    {closedAt limit : DateTime} {version : Nat} {policy : String} {prior corrections : List ReviewCorrection}
    {done : Unit} (h : checkCorrections original candidates closedAt version limit policy prior corrections = .ok done) :
    checkCorrections original candidates closedAt version limit "v2" prior corrections = .ok () := by
  induction corrections generalizing prior with
  | nil => rfl
  | cons entry rest ih =>
      simp only [checkCorrections, bind_ok, demand_ok, require_ok, exists_const] at h ⊢
      obtain ⟨candidate, hCandidate, hBinds, values, hValues, reviews, hReviews, hRest⟩ := h
      exact ⟨candidate, hCandidate, hBinds, values, hValues, reviews, addHumanReviews_v2 hReviews, ih hRest⟩

theorem validateCorrections_v2 {original result : List CandidateHumanReview} {corrections : List ReviewCorrection}
    {candidates : List ReviewCandidate} {closedAt limit : DateTime} {version : Nat} {policy : String}
    (h : validateCorrections original corrections candidates closedAt version limit policy = .ok result) :
    validateCorrections original corrections candidates closedAt version limit "v2" = .ok result := by
  obtain ⟨hOriginal, hCheck, hEffective⟩ := validateCorrections_ok h
  unfold validateCorrections
  split
  · rename_i hSome
    obtain ⟨reviews, hReviews⟩ := hOriginal hSome
    rw [addHumanReviews_v2 hReviews, ok_bind, checkCorrections_v2 hCheck, ok_bind, hEffective]
  · rw [checkCorrections_v2 hCheck, ok_bind, hEffective]

/-! Corrected signatures. -/

/-- A current signature is an original one or the last word of a correction. -/
theorem applyCorrections_mem {version : Nat} {corrections prior : List ReviewCorrection}
    {reviews result : List CandidateHumanReview} (h : applyCorrections version prior reviews corrections = .ok result)
    {review : CandidateHumanReview} (hReview : review ∈ result) :
    review ∈ reviews ∨ ∃ c ∈ corrections, c.review = review := by
  induction corrections generalizing prior reviews with
  | nil =>
      rw [applyCorrections, pure_ok] at h
      subst h
      exact .inl hReview
  | cons entry rest ih =>
      simp only [applyCorrections, bind_ok, require_ok, exists_const] at h
      obtain ⟨_, _, hRest⟩ := h
      rcases ih hRest with hOld | ⟨c, hc, rfl⟩
      · obtain ⟨old, hMem, rfl⟩ := List.mem_map.mp hOld
        split
        · exact .inr ⟨entry, List.mem_cons_self, rfl⟩
        · exact .inl hMem
      · exact .inr ⟨c, List.mem_cons_of_mem _ hc, rfl⟩

theorem effectiveReviews_mem {version : Nat} {original result : List CandidateHumanReview}
    {corrections : List ReviewCorrection} (h : effectiveReviews original corrections version = .ok result)
    {review : CandidateHumanReview} (hReview : review ∈ result) :
    review ∈ original ∨ ∃ c ∈ corrections, c.review = review := by
  simp only [effectiveReviews, bind_ok, require_ok, exists_const] at h
  exact applyCorrections_mem h.2 hReview

/-! Appending a round. -/

/-- What the reopening after `previous` has to satisfy. -/
def followsReopening (candidates : List ReviewCandidate) (closedAt : DateTime) (gatePolicyVersion : String)
    (index : Nat) (previous : Option ReviewReopening) (entry : ReviewReopening) : Prop :=
  reopenReview candidates entry.previousReviews entry.previousGate closedAt entry.actor entry.reason
    entry.reopenedAt .rejected gatePolicyVersion index = .ok entry ∧
  ∀ last ∈ previous, last.reopenedAt ≤ entry.previousGate.evaluatedAt ∧
    validateReopenedReviews last entry.previousReviews = .ok ()

theorem checkReopenings_cons {candidates : List ReviewCandidate} {closedAt : DateTime} {policy : String} {index : Nat}
    {previous : Option ReviewReopening} {entry : ReviewReopening} {rest : List ReviewReopening} :
    checkReopenings candidates closedAt policy index previous (entry :: rest) = .ok () ↔
      followsReopening candidates closedAt policy index previous entry ∧
      checkReopenings candidates closedAt policy (index + 1) (some entry) rest = .ok () := by
  rw [checkReopenings]
  cases previous with
  | none =>
      simp only [bind_ok, require_ok, exists_const, followsReopening, Option.mem_def, reduceCtorEq,
        false_implies, implies_true, and_true]
      constructor
      · rintro ⟨_, hEntry, rfl, hRest⟩
        exact ⟨hEntry, hRest⟩
      · rintro ⟨hEntry, hRest⟩
        exact ⟨entry, hEntry, rfl, hRest⟩
  | some last =>
      simp only [bind_ok, require_ok, exists_const, followsReopening, Option.mem_def, Option.some.injEq,
        forall_eq']
      constructor
      · rintro ⟨_, hEntry, rfl, hTime, _, hKept, hRest⟩
        exact ⟨⟨hEntry, hTime, hKept⟩, hRest⟩
      · rintro ⟨⟨hEntry, hTime, hKept⟩, hRest⟩
        exact ⟨entry, hEntry, rfl, hTime, ⟨⟩, hKept, hRest⟩

theorem checkReopenings_snoc {candidates : List ReviewCandidate} {closedAt : DateTime} {policy : String} {index : Nat}
    {previous : Option ReviewReopening} {entries : List ReviewReopening} {entry : ReviewReopening} :
    checkReopenings candidates closedAt policy index previous (entries ++ [entry]) = .ok () ↔
      checkReopenings candidates closedAt policy index previous entries = .ok () ∧
      followsReopening candidates closedAt policy (index + entries.length)
        (entries.getLast?.or previous) entry := by
  induction entries generalizing index previous with
  | nil =>
      rw [List.nil_append, checkReopenings_cons]
      simp [checkReopenings]
  | cons first rest ih =>
      rw [List.cons_append, checkReopenings_cons, checkReopenings_cons, ih, and_assoc]
      have hLast : (first :: rest).getLast?.or previous = rest.getLast?.or (some first) := by
        cases rest with
        | nil => rfl
        | cons second others =>
            rw [List.getLast?_cons_cons, List.getLast?_eq_some_getLast (List.cons_ne_nil _ _)]
            rfl
      rw [hLast, List.length_cons, show index + 1 + rest.length = index + (rest.length + 1) by omega]

namespace Store

variable {store next : Store} {context : GateContext} {time : DateTime}

/-! The closed evidence. -/

theorem findIdx_append_of_mem (added : List Transition) {transitions : List Transition} {p : Transition → Bool}
    {t : Transition} (hMem : t ∈ transitions) (hTrue : p t = true) :
    (transitions ++ added).findIdx p = transitions.findIdx p ∧ transitions.findIdx p < transitions.length := by
  have hLength : transitions.findIdx p < transitions.length := List.findIdx_lt_length_of_exists ⟨t, hMem, hTrue⟩
  refine ⟨?_, hLength⟩
  rw [List.findIdx_append, if_pos hLength]

/-- A review step leaves the closed evidence and its closure where they were. -/
theorem Reviewed.gateContext (h : store.Reviewed next time) (hContext : store.gateContext = .ok context) :
    next.gateContext = .ok context := by
  obtain ⟨added, hTransitions, hAdded⟩ := h.transitions
  have hOther : ∀ t ∈ added, t.cause ≠ .candidateEvidenceComplete ∧ t.cause ≠ .evaluationStarted := by
    intro t ht
    rcases (hAdded t ht).2 with hCause | hCause <;> rw [hCause] <;> decide
  have hClosures : next.progress.closures = store.progress.closures := by
    have hNone : added.filter (·.cause = .candidateEvidenceComplete) = [] := by
      rw [List.filter_eq_nil_iff]
      intro t ht
      simpa using (hOther t ht).1
    rw [Progress.closures, hTransitions, List.filter_append, hNone, List.append_nil, Progress.closures]
  rw [h.next]
  unfold Store.gateContext at hContext ⊢
  simp only [bind_ok, require_ok, demand_ok, exists_const] at hContext ⊢
  obtain ⟨preflight, hPreflight, hRun, hBudget, slots, hSlots, generations, hGenerations, semantics, hSemantics,
    hUnique, hStart, hFirst, closedAt, hClosed, hDispatches, candidates, hCandidates, hResult⟩ := hContext
  have hSome : ∃ t ∈ store.progress.transitions, decide (t.cause = .candidateEvidenceComplete) = true := by
    obtain ⟨t, ht⟩ := List.exists_mem_of_length_pos (by rw [hUnique]; exact Nat.one_pos)
    exact ⟨t, (List.mem_filter.mp ht).1, (List.mem_filter.mp ht).2⟩
  obtain ⟨t, ht, hCause⟩ := hSome
  obtain ⟨hIndex, hLess⟩ := findIdx_append_of_mem (p := fun t => decide (t.cause = .candidateEvidenceComplete))
    added ht hCause
  refine ⟨preflight, hPreflight, hRun, hBudget, slots, hSlots, generations, hGenerations, semantics, hSemantics,
    ?_, ?_, ?_, closedAt, ?_, hDispatches, candidates, hCandidates, ?_⟩
  · exact (congrArg List.length hClosures).trans hUnique
  · intro t ht hStarted
    rw [hTransitions] at ht
    rcases List.mem_append.mp ht with ht | ht
    · exact hStart t ht hStarted
    · exact absurd hStarted (hOther t ht).2
  · rw [hTransitions, List.take_append_of_le_length (by omega)]
    exact hFirst
  · simp only [closedInventory] at hClosed ⊢
    rw [hTransitions, hIndex, List.take_append_of_le_length (by omega)]
    exact hClosed
  · rw [hTransitions, hIndex]
    exact hResult

/-! Ended rounds. -/

theorem checkRound_ok {index previousVersion : Nat} {entry : RoundEntry} {plan : ReviewReopening}
    (h : store.checkRound context time index previousVersion entry = .ok plan) :
    plan.previousReviews = entry.previousReviews ∧ plan.candidateIds = entry.candidateIds ∧
    plan.reopenedAt = entry.reopenedAt ∧ entry.version ≤ store.version ∧ plan.reopenedAt ≤ time := by
  simp only [checkRound, bind_ok, require_ok, exists_const, pure_ok] at h
  obtain ⟨_, _, _, _, _, _, _, _, opened, _, ⟨hEntry, _, _, hVersion, hTime⟩, rfl⟩ := h
  refine ⟨?_, ?_, ?_, hVersion, hTime⟩
  · rw [hEntry]
    rfl
  · rw [hEntry]
    rfl
  · rw [hEntry]
    rfl

/-- The last plan belongs to the last entry. -/
theorem checkRounds_last {index previousVersion : Nat} {entries : List RoundEntry} {plans : List ReviewReopening}
    (h : store.checkRounds context time index previousVersion entries = .ok plans) :
    plans.length = entries.length ∧ ∀ entry ∈ entries.getLast?, ∃ plan, plans.getLast? = some plan ∧
      plan.previousReviews = entry.previousReviews ∧ plan.candidateIds = entry.candidateIds ∧
      plan.reopenedAt = entry.reopenedAt ∧ entry.version ≤ store.version ∧ plan.reopenedAt ≤ time := by
  induction entries generalizing index previousVersion plans with
  | nil =>
      rw [checkRounds, pure_ok] at h
      subst h
      exact ⟨rfl, by simp⟩
  | cons first rest ih =>
      simp only [checkRounds, bind_ok, pure_ok] at h
      obtain ⟨plan, hPlan, plans, hPlans, rfl⟩ := h
      obtain ⟨hLength, hLast⟩ := ih hPlans
      refine ⟨congrArg (· + 1) hLength, ?_⟩
      cases rest with
      | nil =>
          rw [List.length_nil, List.length_eq_zero_iff] at hLength
          subst hLength
          intro entry hEntry
          obtain rfl : first = entry := by simpa using hEntry
          exact ⟨plan, rfl, checkRound_ok hPlan⟩
      | cons second others =>
          intro entry hEntry
          rw [List.getLast?_cons_cons] at hEntry
          obtain ⟨last, hSome, hFacts⟩ := hLast entry hEntry
          refine ⟨last, ?_, hFacts⟩
          rw [List.getLast?_cons, hSome]
          rfl

theorem checkRounds_snoc {index previousVersion : Nat} {entries : List RoundEntry} {entry : RoundEntry}
    {plans : List ReviewReopening} :
    store.checkRounds context time index previousVersion (entries ++ [entry]) = .ok plans ↔
      ∃ before plan, store.checkRounds context time index previousVersion entries = .ok before ∧
        store.checkRound context time (index + entries.length)
          ((entries.getLast?.map (·.version)).getD previousVersion) entry = .ok plan ∧
        plans = before ++ [plan] := by
  induction entries generalizing index previousVersion plans with
  | nil =>
      simp only [List.nil_append, checkRounds, bind_ok, pure_ok, List.length_nil, List.getLast?_nil, Option.map_none,
        Option.getD_none, Nat.add_zero]
      constructor
      · rintro ⟨plan, hPlan, rest, rfl, rfl⟩
        exact ⟨[], plan, rfl, hPlan, rfl⟩
      · rintro ⟨before, plan, rfl, hPlan, rfl⟩
        exact ⟨plan, hPlan, [], rfl, rfl⟩
  | cons first rest ih =>
      have hLast : (((first :: rest).getLast?.map (·.version)).getD previousVersion) =
          ((rest.getLast?.map (·.version)).getD first.version) := by
        cases rest with
        | nil => rfl
        | cons second others =>
            rw [List.getLast?_cons_cons, List.getLast?_eq_some_getLast (List.cons_ne_nil _ _)]
            rfl
      rw [hLast, List.length_cons, show index + (rest.length + 1) = index + 1 + rest.length by omega]
      simp only [List.cons_append, checkRounds, bind_ok, pure_ok]
      constructor
      · rintro ⟨plan, hPlan, others, hOthers, rfl⟩
        obtain ⟨before, last, hBefore, hEntry, rfl⟩ := ih.mp hOthers
        exact ⟨plan :: before, last, ⟨plan, hPlan, before, hBefore, rfl⟩, hEntry, rfl⟩
      · rintro ⟨_, last, ⟨plan, hPlan, before, hBefore, rfl⟩, hEntry, rfl⟩
        exact ⟨plan, hPlan, before ++ [last], ih.mpr ⟨before, last, hBefore, hEntry, rfl⟩, rfl⟩

/-! Decisions. -/

theorem metrics_of_quality {evidence : GateEvidence} {reviews : List CandidateHumanReview} {quality : QualityGateResult}
    (h : evidence.evaluateQualityGates reviews time = .ok quality) : quality.metrics = evidence.metrics := by
  simp only [GateEvidence.evaluateQualityGates, bind_ok, require_ok, exists_const] at h
  obtain ⟨_, _, _, _, _, h⟩ := h
  split at h
  · simp only [bind_ok, pure_ok] at h
    obtain ⟨_, _, _, _, rfl⟩ := h
    rfl
  · simp only [bind_ok, pure_ok] at h
    obtain ⟨_, _, rfl⟩ := h
    rfl

theorem stored_eq_iff (encoding : ReviewEncoding) (record : FinalRecord) :
    encoding.stored record = record ↔ ∀ metric ∈ record.gateResult.metrics, encoding.storedMetric metric = metric := by
  obtain ⟨_, _, _, _, _, _, _, _, ⟨_, _, metrics, _, _⟩⟩ := record
  simp only [ReviewEncoding.stored, ReviewEncoding.storedResult, FinalRecord.mk.injEq, QualityGateResult.mk.injEq,
    true_and, and_true]
  constructor
  · intro h metric hMetric
    obtain ⟨index, hIndex, rfl⟩ := List.mem_iff_getElem.mp hMetric
    have hAt := congrArg (·[index]?) h
    simpa [hIndex] using hAt
  · intro h
    calc metrics.map encoding.storedMetric = metrics.map id := List.map_congr_left h
      _ = metrics := List.map_id metrics

/-- Storage keeps every rate and every threshold of the gates as it is. -/
def StoresExactly (store : Store) : Prop :=
  ∀ context, store.gateContext = .ok context →
    ∀ metric ∈ context.evidence.metrics, store.creation.assets.encoding.storedMetric metric = metric

/-- The signatures that the last reopening kept are still in force. -/
def RetainsReviews (store : Store) : Prop :=
  ∀ last ∈ store.progress.reviewReopenings.getLast?, ∀ reviews,
    effectiveReviews store.progress.humanReviews store.progress.reviewCorrections store.version = .ok reviews →
    ∀ r ∈ last.previousReviews, r.candidateId ∉ last.candidateIds → ∃ kept ∈ reviews, kept.Same r

variable {decided : Store} {snapshot : GateSnapshot} {record : FinalRecord}

/-- What a decision rests on. -/
theorem Finalizes.facts (h : store.Finalizes decided time snapshot record) :
    ∃ context, store.gateContext = .ok context ∧ store.reviewSnapshot context time = .ok snapshot ∧
      store.progress.status = .awaitingReview ∧ store.progress.gateResult = none ∧
      store.progress.finalizedAt = none ∧ record.finalizedAt = time ∧ record.sourceVersion = store.version ∧
      record.version = store.version + 1 ∧ record.gateResult = snapshot.quality ∧
      (record.status = .approved ∨ record.status = .rejected) := by
  obtain ⟨_, _, hStatus, ⟨_, _, hNone, hFinalized⟩, context, hContext, hSnapshot⟩ := loadSnapshot_ok h.loaded
  obtain ⟨_, _, _, _, hQuality, _⟩ := reviewSnapshot_ok hSnapshot
  obtain ⟨_, _, hSource, hVersion, hTime, hResult, hFinal⟩ := finalRecord_ok h.derived
  exact ⟨context, hContext, hSnapshot, hStatus, hNone, hFinalized, hTime.trans (evaluatedAt_of_quality hQuality),
    hSource, hVersion, hResult, hFinal⟩

theorem Finalizes.awaiting (h : store.Finalizes decided time snapshot record) :
    decided.awaiting (store.creation.assets.encoding.stored record) = store := by
  obtain ⟨_, _, _, hStatus, hNone, hFinalized, _, hSource, _⟩ := h.facts
  rw [h.next]
  simp only [Store.awaiting, ReviewEncoding.stored, List.dropLast_concat]
  rw [hSource, ← hStatus, ← hNone, ← hFinalized]

/-- A decision is found again in what storage made of it. -/
theorem Finalizes.verified (h : store.Finalizes decided time snapshot record) :
    decided.verifiedFinalSnapshot = .ok snapshot := by
  obtain ⟨_, _, _, _, _, _, hTime, hSource, _, _, hFinal⟩ := h.facts
  have hAwaiting := h.awaiting
  have hNext := h.next
  have hStored : decided.progress.gateResult = some (store.creation.assets.encoding.stored record) := by rw [hNext]
  have hCreation : decided.creation = store.creation := by rw [hNext]
  have hStatus : decided.progress.status = record.status := by rw [hNext]
  have hAudit : 1 ≤ (store.creation.assets.encoding.stored record).sourceVersion ∧
      decided.version = (store.creation.assets.encoding.stored record).sourceVersion + 1 ∧
      decided.progress.finalizedAt = some (store.creation.assets.encoding.stored record).finalizedAt ∧
      decided.progress.status = (store.creation.assets.encoding.stored record).status ∧
      decided.progress.transitions.getLast? = some (finalTransition (store.creation.assets.encoding.stored record)) := by
    rw [hNext]
    refine ⟨hSource ▸ h.version, ?_, rfl, rfl, List.getLast?_concat⟩
    exact congrArg (· + 1) hSource.symm
  have hLoaded : store.loadSnapshot (store.creation.assets.encoding.stored record).sourceVersion
      (store.creation.assets.encoding.stored record).finalizedAt = .ok snapshot := by
    change store.loadSnapshot record.sourceVersion record.finalizedAt = .ok snapshot
    rw [hSource, hTime]
    exact h.loaded
  have hDerived : store.creation.assets.encoding.finalRecord (store.creation.assets.encoding.stored record).sourceVersion
      store.creation.releaseFingerprint snapshot.quality (store.creation.assets.encoding.stored record).actor
      (store.creation.assets.encoding.stored record).reason = .ok record := by
    change store.creation.assets.encoding.finalRecord record.sourceVersion store.creation.releaseFingerprint
      snapshot.quality record.actor record.reason = .ok record
    rw [hSource]
    exact h.derived
  rw [verifiedFinalSnapshot, hStored]
  simp only [demand, ok_bind]
  rw [require_bind_pos (hStatus ▸ hFinal), require_bind_pos hAudit, hAwaiting, hLoaded, ok_bind, hCreation, hDerived,
    ok_bind, require_bind_pos rfl]
  rfl

/-! Another round. -/

theorem validateReopenedReviews_ok {last : ReviewReopening} {current : List CandidateHumanReview} :
    validateReopenedReviews last current = .ok () ↔
      (∀ r ∈ current, r.candidateId ∈ last.candidateIds → last.reopenedAt ≤ r.reviewedAt) ∧
      ∀ r ∈ last.previousReviews, r.candidateId ∉ last.candidateIds → ∃ kept ∈ current, kept.Same r := by
  simp only [validateReopenedReviews, bind_ok, require_ok, exists_const, ReviewReopening.retainedReviews,
    List.mem_filter, decide_eq_true_eq, and_imp]

theorem validateReopeningHistory_ok {history : List ReviewReopening} {current : List CandidateHumanReview}
    {candidates : List ReviewCandidate} {closedAt : DateTime} {policy : String} :
    validateReopeningHistory history current candidates closedAt policy = .ok () ↔
      history.length ≤ 3 ∧ checkReopenings candidates closedAt policy 0 none history = .ok () ∧
      ∀ last ∈ history.getLast?, validateReopenedReviews last current = .ok () := by
  rw [validateReopeningHistory]
  cases hLast : history.getLast? with
  | none =>
      simp only [bind_ok, require_ok, exists_const, Option.mem_def, reduceCtorEq, false_implies, implies_true, and_true,
        pure_ok]
      exact and_congr_right fun _ => Unique.exists_iff
  | some last =>
      simp only [bind_ok, require_ok, exists_const, Option.mem_def, Option.some.injEq, forall_eq']
      exact and_congr_right fun _ => Unique.exists_iff

/-- What the validation of the rounds demands. -/
theorem validateRounds_ok : store.validateRounds context time = .ok () ↔
    store.progress.reviewReopenings.length ≤ 3 ∧
    store.creation.assets.encoding.historySize store.progress.reviewReopenings ≤ 2 * 1024 * 1024 ∧
    store.progress.transitions.length = context.closureCount + 2 * store.progress.reviewReopenings.length ∧
    (∀ c ∈ store.progress.reviewCorrections,
      c.previousReviewFingerprint = store.creation.assets.encoding.reviewFingerprint c.previousReview) ∧
    (∀ last ∈ store.progress.reviewReopenings.getLast?, ∀ c ∈ store.progress.reviewCorrections,
      last.reopenedAt ≤ c.review.reviewedAt) ∧
    ∃ plans, store.checkRounds context time 0 1 store.progress.reviewReopenings = .ok plans ∧
      validateReopeningHistory plans store.progress.humanReviews context.evidence.targets context.evidence.closedAt
        "v2" = .ok () := by
  simp only [validateRounds, bind_ok, require_ok, exists_const, decodeCorrections_ok]
  constructor
  · rintro ⟨hCount, hSize, hLength, plans, hPlans, _, ⟨rfl, hNamed⟩, hTimes, hHistory⟩
    exact ⟨hCount, hSize, hLength, hNamed, hTimes, plans, hPlans, hHistory⟩
  · rintro ⟨hCount, hSize, hLength, hNamed, hTimes, plans, hPlans, hHistory⟩
    exact ⟨hCount, hSize, hLength, plans, hPlans, _, ⟨rfl, hNamed⟩, hTimes, hHistory⟩

/-- A reopened Run with the round it ended. -/
structure Rounds (store decided next : Store) (time later : DateTime) (snapshot : GateSnapshot) (record : FinalRecord) :
    Prop where
  finalizes : store.Finalizes decided time snapshot record
  reopens : decided.Reopens next later snapshot

variable {later reading : DateTime}

/-- What a reopening made of the round it ended. -/
structure Opened (store next : Store) (snapshot : GateSnapshot) (record : FinalRecord) (later : DateTime)
    (plan : ReviewReopening) (entry : RoundEntry) : Prop where
  planned : reopenReview snapshot.candidates snapshot.reviews snapshot.quality snapshot.closedAt plan.actor plan.reason
    later .rejected "v2" store.progress.reviewReopenings.length = .ok plan
  own : plan.previousReviews = snapshot.reviews ∧ plan.previousGate = snapshot.quality ∧ plan.reopenedAt = later
  count : store.progress.reviewReopenings.length < 3
  rejected : record.status = .rejected
  stored : entry = { openingRecord plan (store.creation.assets.encoding.stored record)
      (store.progress.transitions.length + 1) with
    archived := if store.progress.reviewCorrections ≠ [] then
      some (store.progress.humanReviews, store.progress.reviewCorrections) else none }
  size : store.creation.assets.encoding.historySize (store.progress.reviewReopenings ++ [entry]) ≤ 2 * 1024 * 1024
  next : next = { store with
    version := store.version + 2
    progress := { store.progress with
      status := .awaitingReview
      gateResult := none
      finalizedAt := none
      humanReviews := plan.retainedReviews
      reviewReopenings := store.progress.reviewReopenings ++ [entry]
      reviewCorrections := []
      transitions := store.progress.transitions ++ [finalTransition record, openingTransition entry] } }

theorem Rounds.opened (h : store.Rounds decided next time later snapshot record) :
    ∃ plan entry, store.Opened next snapshot record later plan entry := by
  have hDecided := h.finalizes.next
  obtain ⟨actor, reason, hOpened⟩ := h.reopens.opened
  obtain ⟨plan, stored, entry, hPlan, hStored, hEntry, hSize, hProgress⟩ := reopenedProgress_ok hOpened
  have hRejected := h.reopens.rejected
  have hNext := h.reopens.next
  rw [hProgress] at hNext
  rw [hDecided] at hPlan hStored hEntry hSize hRejected hNext
  obtain rfl := (Option.some.inj hStored).symm
  obtain ⟨ids, hIds, _, _, hOwn⟩ := reopenReview_ok hPlan
  have hCount : store.progress.reviewReopenings.length < 3 := by
    unfold eligibleCandidateIds at hIds
    split at hIds
    · rename_i hGate
      exact hGate.1
    · rw [pure_ok] at hIds
      subst hIds
      contradiction
  refine ⟨plan, entry, ?_, ?_, hCount, hRejected, ?_, hSize, ?_⟩
  · rw [hOwn]
    rw [hOwn] at hPlan
    exact hPlan
  · rw [hOwn]
    exact ⟨rfl, rfl, rfl⟩
  · rw [hEntry, List.length_append]
    rfl
  · rw [hNext]
    simp only [List.append_assoc, List.cons_append, List.nil_append]

theorem Rounds.gateContext (h : store.Rounds decided next time later snapshot record)
    (hContext : store.gateContext = .ok context) : next.gateContext = .ok context :=
  (Reviews.reopens h.reopens).reviewed.gateContext ((Reviews.finalizes h.finalizes).reviewed.gateContext hContext)

/-- The ended round passes its own check exactly when storage kept its record. -/
theorem Opened.checkRound_iff {plan opened : ReviewReopening} {entry : RoundEntry} {previousVersion : Nat}
    (h : store.Opened next snapshot record later plan entry) (hSnapshot : store.reviewSnapshot context time = .ok snapshot)
    (hRecord : store.creation.assets.encoding.finalRecord store.version store.creation.releaseFingerprint
      snapshot.quality record.actor record.reason = .ok record) (hVersion : previousVersion ≤ store.version)
    (hLength : store.progress.transitions.length =
      context.closureCount + 2 * store.progress.reviewReopenings.length) (hReading : later ≤ reading) :
    next.checkRound context reading store.progress.reviewReopenings.length previousVersion entry = .ok opened ↔
      store.creation.assets.encoding.stored record = record ∧ opened = plan := by
  obtain ⟨hPlan, hOwn, _, hRejected, hEntry, _, hNext⟩ := h
  obtain ⟨corrections, hDecode, hReviews, _, hQuality, hCandidates, hClosed⟩ := reviewSnapshot_ok hSnapshot
  obtain ⟨rfl, _⟩ := decodeCorrections_ok.mp hDecode
  obtain ⟨_, _, hSource, hFinalVersion, hTime, hResult, _⟩ := finalRecord_ok hRecord
  have hAt : record.finalizedAt = time := hTime.trans (evaluatedAt_of_quality hQuality)
  rw [hCandidates, hClosed] at hPlan
  have hCreation : next.creation = store.creation := by rw [hNext]
  have hFinal : entry.previousFinalization = store.creation.assets.encoding.stored record := by rw [hEntry]; rfl
  have hPrevious : entry.previousReviews = snapshot.reviews := by rw [hEntry]; exact hOwn.1
  have hArchive : next.checkArchive context entry = .ok () := by
    rw [checkArchive_creation hCreation]
    unfold checkArchive
    rw [hFinal, hPrevious]
    have hArchived : entry.archived = if store.progress.reviewCorrections ≠ [] then
        some (store.progress.humanReviews, store.progress.reviewCorrections) else none := by rw [hEntry]
    rw [hArchived]
    split
    · rfl
    · rename_i originals stored hSome
      split at hSome
      · obtain ⟨rfl, rfl⟩ := Prod.mk.inj (Option.some.inj hSome)
        have hAgain : validateCorrections store.progress.humanReviews store.progress.reviewCorrections
            context.evidence.targets context.evidence.closedAt
            (store.creation.assets.encoding.stored record).sourceVersion
            (store.creation.assets.encoding.stored record).finalizedAt "v2" = .ok snapshot.reviews := by
          change validateCorrections _ _ _ _ record.sourceVersion record.finalizedAt "v2" = _
          rw [hSource, hAt]
          exact validateCorrections_v2 hReviews
        rw [hDecode, ok_bind, hAgain, ok_bind]
        refine (require_ok _ _ _).mpr ⟨rfl, fun pair hPair => ?_⟩
        obtain ⟨index, hIndex, rfl⟩ := List.mem_iff_getElem.mp hPair
        rw [List.getElem_zip]
        exact CandidateHumanReview.Same.refl _
      · cases hSome
  have hGates : context.evidence.evaluateQualityGates entry.previousReviews
      entry.previousFinalization.finalizedAt = .ok snapshot.quality := by
    rw [hPrevious, hFinal]
    change context.evidence.evaluateQualityGates snapshot.reviews record.finalizedAt = _
    rw [hAt]
    exact hQuality
  have hDerived : next.creation.assets.encoding.finalRecord entry.previousFinalization.sourceVersion
      next.creation.releaseFingerprint snapshot.quality entry.previousFinalization.actor
      entry.previousFinalization.reason = .ok record := by
    rw [hCreation, hFinal]
    change store.creation.assets.encoding.finalRecord record.sourceVersion _ _ record.actor record.reason = _
    rw [hSource]
    exact hRecord
  have hOpens : reopenReview context.evidence.targets entry.previousReviews snapshot.quality context.evidence.closedAt
      entry.actor entry.reason entry.reopenedAt entry.previousFinalization.status "v2"
      store.progress.reviewReopenings.length = .ok plan := by
    have hActor : entry.actor = plan.actor := by rw [hEntry]; rfl
    have hReason : entry.reason = plan.reason := by rw [hEntry]; rfl
    have hOpened : entry.reopenedAt = later := by rw [hEntry]; exact hOwn.2.2
    rw [hPrevious, hActor, hReason, hOpened, hFinal]
    change reopenReview _ _ _ _ _ _ _ record.status _ _ = _
    rw [hRejected]
    exact hPlan
  have hLower : previousVersion ≤ entry.previousFinalization.sourceVersion := by
    rw [hFinal]
    change previousVersion ≤ record.sourceVersion
    omega
  rw [checkRound, require_bind_pos hLower, hArchive, ok_bind, hGates, ok_bind, hDerived, ok_bind]
  constructor
  · intro h
    obtain ⟨hSame, h⟩ := (require_bind_ok _ _ _ _).mp h
    rw [hOpens, ok_bind] at h
    obtain ⟨_, h⟩ := (require_bind_ok _ _ _ _).mp h
    exact ⟨hFinal ▸ hSame, ((pure_ok _ _).mp h).symm⟩
  · rintro ⟨hStored, rfl⟩
    rw [require_bind_pos (hFinal.trans hStored), hOpens, ok_bind, require_bind_pos]
    · rfl
    · have hBoundary : context.closureCount + store.progress.reviewReopenings.length * 2 + 1 =
          store.progress.transitions.length + 1 := by omega
      have hTransitions : next.progress.transitions =
          store.progress.transitions ++ [finalTransition record, openingTransition entry] := by rw [hNext]
      rw [hBoundary, hTransitions]
      refine ⟨?_, ?_, ?_, ?_, ?_⟩
      · rw [hStored] at hEntry
        rw [hEntry]
      · rw [Nat.add_sub_cancel, List.getElem?_append_right (le_refl _), Nat.sub_self, hFinal]
        rfl
      · rw [List.getElem?_append_right (by omega), Nat.add_sub_cancel_left]
        rfl
      · rw [hEntry, hNext]
        change record.version + 1 ≤ store.version + 2
        omega
      · rw [hOwn.2.2]
        exact hReading

/-- The rounds of a reopened Run are accepted exactly when storage kept the record
and the signatures that the round before had kept are still in force. -/
theorem Rounds.accepted_iff (h : store.Rounds decided next time later snapshot record)
    (hContext : store.gateContext = .ok context) (hReading : later ≤ reading) :
    next.validateRounds context reading = .ok () ↔
      store.creation.assets.encoding.stored record = record ∧ store.RetainsReviews := by
  obtain ⟨own, hOwn, hSnapshot, _, _, _, _, hSource, hRecordVersion, _⟩ := h.finalizes.facts
  obtain rfl : own = context := Except.ok.inj (hOwn.symm.trans hContext)
  obtain ⟨corrections, hDecode, hReviews, hRounds, hQuality, hCandidates, hClosed⟩ := reviewSnapshot_ok hSnapshot
  obtain ⟨rfl, _⟩ := decodeCorrections_ok.mp hDecode
  obtain ⟨_, _, hEffective⟩ := validateCorrections_ok hReviews
  obtain ⟨_, _, hLength, _, hTimes, plans, hPlans, hHistory⟩ := validateRounds_ok.mp hRounds
  obtain ⟨_, hReopenings, hCurrent⟩ := validateReopeningHistory_ok.mp hHistory
  obtain ⟨hCount, hLast⟩ := checkRounds_last hPlans
  obtain ⟨plan, entry, hOpened⟩ := h.opened
  obtain ⟨hPlan, ⟨hPrevious, hGate, hReopenedAt⟩, hLess, _, hStored, hSize, hNext⟩ := id hOpened
  have hLower : (((store.progress.reviewReopenings.getLast?.map (·.version)).getD 1)) ≤ store.version := by
    cases hSome : store.progress.reviewReopenings.getLast? with
    | none => exact h.finalizes.version
    | some last =>
        obtain ⟨_, _, _, _, _, hVersion, _⟩ := hLast last hSome
        exact hVersion
  have hCreation : next.creation = store.creation := by rw [hNext]
  have hAppended : next.progress.reviewReopenings = store.progress.reviewReopenings ++ [entry] := by rw [hNext]
  have hWritten : next.progress.humanReviews = plan.retainedReviews := by rw [hNext]
  have hCorrections : next.progress.reviewCorrections = [] := by rw [hNext]
  have hTransitions : next.progress.transitions.length = store.progress.transitions.length + 2 := by
    rw [hNext]
    exact List.length_append
  have hEarlier : next.checkRounds own reading 0 1 store.progress.reviewReopenings = .ok plans := by
    refine checkRounds_later hCreation ?_ ?_ ?_ hPlans
    · rw [hNext]
      exact Nat.le_add_right _ _
    · rw [hNext]
      exact ⟨_, rfl⟩
    · have hGateTime : plan.previousGate.evaluatedAt ≤ later := by
        obtain ⟨_, _, _, hBefore, _⟩ := reopenReview_ok hPlan
        rw [hGate]
        exact hBefore
      rw [hGate, evaluatedAt_of_quality hQuality] at hGateTime
      exact hGateTime.trans hReading
  -- The signatures of the ended round follow the reopening before it.
  have hFollows : followsReopening own.evidence.targets own.evidence.closedAt "v2"
      (0 + plans.length) (plans.getLast?.or none) plan ↔ store.RetainsReviews := by
    have hDerived : reopenReview own.evidence.targets snapshot.reviews plan.previousGate own.evidence.closedAt
        plan.actor plan.reason plan.reopenedAt .rejected "v2" (0 + plans.length) = .ok plan := by
      rw [Nat.zero_add, hCount, hGate, hReopenedAt, ← hCandidates, ← hClosed]
      exact hPlan
    have hGateAt : plan.previousGate.evaluatedAt = time := by
      rw [hGate]
      exact evaluatedAt_of_quality hQuality
    rw [followsReopening, Option.or_none, hGateAt, hPrevious]
    constructor
    · rintro ⟨_, hAfter⟩ last hSome reviews hCurrentReviews r hr hKept
      obtain rfl : snapshot.reviews = reviews := Except.ok.inj (hEffective.symm.trans hCurrentReviews)
      obtain ⟨before, hBefore, hReviewed, hIds, _⟩ := hLast last hSome
      obtain ⟨_, hRetained⟩ := validateReopenedReviews_ok.mp (hAfter before hBefore).2
      rw [hReviewed, hIds] at hRetained
      exact hRetained r hr hKept
    · intro hRetains
      refine ⟨hDerived, fun before hBefore => ?_⟩
      cases hSome : store.progress.reviewReopenings.getLast? with
      | none =>
          rw [List.getLast?_eq_none_iff] at hSome
          rw [hSome, List.length_nil, List.length_eq_zero_iff] at hCount
          rw [hCount] at hBefore
          cases hBefore
      | some last =>
          obtain ⟨found, hFound, hReviewed, hIds, hOpenedAt, _, hPast⟩ := hLast last hSome
          obtain rfl : found = before := Option.some.inj (hFound.symm.trans hBefore)
          refine ⟨hPast, validateReopenedReviews_ok.mpr ⟨fun r hr hId => ?_, ?_⟩⟩
          · rcases effectiveReviews_mem hEffective hr with hOriginal | ⟨c, hc, rfl⟩
            · exact (validateReopenedReviews_ok.mp (hCurrent found hFound)).1 r hOriginal hId
            · rw [hOpenedAt]
              exact hTimes last hSome c hc
          · rw [hReviewed, hIds]
            exact hRetains last hSome _ hEffective
  have hRetainedPlan : validateReopenedReviews plan plan.retainedReviews = .ok () := by
    refine validateReopenedReviews_ok.mpr ⟨fun r hr hId => ?_, fun r hr hId => ?_⟩
    · exact absurd hId (of_decide_eq_true (List.mem_filter.mp hr).2)
    · exact ⟨r, List.mem_filter.mpr ⟨hr, decide_eq_true hId⟩, .refl r⟩
  have hRound : ∀ opened : ReviewReopening, next.checkRound own reading store.progress.reviewReopenings.length
      ((store.progress.reviewReopenings.getLast?.map (·.version)).getD 1) entry = .ok opened ↔
        store.creation.assets.encoding.stored record = record ∧ opened = plan :=
    fun _ => hOpened.checkRound_iff hSnapshot h.finalizes.derived hLower hLength hReading
  rw [validateRounds_ok, hAppended, hWritten, hCorrections, hTransitions, hCreation, List.length_append]
  constructor
  · rintro ⟨_, _, _, _, _, all, hAll, hAccepted⟩
    obtain ⟨before, opened, hBefore, hOwnRound, rfl⟩ := checkRounds_snoc.mp hAll
    obtain rfl : plans = before := Except.ok.inj (hEarlier.symm.trans hBefore)
    rw [Nat.zero_add] at hOwnRound
    obtain ⟨hExact, rfl⟩ := (hRound opened).mp hOwnRound
    obtain ⟨_, hCheck, _⟩ := validateReopeningHistory_ok.mp hAccepted
    exact ⟨hExact, hFollows.mp (checkReopenings_snoc.mp hCheck).2⟩
  · rintro ⟨hExact, hRetains⟩
    refine ⟨by simp only [List.length_cons, List.length_nil]; omega, hSize, ?_, by simp, by simp, plans ++ [plan], ?_, ?_⟩
    · simp only [List.length_cons, List.length_nil]
      omega
    · refine checkRounds_snoc.mpr ⟨plans, plan, hEarlier, ?_, rfl⟩
      rw [Nat.zero_add]
      exact (hRound plan).mpr ⟨hExact, rfl⟩
    · refine validateReopeningHistory_ok.mpr ⟨?_, checkReopenings_snoc.mpr ⟨hReopenings, hFollows.mpr hRetains⟩, ?_⟩
      · rw [List.length_append, List.length_singleton]
        omega
      · rintro last hSome
        rw [List.getLast?_concat] at hSome
        cases hSome
        exact hRetainedPlan

end Store

end QsAi
