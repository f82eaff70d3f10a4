import QsAi.Evaluation.Verdict

/-! The order of the evidence. Rows come from storage in any order; the verdict
over them does not depend on it. -/
namespace QsAi

open Guarded Keyed

/-! Signatures of one candidate. -/

theorem signedContest_perm {reviews again : List CandidateHumanReview} (hRoles : UniqueOn (·.role) reviews)
    (hPerm : reviews.Perm again) (role : ReviewRole) : signedContest reviews role = signedContest again role := by
  have hApproved := hPerm.filter fun r => decide (r.decision = .approve ∧ r.semanticReview ≠ none)
  have hUnique : UniqueOn (·.role) (reviews.filter fun r => decide (r.decision = .approve ∧ r.semanticReview ≠ none)) :=
    hRoles.sublist List.filter_sublist
  have hDict : dict (·.role) (reviews.filter fun r => decide (r.decision = .approve ∧ r.semanticReview ≠ none)) role =
      dict (·.role) (again.filter fun r => decide (r.decision = .approve ∧ r.semanticReview ≠ none)) role := by
    refine lookup_perm (hUnique.perm (List.reverse_perm _).symm) ?_ role
    exact (List.reverse_perm _).trans (hApproved.trans (List.reverse_perm _).symm)
  rw [signedContest, signedContest, hDict]

theorem Accountable.roles_of_one {closedAt : DateTime} {candidate : ReviewCandidate} {policy : String}
    {reviews : List CandidateHumanReview} (h : Accountable closedAt [candidate] policy reviews) :
    UniqueOn (·.role) reviews := by
  have hId : ∀ r ∈ reviews, r.key = (candidate.candidateId, r.role) := by
    intro r hr
    obtain ⟨found, hFound, _⟩ := h.admissible r hr
    obtain ⟨hMem, hSame⟩ := lookup_some hFound
    rw [List.mem_singleton.mp hMem] at hSame
    rw [CandidateHumanReview.key, hSame]
  have hKeys := h.roles
  unfold UniqueOn at hKeys ⊢
  rw [List.map_congr_left hId] at hKeys
  have hMap : reviews.map (fun r => (candidate.candidateId, r.role)) =
      (reviews.map (·.role)).map fun role => (candidate.candidateId, role) := by
    rw [List.map_map]
    rfl
  rw [hMap] at hKeys
  exact List.Nodup.of_map _ hKeys

/-- The judgement of a candidate does not depend on the order of its signatures. -/
theorem effectiveCandidateAssertions_perm {closedAt : DateTime} {candidate : ReviewCandidate} {policy : String}
    {reviews again : List CandidateHumanReview} (h : Accountable closedAt [candidate] policy reviews)
    (hFinished : candidate.semantic.finishedAt ≤ closedAt) (hPerm : reviews.Perm again) :
    effectiveCandidateAssertions candidate reviews closedAt policy =
      effectiveCandidateAssertions candidate again closedAt policy := by
  have hUnique : UniqueOn (·.candidateId) [candidate] := uniqueOn_cons.mpr ⟨List.not_mem_nil, uniqueOn_nil _⟩
  have hAdded : ∀ {values : List CandidateHumanReview}, values ≠ [] → Accountable closedAt [candidate] policy values →
      addHumanReviews .awaitingReview closedAt [candidate] [] values policy = .ok values := by
    intro values hSome hValues
    refine addHumanReviews_iff.mpr ⟨⟨rfl, by simp, hSome⟩, ⟨hUnique, ?_⟩, hValues, rfl⟩
    exact fun other hOther => (List.mem_singleton.mp hOther) ▸ hFinished
  unfold effectiveCandidateAssertions
  by_cases hNone : reviews = []
  · subst hNone
    obtain rfl := hPerm.nil_eq
    rfl
  · have hAgain : again ≠ [] := fun hNil => hNone (hNil ▸ hPerm).eq_nil
    rw [if_neg hNone, if_neg hAgain, hAdded hNone h, hAdded hAgain (h.perm hUnique (.refl _) hPerm), ok_bind, ok_bind,
      signedContest_perm h.roles_of_one hPerm .assessmentSemantics, signedContest_perm h.roles_of_one hPerm .safetyProduct]

namespace GateEvidence

/-- The same evidence in another order. -/
structure Reordered (evidence other : GateEvidence) : Prop where
  candidates : evidence.candidates.Perm other.candidates
  generations : evidence.generations.Perm other.generations
  semantics : evidence.semantics.Perm other.semantics
  thresholds : other.thresholds = evidence.thresholds
  closedAt : other.closedAt = evidence.closedAt
  completionRule : other.completionRule = evidence.completionRule

variable {evidence other : GateEvidence} {reviews again : List CandidateHumanReview} {evaluatedAt : DateTime}

/-! The checks. -/

theorem Reordered.caseIds (h : evidence.Reordered other) : evidence.caseIds.Perm other.caseIds :=
  (h.candidates.map _).dedup

theorem Reordered.inventory (h : evidence.Reordered other) (hInventory : evidence.checkInventory = .ok ()) :
    other.checkInventory = .ok () := by
  obtain ⟨hCases, hEach, hSlots, hOrdinals, hIds⟩ := (require_ok _ _ _).mp hInventory
  refine (require_ok _ _ _).mpr ⟨?_, ?_, hSlots.perm h.candidates, ?_, hIds.perm h.candidates⟩
  · rw [← h.caseIds.length_eq, hCases, h.thresholds]
  · intro id hId
    rw [← (h.candidates.filter _).length_eq, hEach id (h.caseIds.mem_iff.mpr hId), h.thresholds]
  · intro c hc
    rw [h.thresholds]
    exact hOrdinals c (h.candidates.mem_iff.mpr hc)

theorem Reordered.executions (h : evidence.Reordered other) (hExecutions : evidence.checkExecutions = .ok ()) :
    other.checkExecutions = .ok () := by
  obtain ⟨⟨hGenerations, hSemantics⟩, hAccepts⟩ := (require_bind_ok _ _ _ _).mp hExecutions
  refine (require_bind_ok _ _ _ _).mpr ⟨⟨hGenerations.perm h.generations, hSemantics.perm h.semantics⟩,
    (require_ok _ _ _).mpr fun item hItem => ?_⟩
  obtain ⟨hGenerated, hJudged, hFinished⟩ := (require_ok _ _ _).mp hAccepts item (h.candidates.mem_iff.mpr hItem)
  rw [lookup_perm hGenerations h.generations] at hGenerated
  rw [lookup_perm hSemantics h.semantics] at hJudged
  exact ⟨hGenerated, hJudged, h.closedAt ▸ hFinished⟩

theorem Reordered.ready (h : evidence.Reordered other) (hReviews : reviews.Perm again)
    (hReady : evidence.Ready reviews evaluatedAt) : other.Ready again evaluatedAt where
  times := by
    rw [h.closedAt]
    exact ⟨hReady.times.1, fun r hr => hReady.times.2 r (hReviews.mem_iff.mpr hr)⟩
  inventory := h.inventory hReady.inventory
  executions := h.executions hReady.executions
  reviewed := by
    intro hSome
    have hReviewed := hReady.reviewed fun hNone => hSome (hNone ▸ hReviews).nil_eq.symm
    obtain ⟨⟨_, hTargets, _⟩, ⟨hUnique, hFinished⟩, hAccountable, _⟩ := addHumanReviews_iff.mp hReviewed
    have hPerm : evidence.targets.Perm other.targets := h.candidates.map _
    rw [h.closedAt]
    refine addHumanReviews_iff.mpr ⟨⟨rfl, ?_, hSome⟩, ⟨hUnique.perm hPerm, ?_⟩, hAccountable.perm hUnique hPerm hReviews, rfl⟩
    · exact fun hNone => hTargets (hNone ▸ hPerm).eq_nil
    · exact fun c hc => hFinished c (hPerm.mem_iff.mpr hc)

/-! The candidates. -/

/-- What the gates find out about a candidate of a reordered inventory. -/
structure SameFindings (evidence other : GateEvidence) (reviews again : List CandidateHumanReview)
    (item : QualityCandidate) : Prop where
  effective : effectiveCandidateAssertions item.evidence (own again item) other.closedAt "v2" =
    effectiveCandidateAssertions item.evidence (own reviews item) evidence.closedAt "v2"
  signed : (own reviews item).Perm (own again item)

theorem Reordered.sameFindings (h : evidence.Reordered other) (hReviews : reviews.Perm again)
    (hReady : evidence.Ready reviews evaluatedAt) {item : QualityCandidate} (hItem : item ∈ evidence.candidates) :
    SameFindings evidence other reviews again item := by
  have hOwn : (own reviews item).Perm (own again item) := hReviews.filter _
  obtain ⟨hUnique, hFinished⟩ := hReady.complete
  have hTarget : item.evidence ∈ evidence.targets := List.mem_map_of_mem hItem
  refine ⟨?_, hOwn⟩
  rw [h.closedAt]
  exact (effectiveCandidateAssertions_perm (hReady.accountable.own hUnique hTarget) (hFinished _ hTarget) hOwn).symm

theorem SameFindings.effectiveOf {item : QualityCandidate} (h : SameFindings evidence other reviews again item) :
    other.effectiveOf again item = evidence.effectiveOf reviews item := by
  rw [GateEvidence.effectiveOf, GateEvidence.effectiveOf, h.effective]

theorem SameFindings.judgeable {item : QualityCandidate} (h : SameFindings evidence other reviews again item)
    (hJudgeable : evidence.Judgeable reviews item) : other.Judgeable again item := by
  rw [Judgeable, h.effective]
  exact hJudgeable

theorem reject_congr {gate : Gate} {code : ReasonCode} {id : String} {p q : Prop} [Decidable p] [Decidable q]
    (h : p ↔ q) : reject gate code id p = reject gate code id q := by
  unfold reject
  simp only [h]

theorem SameFindings.candidateReasons {item : QualityCandidate} (h : SameFindings evidence other reviews again item)
    (hThresholds : other.thresholds = evidence.thresholds) :
    other.candidateReasons again item = evidence.candidateReasons reviews item := by
  have hRejected : (∃ r ∈ own again item, r.decision = .reject) ↔ ∃ r ∈ own reviews item, r.decision = .reject := by
    constructor
    · rintro ⟨r, hr, hDecision⟩
      exact ⟨r, h.signed.mem_iff.mpr hr, hDecision⟩
    · rintro ⟨r, hr, hDecision⟩
      exact ⟨r, h.signed.mem_iff.mp hr, hDecision⟩
  have hMissing : missingRoles again item = missingRoles reviews item := by
    unfold missingRoles
    refine List.filter_congr fun role _ => ?_
    simp only [(h.signed.map (·.role)).mem_iff]
  unfold GateEvidence.candidateReasons
  rw [h.effectiveOf, hThresholds, hMissing, reject_congr hRejected]

theorem SameFindings.passedCase {item : QualityCandidate} (h : SameFindings evidence other reviews again item) :
    other.passedCase again item = evidence.passedCase reviews item := by
  unfold GateEvidence.passedCase
  rw [h.effectiveOf]

/-- Sums of scores do not depend on the order of the candidates. -/
theorem totals_perm {items others : List QualityCandidate} (h : items.Perm others) (totals : List Int) :
    items.foldl (fun totals item => totals.zipWith (· + ·) (scoresOf item)) totals =
      others.foldl (fun totals item => totals.zipWith (· + ·) (scoresOf item)) totals := by
  refine h.foldl_eq' (fun first _ second _ sums => ?_) totals
  refine List.ext_getElem? fun index => ?_
  simp only [List.getElem?_zipWith]
  cases sums[index]? with
  | none => rfl
  | some sum =>
      cases (scoresOf first)[index]? with
      | none => cases (scoresOf second)[index]? <;> rfl
      | some a =>
          cases (scoresOf second)[index]? with
          | none => rfl
          | some b => exact congrArg some (by omega)

/-! The metrics. -/

theorem Reordered.rate (h : evidence.Reordered other) (name : String) (numerator denominator : Nat) (minimum : Number)
    (code : ReasonCode) : other.rate name numerator denominator minimum code =
      evidence.rate name numerator denominator minimum code := by
  unfold GateEvidence.rate
  rw [h.completionRule]

theorem Reordered.infrastructureRate (h : evidence.Reordered other) :
    other.infrastructureRate = evidence.infrastructureRate := by
  have hGenerated := h.generations.filter fun g => decide (g.providerCallCount = 1)
  have hJudged := h.semantics.filter fun s => decide (s.providerCallCount = 1)
  unfold GateEvidence.infrastructureRate
  simp only [h.rate, h.thresholds, hGenerated.length_eq, hJudged.length_eq, (hGenerated.filter _).length_eq,
    (hJudged.filter _).length_eq]

theorem Reordered.contractRate (h : evidence.Reordered other) : other.contractRate = evidence.contractRate := by
  have hDefinite := h.generations.filter fun g => decide (g.rawOutput.isEmpty = false ∧ g.status ≠ .resultUnknown)
  unfold GateEvidence.contractRate
  simp only [h.rate, h.thresholds, hDefinite.length_eq, (hDefinite.filter _).length_eq]

theorem Reordered.semanticRate (h : evidence.Reordered other) : other.semanticRate = evidence.semanticRate := by
  unfold GateEvidence.semanticRate
  rw [h.rate, h.thresholds, (h.semantics.filter _).length_eq, (h.semantics.map _).sum_eq]

theorem attempts_perm {α : Type} {records others : List α} (h : records.Perm others) (kind : String)
    (completion : α → Completion) (calls : α → Nat) (expected : Nat) :
    attempts kind (records.map completion) (records.map calls) expected =
      attempts kind (others.map completion) (others.map calls) expected := by
  unfold attempts
  rw [List.zip_map', List.zip_map', ((h.map _).filter _).length_eq, ((h.map _).filter _).length_eq]

theorem Reordered.completion (h : evidence.Reordered other) : other.completion = evidence.completion := by
  have hGenerations := fun expected =>
    attempts_perm h.generations "generation" .generation (·.providerCallCount) expected
  have hSemantics := fun expected => attempts_perm h.semantics "semantic" .semantic (·.providerCallCount) expected
  unfold GateEvidence.completion
  rw [h.completionRule, h.thresholds, (h.candidates.filter _).length_eq]
  simp only [hGenerations, hSemantics]

theorem Reordered.metrics (h : evidence.Reordered other) : other.metrics = evidence.metrics := by
  rw [GateEvidence.metrics, GateEvidence.metrics, h.infrastructureRate, h.contractRate, h.semanticRate, h.completion]

theorem Reordered.rateReasons (h : evidence.Reordered other) : other.rateReasons = evidence.rateReasons := by
  rw [GateEvidence.rateReasons, GateEvidence.rateReasons, h.infrastructureRate, h.contractRate, h.semanticRate,
    h.completion]

/-! The verdict. -/

/-- A tally of the same candidates in another order. -/
structure SameTally (tally again : Tally) : Prop where
  reasons : tally.reasons.Perm again.reasons
  adjudications : tally.adjudications.Perm again.adjudications
  passes : tally.passes.Perm again.passes
  totals : again.totals = tally.totals

theorem Reordered.tally (h : evidence.Reordered other) (hReviews : reviews.Perm again)
    (hReady : evidence.Ready reviews evaluatedAt) : SameTally (evidence.tallyOver reviews {} evidence.candidates)
      (other.tallyOver again {} other.candidates) := by
  have hSame : ∀ {α : Type} {f g : QualityCandidate → List α}, (∀ item ∈ evidence.candidates, g item = f item) →
      (evidence.candidates.flatMap f).Perm (other.candidates.flatMap g) := by
    intro α f g hItems
    refine (List.Perm.of_eq ?_).trans (h.candidates.flatMap_right g)
    exact List.flatMap_congr fun item hItem => (hItems item hItem).symm
  have hFindings : ∀ item ∈ evidence.candidates, SameFindings evidence other reviews again item :=
    fun item hItem => h.sameFindings hReviews hReady hItem
  refine ⟨hSame fun item hItem => (hFindings item hItem).candidateReasons h.thresholds, hSame fun item hItem => ?_,
    hSame fun item hItem => (hFindings item hItem).passedCase, (totals_perm h.candidates _).symm⟩
  rw [(hFindings item hItem).effectiveOf]

theorem Reordered.overallReasons (h : evidence.Reordered other) (hReviews : reviews.Perm again) {tally tally' : Tally}
    (hTally : SameTally tally tally') :
    (evidence.overallReasons reviews tally).Perm (other.overallReasons again tally') := by
  have hSorted : (evidence.caseIds.mergeSort (· ≤ ·)).Perm (other.caseIds.mergeSort (· ≤ ·)) :=
    (List.mergeSort_perm _ _).trans (h.caseIds.trans (List.mergeSort_perm _ _).symm)
  have hStable : ((evidence.caseIds.mergeSort (· ≤ ·)).filter fun id =>
      decide (tally.passes.count id < evidence.thresholds.minCasePasses)).Perm
      ((other.caseIds.mergeSort (· ≤ ·)).filter fun id =>
        decide (tally'.passes.count id < other.thresholds.minCasePasses)) := by
    rw [h.thresholds]
    have hCount : (fun id => decide (tally'.passes.count id < evidence.thresholds.minCasePasses)) =
        fun id => decide (tally.passes.count id < evidence.thresholds.minCasePasses) := by
      funext id
      rw [hTally.passes.count_eq]
    rw [hCount]
    exact hSorted.filter _
  unfold GateEvidence.overallReasons
  rw [h.thresholds] at hStable ⊢
  rw [hTally.totals, hTally.passes.length_eq, h.candidates.length_eq, hReviews.length_eq]
  exact (((hStable.map _).append_right _).append_right _).append_right _

end GateEvidence

end QsAi
