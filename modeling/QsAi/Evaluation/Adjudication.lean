import QsAi.Evaluation.Signatures

/-! Adjudication changes one receipt at most, and only a receipt that both roles
contest. -/
namespace QsAi

open Guarded Keyed

/-- A list with one row of a kind, and what becomes of it when that row is
changed. -/
theorem map_single {α : Type} {p : α → Prop} [DecidablePred p] (f : α → α) {rows : List α}
    (h : (rows.filter p).length = 1) :
    ∃ before row after, rows = before ++ row :: after ∧ p row ∧
      rows.map (fun r => if p r then f r else r) = before ++ f row :: after := by
  obtain ⟨row, hRow⟩ := List.length_eq_one_iff.mp h
  have hMem : row ∈ rows.filter p := by rw [hRow]; exact List.mem_singleton_self row
  obtain ⟨before, after, rfl⟩ := List.append_of_mem (List.mem_filter.mp hMem).1
  have hHolds : p row := of_decide_eq_true (List.mem_filter.mp hMem).2
  rw [List.filter_append, List.filter_cons, if_pos (decide_eq_true hHolds)] at hRow
  obtain ⟨hBefore, hAfter⟩ : before.filter p = [] ∧ after.filter p = [] := by
    have hLength := congrArg List.length hRow
    simp only [List.length_append, List.length_cons, List.length_nil] at hLength
    exact ⟨List.eq_nil_of_length_eq_zero (by omega), List.eq_nil_of_length_eq_zero (by omega)⟩
  have hKept : ∀ part : List α, part.filter p = [] → part.map (fun r => if p r then f r else r) = part := by
    intro part hNone
    rw [List.filter_eq_nil_iff] at hNone
    refine (List.map_congr_left fun r hr => if_neg fun hp => hNone r hr (decide_eq_true hp)).trans (List.map_id' _)
  refine ⟨before, row, after, rfl, hHolds, ?_⟩
  rw [List.map_append, List.map_cons, hKept before hBefore, hKept after hAfter, if_pos hHolds]

/-- A signed contest is one of the approvals. -/
theorem signedContest_some {reviews : List CandidateHumanReview} {role : ReviewRole} {review : CandidateHumanReview}
    {contest : SemanticContradictionReview} (h : signedContest reviews role = some (review, contest)) :
    review ∈ reviews ∧ review.role = role ∧ review.decision = .approve ∧ review.semanticReview = some contest := by
  simp only [signedContest, Option.bind_eq_bind, Option.bind_eq_some_iff] at h
  obtain ⟨found, hFound, contest', hContest, hSame⟩ := h
  obtain ⟨rfl, rfl⟩ := Prod.mk.inj (Option.some.inj hSame)
  obtain ⟨hMem, hRole⟩ := dict_some hFound
  obtain ⟨hReview, hKind⟩ := List.mem_filter.mp hMem
  exact ⟨hReview, hRole, (of_decide_eq_true hKind).1, hContest⟩

/-- What an accepted contest is about. -/
theorem validateSemanticReview_ok {value : CandidateHumanReview} {candidate : ReviewCandidate} {policy : String}
    {review : SemanticContradictionReview} (hReview : value.semanticReview = some review)
    (h : validateSemanticReview value candidate policy = .ok ()) :
    review.executionId = candidate.semantic.executionId ∧
    review.outputFingerprint = candidate.semantic.outputFingerprint ∧
    (candidate.assertions.filter (review.Contests candidate.semanticEvaluator)).length = 1 := by
  simp only [validateSemanticReview, hReview, bind_ok, require_ok, exists_const, demand_ok] at h
  obtain ⟨⟨_, _, hExecution, hOutput, _⟩, _, _, hMatches, _⟩ := h
  exact ⟨hExecution, hOutput, hMatches⟩

/-- Two contests of the same decision are about the same receipts. -/
theorem contests_of_same {a b : SemanticContradictionReview} (h : sameContest a b) {evaluator : String}
    {receipt : AssertionReceipt} (hContests : a.Contests evaluator receipt) : b.Contests evaluator receipt := by
  obtain ⟨_, _, _, hOrdinal, hDetail⟩ := h
  obtain ⟨hType, hScope, hAt, hStatus, hText, hEvaluator⟩ := hContests
  exact ⟨hType, hScope, hAt.trans hOrdinal, hStatus, hText.trans hDetail, hEvaluator⟩

/-- Two approvals by different people, each with a contest of the receipt. -/
structure Contested (candidate : ReviewCandidate) (reviews : List CandidateHumanReview) (receipt : AssertionReceipt)
    (assessment safety : CandidateHumanReview) : Prop where
  signed : assessment ∈ reviews ∧ safety ∈ reviews
  roles : assessment.role = .assessmentSemantics ∧ safety.role = .safetyProduct
  approved : assessment.decision = .approve ∧ safety.decision = .approve
  reviewers : assessment.reviewer ≠ safety.reviewer
  bound : ∀ review ∈ [assessment, safety], ∃ contest, review.semanticReview = some contest ∧
    contest.Contests candidate.semanticEvaluator receipt ∧ contest.executionId = candidate.semantic.executionId ∧
    contest.outputFingerprint = candidate.semantic.outputFingerprint

/-- The receipts after the signatures of a candidate: those that are stored, or
all of them but a contested one, which passes. -/
def MinimalChange (candidate : ReviewCandidate) (reviews : List CandidateHumanReview)
    (assertions : List AssertionReceipt) : Prop :=
  assertions = candidate.assertions ∨
    ∃ before receipt after assessment safety, candidate.assertions = before ++ receipt :: after ∧
      assertions = before ++ { receipt with status := .passed } :: after ∧
      receipt.type = "forbidden_claims_absent" ∧ receipt.scope = .default ∧ receipt.status = .failed ∧
      receipt.evaluator = candidate.semanticEvaluator ∧ Contested candidate reviews receipt assessment safety

theorem contested_change {candidate : ReviewCandidate} {reviews : List CandidateHumanReview} {closedAt : DateTime}
    {policy : String} (h : Accountable closedAt [candidate] policy reviews)
    {assessment safety : CandidateHumanReview} {a b : SemanticContradictionReview}
    (hAssessment : signedContest reviews .assessmentSemantics = some (assessment, a))
    (hSafety : signedContest reviews .safetyProduct = some (safety, b)) (hSame : sameContest a b) :
    MinimalChange candidate reviews (candidate.assertions.map fun value =>
      if a.Contests candidate.semanticEvaluator value then { value with status := .passed } else value) := by
  obtain ⟨hFirst, hFirstRole, hFirstApproved, hFirstContest⟩ := signedContest_some hAssessment
  obtain ⟨hSecond, hSecondRole, hSecondApproved, hSecondContest⟩ := signedContest_some hSafety
  have hOwn : ∀ review ∈ reviews, review.candidateId = candidate.candidateId ∧
      validateSemanticReview review candidate policy = .ok () := by
    intro review hReview
    obtain ⟨found, hFound, _, hContest⟩ := h.admissible review hReview
    obtain ⟨hMem, hId⟩ := lookup_some hFound
    obtain rfl := List.mem_singleton.mp hMem
    exact ⟨hId.symm, hContest⟩
  obtain ⟨hFirstId, hFirstOk⟩ := hOwn assessment hFirst
  obtain ⟨hSecondId, hSecondOk⟩ := hOwn safety hSecond
  obtain ⟨hFirstExecution, hFirstOutput, hMatches⟩ := validateSemanticReview_ok hFirstContest hFirstOk
  obtain ⟨hSecondExecution, hSecondOutput, _⟩ := validateSemanticReview_ok hSecondContest hSecondOk
  obtain ⟨before, receipt, after, hAssertions, hContested, hChanged⟩ :=
    map_single (fun value : AssertionReceipt => { value with status := .passed }) hMatches
  refine .inr ⟨before, receipt, after, assessment, safety, hAssertions, hChanged, ?_⟩
  obtain ⟨hType, hScope, _, hStatus, _, hEvaluator⟩ := id hContested
  refine ⟨hType, hScope, hStatus, hEvaluator, ⟨hFirst, hSecond⟩, ⟨hFirstRole, hSecondRole⟩,
    ⟨hFirstApproved, hSecondApproved⟩, ?_, ?_⟩
  · intro hReviewer
    have hSigner : assessment.signer = safety.signer := by
      rw [CandidateHumanReview.signer, CandidateHumanReview.signer, hFirstId, hSecondId, hReviewer]
    have hEqual := h.signers.eq_of_key hFirst hSecond hSigner
    rw [hEqual, hSecondRole] at hFirstRole
    cases hFirstRole
  · intro review hReview
    rcases List.mem_cons.mp hReview with rfl | hReview
    · exact ⟨a, hFirstContest, hContested, hFirstExecution, hFirstOutput⟩
    · obtain rfl := List.mem_singleton.mp hReview
      exact ⟨b, hSecondContest, contests_of_same hSame hContested, hSecondExecution, hSecondOutput⟩

/-- The judgement of a candidate can be derived from any accepted history. -/
theorem effective_of_accountable {candidates : List ReviewCandidate} {candidate : ReviewCandidate} {closedAt : DateTime}
    {policy : String} {reviews : List CandidateHumanReview} (hUnique : UniqueOn (·.candidateId) candidates)
    (hCandidate : candidate ∈ candidates) (hFinished : candidate.semantic.finishedAt ≤ closedAt)
    (h : Accountable closedAt candidates policy reviews) :
    ∃ effective, effectiveCandidateAssertions candidate (reviews.filter (·.candidateId = candidate.candidateId)) closedAt
        policy = .ok effective ∧
      MinimalChange candidate (reviews.filter (·.candidateId = candidate.candidateId)) effective.assertions := by
  unfold effectiveCandidateAssertions
  split
  · exact ⟨_, rfl, .inl rfl⟩
  · next hSome =>
      rw [addHumanReviews_own hUnique hCandidate hFinished h hSome, ok_bind]
      split
      · next assessment a safety b hAssessment hSafety =>
          split
          · next hSame =>
              exact ⟨_, rfl, contested_change (h.own hUnique hCandidate) hAssessment hSafety hSame⟩
          · exact ⟨_, rfl, .inl rfl⟩
      · exact ⟨_, rfl, .inl rfl⟩

end QsAi
