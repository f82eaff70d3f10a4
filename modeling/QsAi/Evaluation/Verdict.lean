import QsAi.Evaluation.Adjudication
import QsAi.Evaluation.Gates

/-! What the gates compute. The tally of the candidates is a sum over them, so
that the verdict can be read off candidate by candidate. -/
namespace QsAi

open Guarded Keyed

namespace GateEvidence

variable {evidence : GateEvidence} {reviews : List CandidateHumanReview}

/-! One candidate. -/

/-- The signatures of a candidate. -/
abbrev own (reviews : List CandidateHumanReview) (item : QualityCandidate) : List CandidateHumanReview :=
  reviews.filter (·.candidateId = item.evidence.candidateId)

variable (evidence reviews) in
/-- The judgement of a candidate after its signatures, where it has one. -/
def effectiveOf (item : QualityCandidate) : EffectiveCandidateAssertions :=
  (effectiveCandidateAssertions item.evidence (own reviews item) evidence.closedAt "v2").toOption.getD ⟨[], none⟩

/-- The scores of a candidate, where they can be read. -/
def scoresOf (item : QualityCandidate) : List Int := (gateScores item.evidence.semantic).toOption.getD []

/-- The roles that have not signed a candidate. -/
def missingRoles (reviews : List CandidateHumanReview) (item : QualityCandidate) : List ReviewRole :=
  [ReviewRole.assessmentSemantics, .safetyProduct].filter fun role => role ∉ (own reviews item).map (·.role)

variable (evidence reviews) in
def candidateReasons (item : QualityCandidate) : List GateReason :=
  let outcome := assertionOutcome (evidence.effectiveOf reviews item).assertions
  reject .g4 .candidateCaseAssertionFailed item.evidence.candidateId (outcome.1 = false) ++
    reject .g4 .candidateHardAssertionFailed item.evidence.candidateId (outcome.2.2 = false) ++
    reject .g4 .candidateScoreBelowMinimum item.evidence.candidateId
      (∃ pair ∈ (scoresOf item).zip evidence.thresholds.minimumScores, (pair.1 : ℚ) < pair.2.value) ++
    reject .g5 .humanReviewRejected item.evidence.candidateId (∃ r ∈ own reviews item, r.decision = .reject) ++
    (missingRoles reviews item).map fun _ => ⟨.g5, .humanReviewIncomplete, [item.evidence.candidateId]⟩

variable (evidence reviews) in
/-- The case of a candidate that passes it. -/
def passedCase (item : QualityCandidate) : List String :=
  let outcome := assertionOutcome (evidence.effectiveOf reviews item).assertions
  if outcome.1 ∧ outcome.2.1 then [item.caseId] else []

variable (evidence reviews) in
/-- The gates can judge a candidate. -/
def Judgeable (item : QualityCandidate) : Prop :=
  (∃ effective, effectiveCandidateAssertions item.evidence (own reviews item) evidence.closedAt "v2" = .ok effective) ∧
    ∃ values, gateScores item.evidence.semantic = .ok values

/-! All candidates. -/

variable (evidence reviews) in
/-- The tally of some candidates on top of an earlier one. -/
def tallyOver (tally : Tally) (items : List QualityCandidate) : Tally where
  reasons := tally.reasons ++ items.flatMap (evidence.candidateReasons reviews)
  adjudications := tally.adjudications ++ items.flatMap fun item => (evidence.effectiveOf reviews item).adjudication.toList
  passes := tally.passes ++ items.flatMap (evidence.passedCase reviews)
  totals := items.foldl (fun totals item => totals.zipWith (· + ·) (scoresOf item)) tally.totals

theorem tallyCandidate_ok {tally next : Tally} {item : QualityCandidate} :
    evidence.tallyCandidate reviews tally item = .ok next ↔
      evidence.Judgeable reviews item ∧ next = evidence.tallyOver reviews tally [item] := by
  unfold tallyCandidate
  simp only [bind_ok, pure_ok]
  constructor
  · rintro ⟨effective, hEffective, values, hValues, rfl⟩
    refine ⟨⟨⟨effective, hEffective⟩, values, hValues⟩, ?_⟩
    have hEffectiveOf : evidence.effectiveOf reviews item = effective := by
      rw [effectiveOf, hEffective]
      rfl
    have hScoresOf : scoresOf item = values := by
      rw [scoresOf, hValues]
      rfl
    simp only [tallyOver, List.flatMap_cons, List.flatMap_nil, List.append_nil, List.foldl_cons, List.foldl_nil,
      candidateReasons, passedCase, hEffectiveOf, hScoresOf, missingRoles, List.append_assoc]
    split
    · rfl
    · rw [List.append_nil]
  · rintro ⟨⟨⟨effective, hEffective⟩, values, hValues⟩, rfl⟩
    refine ⟨effective, hEffective, values, hValues, ?_⟩
    have hEffectiveOf : evidence.effectiveOf reviews item = effective := by
      rw [effectiveOf, hEffective]
      rfl
    have hScoresOf : scoresOf item = values := by
      rw [scoresOf, hValues]
      rfl
    simp only [tallyOver, List.flatMap_cons, List.flatMap_nil, List.append_nil, List.foldl_cons, List.foldl_nil,
      candidateReasons, passedCase, hEffectiveOf, hScoresOf, missingRoles, List.append_assoc]
    split
    · rfl
    · rw [List.append_nil]

theorem tallyOver_cons (tally : Tally) (item : QualityCandidate) (rest : List QualityCandidate) :
    evidence.tallyOver reviews (evidence.tallyOver reviews tally [item]) rest =
      evidence.tallyOver reviews tally (item :: rest) := by
  simp only [tallyOver, List.flatMap_cons, List.flatMap_nil, List.append_nil, List.foldl_cons, List.foldl_nil,
    List.append_assoc]

theorem tallyCandidates_ok {tally final : Tally} {items : List QualityCandidate} :
    evidence.tallyCandidates reviews tally items = .ok final ↔
      (∀ item ∈ items, evidence.Judgeable reviews item) ∧ final = evidence.tallyOver reviews tally items := by
  induction items generalizing tally with
  | nil => simp [tallyCandidates, tallyOver, pure, Except.pure, eq_comm]
  | cons item rest ih =>
      simp only [tallyCandidates, bind_ok, tallyCandidate_ok, List.forall_mem_cons]
      constructor
      · rintro ⟨next, ⟨hItem, rfl⟩, hRest⟩
        obtain ⟨hOthers, rfl⟩ := ih.mp hRest
        exact ⟨⟨hItem, hOthers⟩, tallyOver_cons tally item rest⟩
      · rintro ⟨⟨hItem, hOthers⟩, rfl⟩
        exact ⟨_, ⟨hItem, rfl⟩, ih.mpr ⟨hOthers, (tallyOver_cons tally item rest).symm⟩⟩

/-- Every check of the gates apart from the scores: times, inventory, execution
evidence and signatures. -/
structure Ready (evidence : GateEvidence) (reviews : List CandidateHumanReview) (evaluatedAt : DateTime) : Prop where
  times : evidence.closedAt ≤ evaluatedAt ∧ ∀ r ∈ reviews, r.reviewedAt ≤ evaluatedAt
  inventory : evidence.checkInventory = .ok ()
  executions : evidence.checkExecutions = .ok ()
  reviewed : reviews ≠ [] →
    addHumanReviews .awaitingReview evidence.closedAt evidence.targets [] reviews "v2" = .ok reviews

/-- The gates judge a closed inventory that passes their checks, candidate by
candidate. -/
theorem evaluateQualityGates_ok {evaluatedAt : DateTime} {result : QualityGateResult} :
    evidence.evaluateQualityGates reviews evaluatedAt = .ok result ↔
      evidence.Ready reviews evaluatedAt ∧ (∀ item ∈ evidence.candidates, evidence.Judgeable reviews item) ∧
      result = evidence.gateResult reviews evaluatedAt (evidence.tallyOver reviews {} evidence.candidates) := by
  have hTally : ∀ h : evidence.Ready reviews evaluatedAt, evidence.evaluateQualityGates reviews evaluatedAt =
      evidence.tallyCandidates reviews {} evidence.candidates >>= fun tally =>
        pure (evidence.gateResult reviews evaluatedAt tally) := by
    intro h
    rw [evaluateQualityGates, require_bind_pos h.times, h.inventory, ok_bind, h.executions, ok_bind]
    split
    · next hSome => rw [h.reviewed hSome, ok_bind]
    · rfl
  constructor
  · intro h
    have hReady : evidence.Ready reviews evaluatedAt := by
      simp only [evaluateQualityGates, bind_ok, require_ok, exists_const] at h
      obtain ⟨hTimes, _, hInventory, _, hExecutions, hRest⟩ := h
      refine ⟨hTimes, hInventory, hExecutions, fun hSome => ?_⟩
      rw [if_pos hSome] at hRest
      obtain ⟨accepted, hAccepted, _⟩ := (bind_ok _ _ _).mp hRest
      rw [hAccepted]
      exact congrArg Except.ok (addHumanReviews_iff.mp hAccepted).2.2.2.symm
    rw [hTally hReady] at h
    simp only [bind_ok, pure_ok, tallyCandidates_ok] at h
    obtain ⟨_, ⟨hItems, rfl⟩, rfl⟩ := h
    exact ⟨hReady, hItems, rfl⟩
  · rintro ⟨hReady, hItems, rfl⟩
    rw [hTally hReady]
    exact (bind_ok _ _ _).mpr ⟨_, tallyCandidates_ok.mpr ⟨hItems, rfl⟩, rfl⟩

/-- The signatures that the gates accept. -/
theorem Ready.accountable {evaluatedAt : DateTime} (h : evidence.Ready reviews evaluatedAt) :
    Accountable evidence.closedAt evidence.targets "v2" reviews := by
  by_cases hNone : reviews = []
  · subst hNone
    exact ⟨fun review hReview => absurd hReview List.not_mem_nil, uniqueOn_nil _, uniqueOn_nil _⟩
  · exact (addHumanReviews_iff.mp (h.reviewed hNone)).2.2.1

/-- The inventory that the gates accept. -/
theorem Ready.complete {evaluatedAt : DateTime} (h : evidence.Ready reviews evaluatedAt) :
    UniqueOn (·.candidateId) evidence.targets ∧ (∀ c ∈ evidence.targets, c.semantic.finishedAt ≤ evidence.closedAt) := by
  obtain ⟨_, _, _, _, hUnique⟩ := (require_ok _ _ _).mp h.inventory
  obtain ⟨_, hAccepts⟩ := (require_bind_ok _ _ _ _).mp h.executions
  refine ⟨?_, ?_⟩
  · unfold targets UniqueOn
    rw [List.map_map]
    exact hUnique
  · intro c hc
    obtain ⟨item, hItem, rfl⟩ := List.mem_map.mp hc
    exact ((require_ok _ _ _).mp hAccepts item hItem).2.2

/-! The human gate. -/

/-- Both roles approve, and two people signed for them. -/
def FullySigned (reviews : List CandidateHumanReview) (item : QualityCandidate) : Prop :=
  ∃ assessment safety, (own reviews item).Perm [assessment, safety] ∧
    assessment.role = .assessmentSemantics ∧ safety.role = .safetyProduct ∧
    assessment.reviewer ≠ safety.reviewer ∧ assessment.decision = .approve ∧ safety.decision = .approve

theorem mem_reject {gate : Gate} {code : ReasonCode} {id : String} {condition : Prop} [Decidable condition]
    {reason : GateReason} : reason ∈ reject gate code id condition ↔ condition ∧ reason = ⟨gate, code, [id]⟩ := by
  unfold reject
  split
  · next hHolds => simp [hHolds]
  · next hFails => simp [hFails]

/-- What the human gate asks of one candidate. -/
theorem candidateReasons_g5 (item : QualityCandidate) :
    (∀ reason ∈ evidence.candidateReasons reviews item, reason.gate ≠ .g5) ↔
      (∀ r ∈ own reviews item, r.decision = .approve) ∧
      (∃ r ∈ own reviews item, r.role = .assessmentSemantics) ∧ ∃ r ∈ own reviews item, r.role = .safetyProduct := by
  have hOther : ∀ {code : ReasonCode} {condition : Prop} [Decidable condition],
      ∀ reason ∈ reject .g4 code item.evidence.candidateId condition, reason.gate ≠ .g5 := by
    intro code condition _ reason hReason
    rw [(mem_reject.mp hReason).2]
    exact Gate.noConfusion
  have hRejected : (∀ reason ∈ reject .g5 .humanReviewRejected item.evidence.candidateId
      (∃ r ∈ own reviews item, r.decision = .reject), reason.gate ≠ .g5) ↔ ∀ r ∈ own reviews item, r.decision = .approve := by
    constructor
    · intro h r hr
      cases hDecision : r.decision with
      | approve => rfl
      | reject => exact absurd rfl (h _ (mem_reject.mpr ⟨⟨r, hr, hDecision⟩, rfl⟩))
    · intro h reason hReason
      obtain ⟨r, hr, hDecision⟩ := (mem_reject.mp hReason).1
      rw [h r hr] at hDecision
      cases hDecision
  have hMissing : (∀ reason ∈ (missingRoles reviews item).map fun _ =>
      (⟨.g5, .humanReviewIncomplete, [item.evidence.candidateId]⟩ : GateReason), reason.gate ≠ .g5) ↔
      (∃ r ∈ own reviews item, r.role = .assessmentSemantics) ∧ ∃ r ∈ own reviews item, r.role = .safetyProduct := by
    have hNone : (∀ reason ∈ (missingRoles reviews item).map fun _ =>
        (⟨.g5, .humanReviewIncomplete, [item.evidence.candidateId]⟩ : GateReason), reason.gate ≠ .g5) ↔
        missingRoles reviews item = [] := by
      cases missingRoles reviews item with
      | nil => simp
      | cons role rest => simp
    rw [hNone, missingRoles, List.filter_eq_nil_iff]
    simp only [decide_eq_true_eq, not_not, List.mem_map, List.forall_mem_cons, List.not_mem_nil, false_implies,
      implies_true, and_true]
  unfold candidateReasons
  simp only [List.forall_mem_append]
  rw [hRejected, hMissing]
  constructor
  · rintro ⟨⟨⟨⟨-, -⟩, -⟩, hApproved⟩, hSigned⟩
    exact ⟨hApproved, hSigned⟩
  · rintro ⟨hApproved, hSigned⟩
    exact ⟨⟨⟨⟨hOther, hOther⟩, hOther⟩, hApproved⟩, hSigned⟩

/-- Accepted signatures of one candidate: with both roles there, they are two. -/
theorem fullySigned_iff (h : Accountable evidence.closedAt evidence.targets "v2" reviews) {item : QualityCandidate} :
    FullySigned reviews item ↔
      (∀ r ∈ own reviews item, r.decision = .approve) ∧
      (∃ r ∈ own reviews item, r.role = .assessmentSemantics) ∧ ∃ r ∈ own reviews item, r.role = .safetyProduct := by
  constructor
  · rintro ⟨assessment, safety, hPerm, hFirst, hSecond, _, hFirstApproved, hSecondApproved⟩
    refine ⟨fun r hr => ?_, ⟨assessment, ?_, hFirst⟩, safety, ?_, hSecond⟩
    · rcases List.mem_cons.mp (hPerm.mem_iff.mp hr) with rfl | hr
      · exact hFirstApproved
      · rw [List.mem_singleton.mp hr]
        exact hSecondApproved
    · exact hPerm.mem_iff.mpr List.mem_cons_self
    · exact hPerm.mem_iff.mpr (List.mem_cons_of_mem _ (List.mem_singleton_self _))
  · rintro ⟨hApproved, ⟨assessment, hAssessment, hFirst⟩, safety, hSafety, hSecond⟩
    have hId : ∀ r ∈ own reviews item, r.candidateId = item.evidence.candidateId :=
      fun r hr => of_decide_eq_true (List.mem_filter.mp hr).2
    have hRoles : UniqueOn CandidateHumanReview.key (own reviews item) := h.roles.sublist List.filter_sublist
    have hSame : ∀ r ∈ own reviews item, ∀ other ∈ own reviews item, r.role = other.role → r = other := by
      intro r hr other hOther hRole
      refine hRoles.eq_of_key hr hOther ?_
      rw [CandidateHumanReview.key, CandidateHumanReview.key, hId r hr, hId other hOther, hRole]
    have hDistinct : assessment ≠ safety := by
      rintro rfl
      rw [hFirst] at hSecond
      cases hSecond
    refine ⟨assessment, safety, ?_, hFirst, hSecond, ?_, hApproved _ hAssessment, hApproved _ hSafety⟩
    · refine (List.perm_ext_iff_of_nodup (List.Nodup.of_map _ hRoles) (by simpa using hDistinct)).mpr fun r => ?_
      rw [List.mem_cons, List.mem_singleton]
      constructor
      · intro hr
        cases hRole : r.role with
        | assessmentSemantics => exact .inl (hSame r hr assessment hAssessment (hRole.trans hFirst.symm))
        | safetyProduct => exact .inr (hSame r hr safety hSafety (hRole.trans hSecond.symm))
      · rintro (rfl | rfl)
        · exact hAssessment
        · exact hSafety
    · intro hReviewer
      have hSigner : assessment.signer = safety.signer := by
        rw [CandidateHumanReview.signer, CandidateHumanReview.signer, hId _ hAssessment, hId _ hSafety, hReviewer]
      have hSigners : UniqueOn CandidateHumanReview.signer (own reviews item) := h.signers.sublist List.filter_sublist
      exact hDistinct (hSigners.eq_of_key hAssessment hSafety hSigner)

/-- The size of an accepted inventory. -/
theorem Ready.size {evaluatedAt : DateTime} (h : evidence.Ready reviews evaluatedAt) :
    evidence.candidates.length = evidence.thresholds.generationCases * evidence.thresholds.candidatesPerCase := by
  obtain ⟨hCases, hEach, _⟩ := (require_ok _ _ _).mp h.inventory
  rw [← hCases]
  refine length_of_fibres (·.caseId) (List.nodup_dedup _) (fun item hItem => ?_) hEach
  exact List.mem_dedup.mpr (List.mem_map_of_mem hItem)

/-- Every signature belongs to a candidate. -/
theorem Ready.signed {evaluatedAt : DateTime} (h : evidence.Ready reviews evaluatedAt) :
    ∀ r ∈ reviews, r.candidateId ∈ evidence.targets.map (·.candidateId) := by
  intro r hr
  obtain ⟨candidate, hCandidate, _⟩ := h.accountable.admissible r hr
  obtain ⟨hMem, hId⟩ := lookup_some hCandidate
  exact List.mem_map.mpr ⟨candidate, hMem, hId⟩

/-- Full signatures are as many as the policy asks for. -/
theorem Ready.reviewCount {evaluatedAt : DateTime} (h : evidence.Ready reviews evaluatedAt)
    (hSigned : ∀ item ∈ evidence.candidates, FullySigned reviews item) :
    reviews.length = evidence.thresholds.reviewCount := by
  have hCount : reviews.length = (evidence.targets.map (·.candidateId)).length * 2 := by
    refine length_of_fibres (·.candidateId) h.complete.1 h.signed fun id hId => ?_
    obtain ⟨candidate, hCandidate, rfl⟩ := List.mem_map.mp hId
    obtain ⟨item, hItem, rfl⟩ := List.mem_map.mp hCandidate
    obtain ⟨assessment, safety, hPerm, _⟩ := hSigned item hItem
    exact hPerm.length_eq
  rw [hCount, List.length_map, targets, List.length_map, h.size]
  exact evidence.thresholds.counts.2.2.2.2.1.symm

theorem gateResult_passes {evaluatedAt : DateTime} {tally : Tally} {gate : Gate} :
    (gate, true) ∈ (evidence.gateResult reviews evaluatedAt tally).gatePasses ↔
      ∀ reason ∈ (evidence.gateResult reviews evaluatedAt tally).reasons, reason.gate ≠ gate := by
  simp only [gateResult, List.mem_map, Prod.mk.injEq, Bool.not_eq_true', List.any_eq_false, beq_iff_eq]
  constructor
  · rintro ⟨_, _, rfl, hNone⟩
    exact hNone
  · intro hNone
    refine ⟨gate, ?_, rfl, hNone⟩
    cases gate with
    | g3 => exact List.mem_cons_self
    | g4 => exact List.mem_cons_of_mem _ List.mem_cons_self
    | g5 => exact List.mem_cons_of_mem _ (List.mem_cons_of_mem _ List.mem_cons_self)

theorem rateReasons_g3 {reason : GateReason} (h : reason ∈ evidence.rateReasons) : reason.gate = .g3 := by
  have hRate : ∀ {name : String} {numerator denominator : Nat} {minimum : Number} {code : ReasonCode},
      ∀ r ∈ (evidence.rate name numerator denominator minimum code).2, r.gate = .g3 := by
    intro name numerator denominator minimum code r hr
    unfold rate at hr
    obtain ⟨_, rfl⟩ := (List.mem_ite_nil_right ..).mp hr |>.imp_right List.mem_singleton.mp
    rfl
  simp only [rateReasons, List.mem_append] at h
  rcases h with ((h | h) | h) | h
  · exact hRate _ h
  · exact hRate _ h
  · exact hRate _ h
  · unfold completion at h
    split at h
    · simp only at h
      split at h
      · rw [List.mem_singleton.mp h]
      · exact absurd h List.not_mem_nil
    · exact absurd h List.not_mem_nil

theorem overallReasons_g5 {tally : Tally} :
    (∀ reason ∈ evidence.overallReasons reviews tally, reason.gate ≠ .g5) ↔
      reviews.length = evidence.thresholds.reviewCount := by
  have hOther : ∀ {code : ReasonCode} {condition : Prop} [Decidable condition],
      ∀ reason ∈ (if condition then [(⟨.g4, code, []⟩ : GateReason)] else []), reason.gate ≠ .g5 := by
    intro code condition _ reason hReason
    split at hReason
    · rw [List.mem_singleton.mp hReason]
      exact Gate.noConfusion
    · exact absurd hReason List.not_mem_nil
  unfold overallReasons
  simp only [List.forall_mem_append]
  constructor
  · rintro ⟨-, hCount⟩
    by_contra hOff
    rw [if_pos hOff] at hCount
    exact hCount _ (List.mem_singleton_self _) rfl
  · intro hCount
    refine ⟨⟨⟨?_, hOther⟩, hOther⟩, ?_⟩
    · intro reason hReason
      obtain ⟨id, _, rfl⟩ := List.mem_map.mp hReason
      exact Gate.noConfusion
    · rw [if_neg (not_not.mpr hCount)]
      exact fun reason hReason => absurd hReason List.not_mem_nil

end GateEvidence

end QsAi
