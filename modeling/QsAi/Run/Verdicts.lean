import QsAi.Evaluation.CorrectionChain
import QsAi.Evaluation.Eligibility
import QsAi.Evaluation.Reordering
import QsAi.Run.Citations

/-! What the signatures of a review can do to its verdict, and what the verdict says
about the signatures. -/
namespace QsAi

open Guarded Keyed

/-- The accepted signatures of a candidate leave its receipts alone, or turn a
single one that both roles contest. -/
theorem adjudication_minimal {closedAt : DateTime} {candidates : List ReviewCandidate} {status : RunStatus}
    {prior values reviews : List CandidateHumanReview} {policy : String}
    (h : addHumanReviews status closedAt candidates prior values policy = .ok reviews) {candidate : ReviewCandidate}
    (hCandidate : candidate ∈ candidates) :
    ∃ effective, effectiveCandidateAssertions candidate (reviews.filter (·.candidateId = candidate.candidateId)) closedAt
        policy = .ok effective ∧
      MinimalChange candidate (reviews.filter (·.candidateId = candidate.candidateId)) effective.assertions := by
  obtain ⟨_, ⟨hUnique, hFinished⟩, hAccountable, rfl⟩ := addHumanReviews_iff.mp h
  exact effective_of_accountable hUnique hCandidate (hFinished candidate hCandidate) hAccountable

namespace Panel

open Pilot

def bobApproved : CandidateHumanReview := signature .safetyProduct "bob" bob_valid first

/-- Both reviewers contest the failed decision. -/
def contests : List CandidateHumanReview :=
  [contesting approved (judged first).outputFingerprint, contesting bobApproved (judged first).outputFingerprint]

theorem contests_added : (addHumanReviews .awaitingReview (clock 1) (seats.map review) [] contests "v2").toOption.isSome =
    true := by
  decide +kernel

end Panel

theorem adjudication_minimal_contested : ∃ reviews effective,
    effectiveCandidateAssertions (Panel.review Panel.first) reviews (Pilot.clock 1) "v2" = .ok effective ∧
    MinimalChange (Panel.review Panel.first) reviews effective.assertions := by
  obtain ⟨reviews, hReviews⟩ := Option.isSome_iff_exists.mp Panel.contests_added
  have hFirst : Panel.review Panel.first ∈ Panel.seats.map Panel.review := List.mem_map_of_mem List.mem_cons_self
  exact ⟨_, adjudication_minimal (toOption_some.mp hReviews) hFirst⟩

namespace GateEvidence

/-- The human gate passes exactly when every candidate is fully signed. -/
theorem human_gate_exact {evidence : GateEvidence} {reviews : List CandidateHumanReview} {evaluatedAt : DateTime}
    {result : QualityGateResult} (h : evidence.evaluateQualityGates reviews evaluatedAt = .ok result) :
    (Gate.g5, true) ∈ result.gatePasses ↔ ∀ item ∈ evidence.candidates, FullySigned reviews item := by
  obtain ⟨hReady, _, rfl⟩ := evaluateQualityGates_ok.mp h
  rw [gateResult_passes]
  simp only [gateResult, List.forall_mem_append, tallyOver, List.nil_append, overallReasons_g5]
  constructor
  · rintro ⟨⟨-, hCandidates⟩, -⟩ item hItem
    have hNone : ∀ reason ∈ evidence.candidateReasons reviews item, reason.gate ≠ .g5 := fun reason hReason =>
      hCandidates reason (List.mem_flatMap.mpr ⟨item, hItem, hReason⟩)
    exact (fullySigned_iff hReady.accountable).mpr ((candidateReasons_g5 item).mp hNone)
  · intro hSigned
    refine ⟨⟨?_, ?_⟩, hReady.reviewCount hSigned⟩
    · intro reason hReason
      rw [rateReasons_g3 hReason]
      exact Gate.noConfusion
    · intro reason hReason
      obtain ⟨item, hItem, hReason⟩ := List.mem_flatMap.mp hReason
      exact (candidateReasons_g5 item).mpr ((fullySigned_iff hReady.accountable).mp (hSigned item hItem)) reason hReason

theorem human_gate_exact_panel : ∃ result,
    Panel.evidence.evaluateQualityGates (Panel.ann ++ Panel.bob) (Pilot.clock 3) = .ok result ∧
    ((Gate.g5, true) ∈ result.gatePasses ↔
      ∀ item ∈ Panel.evidence.candidates, FullySigned (Panel.ann ++ Panel.bob) item) := by
  obtain ⟨result, hResult, _⟩ := Panel.rejected
  exact ⟨result, hResult, human_gate_exact hResult⟩

/-- The verdict over reordered evidence. -/
theorem gates_order_independent {evidence other : GateEvidence} {reviews again : List CandidateHumanReview}
    {evaluatedAt : DateTime} (h : evidence.Reordered other) (hReviews : reviews.Perm again) {result : QualityGateResult}
    (hResult : evidence.evaluateQualityGates reviews evaluatedAt = .ok result) :
    ∃ result', other.evaluateQualityGates again evaluatedAt = .ok result' ∧
      result'.gatePasses = result.gatePasses ∧ result'.metrics = result.metrics ∧
      result.reasons.Perm result'.reasons ∧ result.semanticAdjudications.Perm result'.semanticAdjudications := by
  obtain ⟨hReady, hItems, rfl⟩ := evaluateQualityGates_ok.mp hResult
  have hTally := h.tally hReviews hReady
  have hReasons : (evidence.gateResult reviews evaluatedAt (evidence.tallyOver reviews {} evidence.candidates)).reasons.Perm
      (other.gateResult again evaluatedAt (other.tallyOver again {} other.candidates)).reasons := by
    unfold gateResult
    simp only
    rw [h.rateReasons]
    exact (hTally.reasons.append_left _).append (h.overallReasons hReviews hTally)
  refine ⟨_, evaluateQualityGates_ok.mpr ⟨h.ready hReviews hReady, ?_, rfl⟩, ?_, h.metrics, hReasons, hTally.adjudications⟩
  · intro item hItem
    have hOld := h.candidates.mem_iff.mpr hItem
    exact (h.sameFindings hReviews hReady hOld).judgeable (hItems item hOld)
  · have hAny : ∀ gate : Gate,
        (other.gateResult again evaluatedAt (other.tallyOver again {} other.candidates)).reasons.any (·.gate == gate) =
        (evidence.gateResult reviews evaluatedAt (evidence.tallyOver reviews {} evidence.candidates)).reasons.any
          (·.gate == gate) := fun gate => hReasons.symm.any_eq
    have hPasses : ∀ gate : Gate, (gate, !(other.gateResult again evaluatedAt
        (other.tallyOver again {} other.candidates)).reasons.any (·.gate == gate)) = (gate, !(evidence.gateResult reviews
          evaluatedAt (evidence.tallyOver reviews {} evidence.candidates)).reasons.any (·.gate == gate)) := by
      intro gate
      rw [hAny gate]
    exact List.map_congr_left fun gate _ => hPasses gate

/-- The pilot evidence from the last row to the first. -/
def backwards : GateEvidence :=
  { Panel.evidence with
    candidates := Panel.evidence.candidates.reverse
    generations := Panel.evidence.generations.reverse
    semantics := Panel.evidence.semantics.reverse }

theorem gates_order_independent_backwards : ∃ result result',
    Panel.evidence.evaluateQualityGates (Panel.ann ++ Panel.bob) (Pilot.clock 3) = .ok result ∧
    backwards.evaluateQualityGates (Panel.ann ++ Panel.bob).reverse (Pilot.clock 3) = .ok result' ∧
    result'.gatePasses = result.gatePasses ∧ result'.metrics = result.metrics ∧
    result.reasons.Perm result'.reasons ∧ result.semanticAdjudications.Perm result'.semanticAdjudications := by
  obtain ⟨result, hResult, _⟩ := Panel.rejected
  have hReordered : Panel.evidence.Reordered backwards :=
    ⟨(List.reverse_perm _).symm, (List.reverse_perm _).symm, (List.reverse_perm _).symm, rfl, rfl, rfl⟩
  obtain ⟨result', hAgain⟩ := gates_order_independent hReordered (List.reverse_perm (Panel.ann ++ Panel.bob)).symm hResult
  exact ⟨result, result', hResult, hAgain⟩

/-- The candidates of a reopening are the ones that the gates rejected for, in the
order of the evidence. -/
theorem reopening_targets_exact {evidence : GateEvidence} {reviews : List CandidateHumanReview} {evaluatedAt : DateTime}
    {gate : QualityGateResult} (hGate : evidence.evaluateQualityGates reviews evaluatedAt = .ok gate)
    (hInventory : ∀ item ∈ evidence.candidates, FromInventory item.evidence.assertions) {status : RunStatus}
    {policy : String} {count : Nat} {ids : List String}
    (hIds : eligibleCandidateIds evidence.targets reviews gate evidence.closedAt status policy count = .ok ids)
    (hSome : ids ≠ []) :
    ids.Nodup ∧ ids.Sublist (evidence.targets.map (·.candidateId)) ∧
    (∀ id, id ∈ ids ↔ ∃ reason ∈ gate.reasons, id ∈ reason.evidenceRefs) ∧
    ∀ item ∈ evidence.candidates, ∃ effective, effectiveCandidateAssertions item.evidence (own reviews item)
        evidence.closedAt "v2" = .ok effective ∧
      (item.evidence.candidateId ∈ ids ↔ (assertionOutcome effective.assertions).2.2 = false) := by
  unfold eligibleCandidateIds at hIds
  split at hIds
  swap
  · rw [pure_ok] at hIds
    exact absurd hIds.symm hSome
  next hReopenable =>
  obtain ⟨_, _, rfl, _, _, hOnly⟩ := hReopenable
  simp only [bind_ok, require_ok, exists_const, pure_ok] at hIds
  obtain ⟨_, _, _, found, hFound, hResult⟩ := hIds
  cases found with
  | none => exact absurd hResult.symm hSome
  | some listed =>
      obtain rfl : listed = ids := hResult
      obtain ⟨hReady, _, hGateResult⟩ := evaluateQualityGates_ok.mp hGate
      obtain ⟨hUnique, hFinished⟩ := hReady.complete
      obtain ⟨hSub, hEach⟩ := failedCandidateIds_some hFound
      have hOutcomes : ∀ item ∈ evidence.candidates, ∃ effective, effectiveCandidateAssertions item.evidence
          (own reviews item) evidence.closedAt "v2" = .ok effective ∧
          (item.evidence.candidateId ∈ listed ↔ (assertionOutcome effective.assertions).2.2 = false) := by
        intro item hItem
        have hTarget : item.evidence ∈ evidence.targets := List.mem_map_of_mem hItem
        obtain ⟨effective, hEffective, hAll, hListed, hUnlisted⟩ := hEach item.evidence hTarget
        have hListedIff : item.evidence.candidateId ∈ listed ↔ hardFailures effective.assertions ≠ [] :=
          ⟨fun hMem hNone => hUnlisted hNone hUnique hMem, hListed⟩
        have hHard : ∀ receipt ∈ effective.assertions, receipt.hard = hardKey receipt.key := by
          obtain ⟨again, hAgain, hMinimal⟩ :=
            effective_of_accountable hUnique hTarget (hFinished _ hTarget) hReady.accountable
          obtain rfl : again = effective := Except.ok.inj (hAgain.symm.trans hEffective)
          exact hMinimal.hard fun receipt hReceipt => (hInventory item hItem).hard hReceipt
        exact ⟨effective, hEffective,
          hListedIff.trans (hardPassed_iff hHard fun receipt hReceipt => (hAll receipt hReceipt).1).symm⟩
      refine ⟨List.Nodup.sublist hSub hUnique, hSub, fun id => ?_, hOutcomes⟩
      rw [hGateResult] at hOnly ⊢
      constructor
      · intro hId
        obtain ⟨target, hTarget, rfl⟩ := List.mem_map.mp (hSub.subset hId)
        obtain ⟨item, hItem, rfl⟩ := List.mem_map.mp hTarget
        obtain ⟨effective, hEffective, hFailed⟩ := hOutcomes item hItem
        rw [← effectiveOf_eq hEffective] at hFailed
        obtain ⟨hReason, _⟩ := hardReason_iff.mpr ⟨item, hItem, hFailed.mp hId, rfl⟩
        exact ⟨_, hReason, List.mem_singleton_self _⟩
      · rintro ⟨reason, hReason, hRef⟩
        obtain ⟨item, hItem, hFailed, rfl⟩ := hardReason_iff.mp ⟨hReason, (hOnly reason hReason).2⟩
        obtain ⟨effective, hEffective, hListed⟩ := hOutcomes item hItem
        rw [effectiveOf_eq hEffective] at hFailed
        rw [List.mem_singleton.mp hRef]
        exact hListed.mpr hFailed

theorem reopening_targets_exact_panel : ∃ gate, Panel.evidence.evaluateQualityGates (Panel.ann ++ Panel.bob)
      (Pilot.clock 3) = .ok gate ∧
    eligibleCandidateIds Panel.evidence.targets (Panel.ann ++ Panel.bob) gate Panel.evidence.closedAt .rejected "v2" 0 =
      .ok ["e01"] ∧
    ∀ id, id ∈ ["e01"] ↔ ∃ reason ∈ gate.reasons, id ∈ reason.evidenceRefs := by
  obtain ⟨gate, hGate, hReopenable, _⟩ := Panel.rejected
  have hInventory : ∀ item ∈ Panel.evidence.candidates, FromInventory item.evidence.assertions := by
    intro item hItem
    obtain ⟨seat, _, rfl⟩ := List.mem_map.mp hItem
    have hOwn : (⟨"no_unprovided_fact", .case, 1, true⟩ : FrozenAssertion) ∈
          assertionInventory ["forbidden_claims_absent"] ["no_unprovided_fact"] ∧
        (⟨"forbidden_claims_absent", .default, 1, true⟩ : FrozenAssertion) ∈
          assertionInventory ["forbidden_claims_absent"] ["no_unprovided_fact"] := by
      decide
    refine ⟨["forbidden_claims_absent"], ["no_unprovided_fact"], fun r hr => ?_⟩
    rcases List.mem_cons.mp hr with rfl | hr
    · exact hOwn.1
    · rw [List.mem_singleton.mp hr]
      exact hOwn.2
  have hTargets : Panel.evidence.targets = Panel.seats.map Panel.review := List.map_map
  have hIds : eligibleCandidateIds Panel.evidence.targets (Panel.ann ++ Panel.bob) gate Panel.evidence.closedAt .rejected
      "v2" 0 = .ok ["e01"] := by
    rw [hTargets]
    exact Panel.eligible hGate hReopenable
  obtain ⟨_, _, hReferenced, _⟩ := reopening_targets_exact hGate hInventory hIds (List.cons_ne_nil _ _)
  exact ⟨gate, hGate, hIds, hReferenced⟩

end GateEvidence

/-- Corrections put the last word on each signature in its place. Along each
signature there are three at most, and their times go forward. -/
theorem corrections_fold {original result : List CandidateHumanReview} {corrections : List ReviewCorrection}
    {candidates : List ReviewCandidate} {closedAt limit : DateTime} {version : Nat} {policy : String}
    (h : validateCorrections original corrections candidates closedAt version limit policy = .ok result) :
    effectiveReviews original corrections version = .ok result ∧
    result = original.map (currentReview corrections) ∧ result.length = original.length ∧
    result.map (·.key) = original.map (·.key) ∧ (∀ key, (correctionsOf corrections key).length ≤ 3) ∧
    (∀ review ∈ original, (reviewHistory corrections review).IsChain (·.reviewedAt ≤ ·.reviewedAt)) ∧
    (∀ entry ∈ corrections, entry.review.key ∈ original.map (·.key)) ∧
    ∀ earlier, earlier <+: corrections →
      ∃ between, validateCorrections original earlier candidates closedAt version limit policy = .ok between := by
  obtain ⟨_, _, hEffective⟩ := validateCorrections_ok h
  obtain ⟨rfl, hSound⟩ := effectiveReviews_current hEffective
  refine ⟨hEffective, rfl, List.length_map _, ?_, hSound.bounded, hSound.timed, hSound.placed, ?_⟩
  · rw [List.map_map]
    exact List.map_congr_left fun review _ => currentReview_key corrections review
  · rintro earlier ⟨later, rfl⟩
    exact validateCorrections_earlier h

theorem corrections_fold_panel : ∃ result,
    effectiveReviews (Panel.ann ++ Panel.bob) [Panel.revocationEntry] 216 = .ok result ∧
    result = (Panel.ann ++ Panel.bob).map (currentReview [Panel.revocationEntry]) := by
  obtain ⟨hEffective, hResult, _⟩ := corrections_fold Panel.revocation_valid
  exact ⟨_, hEffective, hResult⟩

namespace Panel

open Pilot

/-- Ann's revocation, a second later. -/
def lateFields : CorrectionFields :=
  { revocationFields with review := { revoked with reviewedAt := clock 4 } }

/-- Bob's revocation of the same candidate, decided before and recorded after it. -/
def earlyFields : CorrectionFields where
  commandId := "00000000-0000-4000-8000-000000000002"
  sourceVersion := 216
  version := 217
  previousReviewFingerprint := Pilot.encoding.reviewFingerprint bobApproved
  candidateOutputFingerprint := explanation.fingerprint
  previousReview := bobApproved
  review := { bobApproved with decision := .reject, reviewedAt := clock 3 }

theorem late_check : lateFields.check = .ok () := by
  refine (require_ok _ _ _).mpr ?_
  decide

theorem early_check : earlyFields.check = .ok () := by
  refine (require_ok _ _ _).mpr ?_
  decide

def overtaken : List ReviewCorrection := [⟨lateFields, late_check⟩, ⟨earlyFields, early_check⟩]

theorem overtaken_valid : (validateCorrections (ann ++ bob) overtaken (seats.map review) (clock 1) 217 (clock 4)
    "v2").toOption.isSome = true := by
  decide +kernel

end Panel

/-- Corrections of different signatures may go back in time. -/
theorem correction_times_overtaken : ∃ original corrections candidates closedAt version limit policy result,
    validateCorrections original corrections candidates closedAt version limit policy = .ok result ∧
    ¬ corrections.IsChain (·.review.reviewedAt ≤ ·.review.reviewedAt) := by
  obtain ⟨result, hResult⟩ := Option.isSome_iff_exists.mp Panel.overtaken_valid
  refine ⟨_, Panel.overtaken, _, _, _, _, _, result, toOption_some.mp hResult, ?_⟩
  rw [Panel.overtaken, List.isChain_pair]
  decide

end QsAi
