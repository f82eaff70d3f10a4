import QsAi.Evaluation.Verdict
import QsAi.Run.Documents

/-! Scores of accepted judge outputs. The parser takes a number without a
fraction for an integer however it is spelled, the gates ask for an `int`; they
agree on every output whose scores are spelled as integers and on no other. -/
namespace QsAi

open Guarded Keyed PyJson

/-- Every score of the output is spelled without a fraction and an exponent. -/
def Output.IntegerScores (output : Output) : Prop :=
  ∀ document ∈ output.judgement, ∀ score ∈ document.scores, score.2.spelling = .integer

instance (output : Output) : Decidable output.IntegerScores :=
  inferInstanceAs (Decidable (∀ document ∈ output.judgement, _))

namespace GateEvidence

theorem gateScores_ok_iff {semantic : SemanticCompletion} {document : SemanticDocument}
    (hDocument : semantic.normalizedOutput.judgement = some document) :
    (∃ values, gateScores semantic = .ok values) ↔ semantic.normalizedOutput.IntegerScores := by
  obtain ⟨json, _, hRead⟩ := Option.bind_eq_some_iff.mp hDocument
  obtain ⟨hNames, hRange⟩ := readJudgement_scores hRead
  have hInteger : semantic.normalizedOutput.IntegerScores ↔
      ∀ score ∈ document.scores, score.2.spelling = .integer := by
    simp [Output.IntegerScores, hDocument]
  have hFinset : (document.scores.map (·.1)).toFinset = scoreNames.toFinset := List.toFinset_eq_of_perm _ _ hNames
  rw [hInteger]
  constructor
  · rintro ⟨values, hValues⟩
    simp only [gateScores, hDocument, bind_ok, demand_ok, require_ok, exists_const, Option.some.injEq,
      exists_eq_left'] at hValues
    exact fun score hScore => (hValues.1.2 score hScore).1
  · intro hSpelled
    have hEach : ∀ name ∈ scoreNames, ∃ value,
        demand ((lookup (·.1) document.scores name).map (·.2.value)) (Rejection.invalid "scores") = .ok value := by
      intro name hName
      have hMem : name ∈ document.scores.map (·.1) := hNames.symm.subset hName
      cases hFind : lookup (·.1) document.scores name with
      | none =>
          obtain ⟨score, hScore, hSame⟩ := List.mem_map.mp hMem
          exact absurd hSame (lookup_eq_none.mp hFind score hScore)
      | some score => exact ⟨score.2.value, rfl⟩
    obtain ⟨values, hValues⟩ := mapM_total hEach
    refine ⟨values, ?_⟩
    rw [gateScores, hDocument]
    change (require _ _ >>= fun _ => _) = _
    rw [require_bind_pos ⟨hFinset, fun score hScore => ⟨hSpelled score hScore, hRange score hScore⟩⟩]
    exact hValues

/-! The gates over all candidates. -/

theorem evaluateQualityGates_ok_iff {evidence : GateEvidence} {reviews : List CandidateHumanReview}
    {evaluatedAt : DateTime} (hReady : evidence.Ready reviews evaluatedAt) :
    (∃ result, evidence.evaluateQualityGates reviews evaluatedAt = .ok result) ↔
      ∀ item ∈ evidence.candidates, ∃ values, gateScores item.evidence.semantic = .ok values := by
  constructor
  · rintro ⟨result, hResult⟩ item hItem
    exact ((evaluateQualityGates_ok.mp hResult).2.1 item hItem).2
  · intro hScores
    refine ⟨_, evaluateQualityGates_ok.mpr ⟨hReady, fun item hItem => ⟨?_, hScores item hItem⟩, rfl⟩⟩
    obtain ⟨hUnique, hFinished⟩ := hReady.complete
    have hTarget : item.evidence ∈ evidence.targets := List.mem_map_of_mem hItem
    obtain ⟨effective, hEffective, _⟩ :=
      effective_of_accountable hUnique hTarget (hFinished _ hTarget) hReady.accountable
    exact ⟨effective, hEffective⟩

end GateEvidence

theorem gateable_iff_of_parsed {completion : SemanticCompletion} {contract : JudgeContract} {receipt : ProviderReceipt}
    {obligations : List AssertionReceipt} {result : SemanticResult}
    (hParse : parseSemanticOutput completion.normalizedOutput contract receipt completion.invocationId obligations =
      .ok result) :
    (∃ values, GateEvidence.gateScores completion = .ok values) ↔ completion.normalizedOutput.IntegerScores := by
  obtain ⟨document, _, _, hDocument, _⟩ := parseSemanticOutput_ok hParse
  exact GateEvidence.gateScores_ok_iff hDocument

/-- The gates accept the scores of a judge output that the parser accepted
exactly when every score is spelled as an integer, and with every other check
passed they return a result exactly when this holds of all candidates. -/
theorem accepted_scores_gateable_iff {completion : SemanticCompletion} {contract : JudgeContract}
    {receipt : ProviderReceipt} {obligations : List AssertionReceipt} {result : SemanticResult}
    (hParse : parseSemanticOutput completion.normalizedOutput contract receipt completion.invocationId obligations =
      .ok result) :
    ((∃ values, GateEvidence.gateScores completion = .ok values) ↔ completion.normalizedOutput.IntegerScores) ∧
    ∀ (evidence : GateEvidence) (reviews : List CandidateHumanReview) (evaluatedAt : DateTime),
      evidence.Ready reviews evaluatedAt →
      (∀ item ∈ evidence.candidates, ∃ contract receipt obligations result,
        parseSemanticOutput item.evidence.semantic.normalizedOutput contract receipt
          item.evidence.semantic.invocationId obligations = .ok result) →
      ((∃ result, evidence.evaluateQualityGates reviews evaluatedAt = .ok result) ↔
        ∀ item ∈ evidence.candidates, item.evidence.semantic.normalizedOutput.IntegerScores) := by
  refine ⟨gateable_iff_of_parsed hParse, ?_⟩
  intro evidence reviews evaluatedAt hReady hParsed
  rw [GateEvidence.evaluateQualityGates_ok_iff hReady]
  constructor
  · intro hScores item hItem
    obtain ⟨contract, receipt, obligations, result, hItemParse⟩ := hParsed item hItem
    exact (gateable_iff_of_parsed hItemParse).mp (hScores item hItem)
  · intro hSpelled item hItem
    obtain ⟨contract, receipt, obligations, result, hItemParse⟩ := hParsed item hItem
    exact (gateable_iff_of_parsed hItemParse).mpr (hSpelled item hItem)

/-! One candidate that was judged, with both signatures. -/

namespace Pilot

/-- The calls of the first slot, by stage. -/
def call (kind : ExecutionKind) (id candidateId : String) : CheckpointFields where
  executionId := id
  kind
  caseId := "a"
  slotOrdinal := 1
  candidateId
  executionOrdinal := 1
  owner := "worker"
  invocationId := id
  phase := .dispatching
  claimedAt := clock 1
  leaseExpiresAt := clock 59
  dispatchStartedAt := some (clock 1)

def generation : GenerationCompletion :=
  ⟨generatedFields (call .generation "e1" "") (clock 2) (by decide +kernel), by decide +kernel⟩

def judgement : SemanticCompletion :=
  ⟨judgedFields (call .semantic "s1" "c1") (clock 3) integerVerdict (by decide +kernel), by decide +kernel⟩

def reviewCandidate : ReviewCandidate where
  candidateId := "c1"
  acceptedAt := clock 2
  normalizedOutput := explanation
  semantic := judgement
  semanticEvaluator := "v1"
  assertions := [assertion "no_unprovided_fact" "v1" .passed (by decide +kernel)]
  semanticAssertions := [assertion "no_unprovided_fact" "v1" .passed (by decide +kernel)]
  checked := by decide +kernel

/-- Thresholds for a single candidate. -/
def thresholds : QualityThresholds where
  generationCases := 1
  candidatesPerCase := 1
  reviewCount := 2
  minInfrastructureRate := .int 0
  minContractRate := .int 0
  minSemanticRate := .int 0
  minCasePasses := 1
  minOverallPasses := 1
  minimumScores := scoreNames.map fun _ => .int 1
  minimumAverages := scoreNames.map fun _ => .int 1
  counts := by decide
  rates := by decide +kernel
  scores := by decide +kernel

def gateEvidence : GateEvidence where
  candidates := [⟨"a", 1, "e1", reviewCandidate⟩]
  generations := [generation]
  semantics := [judgement]
  thresholds := thresholds
  closedAt := clock 3
  completionRule := true

theorem signature_valid (reviewer : String) (h : validId reviewer = true) :
    validId "c1" = true ∧ validId reviewer = true ∧ reviewText "fine" 1000 = true :=
  ⟨by decide +kernel, h, by decide +kernel⟩

def signature (role : ReviewRole) (reviewer : String) (h : validId reviewer = true) : CandidateHumanReview where
  candidateId := "c1"
  role
  reviewer
  decision := .approve
  reviewedAt := clock 4
  reason := "fine"
  valid := signature_valid reviewer h

def signatures : List CandidateHumanReview :=
  [signature .assessmentSemantics "ann" ann_valid, signature .safetyProduct "bob" bob_valid]

end Pilot

theorem accepted_scores_gateable_iff_pilot :
    Pilot.gateEvidence.Ready Pilot.signatures (Pilot.clock 5) ∧
    ∃ result, Pilot.gateEvidence.evaluateQualityGates Pilot.signatures (Pilot.clock 5) = .ok result := by
  have hReady : Pilot.gateEvidence.Ready Pilot.signatures (Pilot.clock 5) :=
    ⟨by decide +kernel, by decide +kernel, by decide +kernel, fun _ => by decide +kernel⟩
  have hParsed : (parseSemanticOutput Pilot.judgement.normalizedOutput Pilot.assets.judge
      (Pilot.receipt "s1" (by decide +kernel)) Pilot.judgement.invocationId
      [Pilot.assertion "no_unprovided_fact" "suite" .pendingSemantic (by decide +kernel)]).toOption.isSome = true := by
    decide +kernel
  obtain ⟨result, hResult⟩ := Option.isSome_iff_exists.mp hParsed
  have hParse := toOption_some.mp hResult
  refine ⟨hReady, ((accepted_scores_gateable_iff hParse).2 _ _ _ hReady ?_).mpr ?_⟩
  · intro item hItem
    obtain rfl := List.mem_singleton.mp hItem
    exact ⟨_, _, _, result, hParse⟩
  · decide +kernel

/-- A judge that writes 4.0: the Run stores its call, the gates refuse it. -/
theorem decimal_score_not_gateable : ∃ now store next completion,
    Reaches (fun _ _ _ => True) (Pilot.creation .serialV1) now store ∧
    store.perform (.completeSerialSemantic store.version "worker" completion) = .ok next ∧
    completion.status = .succeeded ∧
    GateEvidence.gateScores completion = .error (.invalid "Accepted semantic scores are incomplete or invalid") := by
  obtain ⟨now, store, hReaches, hCheck⟩ := exists_reaches (fun _ _ _ => True) (Pilot.creation .serialV1)
    (Pilot.start ++ [Pilot.prepare 1 "e1", Pilot.reserve 1, Pilot.explain 2 "c1", Pilot.prepare 3 "s1",
      Pilot.reserve 3])
    (fun store => (Pilot.judgedBy store (Pilot.clock 4) Pilot.decimalVerdict).toOption.any
      fun completion : SemanticCompletion => (completion.status == .succeeded) &&
        ((store.perform (.completeSerialSemantic store.version "worker" completion)).toOption.isSome &&
          decide (GateEvidence.gateScores completion =
            .error (.invalid "Accepted semantic scores are incomplete or invalid"))))
    (by decide +kernel)
  obtain ⟨completion, _, hCheck⟩ := (Option.any_eq_true _ _).mp hCheck
  obtain ⟨hStatus, hCheck⟩ := Bool.and_eq_true_iff.mp hCheck
  obtain ⟨hAccepted, hRefused⟩ := Bool.and_eq_true_iff.mp hCheck
  obtain ⟨next, hNext⟩ := Option.isSome_iff_exists.mp hAccepted
  exact ⟨now, store, next, completion, hReaches, toOption_some.mp hNext, eq_of_beq hStatus, of_decide_eq_true hRefused⟩

end QsAi
