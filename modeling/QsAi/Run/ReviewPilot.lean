import QsAi.Run.ReviewRounds
import QsAi.Run.Script

/-! A pilot review. Thirty-five candidates were generated and judged without a
retry; the judge found one forbidden claim in the first of them, so that the
review ends in a rejection that can be reopened. -/
namespace QsAi

open Guarded Keyed Numbered PyJson

/-- A slot with the ids of its two calls. -/
structure Seat where
  caseId : String
  ordinal : Nat
  generation : String
  semantic : String
  valid : validId caseId = true ∧ validId generation = true ∧ validId semantic = true ∧ 1 ≤ ordinal ∧ ordinal ≤ 5

namespace Panel

open Pilot

def table : List (String × Nat × String × String) :=
  [("a", 1, "e01", "s01"), ("a", 2, "e02", "s02"), ("a", 3, "e03", "s03"), ("a", 4, "e04", "s04"),
    ("a", 5, "e05", "s05"), ("b", 1, "e06", "s06"), ("b", 2, "e07", "s07"), ("b", 3, "e08", "s08"),
    ("b", 4, "e09", "s09"), ("b", 5, "e10", "s10"), ("c", 1, "e11", "s11"), ("c", 2, "e12", "s12"),
    ("c", 3, "e13", "s13"), ("c", 4, "e14", "s14"), ("c", 5, "e15", "s15"), ("d", 1, "e16", "s16"),
    ("d", 2, "e17", "s17"), ("d", 3, "e18", "s18"), ("d", 4, "e19", "s19"), ("d", 5, "e20", "s20"),
    ("e", 1, "e21", "s21"), ("e", 2, "e22", "s22"), ("e", 3, "e23", "s23"), ("e", 4, "e24", "s24"),
    ("e", 5, "e25", "s25"), ("f", 1, "e26", "s26"), ("f", 2, "e27", "s27"), ("f", 3, "e28", "s28"),
    ("f", 4, "e29", "s29"), ("f", 5, "e30", "s30"), ("g", 1, "e31", "s31"), ("g", 2, "e32", "s32"),
    ("g", 3, "e33", "s33"), ("g", 4, "e34", "s34"), ("g", 5, "e35", "s35")]

def seats : List Seat :=
  table.pmap (fun row h => ⟨row.1, row.2.1, row.2.2.1, row.2.2.2, h⟩) (by decide)

/-- A verdict with full marks for faithfulness and the given decision about
forbidden claims. -/
def finding (status sha256 : String) : Output :=
  spelled ["\x7b\"schema_version\":", "\"ai-explanation-", "semantic-evaluation-", "output/v1\",", "\"scores\":\x7b",
    "\"faithfulness\":5,", "\"cross_dimension_", "quality\":4,", "\"suggestion_", "actionability\":4,",
    "\"audience_clarity\":4,", "\"concision\":4\x7d,", "\"rationale\":\"sound\",", "\"decisions\":[\x7b",
    "\"type\":\"no_", "unprovided_fact\",", "\"scope\":\"case\",", "\"ordinal\":1,", "\"status\":\"passed\",",
    "\"detail\":\"none\"\x7d,\x7b", "\"type\":\"forbidden_", "claims_absent\",", "\"scope\":\"default\",",
    "\"ordinal\":1,", "\"status\":\"", status, "\",\"detail\":\"none\"\x7d]\x7d"] sha256

def clean : Output := finding "passed" "78bc4e4de482d80c6b34798a133b7f8b7ff446aafa6def257da7779be007b3dc"

def flawed : Output := finding "failed" "ee0ecab7afba63f089799552cf3c257d4dc2b756e8d5be0fc84467160b7ebb20"

/-- Only the first candidate repeats a forbidden claim. -/
def output (seat : Seat) : Output := if seat.generation = "e01" then flawed else clean

theorem fact_identity : strip "no_unprovided_fact" ≠ "" ∧ strip "v1" ≠ "" ∧ 1 ≤ 1 := by decide

theorem claims_identity : strip "forbidden_claims_absent" ≠ "" ∧ strip "v1" ≠ "" ∧ 1 ≤ 1 := by decide

def receipts (seat : Seat) : List AssertionReceipt :=
  [⟨"no_unprovided_fact", .case, 1, true, "v1", .passed, "none", fact_identity⟩,
    ⟨"forbidden_claims_absent", .default, 1, true, "v1", if seat.generation = "e01" then .failed else .passed, "none",
      claims_identity⟩]

/-! The calls. -/

def call (seat : Seat) : ExecutionKind → CheckpointFields
  | .generation =>
      ⟨seat.generation, .generation, seat.caseId, seat.ordinal, "", 1, "worker", seat.generation, .dispatching, clock 1,
        clock 59, some (clock 1)⟩
  | .semantic =>
      ⟨seat.semantic, .semantic, seat.caseId, seat.ordinal, seat.generation, 1, "worker", seat.semantic, .dispatching,
        clock 1, clock 59, some (clock 1)⟩

theorem call_check (seat : Seat) (kind : ExecutionKind) : (call seat kind).check = .ok () := by
  obtain ⟨hCase, hGeneration, hSemantic, hLow, hHigh⟩ := seat.valid
  have hOwner : validId "worker" = true := by decide
  have hTimes : clock 1 < clock 59 ∧ clock 1 ≤ clock 59 := by decide
  cases kind with
  | generation =>
      simp [CheckpointFields.check, CheckpointFields.checkCandidate, CheckpointFields.checkDispatch, call,
        hCase, hGeneration, hLow, hHigh, hOwner, hTimes]
  | semantic =>
      simp [CheckpointFields.check, CheckpointFields.checkCandidate, CheckpointFields.checkDispatch, call,
        hCase, hGeneration, hSemantic, hLow, hHigh, hOwner, hTimes]

def checkpoint (seat : Seat) (kind : ExecutionKind) : ExecutionCheckpoint := ⟨call seat kind, call_check seat kind⟩

theorem explanation_facts :
    explanation.bounded ∧ explanation.isEmpty = false ∧ explanation.document.isSome = true ∧
    validFingerprint explanation.fingerprint = true := by
  decide

theorem output_facts (seat : Seat) :
    (output seat).bounded ∧ (output seat).isEmpty = false ∧ (output seat).document.isSome = true := by
  have hBoth : ∀ value ∈ [flawed, clean], value.bounded ∧ value.isEmpty = false ∧ value.document.isSome = true := by
    decide +kernel
  apply hBoth
  unfold output
  split <;> simp

theorem generated_check (seat : Seat) :
    (generatedFields (call seat .generation) (clock 1) seat.valid.2.1).check = .ok () := by
  obtain ⟨hCase, hGeneration, _, hLow, hHigh⟩ := seat.valid
  obtain ⟨hBounded, hSome, hDocument, _⟩ := explanation_facts
  have hRead : explanation.document ≠ none := Option.isSome_iff_ne_none.mp hDocument
  simp [GenerationFields.check, GenerationFields.checkNormalized, GenerationFields.checkStatus, generatedFields, call,
    hCase, hGeneration, hLow, hHigh, hBounded, hSome, hRead, receiptMatches, receipt]

theorem judged_check (seat : Seat) :
    (judgedFields (call seat .semantic) (clock 1) (output seat) seat.valid.2.2.1).check = .ok () := by
  obtain ⟨_, hGeneration, hSemantic, _, _⟩ := seat.valid
  obtain ⟨hBounded, hSome, hDocument⟩ := output_facts seat
  have hRead : (output seat).document ≠ none := Option.isSome_iff_ne_none.mp hDocument
  simp [SemanticFields.check, SemanticFields.checkSucceeded, SemanticFields.checkStatus, judgedFields, call,
    hGeneration, hSemantic, hBounded, hSome, hRead, explanation_facts.2.2.2, receiptMatches, receipt]

def generated (seat : Seat) : GenerationCompletion := ⟨_, generated_check seat⟩

def judged (seat : Seat) : SemanticCompletion := ⟨_, judged_check seat⟩

/-! The rows. -/

def candidate (seat : Seat) : Candidate where
  id := seat.generation
  generationExecutionId := seat.generation
  normalizedOutputFingerprint := explanation.fingerprint
  acceptedAt := (clock 1).isoformat
  assertions := receipts seat
  reviewReady := true
  semanticAssertions := some (receipts seat)
  acceptedSemanticExecutionId := some seat.semantic

def generationRow (seat : Seat) : GenerationRow :=
  ⟨seat.generation, seat.generation, seat.caseId, seat.ordinal, 1, some seat.generation, some (candidate seat),
    generated seat⟩

def scores : List (String × Score) :=
  [("faithfulness", ⟨5, .integer⟩), ("cross_dimension_quality", ⟨4, .integer⟩),
    ("suggestion_actionability", ⟨4, .integer⟩), ("audience_clarity", ⟨4, .integer⟩), ("concision", ⟨4, .integer⟩)]

def semanticRow (seat : Seat) : SemanticRow :=
  ⟨seat.semantic, seat.semantic, seat.generation, 1, judged seat, (output seat).fingerprint,
    some ⟨"v1", scores, "sound", receipts seat, (output seat).fingerprint⟩⟩

def creation (encoding : ReviewEncoding) : Creation :=
  { Pilot.creation .serialV1 with
    assets := { Pilot.assets with
      inventory := fun _ => some [⟨"no_unprovided_fact", .case, 1, true⟩, ⟨"forbidden_claims_absent", .default, 1, true⟩]
      encoding } }

/-- The Run after its last judge call. -/
def collected (encoding : ReviewEncoding) : Store where
  creation := creation encoding
  version := 213
  checkpoint := none
  progress :=
    { status := .awaitingReview
      preflight := some preflight
      transitions := (createRun (creation encoding)).progress.transitions ++
        [{ source := some .requested, target := .collecting, actor := "operator", time := clock 0
           cause := .evaluationStarted, reason := some "go" },
          { source := some .collecting, target := .awaitingReview, actor := "worker", time := clock 1
            cause := .candidateEvidenceComplete, evidenceRefs := ["s35"] }] }
  dispatches := seats.flatMap fun seat =>
    [DispatchRow.record (checkpoint seat .generation), DispatchRow.record (checkpoint seat .semantic)]
  generations := seats.map generationRow
  semantics := seats.map semanticRow
  claims := []

/-! The evidence. -/

def reviewFields (seat : Seat) : ReviewFields where
  candidateId := seat.generation
  acceptedAt := clock 1
  normalizedOutput := explanation
  semantic := judged seat
  semanticEvaluator := "v1"
  assertions := receipts seat
  semanticAssertions := receipts seat

theorem review_check (seat : Seat) : (reviewFields seat).check = .ok () := by
  have hEvaluator : strip "v1" ≠ "" := by decide
  simp [ReviewFields.check, reviewFields, judged, judgedFields, call, receipts, hEvaluator, explanation_facts.2.1]

def review (seat : Seat) : ReviewCandidate := ⟨reviewFields seat, review_check seat⟩

def quality (seat : Seat) : QualityCandidate := ⟨seat.caseId, seat.ordinal, seat.generation, review seat⟩

def evidence : GateEvidence where
  candidates := seats.map quality
  generations := seats.map generated
  semantics := seats.map judged
  thresholds := gateThresholds
  closedAt := clock 1
  completionRule := false

/-- The seat of the flawed candidate. -/
def first : Seat := ⟨"a", 1, "e01", "s01", by decide⟩

/-- Replaying the history of the Run gives its closure. -/
theorem closed : (do
    let slots ← projectSlots (collected encoding).creation.slots (collected encoding).generations
      (collected encoding).dispatches (collected encoding).semantics [] [] policy
    ((collected encoding).closedInventory preflight slots (seats.map generated) (seats.map judged)
      3).validateClosedInventory) = .ok (clock 1) := by
  apply toOption_some.mp
  decide +kernel

theorem semanticRows_unique : UniqueOn (·.executionId) (seats.map semanticRow) := by decide

theorem reviewCandidate_eq (encoding : ReviewEncoding) {seat : Seat} (hSeat : seat ∈ seats) :
    (collected encoding).reviewCandidate (generationRow seat) (candidate seat) = .ok (review seat) := by
  have hRow : (some seat.semantic).bind (dict (·.executionId) (collected encoding).semantics) = some (semanticRow seat) :=
    semanticRows_unique.dict_iff.mpr ⟨List.mem_map_of_mem hSeat, rfl⟩
  refine (bind_ok _ _ _).mpr ⟨generated seat, (require_bind_ok _ _ _ _).mpr ⟨⟨rfl, rfl, rfl, rfl, rfl⟩, rfl⟩, ?_⟩
  refine (bind_ok _ _ _).mpr ⟨semanticRow seat, (demand_ok _ _ _).mpr hRow, ?_⟩
  refine (bind_ok _ _ _).mpr ⟨judged seat, (require_bind_ok _ _ _ _).mpr ⟨⟨rfl, rfl, rfl, rfl, rfl⟩, rfl⟩, ?_⟩
  exact (certify_ok _ _ _).mpr ⟨review_check seat, rfl⟩

theorem acceptedRows_eq (encoding : ReviewEncoding) :
    (collected encoding).acceptedRows = seats.map fun seat => (generationRow seat, candidate seat) := by
  simp only [Store.acceptedRows, collected, List.filterMap_map]
  exact congrFun (List.filterMap_eq_map (f := fun seat => (generationRow seat, candidate seat))) seats

theorem qualityCandidates_eq (encoding : ReviewEncoding) :
    (collected encoding).qualityCandidates = .ok (seats.map quality) := by
  rw [Store.qualityCandidates, acceptedRows_eq]
  refine mapM_map fun seat hSeat => ?_
  refine (bind_ok _ _ _).mpr ⟨generated seat, (require_bind_ok _ _ _ _).mpr ⟨⟨rfl, rfl, rfl, rfl, rfl⟩, rfl⟩, ?_⟩
  exact (bind_ok _ _ _).mpr ⟨review seat, reviewCandidate_eq encoding hSeat, rfl⟩

theorem gateContext_eq (encoding : ReviewEncoding) : (collected encoding).gateContext = .ok ⟨evidence, 3⟩ := by
  obtain ⟨slots, hSlots, hClosed⟩ := (bind_ok _ _ _).mp closed
  have hGenerations : (collected encoding).generations.mapM decodeCompletion = .ok (seats.map generated) :=
    mapM_map fun _ _ => (require_bind_ok _ _ _ _).mpr ⟨⟨rfl, rfl, rfl, rfl, rfl⟩, rfl⟩
  have hSemantics : (collected encoding).semantics.mapM decodeSemanticCompletion = .ok (seats.map judged) :=
    mapM_map fun _ _ => (require_bind_ok _ _ _ _).mpr ⟨⟨rfl, rfl, rfl, rfl, rfl⟩, rfl⟩
  have hSorted : (seats.map quality).mergeSort Store.slotOrder = seats.map quality := by
    refine List.mergeSort_of_pairwise ?_
    decide
  have hDispatched : ∀ row ∈ (collected Pilot.encoding).dispatches,
      preflight.evaluatedAt ≤ row.checkpoint.claimedAt ∧ row.checkpoint.claimedAt ≤ clock 1 := by
    decide
  have hBudget : (collected Pilot.encoding).generations.length ≤ policy.generationPerRun ∧
      (collected Pilot.encoding).semantics.length ≤ policy.semanticPerRun ∧
      (collected Pilot.encoding).dispatches.length ≤ policy.generationPerRun + policy.semanticPerRun := by
    decide
  have hStarted : ∀ t ∈ (collected Pilot.encoding).progress.transitions, t.cause = .evaluationStarted →
      validReason (t.reason.getD "") = true := by
    decide
  have hResult : (⟨⟨(seats.map quality).mergeSort Store.slotOrder, seats.map generated, seats.map judged,
      gateThresholds, clock 1, false⟩, 3⟩ : GateContext) = ⟨evidence, 3⟩ := by rw [hSorted, evidence]
  refine (bind_ok _ _ _).mpr ⟨preflight, rfl, (require_bind_ok _ _ _ _).mpr ⟨rfl, ?_⟩⟩
  refine (require_bind_ok _ _ _ _).mpr ⟨hBudget, ?_⟩
  refine (bind_ok _ _ _).mpr ⟨slots, hSlots, ?_⟩
  refine (bind_ok _ _ _).mpr ⟨_, hGenerations, (bind_ok _ _ _).mpr ⟨_, hSemantics, ?_⟩⟩
  refine (require_bind_ok _ _ _ _).mpr ⟨rfl, (require_bind_ok _ _ _ _).mpr ⟨hStarted, ?_⟩⟩
  refine (require_bind_ok _ _ _ _).mpr ⟨rfl, ?_⟩
  refine (bind_ok _ _ _).mpr ⟨clock 1, hClosed, (require_bind_ok _ _ _ _).mpr ⟨hDispatched, ?_⟩⟩
  refine (bind_ok _ _ _).mpr ⟨_, qualityCandidates_eq encoding, ?_⟩
  exact congrArg Except.ok hResult

/-! The signatures. -/

def signature (role : ReviewRole) (reviewer : String) (h : validId reviewer = true) (seat : Seat) :
    CandidateHumanReview where
  candidateId := seat.generation
  role
  reviewer
  decision := .approve
  reviewedAt := clock 2
  reason := "fine"
  valid := ⟨seat.valid.2.1, h, by decide⟩

def ann : List CandidateHumanReview := seats.map (signature .assessmentSemantics "ann" ann_valid)

def bob : List CandidateHumanReview := seats.map (signature .safetyProduct "bob" bob_valid)

/-- The Run with some signatures. -/
def signed (encoding : ReviewEncoding) (version : Nat) (reviews : List CandidateHumanReview) : Store :=
  { collected encoding with version, progress := { (collected encoding).progress with humanReviews := reviews } }

theorem gateContext_signed (encoding : ReviewEncoding) (version : Nat) (reviews : List CandidateHumanReview) :
    (signed encoding version reviews).gateContext = .ok ⟨evidence, 3⟩ :=
  gateContext_eq encoding

theorem reviewable (encoding : ReviewEncoding) (version : Nat) (reviews : List CandidateHumanReview) :
    (signed encoding version reviews).checkReviewable = .ok (clock 1) := by
  obtain ⟨slots, hSlots, hClosed⟩ := (bind_ok _ _ _).mp closed
  simp only [ClosedInventory.validateClosedInventory, ClosedInventory.checkComplete, bind_ok, require_ok,
    exists_const] at hClosed
  obtain ⟨_, _, _, _, _, _, _, _, _, _, _, _, _, _, _, _, _, _, _, _, ⟨action, hAction, hKind⟩, _⟩ := hClosed
  refine (bind_ok _ _ _).mpr ⟨slots, hSlots, (bind_ok _ _ _).mpr ⟨preflight, rfl, ?_⟩⟩
  exact (bind_ok _ _ _).mpr ⟨action, hAction, (require_bind_ok _ _ _ _).mpr ⟨hKind, rfl⟩⟩

/-- The batches of the review are accepted, one after the other or as one. -/
theorem batches_accepted : ∀ batch ∈ [([], ann), (ann, bob), ([], ann ++ bob)],
    (addHumanReviews .awaitingReview (clock 1) (seats.map review) batch.1 batch.2 "v2").toOption.isSome = true := by
  decide +kernel

theorem added {prior values : List CandidateHumanReview} (h : (prior, values) ∈ [([], ann), (ann, bob), ([], ann ++ bob)]) :
    addHumanReviews .awaitingReview (clock 1) (seats.map review) prior values "v2" = .ok (prior ++ values) := by
  obtain ⟨result, hResult⟩ := Option.isSome_iff_exists.mp (batches_accepted _ h)
  have hAdded := toOption_some.mp hResult
  rw [hAdded, Store.addHumanReviews_ok hAdded]

theorem added_ann : addHumanReviews .awaitingReview (clock 1) (seats.map review) [] ann "v2" = .ok ann :=
  added List.mem_cons_self

theorem added_bob : addHumanReviews .awaitingReview (clock 1) (seats.map review) ann bob "v2" = .ok (ann ++ bob) :=
  added (List.mem_cons_of_mem _ List.mem_cons_self)

theorem added_both : addHumanReviews .awaitingReview (clock 1) (seats.map review) [] (ann ++ bob) "v2" =
    .ok (ann ++ bob) :=
  added (List.mem_cons_of_mem _ (List.mem_cons_of_mem _ List.mem_cons_self))

theorem unopened : ∀ t ∈ (collected Pilot.encoding).progress.transitions, t.cause ≠ .semanticReviewReopened := by
  decide

/-- A batch that is accepted before any round was ended. -/
theorem accepts (encoding : ReviewEncoding) {version : Nat} {actor : String}
    {prior values : List CandidateHumanReview} (hVersion : 1 ≤ version)
    (hBatch : (1 ≤ values.length ∧ values.length ≤ 35) ∧ (∀ v ∈ values, v.reviewer = actor) ∧
      (values.map (·.role)).dedup.length = 1)
    (hAdded : addHumanReviews .awaitingReview (clock 1) (seats.map review) prior values "v2" = .ok (prior ++ values)) :
    (signed encoding version prior).perform (.acceptReviews version actor values) =
      .ok (signed encoding (version + 1) (prior ++ values)) := by
  have hCandidates : (signed encoding version prior).acceptedRows.mapM
      (fun entry => (signed encoding version prior).reviewCandidate entry.1 entry.2) = .ok (seats.map review) := by
    rw [show (signed encoding version prior).acceptedRows = _ from acceptedRows_eq encoding]
    exact mapM_map fun seat hSeat => reviewCandidate_eq encoding hSeat
  refine (require_bind_ok _ _ _ _).mpr ⟨⟨hVersion, hBatch⟩, (require_bind_ok _ _ _ _).mpr ⟨⟨rfl, rfl⟩, ?_⟩⟩
  refine (require_bind_ok _ _ _ _).mpr ⟨rfl, ?_⟩
  have hNone : ¬ ((signed encoding version prior).progress.hasReviewRounds ∨
      (signed encoding version prior).progress.reviewCorrections ≠ []) := by
    rintro ((hRounds | ⟨t, ht, hCause⟩) | hCorrections)
    · exact hRounds rfl
    · exact unopened t ht hCause
    · exact hCorrections rfl
  rw [if_neg hNone]
  have hUnopened : ¬ (signed encoding version prior).progress.hasReviewRounds := fun hRounds => hNone (.inl hRounds)
  refine (bind_ok _ _ _).mpr ⟨(), if_neg hUnopened, (bind_ok _ _ _).mpr ⟨clock 1, reviewable encoding version prior, ?_⟩⟩
  refine (bind_ok _ _ _).mpr ⟨_, hCandidates, (bind_ok _ _ _).mpr ⟨_, hAdded, ?_⟩⟩
  exact (bind_ok _ _ _).mpr ⟨_, (require_bind_ok _ _ _ _).mpr ⟨rfl, rfl⟩, rfl⟩

/-! The decision. -/

theorem executions_accepted : evidence.checkExecutions = .ok () := by
  have hGenerations : UniqueOn (·.executionId) (seats.map generated) := by decide
  have hSemantics : UniqueOn (·.executionId) (seats.map judged) := by decide
  refine (require_bind_ok _ _ _ _).mpr ⟨⟨hGenerations, hSemantics⟩, (require_ok _ _ _).mpr ?_⟩
  intro item hItem
  obtain ⟨seat, hSeat, rfl⟩ := List.mem_map.mp hItem
  refine ⟨⟨generated seat, ?_, rfl, rfl, rfl, rfl⟩, ?_, le_rfl⟩
  · exact hGenerations.lookup_iff.mpr ⟨List.mem_map_of_mem hSeat, rfl⟩
  · exact hSemantics.lookup_iff.mpr ⟨List.mem_map_of_mem hSeat, rfl⟩

/-- What the candidates add up to: one failed assertion and nothing else. -/
def Flawed (tally : GateEvidence.Tally) : Prop :=
  tally.reasons = [⟨.g4, .candidateHardAssertionFailed, ["e01"]⟩] ∧
    (∀ id ∈ evidence.caseIds, evidence.thresholds.minCasePasses ≤ tally.passes.count id) ∧
    evidence.thresholds.minOverallPasses ≤ tally.passes.length ∧
    ¬ ∃ pair ∈ tally.totals.zip evidence.thresholds.minimumAverages,
      divide pair.1.toNat evidence.candidates.length < pair.2.value

instance (tally : GateEvidence.Tally) : Decidable (Flawed tally) := inferInstanceAs (Decidable (_ ∧ _))

/-- The gates reject for the one forbidden claim. -/
theorem reopenable_of_flawed {tally : GateEvidence.Tally} (h : Flawed tally) :
    reopenableGate (evidence.gateResult (ann ++ bob) (clock 3) tally) .rejected "v2" 0 ∧
    (evidence.gateResult (ann ++ bob) (clock 3) tally).reasons.length ≤ 4 := by
  obtain ⟨hReasons, hCases, hOverall, hAverages⟩ := h
  have hCount : (ann ++ bob).length = evidence.thresholds.reviewCount := by decide
  have hRates : evidence.rateReasons = [] := by decide +kernel
  have hStable : (evidence.caseIds.mergeSort (· ≤ ·)).filter
      (fun id => tally.passes.count id < evidence.thresholds.minCasePasses) = [] := by
    rw [List.filter_eq_nil_iff]
    intro id hId
    have hPasses := hCases id (List.mem_mergeSort.mp hId)
    simpa using hPasses
  have hNone : evidence.overallReasons (ann ++ bob) tally = [] := by
    rw [GateEvidence.overallReasons]
    rw [hStable, if_neg (not_lt.mpr hOverall), if_neg hAverages, if_neg (not_not.mpr hCount)]
    rfl
  have hAll : (evidence.gateResult (ann ++ bob) (clock 3) tally).reasons =
      [⟨.g4, .candidateHardAssertionFailed, ["e01"]⟩] := by
    rw [GateEvidence.gateResult]
    simp only
    rw [hRates, hReasons, hNone]
    rfl
  have hPasses : (evidence.gateResult (ann ++ bob) (clock 3) tally).gatePasses =
      [(.g3, true), (.g4, false), (.g5, true)] := by
    rw [GateEvidence.gateResult]
    simp only
    rw [hRates, hReasons, hNone]
    rfl
  rw [reopenableGate, hPasses, hAll]
  decide

theorem rejected : ∃ gates, evidence.evaluateQualityGates (ann ++ bob) (clock 3) = .ok gates ∧
    reopenableGate gates .rejected "v2" 0 ∧ gates.reasons.length ≤ 4 := by
  have hTally : (evidence.tallyCandidates (ann ++ bob) {} evidence.candidates).toOption.any
      (fun tally => decide (Flawed tally)) = true := by
    decide +kernel
  obtain ⟨tally, hSome, hFlawed⟩ := (Option.any_eq_true _ _).mp hTally
  have hTimes : evidence.closedAt ≤ clock 3 ∧ ∀ r ∈ ann ++ bob, r.reviewedAt ≤ clock 3 := by decide
  have hInventory : evidence.checkInventory = .ok () := (require_ok _ _ _).mpr (by decide)
  have hReviews : ann ++ bob ≠ [] := by decide
  refine ⟨evidence.gateResult (ann ++ bob) (clock 3) tally, ?_, reopenable_of_flawed (of_decide_eq_true hFlawed)⟩
  refine (require_bind_ok _ _ _ _).mpr ⟨hTimes, (bind_ok _ _ _).mpr ⟨(), hInventory, ?_⟩⟩
  refine (bind_ok _ _ _).mpr ⟨(), executions_accepted, ?_⟩
  rw [if_pos hReviews]
  exact (bind_ok _ _ _).mpr ⟨_, added_both, (bind_ok _ _ _).mpr ⟨tally, toOption_some.mp hSome, rfl⟩⟩

/-- The first candidate can be reopened. -/
theorem failed_ids : failedCandidateIds (ann ++ bob) (clock 1) "v2" (seats.map review) = .ok (some ["e01"]) := by
  apply toOption_some.mp
  decide

theorem final_valid : validId "operator" = true ∧ reviewText "forbidden claim" 1000 = true ∧
    reviewText "look again" 1000 = true := by
  decide

section Decision

variable {encoding : ReviewEncoding} {gates : QualityGateResult}

theorem loaded (hSize : encoding.historySize [] ≤ 2 * 1024 * 1024)
    (hGates : evidence.evaluateQualityGates (ann ++ bob) (clock 3) = .ok gates) :
    (signed encoding 215 (ann ++ bob)).loadSnapshot 215 (clock 3) =
      .ok ⟨gates, seats.map review, ann ++ bob, clock 1⟩ := by
  have hReviews : ann ++ bob ≠ [] := by decide
  have hTargets : evidence.targets = seats.map review := List.map_map
  have hCorrected : validateCorrections (ann ++ bob) [] evidence.targets evidence.closedAt 215 (clock 3) "v2" =
      .ok (ann ++ bob) := by
    rw [validateCorrections, if_pos hReviews, hTargets]
    exact (bind_ok _ _ _).mpr ⟨_, added_both, rfl⟩
  have hRounds : (signed encoding 215 (ann ++ bob)).validateRounds ⟨evidence, 3⟩ (clock 3) = .ok () := by
    refine Store.validateRounds_ok.mpr ⟨Nat.zero_le _, hSize, rfl, ?_, ?_, [], rfl, rfl⟩
    · exact fun c hc => absurd hc List.not_mem_nil
    · exact fun last hLast => absurd hLast (by simp [signed, collected])
  refine (require_bind_ok _ _ _ _).mpr ⟨rfl, (require_bind_ok _ _ _ _).mpr ⟨rfl, ?_⟩⟩
  refine (require_bind_ok _ _ _ _).mpr ⟨rfl, (require_bind_ok _ _ _ _).mpr ⟨⟨rfl, rfl, rfl, rfl⟩, ?_⟩⟩
  refine (bind_ok _ _ _).mpr ⟨_, gateContext_signed encoding 215 (ann ++ bob), ?_⟩
  refine (bind_ok _ _ _).mpr ⟨[], rfl, (bind_ok _ _ _).mpr ⟨_, hCorrected, ?_⟩⟩
  refine (bind_ok _ _ _).mpr ⟨(), hRounds, (bind_ok _ _ _).mpr ⟨gates, hGates, ?_⟩⟩
  rw [hTargets]
  rfl

/-- The rejection that the operator confirms. -/
def record (gates : QualityGateResult) : FinalRecord :=
  ⟨215, 216, "release", "operator", "forbidden claim", clock 3, false, .rejected, gates⟩

theorem recorded (hSize : encoding.recordSize (record gates) ≤ 256 * 1024) (hAt : gates.evaluatedAt = clock 3)
    (hGate : reopenableGate gates .rejected "v2" 0) :
    encoding.finalRecord 215 "release" gates "operator" "forbidden claim" = .ok (record gates) := by
  obtain ⟨_, _, _, hPasses, _, hReasons⟩ := hGate
  have hAll : gates.gatePasses.all (·.2) = false := by rw [hPasses]; rfl
  have hComplete : gates.gatePasses.length = 3 ∧ (∀ gate ∈ [Gate.g3, .g4, .g5], gate ∈ gates.gatePasses.map (·.1)) ∧
      ∀ r ∈ gates.reasons, r.code ≠ .humanReviewIncomplete ∧ r.code ≠ .humanReviewCountIncomplete := by
    refine ⟨by rw [hPasses]; rfl, by rw [hPasses]; decide, fun r hr => ?_⟩
    rw [(hReasons r hr).2]
    decide
  have hDecision : finalizeReview gates "operator" "forbidden claim" =
      .ok ⟨"operator", "forbidden claim", clock 3, false, final_valid.1, final_valid.2.1⟩ := by
    refine (require_bind_ok _ _ _ _).mpr ⟨hComplete, ?_⟩
    rw [hAt, hAll, FinalReview.make, dif_pos ⟨final_valid.1, final_valid.2.1⟩]
    rfl
  exact (bind_ok _ _ _).mpr ⟨_, hDecision, (require_bind_ok _ _ _ _).mpr ⟨hSize, rfl⟩⟩

/-- The decided Run. -/
def decided (encoding : ReviewEncoding) (gates : QualityGateResult) : Store :=
  { signed encoding 216 (ann ++ bob) with
    progress := { (signed encoding 216 (ann ++ bob)).progress with
      status := .rejected
      finalizedAt := some (clock 3)
      gateResult := some (encoding.stored (record gates))
      transitions := (collected encoding).progress.transitions ++ [finalTransition (record gates)] } }

theorem finalizes (hSize : encoding.historySize [] ≤ 2 * 1024 * 1024)
    (hRecord : encoding.recordSize (record gates) ≤ 256 * 1024)
    (hGates : evidence.evaluateQualityGates (ann ++ bob) (clock 3) = .ok gates)
    (hGate : reopenableGate gates .rejected "v2" 0) :
    (signed encoding 215 (ann ++ bob)).finalize 215 "operator" false "forbidden claim" (clock 3) true =
      .ok (decided encoding gates) := by
  have hAt := Store.evaluatedAt_of_quality hGates
  refine (require_bind_ok _ _ _ _).mpr ⟨⟨rfl, by decide⟩, (require_bind_ok _ _ _ _).mpr ⟨⟨rfl, rfl⟩, ?_⟩⟩
  refine (bind_ok _ _ _).mpr ⟨_, loaded hSize hGates, (bind_ok _ _ _).mpr ⟨_, recorded hRecord hAt hGate, ?_⟩⟩
  refine (require_bind_ok _ _ _ _).mpr ⟨rfl, ?_⟩
  exact (bind_ok _ _ _).mpr ⟨_, (require_bind_ok _ _ _ _).mpr ⟨rfl, rfl⟩, rfl⟩

theorem eligible (hGates : evidence.evaluateQualityGates (ann ++ bob) (clock 3) = .ok gates)
    (hGate : reopenableGate gates .rejected "v2" 0) :
    eligibleCandidateIds (seats.map review) (ann ++ bob) gates (clock 1) .rejected "v2" 0 = .ok ["e01"] := by
  have hComplete : (ann ++ bob).length = (seats.map review).length * 2 ∧
      ∀ r ∈ ann ++ bob, r.reviewedAt ≤ gates.evaluatedAt := by
    rw [Store.evaluatedAt_of_quality hGates]
    decide
  rw [eligibleCandidateIds, if_pos hGate]
  refine (bind_ok _ _ _).mpr ⟨_, added_both, (require_bind_ok _ _ _ _).mpr ⟨hComplete, ?_⟩⟩
  exact (bind_ok _ _ _).mpr ⟨_, failed_ids, rfl⟩

theorem reopens (hSize : ∀ history : List RoundEntry, history.length ≤ 1 → encoding.historySize history ≤ 2 * 1024 * 1024)
    (hRecord : encoding.recordSize (record gates) ≤ 256 * 1024)
    (hGates : evidence.evaluateQualityGates (ann ++ bob) (clock 3) = .ok gates)
    (hGate : reopenableGate gates .rejected "v2" 0) :
    ∃ next, (decided encoding gates).reopen 216 "operator" "look again" (clock 4) true = .ok next := by
  have hFinalize := finalizes (hSize [] (Nat.zero_le _)) hRecord hGates hGate
  obtain ⟨snapshot, _, hFinalizes⟩ := Store.finalize_ok hFinalize
  have hSnapshot := Except.ok.inj ((loaded (hSize [] (Nat.zero_le _)) hGates).symm.trans hFinalizes.loaded)
  have hVerified := hFinalizes.verified
  rw [← hSnapshot] at hVerified
  have hAt := Store.evaluatedAt_of_quality hGates
  have hAudit : FinalReview.make "operator" "look again" (clock 4) false =
      .ok ⟨"operator", "look again", clock 4, false, final_valid.1, final_valid.2.2⟩ := by
    rw [FinalReview.make, dif_pos ⟨final_valid.1, final_valid.2.2⟩]
    rfl
  have hEligible := eligible hGates hGate
  have hLater : gates.evaluatedAt ≤ clock 4 := by
    rw [hAt]
    decide
  have hReviews : ann ++ bob ≠ [] := by decide
  have hIds : ∀ id ∈ ["e01"], id ∈ (ann ++ bob).map (·.candidateId) := by decide
  have hPlan : reopenReview (seats.map review) (ann ++ bob) gates (clock 1) "operator" "look again" (clock 4)
      .rejected "v2" 0 = .ok ⟨ann ++ bob, gates, ["e01"], "operator", "look again", clock 4⟩ := by
    refine (bind_ok _ _ _).mpr ⟨_, hEligible, (bind_ok _ _ _).mpr ⟨_, hAudit, ?_⟩⟩
    refine (require_bind_ok _ _ _ _).mpr ⟨⟨by decide, hLater⟩, (bind_ok _ _ _).mpr ⟨(), ?_, rfl⟩⟩
    refine (bind_ok _ _ _).mpr ⟨_, hAudit, (require_ok _ _ _).mpr ?_⟩
    exact ⟨hReviews, List.cons_ne_nil _ _, List.nodup_singleton _, hIds, hLater⟩
  have hProgress : ∃ progress, (decided encoding gates).reopenedProgress "operator" "look again" (clock 4)
      ⟨gates, seats.map review, ann ++ bob, clock 1⟩ = .ok progress :=
    bind_total ((require_ok _ _ ()).mpr rfl) (bind_total hPlan (bind_total rfl
      (bind_total ((require_ok _ _ ()).mpr (hSize _ (le_of_eq rfl))) ⟨_, rfl⟩)))
  obtain ⟨progress, hProgress⟩ := hProgress
  refine ⟨{ decided encoding gates with version := 217, progress }, ?_⟩
  refine (require_bind_ok _ _ _ _).mpr ⟨⟨rfl, by decide⟩, (require_bind_ok _ _ _ _).mpr ⟨⟨rfl, rfl⟩, ?_⟩⟩
  refine (require_bind_ok _ _ _ _).mpr ⟨rfl, (bind_ok _ _ _).mpr ⟨_, hVerified, (bind_ok _ _ _).mpr ⟨_, hProgress, ?_⟩⟩⟩
  exact (bind_ok _ _ _).mpr ⟨_, (require_bind_ok _ _ _ _).mpr ⟨rfl, rfl⟩, rfl⟩

end Decision

/-! The whole review. -/

/-- The encoding of the pilot with another treatment of doubles. -/
def storing (storedDouble : ℚ → ℚ) (h : ∀ value, storedDouble (storedDouble value) = storedDouble value) :
    ReviewEncoding :=
  { Pilot.encoding with storedDouble, stable := h }

/-- Storage that reads 0.95 back as the double above it. -/
def nudged (value : ℚ) : ℚ := if value = 4278419646001971 / 2 ^ 52 then 4278419646001972 / 2 ^ 52 else value

theorem nudged_stable (value : ℚ) : nudged (nudged value) = nudged value := by
  have hOther : ¬ ((4278419646001972 : ℚ) / 2 ^ 52 = 4278419646001971 / 2 ^ 52) := by norm_num
  by_cases h : value = 4278419646001971 / 2 ^ 52
  · rw [nudged, nudged, if_pos h, if_neg hOther]
  · rw [nudged, nudged, if_neg h, if_neg h]

theorem signed_run {allowed : Store → Operation → Prop} (encoding : ReviewEncoding)
    (hAllowed : ∀ store version actor values, allowed store (.acceptReviews version actor values)) :
    Store.ReviewRun allowed (collected encoding) (signed encoding 215 (ann ++ bob)) := by
  have hAnn : (1 ≤ ann.length ∧ ann.length ≤ 35) ∧ (∀ v ∈ ann, v.reviewer = "ann") ∧
      (ann.map (·.role)).dedup.length = 1 := by
    decide
  have hBob : (1 ≤ bob.length ∧ bob.length ≤ 35) ∧ (∀ v ∈ bob, v.reviewer = "bob") ∧
      (bob.map (·.role)).dedup.length = 1 := by
    decide
  have hFirst : (signed encoding 213 []).perform (.acceptReviews 213 "ann" ann) = .ok (signed encoding 214 ann) :=
    accepts encoding (by decide) hAnn added_ann
  have hSecond : (signed encoding 214 ann).perform (.acceptReviews 214 "bob" bob) =
      .ok (signed encoding 215 (ann ++ bob)) :=
    accepts encoding (by decide) hBob added_bob
  have hStart : Store.ReviewRun allowed (collected encoding) (signed encoding 213 []) := .start
  have hMiddle : Store.ReviewRun allowed (collected encoding) (signed encoding 214 ann) :=
    .step hStart (by trivial) (hAllowed _ _ _ _) hFirst
  exact .step hMiddle (by trivial) (hAllowed _ _ _ _) hSecond

theorem collected_base (encoding : ReviewEncoding) : (collected encoding).Collected :=
  ⟨rfl, ⟨rfl, rfl⟩, rfl, rfl, rfl⟩

/-- The review ends in a rejection that is reopened, whatever becomes of the
doubles. -/
theorem round (storedDouble : ℚ → ℚ) (h : ∀ value, storedDouble (storedDouble value) = storedDouble value) :
    ∃ decided next, (signed (storing storedDouble h) 215 (ann ++ bob)).finalize 215 "operator" false "forbidden claim"
        (clock 3) true = .ok decided ∧
      decided.reopen 216 "operator" "look again" (clock 4) true = .ok next := by
  obtain ⟨gates, hGates, hGate, hFew⟩ := rejected
  have hSize : ∀ history : List RoundEntry, history.length ≤ 1 →
      (storing storedDouble h).historySize history ≤ 2 * 1024 * 1024 := by
    intro history hLength
    change 4096 * history.length ≤ _
    omega
  have hRecord : (storing storedDouble h).recordSize (record gates) ≤ 256 * 1024 := by
    change 1024 + 256 * gates.reasons.length ≤ _
    omega
  obtain ⟨next, hNext⟩ := reopens hSize hRecord hGates hGate
  exact ⟨_, next, finalizes (hSize [] (Nat.zero_le _)) hRecord hGates hGate, hNext⟩

theorem retains (encoding : ReviewEncoding) : (signed encoding 215 (ann ++ bob)).RetainsReviews :=
  fun _ hLast => absurd hLast (by simp [signed, collected])

theorem metrics_moved : ∃ metric ∈ evidence.metrics, (storing nudged nudged_stable).storedMetric metric ≠ metric := by
  decide +kernel

/-- Doubles that are kept are kept in every metric. -/
theorem stores_exactly : (signed (storing id fun _ => rfl) 215 (ann ++ bob)).StoresExactly := by
  rintro context - ⟨name, numerator, denominator, value, threshold⟩ -
  cases value <;> cases threshold <;> rename_i threshold <;> cases threshold <;> rfl

/-- Storage that moves one threshold: the decision is found again, the round that
it ended is not. -/
theorem nudged_refused {decided next : Store}
    (hFinalize : (signed (storing nudged nudged_stable) 215 (ann ++ bob)).finalize 215 "operator" false
      "forbidden claim" (clock 3) true = .ok decided)
    (hReopen : decided.reopen 216 "operator" "look again" (clock 4) true = .ok next) :
    (∃ snapshot, decided.verifiedFinalSnapshot = .ok snapshot) ∧
    ¬ ∃ context, next.gateContext = .ok context ∧ next.validateRounds context (clock 4) = .ok () := by
  obtain ⟨snapshot, record, hFinalizes⟩ := Store.finalize_ok hFinalize
  obtain ⟨again, hReopens⟩ := Store.reopen_ok hReopen
  obtain rfl : snapshot = again := Except.ok.inj (hFinalizes.verified.symm.trans hReopens.verified)
  have hRounds : Store.Rounds _ decided next (clock 3) (clock 4) snapshot record := ⟨hFinalizes, hReopens⟩
  have hContext := gateContext_signed (storing nudged nudged_stable) 215 (ann ++ bob)
  refine ⟨⟨snapshot, hFinalizes.verified⟩, ?_⟩
  rintro ⟨context, hNext, hAccepted⟩
  obtain rfl : ⟨evidence, 3⟩ = context := Except.ok.inj ((hRounds.gateContext hContext).symm.trans hNext)
  have hExact := hFinalizes.storesExactly_iff.mp ((hRounds.accepted_iff hContext le_rfl).mp hAccepted).1
  obtain ⟨metric, hMetric, hMoved⟩ := metrics_moved
  exact hMoved (hExact _ hContext metric hMetric)

/-- The review up to its second round as a run of allowed operations. -/
theorem round_run {allowed : Store → Operation → Prop} {encoding : ReviewEncoding} {decided next : Store}
    (hSigns : ∀ store version actor values, allowed store (.acceptReviews version actor values))
    (hFinalizes : allowed (signed encoding 215 (ann ++ bob))
      (.finalize 215 "operator" false "forbidden claim" (clock 3) true))
    (hReopens : allowed decided (.reopen 216 "operator" "look again" (clock 4) true))
    (hFinalize : (signed encoding 215 (ann ++ bob)).finalize 215 "operator" false "forbidden claim" (clock 3) true =
      .ok decided)
    (hReopen : decided.reopen 216 "operator" "look again" (clock 4) true = .ok next) :
    Store.ReviewRun allowed (collected encoding) next := by
  have hDecided : Store.ReviewRun allowed (collected encoding) decided :=
    .step (signed_run encoding hSigns) (by trivial) hFinalizes hFinalize
  exact .step hDecided (by trivial) hReopens hReopen

/-- The reopened Run awaits its second round from the reopening on. -/
theorem reopened_facts {encoding : ReviewEncoding} {decided next : Store}
    (hFinalize : (signed encoding 215 (ann ++ bob)).finalize 215 "operator" false "forbidden claim" (clock 3) true =
      .ok decided)
    (hReopen : decided.reopen 216 "operator" "look again" (clock 4) true = .ok next) :
    next.progress.status = .awaitingReview ∧ next.progress.reviewReopenings ≠ [] ∧
    ∀ last ∈ next.progress.reviewReopenings.getLast?, last.reopenedAt ≤ clock 4 := by
  obtain ⟨snapshot, record, hFinalizes⟩ := Store.finalize_ok hFinalize
  obtain ⟨again, hReopens⟩ := Store.reopen_ok hReopen
  obtain rfl : snapshot = again := Except.ok.inj (hFinalizes.verified.symm.trans hReopens.verified)
  obtain ⟨plan, entry, hOpened⟩ := Store.Rounds.opened ⟨hFinalizes, hReopens⟩
  have hReopenings : next.progress.reviewReopenings =
      (signed encoding 215 (ann ++ bob)).progress.reviewReopenings ++ [entry] := by rw [hOpened.next]
  refine ⟨by rw [hOpened.next], by rw [hReopenings]; exact List.append_ne_nil_of_right_ne_nil _ (List.cons_ne_nil _ _), ?_⟩
  rw [hReopenings, List.getLast?_concat]
  rintro last ⟨⟩
  rw [hOpened.stored]
  exact le_of_eq hOpened.own.2.2

end Panel

/-- The pilot review with storage that keeps doubles. -/
theorem finalization_survives_panel : ∃ (store decided next : Store) (context : GateContext),
    store.finalize 215 "operator" false "forbidden claim" (Pilot.clock 3) true = .ok decided ∧
    decided.reopen 216 "operator" "look again" (Pilot.clock 4) true = .ok next ∧
    (∃ snapshot, decided.verifiedFinalSnapshot = .ok snapshot) ∧
    next.gateContext = .ok context ∧ next.validateRounds context (Pilot.clock 4) = .ok () := by
  obtain ⟨decided, next, hFinalize, hReopen⟩ := Panel.round id fun _ => rfl
  obtain ⟨hVerified, hIff⟩ := finalization_survives hFinalize
  obtain ⟨context, hContext, hRounds⟩ :=
    (hIff _ _ _ _ _ _ hReopen _ le_rfl).mpr ⟨Panel.stores_exactly, Panel.retains _⟩
  exact ⟨_, decided, next, context, hFinalize, hReopen, hVerified, hContext, hRounds⟩

/-- With storage that reads 0.95 back as its neighbour the reopened round of the
pilot is refused. -/
theorem stored_round_refused : ∃ (store decided next : Store),
    store.finalize 215 "operator" false "forbidden claim" (Pilot.clock 3) true = .ok decided ∧
    (∃ snapshot, decided.verifiedFinalSnapshot = .ok snapshot) ∧
    decided.reopen 216 "operator" "look again" (Pilot.clock 4) true = .ok next ∧
    ¬ ∃ context, next.gateContext = .ok context ∧ next.validateRounds context (Pilot.clock 4) = .ok () := by
  obtain ⟨decided, next, hFinalize, hReopen⟩ := Panel.round Panel.nudged Panel.nudged_stable
  obtain ⟨hVerified, hRefused⟩ := Panel.nudged_refused hFinalize hReopen
  exact ⟨_, decided, next, hFinalize, hVerified, hReopen, hRefused⟩

/-- The pilot review from the closed collection to its second round. -/
theorem reopened_rounds_accepted_panel : ∃ (base store : Store) (context : GateContext), base.Collected ∧
    Store.ReviewRun (fun store op => op.Reopens → store.StoresExactly ∧ store.RetainsReviews) base store ∧
    store.progress.status = .awaitingReview ∧ store.progress.reviewReopenings ≠ [] ∧
    store.gateContext = .ok context ∧ store.validateRounds context (Pilot.clock 4) = .ok () := by
  obtain ⟨decided, next, hFinalize, hReopen⟩ := Panel.round id fun _ => rfl
  obtain ⟨hAwaits, hRounds, hTime⟩ := Panel.reopened_facts hFinalize hReopen
  obtain ⟨snapshot, record, hFinalizes⟩ := Store.finalize_ok hFinalize
  have hContext := Panel.gateContext_signed (Panel.storing id fun _ => rfl) 215 (Panel.ann ++ Panel.bob)
  have hDecided : decided.StoresExactly ∧ decided.RetainsReviews := by
    rw [hFinalizes.next]
    refine ⟨?_, fun _ hLast => absurd hLast (by simp [Panel.signed, Panel.collected])⟩
    rintro context - ⟨name, numerator, denominator, value, threshold⟩ -
    cases value <;> cases threshold <;> rename_i threshold <;> cases threshold <;> rfl
  have hRun : Store.ReviewRun (fun store op => op.Reopens → store.StoresExactly ∧ store.RetainsReviews)
      (Panel.collected _) next :=
    Panel.round_run (fun _ _ _ _ hReopens => absurd hReopens id) (fun hReopens => absurd hReopens id)
      (fun _ => hDecided) hFinalize hReopen
  obtain ⟨context, hNext, hAccepted⟩ := reopened_rounds_accepted (Panel.collected_base _) hRun hAwaits hRounds hTime
  exact ⟨_, next, context, Panel.collected_base _, hRun, hAwaits, hRounds, hNext, hAccepted⟩

/-- The same review with storage that moves a threshold: its second round is
refused. -/
theorem stored_history_refused : ∃ base store : Store, base.Collected ∧
    Store.ReviewRun (fun _ _ => True) base store ∧
    store.progress.status = .awaitingReview ∧ store.progress.reviewReopenings ≠ [] ∧
    (∀ last ∈ store.progress.reviewReopenings.getLast?, last.reopenedAt ≤ Pilot.clock 4) ∧
    ¬ ∃ context, store.gateContext = .ok context ∧ store.validateRounds context (Pilot.clock 4) = .ok () := by
  obtain ⟨decided, next, hFinalize, hReopen⟩ := Panel.round Panel.nudged Panel.nudged_stable
  obtain ⟨hAwaits, hRounds, hTime⟩ := Panel.reopened_facts hFinalize hReopen
  have hRun : Store.ReviewRun (fun _ _ => True) (Panel.collected _) next :=
    Panel.round_run (fun _ _ _ _ => trivial) trivial trivial hFinalize hReopen
  obtain ⟨_, hRefused⟩ := Panel.nudged_refused hFinalize hReopen
  exact ⟨_, next, Panel.collected_base _, hRun, hAwaits, hRounds, hTime, hRefused⟩

end QsAi
