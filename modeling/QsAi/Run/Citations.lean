import QsAi.Evaluation.Signatures
import QsAi.Run.CorrectionReplay

/-! Contests of accepted judgements. A reviewer cites a decision as it is stored,
the check of the contest looks for it as the judge wrote it; stored decisions
were stripped, and some were bound to the scope of their obligation. -/
namespace QsAi

open Guarded Keyed PyJson

/-- Each stored decision is what became of one answer of the judge. -/
theorem parseDecisions_paired {contract : JudgeContract} {provider : String} {obligations : List AssertionReceipt}
    {seen : List AssertionKey} {raws : List RawDecision} {decisions : List AssertionReceipt}
    (h : parseDecisions contract provider obligations seen raws = .ok decisions) {decision : AssertionReceipt}
    (hDecision : decision ∈ decisions) :
    (∃ raw ∈ raws, bindKey provider (obligations.map (·.key)) raw.key = decision.key ∧ decision.status = raw.status) ∧
    ∃ obligation ∈ obligations, decision.key = obligation.key ∧ decision.hard = obligation.hard ∧
      decision.evaluator = contract.promptVersion := by
  induction raws generalizing seen decisions with
  | nil =>
      rw [parseDecisions, pure_ok] at h
      subst h
      exact absurd hDecision List.not_mem_nil
  | cons raw rest ih =>
      simp only [parseDecisions, bind_ok, demand_ok, require_ok, exists_const, pure_ok] at h
      obtain ⟨obligation, hFind, _, detail, _, _, _, tail, hTail, rfl⟩ := h
      obtain ⟨hMem, hKey⟩ := lookup_some hFind
      rcases List.mem_cons.mp hDecision with rfl | hDecision
      · exact ⟨⟨raw, List.mem_cons_self, hKey.symm, rfl⟩, obligation, hMem, rfl, rfl, rfl⟩
      · obtain ⟨⟨source, hSource, hBound, hStatus⟩, hObligation⟩ := ih hTail hDecision
        exact ⟨⟨source, List.mem_cons_of_mem _ hSource, hBound, hStatus⟩, hObligation⟩

/-- The names of the answers are different after binding. -/
theorem parseDecisions_bound {contract : JudgeContract} {provider : String} {obligations : List AssertionReceipt}
    {raws : List RawDecision} {decisions : List AssertionReceipt}
    (h : parseDecisions contract provider obligations [] raws = .ok decisions) :
    UniqueOn (fun raw : RawDecision => bindKey provider (obligations.map (·.key)) raw.key) raws := by
  obtain ⟨hKeys, hUnique, _⟩ := parseDecisions_ok h
  unfold UniqueOn at hUnique ⊢
  rw [← hKeys]
  exact hUnique

/-- An answer that names an obligation is bound to it. -/
theorem bindKey_of_wanted {provider : String} {wanted : List AssertionKey} {key : AssertionKey} (h : key ∈ wanted) :
    bindKey provider wanted key = key := by
  rw [bindKey, if_neg fun hBoth => hBoth.2 h]

/-- Resolved receipts are pending ones with their decision, or unchanged. -/
theorem resolveAssertions_mem {decisions assertions resolved : List AssertionReceipt}
    (h : resolveAssertions decisions assertions = .ok resolved) :
    resolved.map (·.key) = assertions.map (·.key) ∧
    ∀ receipt ∈ resolved, receipt ∈ decisions ∨ receipt ∈ assertions := by
  unfold resolveAssertions at h
  rw [mapM_ok] at h
  induction h with
  | nil => simp
  | cons hFirst _ ih =>
      obtain ⟨hKeys, hMem⟩ := ih
      split at hFirst
      · obtain ⟨hDecision, hKey⟩ := dict_some ((demand_ok _ _ _).mp hFirst)
        refine ⟨by rw [List.map_cons, List.map_cons, hKey, hKeys], List.forall_mem_cons.mpr ⟨.inl hDecision, ?_⟩⟩
        exact fun receipt hReceipt => (hMem receipt hReceipt).imp_right (List.mem_cons_of_mem _)
      · rw [pure_ok] at hFirst
        subst hFirst
        refine ⟨by rw [List.map_cons, List.map_cons, hKeys], List.forall_mem_cons.mpr ⟨.inr List.mem_cons_self, ?_⟩⟩
        exact fun receipt hReceipt => (hMem receipt hReceipt).imp_right (List.mem_cons_of_mem _)

/-- Obligations are the receipts of semantic types, with their names and weights. -/
theorem semanticObligations_ok {inventory : List FrozenAssertion} {receipts obligations : List AssertionReceipt}
    (h : semanticObligations inventory receipts = .ok obligations) : obligations =
      (receipts.filter fun r => semanticTypes.contains r.type).map fun r => { r with status := .pendingSemantic } := by
  simp only [semanticObligations, bind_ok, require_ok, exists_const, pure_ok] at h
  exact h.2.2.symm

/-- The candidate as it is reviewed, with the judgement that accepted it. -/
structure SemanticAcceptance.Reviewed (accepted : SemanticAcceptance) (completion : SemanticCompletion)
    (candidate : ReviewCandidate) : Prop where
  semantic : candidate.semantic = completion
  evaluator : ∃ result, accepted.result = some result ∧ candidate.semanticEvaluator = result.evaluatorVersion
  assertions : candidate.assertions = accepted.candidate.assertions
  semanticAssertions : accepted.candidate.semanticAssertions = some candidate.semanticAssertions

/-- An approval that contests a stored decision: it copies the identity and the
detail, and quotes the candidate. -/
def CandidateHumanReview.Cites (value : CandidateHumanReview) (candidate : ReviewCandidate)
    (decision : AssertionReceipt) : Prop :=
  value.decision = .approve ∧ ∃ review, value.semanticReview = some review ∧
    review.executionId = candidate.semantic.executionId ∧
    review.outputFingerprint = candidate.semantic.outputFingerprint ∧
    review.assertionOrdinal = decision.ordinal ∧ review.originalDetail = decision.detail ∧
    review.candidateExcerpt.toUTF8.data.toList <:+: candidate.normalizedOutput.bytes

/-- The judge wrote the decision as it is stored. -/
def SemanticDocument.Spells (document : SemanticDocument) (decision : AssertionReceipt) : Prop :=
  ∃ raw ∈ document.decisions, raw.key = decision.key ∧ raw.detail = text decision.detail

/-- A failed decision about forbidden claims, in the default scope. -/
def AssertionReceipt.Forbids (decision : AssertionReceipt) : Prop :=
  decision.type = "forbidden_claims_absent" ∧ decision.scope = .default ∧ decision.status = .failed

/-- Receipts are equal when their names and their data are. -/
theorem AssertionReceipt.same {r s : AssertionReceipt} (hKey : r.key = s.key) (hHard : r.hard = s.hard)
    (hEvaluator : r.evaluator = s.evaluator) (hStatus : r.status = s.status) (hDetail : r.detail = s.detail) : r = s := by
  cases r
  cases s
  simp only [AssertionReceipt.key, Prod.mk.injEq] at hKey hHard hEvaluator hStatus hDetail
  simp only [hKey, hHard, hEvaluator, hStatus, hDetail]

section

variable {assets : FrozenAssets} {completion : SemanticCompletion} {receipt : ProviderReceipt}
  {generated : GenerationCompletion} {stored : Candidate} {accepted : SemanticAcceptance} {candidate : ReviewCandidate}
  {decision : AssertionReceipt}

/-- What an accepted judgement says about the receipts of its candidate. -/
structure JudgedReceipts (completion : SemanticCompletion) (candidate : ReviewCandidate) (document : SemanticDocument) :
    Prop where
  written : completion.normalizedOutput.judgement = some document
  decisions : UniqueOn (·.key) candidate.semanticAssertions
  evaluators : ∀ d ∈ candidate.semanticAssertions, d.evaluator = candidate.semanticEvaluator
  semantic : UniqueOn (·.key) (candidate.assertions.filter fun r => semanticTypes.contains r.type)
  weights : ∀ d ∈ candidate.semanticAssertions, ∀ r ∈ candidate.assertions, r.key = d.key → r.hard = d.hard
  raws : UniqueOn (·.key) document.decisions
  answers : ∀ d ∈ candidate.semanticAssertions, ∀ raw ∈ document.decisions, raw.key = d.key → d.status = raw.status

theorem acceptJudgement_receipts (hAccept : acceptJudgement assets completion receipt generated stored = .ok accepted)
    (hReviewed : accepted.Reviewed completion candidate) : ∃ document, JudgedReceipts completion candidate document := by
  simp only [acceptJudgement, bind_ok, demand_ok, pure_ok] at hAccept
  obtain ⟨_, _, obligations, hObligations, result, hParse, assertions, hResolve, rfl⟩ := hAccept
  obtain ⟨_, ⟨own, hOwn, hEvaluator⟩, hAssertions, hSemantic⟩ := hReviewed
  obtain rfl : result = own := Option.some.inj hOwn
  have hUnique : UniqueOn (·.key) obligations := by
    simp only [parseSemanticOutput, bind_ok, require_ok, exists_const, demand_ok] at hParse
    obtain ⟨_, _, _, _, _, _, _, _, hUnique, _⟩ := hParse
    exact hUnique
  obtain ⟨document, decisions, rationale, hDocument, hBound, _, rfl⟩ := parseSemanticOutput_ok hParse
  have hStored : candidate.assertions = assertions := hAssertions
  obtain rfl : decisions = candidate.semanticAssertions := Option.some.inj hSemantic
  obtain ⟨hKeys, hMem⟩ := resolveAssertions_mem hResolve
  have hNames := semanticObligations_ok hObligations
  have hPending : obligations.map (·.key) = (stored.assertions.filter fun r => semanticTypes.contains r.type).map (·.key) := by
    rw [hNames, List.map_map]
    rfl
  have hFiltered : (candidate.assertions.filter fun r => semanticTypes.contains r.type).map (·.key) =
      (stored.assertions.filter fun r => semanticTypes.contains r.type).map (·.key) := by
    have hFilter : ∀ rows : List AssertionReceipt, (rows.filter fun r => semanticTypes.contains r.type).map (·.key) =
        (rows.map (·.key)).filter fun key => semanticTypes.contains key.1 := by
      intro rows
      rw [List.filter_map]
      rfl
    rw [hFilter, hFilter, hStored, hKeys]
  obtain ⟨_, hDecisions, _, hWanted⟩ := parseDecisions_ok hBound
  refine ⟨document, hDocument, hDecisions, fun d hd => ?_, ?_, fun d hd r hr hKey => ?_, ?_, fun d hd raw hRaw hKey => ?_⟩
  · obtain ⟨_, _, _, _, _, hVersion⟩ := parseDecisions_paired hBound hd
    exact hVersion.trans hEvaluator.symm
  · unfold UniqueOn
    rw [hFiltered, ← hPending]
    exact hUnique
  · obtain ⟨_, obligation, hObligation, hDecisionKey, hHard, _⟩ := parseDecisions_paired hBound hd
    rw [hStored] at hr
    rcases hMem r hr with hDecided | hKept
    · rw [hDecisions.eq_of_key hDecided hd hKey]
    · rw [hNames] at hObligation
      obtain ⟨source, hSource, rfl⟩ := List.mem_map.mp hObligation
      have hTypes : semanticTypes.contains r.type = true := by
        have hType : r.type = source.type := congrArg Prod.fst (hKey.trans hDecisionKey)
        rw [hType]
        exact (List.mem_filter.mp hSource).2
      have hPendingUnique : UniqueOn (·.key) (stored.assertions.filter fun r => semanticTypes.contains r.type) := by
        unfold UniqueOn at hUnique ⊢
        rw [← hPending]
        exact hUnique
      have hSame : r = source :=
        hPendingUnique.eq_of_key (List.mem_filter.mpr ⟨hKept, hTypes⟩) hSource (hKey.trans hDecisionKey)
      rw [hSame, hHard]
  · have hBoundUnique := parseDecisions_bound hBound
    unfold UniqueOn at hBoundUnique ⊢
    have hMap : document.decisions.map (fun raw => bindKey receipt.provider (obligations.map (·.key)) raw.key) =
        (document.decisions.map (·.key)).map (bindKey receipt.provider (obligations.map (·.key))) := by
      rw [List.map_map]
      rfl
    rw [hMap] at hBoundUnique
    exact List.Nodup.of_map _ hBoundUnique
  · obtain ⟨⟨source, hSource, hSourceKey, hStatus⟩, _⟩ := parseDecisions_paired hBound hd
    have hOwn : bindKey receipt.provider (obligations.map (·.key)) raw.key = d.key := by
      rw [bindKey_of_wanted (hKey ▸ hWanted d hd), hKey]
    have hEqual : source = raw :=
      (parseDecisions_bound hBound).eq_of_key hSource hRaw (hSourceKey.trans hOwn.symm)
    rw [← hEqual]
    exact hStatus

/-- The receipts that a citing contest is about are the cited decision. -/
theorem JudgedReceipts.contests {document : SemanticDocument} (h : JudgedReceipts completion candidate document)
    (hDecision : decision ∈ candidate.semanticAssertions) (hForbids : decision.Forbids)
    {review : SemanticContradictionReview} (hOrdinal : review.assertionOrdinal = decision.ordinal)
    (hDetail : review.originalDetail = decision.detail) :
    (∀ r ∈ candidate.assertions, (review.Contests candidate.semanticEvaluator r ↔ r = decision)) ∧
    (∀ r ∈ candidate.semanticAssertions, (review.Contests candidate.semanticEvaluator r ↔ r = decision)) ∧
    ∀ raw ∈ document.decisions, review.ContestsRaw raw ↔ raw.key = decision.key ∧ raw.detail = text decision.detail := by
  obtain ⟨hType, hScope, hStatus⟩ := hForbids
  have hEvaluator := h.evaluators decision hDecision
  have hSelf : review.Contests candidate.semanticEvaluator decision :=
    ⟨hType, hScope, hOrdinal.symm, hStatus, hDetail.symm, hEvaluator⟩
  have hKey : ∀ r : AssertionReceipt, review.Contests candidate.semanticEvaluator r → r.key = decision.key := by
    rintro r ⟨hOtherType, hOtherScope, hOtherOrdinal, _⟩
    rw [AssertionReceipt.key, AssertionReceipt.key, hOtherType, hOtherScope, hOtherOrdinal, hType, hScope, hOrdinal]
  refine ⟨fun r hr => ⟨fun hContests => ?_, ?_⟩, fun r hr => ⟨fun hContests => ?_, ?_⟩, fun raw hRaw => ?_⟩
  · have hHard := h.weights decision hDecision r hr (hKey r hContests)
    obtain ⟨hOtherType, hOtherScope, hOtherOrdinal, hOtherStatus, hOtherDetail, hOtherEvaluator⟩ := hContests
    exact AssertionReceipt.same (hKey r ⟨hOtherType, hOtherScope, hOtherOrdinal, hOtherStatus, hOtherDetail,
      hOtherEvaluator⟩) hHard (hOtherEvaluator.trans hEvaluator.symm) (hOtherStatus.trans hStatus.symm)
      (hOtherDetail.trans hDetail)
  · rintro rfl
    exact hSelf
  · exact h.decisions.eq_of_key hr hDecision (hKey r hContests)
  · rintro rfl
    exact hSelf
  · constructor
    · rintro ⟨hRawType, hRawScope, hRawOrdinal, _, hRawDetail⟩
      rw [RawDecision.key, AssertionReceipt.key, hRawType, hRawScope, hRawOrdinal, hType, hScope, hOrdinal, hRawDetail,
        hDetail]
      exact ⟨rfl, rfl⟩
    · rintro ⟨hSame, hRawDetail⟩
      have hAnswer := h.answers decision hDecision raw hRaw hSame
      simp only [RawDecision.key, AssertionReceipt.key, Prod.mk.injEq] at hSame
      refine ⟨hSame.1.trans hType, hSame.2.1.trans hScope, hSame.2.2.trans hOrdinal.symm, hAnswer.symm.trans hStatus, ?_⟩
      rw [hRawDetail, hDetail]

end

/-- A citing contest of an accepted judgement is accepted exactly when the
candidate carries the decision and the judge wrote it as it is stored. -/
theorem contradiction_citable_iff {assets : FrozenAssets} {completion : SemanticCompletion} {receipt : ProviderReceipt}
    {generated : GenerationCompletion} {stored : Candidate} {accepted : SemanticAcceptance} {candidate : ReviewCandidate}
    {decision : AssertionReceipt} {value : CandidateHumanReview}
    (hAccept : acceptJudgement assets completion receipt generated stored = .ok accepted)
    (hReviewed : accepted.Reviewed completion candidate) (hDecision : decision ∈ candidate.semanticAssertions)
    (hForbids : decision.Forbids) (hCites : value.Cites candidate decision) :
    validateSemanticReview value candidate "v2" = .ok () ↔
      decision ∈ candidate.assertions ∧
      ∃ document, completion.normalizedOutput.judgement = some document ∧ document.Spells decision := by
  obtain ⟨document, h⟩ := acceptJudgement_receipts hAccept hReviewed
  obtain ⟨hApprove, review, hReview, hExecution, hOutput, hOrdinal, hDetail, hExcerpt⟩ := hCites
  obtain ⟨hCarried, hSettled, hWritten⟩ := h.contests hDecision hForbids hOrdinal hDetail
  have hDocument : candidate.semantic.normalizedOutput.judgement = some document := by
    rw [hReviewed.semantic]
    exact h.written
  have hSettledOne : (candidate.semanticAssertions.filter (review.Contests candidate.semanticEvaluator)).length = 1 := by
    rw [h.decisions.filter_eq_singleton hDecision (decide_eq_true ((hSettled decision hDecision).mpr rfl)) ?_]
    · rfl
    · intro r hr hContests
      rw [(hSettled r hr).mp (of_decide_eq_true hContests)]
  have hSemanticType : semanticTypes.contains decision.type = true := by
    rw [hForbids.1]
    decide
  have hCarriedOne : (candidate.assertions.filter (review.Contests candidate.semanticEvaluator)).length = 1 ↔
      decision ∈ candidate.assertions := by
    constructor
    · intro hOne
      obtain ⟨r, hr⟩ := List.length_eq_one_iff.mp hOne
      obtain ⟨hMem, hContests⟩ := List.mem_filter.mp (hr ▸ List.mem_singleton_self r)
      exact (hCarried r hMem).mp (of_decide_eq_true hContests) ▸ hMem
    · intro hMem
      have hFilter : candidate.assertions.filter (fun r => decide (review.Contests candidate.semanticEvaluator r)) =
          (candidate.assertions.filter fun r => semanticTypes.contains r.type).filter
            fun r => decide (review.Contests candidate.semanticEvaluator r) := by
        rw [List.filter_filter]
        refine List.filter_congr fun r hr => ?_
        by_cases hContests : review.Contests candidate.semanticEvaluator r
        · rw [(hCarried r hr).mp hContests, hSemanticType, Bool.and_true]
        · rw [decide_eq_false hContests, Bool.false_and]
      rw [hFilter, h.semantic.filter_eq_singleton (List.mem_filter.mpr ⟨hMem, hSemanticType⟩)
        (decide_eq_true ((hCarried decision hMem).mpr rfl)) ?_]
      · rfl
      · intro r hr hContests
        rw [(hCarried r (List.mem_filter.mp hr).1).mp (of_decide_eq_true hContests)]
  have hWrittenOne : (document.decisions.filter review.ContestsRaw).length = 1 ↔ document.Spells decision := by
    constructor
    · intro hOne
      obtain ⟨raw, hRaw⟩ := List.length_eq_one_iff.mp hOne
      obtain ⟨hMem, hContests⟩ := List.mem_filter.mp (hRaw ▸ List.mem_singleton_self raw)
      exact ⟨raw, hMem, (hWritten raw hMem).mp (of_decide_eq_true hContests)⟩
    · rintro ⟨raw, hMem, hSpells⟩
      rw [h.raws.filter_eq_singleton hMem (decide_eq_true ((hWritten raw hMem).mpr hSpells)) ?_]
      · rfl
      · intro other hOther hContests
        exact ((hWritten other hOther).mp (of_decide_eq_true hContests)).1.trans hSpells.1.symm
  simp only [validateSemanticReview, hReview, hDocument, bind_ok, require_ok, exists_const, demand_ok, Option.some.injEq,
    exists_eq_left']
  rw [hCarriedOne, hWrittenOne]
  constructor
  · rintro ⟨_, hMem, _, hSpells⟩
    exact ⟨hMem, document, h.written, hSpells⟩
  · rintro ⟨hMem, other, hOther, hSpells⟩
    obtain rfl : other = document := Option.some.inj (hOther.symm.trans h.written)
    exact ⟨⟨trivial, hApprove, hExecution, hOutput, hExcerpt⟩, hMem, hSettledOne, hSpells⟩

/-! Contests of the flawed pilot candidate, as its judge wrote the decision and
with a blank before the detail. -/

namespace Panel

open Pilot

/-- The verdict on the flawed candidate, its detail with a blank in front. -/
def blanked : Output :=
  spelled ["\x7b\"schema_version\":", "\"ai-explanation-", "semantic-evaluation-", "output/v1\",", "\"scores\":\x7b",
    "\"faithfulness\":5,", "\"cross_dimension_", "quality\":4,", "\"suggestion_", "actionability\":4,",
    "\"audience_clarity\":4,", "\"concision\":4\x7d,", "\"rationale\":\"sound\",", "\"decisions\":[\x7b",
    "\"type\":\"no_", "unprovided_fact\",", "\"scope\":\"case\",", "\"ordinal\":1,", "\"status\":\"passed\",",
    "\"detail\":\"none\"\x7d,\x7b", "\"type\":\"forbidden_", "claims_absent\",", "\"scope\":\"default\",",
    "\"ordinal\":1,", "\"status\":\"", "failed", "\",\"detail\":\" none\"\x7d]\x7d"]
    "55b1d1f87b0239b472092e944685b8d011e08894bd0b84e524f1f5fff566c107"

/-- The contest of the stored decision, with the whole candidate as its excerpt. -/
def contest (outputFingerprint : String) : SemanticContradictionReview where
  policyVersion := contradictionPolicy
  executionId := "s01"
  outputFingerprint
  assertionOrdinal := 1
  originalDetail := "none"
  candidateExcerpt := "\x7b\x7d"
  reason := "quoted"
  valid := by decide

/-- A judge call of the first seat with a given verdict. -/
theorem verdict_check {output : Output}
    (h : output.bounded ∧ output.isEmpty = false ∧ output.document.isSome = true) :
    (judgedFields (call first .semantic) (clock 1) output first.valid.2.2.1).check = .ok () := by
  obtain ⟨_, hGeneration, hSemantic, _, _⟩ := first.valid
  obtain ⟨hBounded, hSome, hDocument⟩ := h
  have hRead : output.document ≠ none := Option.isSome_iff_ne_none.mp hDocument
  simp [SemanticFields.check, SemanticFields.checkSucceeded, SemanticFields.checkStatus, judgedFields, call,
    hGeneration, hSemantic, hBounded, hSome, hRead, explanation_facts.2.2.2, receiptMatches, receipt]

def verdict (output : Output) (h : output.bounded ∧ output.isEmpty = false ∧ output.document.isSome = true) :
    SemanticCompletion :=
  ⟨_, verdict_check h⟩

theorem verdicts_facts : (flawed.bounded ∧ flawed.isEmpty = false ∧ flawed.document.isSome = true) ∧
    blanked.bounded ∧ blanked.isEmpty = false ∧ blanked.document.isSome = true := by
  decide +kernel

theorem flawed_facts : flawed.bounded ∧ flawed.isEmpty = false ∧ flawed.document.isSome = true :=
  verdicts_facts.1

theorem blanked_facts : blanked.bounded ∧ blanked.isEmpty = false ∧ blanked.document.isSome = true :=
  verdicts_facts.2

/-- The first candidate before its judgement. -/
def undecided : Candidate :=
  { candidate first with
    reviewReady := false
    semanticAssertions := none
    acceptedSemanticExecutionId := none
    assertions := (receipts first).map fun r => { r with status := .pendingSemantic, detail := "" } }

/-- What is stored of either verdict. -/
def forbidden : AssertionReceipt :=
  ⟨"forbidden_claims_absent", .default, 1, true, "v1", .failed, "none", claims_identity⟩

def contestedFields (completion : SemanticCompletion) : ReviewFields :=
  { reviewFields first with semantic := completion }

theorem contested_check (output : Output)
    (h : output.bounded ∧ output.isEmpty = false ∧ output.document.isSome = true) :
    (contestedFields (verdict output h)).check = .ok () := by
  have hEvaluator : strip "v1" ≠ "" := by decide
  simp [ReviewFields.check, contestedFields, reviewFields, verdict, judgedFields, call, receipts, hEvaluator,
    explanation_facts.2.1]

def contested (output : Output) (h : output.bounded ∧ output.isEmpty = false ∧ output.document.isSome = true) :
    ReviewCandidate :=
  ⟨contestedFields (verdict output h), contested_check output h⟩

def contesting (value : CandidateHumanReview) (outputFingerprint : String) : CandidateHumanReview :=
  { value with semanticReview := some (contest outputFingerprint) }

theorem excerpt_quoted : "\x7b\x7d".toUTF8.data.toList <:+: explanation.bytes := by decide

theorem contesting_cites (output : Output)
    (h : output.bounded ∧ output.isEmpty = false ∧ output.document.isSome = true) :
    (contesting approved (verdict output h).outputFingerprint).Cites (contested output h) forbidden :=
  ⟨rfl, _, rfl, rfl, rfl, rfl, rfl, excerpt_quoted⟩

/-- The decisions that are stored of either verdict. -/
def Stores (accepted : SemanticAcceptance) : Prop :=
  accepted.result.map (·.evaluatorVersion) = some "v1" ∧ accepted.candidate.assertions = receipts first ∧
    accepted.candidate.semanticAssertions = some (receipts first)

instance (accepted : SemanticAcceptance) : Decidable (Stores accepted) := inferInstanceAs (Decidable (_ ∧ _))

/-- Either verdict is accepted, and the same decisions are stored. -/
theorem judgement_accepted {output : Output}
    (h : output.bounded ∧ output.isEmpty = false ∧ output.document.isSome = true) (hOutput : output ∈ [flawed, blanked]) :
    ∃ accepted, acceptJudgement (creation Pilot.encoding).assets (verdict output h) (receipt "s01" first.valid.2.2.1)
      (generated first) undecided = .ok accepted ∧ accepted.Reviewed (verdict output h) (contested output h) := by
  have hBoth : ∀ value ∈ [(⟨flawed, flawed_facts⟩ :
        { output : Output // output.bounded ∧ output.isEmpty = false ∧ output.document.isSome = true }),
        ⟨blanked, blanked_facts⟩],
      (acceptJudgement (creation Pilot.encoding).assets (verdict value.1 value.2) (receipt "s01" first.valid.2.2.1)
        (generated first) undecided).toOption.any (fun accepted => decide (Stores accepted)) = true := by
    decide +kernel
  have hAny := hBoth ⟨output, h⟩ (by simpa using hOutput)
  obtain ⟨accepted, hSome, hStores⟩ := (Option.any_eq_true _ _).mp hAny
  obtain ⟨hVersion, hAssertions, hDecisions⟩ := of_decide_eq_true hStores
  obtain ⟨result, hResult, hOwn⟩ := Option.map_eq_some_iff.mp hVersion
  exact ⟨accepted, toOption_some.mp hSome, rfl, ⟨result, hResult, hOwn.symm⟩, hAssertions.symm, hDecisions⟩

/-- The verdict as the judge spelled it. -/
def Spelling (output : Output) (decision : AssertionReceipt) : Bool :=
  output.judgement.any fun document =>
    document.decisions.any fun raw => decide (raw.key = decision.key ∧ raw.detail = text decision.detail)

end Panel

/-- The flawed pilot verdict can be contested. -/
theorem contradiction_citable_panel : validateSemanticReview
    (Panel.contesting Panel.approved (Panel.verdict Panel.flawed Panel.flawed_facts).outputFingerprint)
    (Panel.contested Panel.flawed Panel.flawed_facts) "v2" = .ok () := by
  obtain ⟨accepted, hAccept, hReviewed⟩ := Panel.judgement_accepted Panel.flawed_facts List.mem_cons_self
  have hMem : Panel.forbidden ∈ Panel.receipts Panel.first := by decide
  refine (contradiction_citable_iff hAccept hReviewed hMem ⟨rfl, rfl, rfl⟩ (Panel.contesting_cites _ _)).mpr ⟨hMem, ?_⟩
  have hSpelling : Panel.Spelling Panel.flawed Panel.forbidden = true := by decide +kernel
  obtain ⟨document, hDocument, hAny⟩ := (Option.any_eq_true _ _).mp hSpelling
  obtain ⟨raw, hRaw, hSame⟩ := List.any_eq_true.mp hAny
  exact ⟨document, hDocument, raw, hRaw, of_decide_eq_true hSame⟩

/-- With a blank before its detail the accepted decision cannot be cited. -/
theorem blanked_decision_uncitable : ∃ assets completion receipt generated stored accepted candidate decision value,
    acceptJudgement assets completion receipt generated stored = .ok accepted ∧
    accepted.Reviewed completion candidate ∧ decision ∈ candidate.semanticAssertions ∧ decision ∈ candidate.assertions ∧
    decision.Forbids ∧ value.Cites candidate decision ∧
    validateSemanticReview value candidate "v2" =
      .error (.invalid "Original failed forbidden-claims assertion required") := by
  obtain ⟨accepted, hAccept, hReviewed⟩ :=
    Panel.judgement_accepted Panel.blanked_facts (List.mem_cons_of_mem _ List.mem_cons_self)
  have hMem : Panel.forbidden ∈ Panel.receipts Panel.first := by decide
  have hRefused : validateSemanticReview
      (Panel.contesting Panel.approved (Panel.verdict Panel.blanked Panel.blanked_facts).outputFingerprint)
      (Panel.contested Panel.blanked Panel.blanked_facts) "v2" =
      .error (.invalid "Original failed forbidden-claims assertion required") := by
    decide +kernel
  exact ⟨_, _, _, _, _, accepted, _, _, _, hAccept, hReviewed, hMem, hMem, ⟨rfl, rfl, rfl⟩,
    Panel.contesting_cites _ _, hRefused⟩

end QsAi
