import QsAi.Evaluation.CandidateAssertions
import QsAi.Interpretation.SafetyVerdict
import QsAi.Run.Citations
import QsAi.Run.Scores

/-! The judge completes the inventory. The code answers every assertion of a case
or leaves it pending; an accepted judgement answers each pending one and leaves
the others as they are. -/
namespace QsAi

open Guarded Keyed PyJson CandidateAssertions

/-! The names of an inventory. -/

def FrozenAssertion.key (assertion : FrozenAssertion) : AssertionKey :=
  (assertion.type, assertion.scope, assertion.ordinal)

theorem key_identityOf (receipt : AssertionReceipt) : (identityOf receipt).key = receipt.key := rfl

/-- The assertions of one scope go on counting where the earlier ones ended. -/
theorem scopeInventory_named (scope : AssertionScope) (seen names : List String) :
    UniqueOn (·.key) (scopeInventory scope seen names) ∧
    ∀ assertion ∈ scopeInventory scope seen names,
      assertion.scope = scope ∧ seen.count assertion.type < assertion.ordinal := by
  induction names generalizing seen with
  | nil => exact ⟨List.nodup_nil, fun _ hMem => absurd hMem List.not_mem_nil⟩
  | cons name rest ih =>
      obtain ⟨hUnique, hLater⟩ := ih (name :: seen)
      rw [scopeInventory]
      refine ⟨uniqueOn_cons.mpr ⟨?_, hUnique⟩, List.forall_mem_cons.mpr ⟨⟨rfl, Nat.lt_succ_self _⟩, ?_⟩⟩
      · intro hSame
        obtain ⟨assertion, hMem, hKey⟩ := List.mem_map.mp hSame
        simp only [FrozenAssertion.key, Prod.mk.injEq] at hKey
        have hOrdinal := (hLater assertion hMem).2
        rw [hKey.1, List.count_cons_self, hKey.2.2] at hOrdinal
        exact absurd hOrdinal (Nat.lt_irrefl _)
      · intro assertion hMem
        obtain ⟨hScope, hOrdinal⟩ := hLater assertion hMem
        exact ⟨hScope, (List.count_le_count_cons ..).trans_lt hOrdinal⟩

/-- No two assertions of an inventory have one name. -/
theorem assertionInventory_unique (defaults cases : List String) : UniqueOn (·.key) (assertionInventory defaults cases) := by
  obtain ⟨hDefaults, hScope⟩ := scopeInventory_named .default [] defaults
  obtain ⟨hCases, hOwnScope⟩ := scopeInventory_named .case [] cases
  unfold UniqueOn at hDefaults hCases ⊢
  rw [assertionInventory, List.map_append]
  refine hDefaults.append hCases ?_
  intro key hKey hOwnKey
  obtain ⟨assertion, hMem, rfl⟩ := List.mem_map.mp hKey
  obtain ⟨own, hOwn, hSame⟩ := List.mem_map.mp hOwnKey
  simp only [FrozenAssertion.key, Prod.mk.injEq] at hSame
  have hEqual := (hOwnScope own hOwn).1.symm.trans (hSame.2.1.trans (hScope assertion hMem).1)
  cases hEqual

theorem scopeInventory_length (scope : AssertionScope) (seen names : List String) :
    (scopeInventory scope seen names).length = names.length := by
  induction names generalizing seen with
  | nil => rfl
  | cons name rest ih => rw [scopeInventory, List.length_cons, ih, List.length_cons]

/-- The inventory of a suite is made of the names of its assertions. -/
theorem inventory_named {suite : FrozenSuite} {caseId : Text} {inventory : List SuiteAssertion}
    (h : suite.inventory caseId = .ok inventory) :
    ∃ defaults cases, inventory.map (·.identity) = assertionInventory defaults cases := by
  simp only [FrozenSuite.inventory, bind_ok, pure_ok] at h
  obtain ⟨⟨defaults, own⟩, _, names, hNames, ownNames, hOwn, parameters, hParameters, rfl⟩ := h
  rw [mapM_ok] at hNames hOwn hParameters
  refine ⟨names, ownNames, ?_⟩
  rw [List.map_map]
  refine List.map_fst_zip ?_
  have hLength := hParameters.length_eq
  rw [List.length_append, hNames.length_eq, hOwn.length_eq] at hLength
  rw [assertionInventory, List.length_append, scopeInventory_length, scopeInventory_length, hLength]

/-! The decisions of a judge. -/

theorem schemaDecision_decided {value : Value} {decision : RawDecision} (h : schemaDecision value = some decision) :
    decision.status ≠ .pendingSemantic := by
  cases value with
  | object fields =>
      simp only [schemaDecision, Option.bind_eq_bind, Option.bind_eq_some_iff] at h
      obtain ⟨type, _, scope, _, ordinal, _, status, ⟨word, _, hStatus⟩, detail, _, h⟩ := h
      split at h
      · cases h
        cases word with
        | string word =>
            obtain ⟨choice, hChoice, rfl⟩ := Option.map_eq_some_iff.mp hStatus
            have hMem := (lookup_some hChoice).1
            simp only [List.mem_cons, List.not_mem_nil, or_false] at hMem
            rcases hMem with rfl | rfl <;> simp
        | _ => cases hStatus
      · cases h
  | _ => cases h

/-- A judge decides each assertion that it names. -/
theorem readJudgement_decided {value : Value} {document : SemanticDocument} (h : readJudgement value = some document) :
    ∀ decision ∈ document.decisions, decision.status ≠ .pendingSemantic := by
  cases value with
  | object fields =>
      simp only [readJudgement, Option.bind_eq_bind, Option.bind_eq_some_iff] at h
      obtain ⟨_, _, scores, _, rationale, _, decisions, ⟨items, _, hDecisions⟩, h⟩ := h
      split at h
      · cases h
        cases items with
        | array items =>
            rw [schemaDecisions] at hDecisions
            split at hDecisions
            · have hEach := mapM_some hDecisions
              intro decision hMem
              obtain ⟨value, _, hValue⟩ := ReportInput.beside_right hEach hMem
              exact schemaDecision_decided hValue
            · cases hDecisions
        | _ => cases hDecisions
      · cases h
  | _ => cases h

/-- Each obligation is settled: the names of the decisions are different, and
there are as many as obligations. -/
theorem parseDecisions_covers {contract : JudgeContract} {provider : String} {obligations : List AssertionReceipt}
    {raws : List RawDecision} {decisions : List AssertionReceipt}
    (h : parseDecisions contract provider obligations [] raws = .ok decisions)
    (hCount : raws.length = obligations.length) :
    (decisions.map (·.key)).Perm (obligations.map (·.key)) := by
  obtain ⟨hKeys, hUnique, _, hWanted⟩ := parseDecisions_ok h
  refine (List.subperm_of_subset hUnique ?_).perm_of_length_le ?_
  · intro key hKey
    obtain ⟨decision, hMem, rfl⟩ := List.mem_map.mp hKey
    exact hWanted decision hMem
  · rw [hKeys, List.length_map, List.length_map, hCount]

/-- What becomes of one receipt. -/
def AnsweredBy (decisions : List AssertionReceipt) (before after : AssertionReceipt) : Prop :=
  after.key = before.key ∧ (before.status = .pendingSemantic → after ∈ decisions) ∧
    (before.status ≠ .pendingSemantic → after = before)

theorem AnsweredBy.decided {decisions before after : List AssertionReceipt}
    (h : List.Forall₂ (AnsweredBy decisions) before after)
    (hDecided : ∀ decision ∈ decisions, decision.status ≠ .pendingSemantic) :
    after.map (·.key) = before.map (·.key) ∧ ∀ receipt ∈ after, receipt.status ≠ .pendingSemantic := by
  induction h with
  | nil => simp
  | cons hFirst _ ih =>
      rename_i before after _ _ _
      obtain ⟨hKey, hAnswer, hKept⟩ := hFirst
      refine ⟨by rw [List.map_cons, List.map_cons, hKey, ih.1], List.forall_mem_cons.mpr ⟨?_, ih.2⟩⟩
      by_cases hPending : before.status = .pendingSemantic
      · exact hDecided after (hAnswer hPending)
      · rw [hKept hPending]
        exact hPending

/-- Where every pending receipt has a decision, all of them are resolved. -/
theorem resolveAssertions_total {decisions assertions : List AssertionReceipt} (hUnique : UniqueOn (·.key) decisions)
    (hCovers : ∀ receipt ∈ assertions, receipt.status = .pendingSemantic → receipt.key ∈ decisions.map (·.key)) :
    ∃ resolved, resolveAssertions decisions assertions = .ok resolved ∧
      List.Forall₂ (AnsweredBy decisions) assertions resolved := by
  induction assertions with
  | nil => exact ⟨[], rfl, .nil⟩
  | cons receipt rest ih =>
      obtain ⟨hFirst, hRest⟩ := List.forall_mem_cons.mp hCovers
      obtain ⟨resolved, hResolve, hEach⟩ := ih hRest
      by_cases hPending : receipt.status = .pendingSemantic
      · obtain ⟨decision, hMem, hKey⟩ := List.mem_map.mp (hFirst hPending)
        have hFound := hUnique.dict_iff.mpr ⟨hMem, hKey⟩
        refine ⟨decision :: resolved, ?_, .cons ⟨hKey, fun _ => hMem, fun hOpen => absurd hPending hOpen⟩ hEach⟩
        unfold resolveAssertions at hResolve ⊢
        rw [List.mapM_cons, if_pos hPending, hFound, hResolve]
        rfl
      · refine ⟨receipt :: resolved, ?_, .cons ⟨rfl, fun hOpen => absurd hOpen hPending, fun _ => rfl⟩ hEach⟩
        unfold resolveAssertions at hResolve ⊢
        rw [List.mapM_cons, if_neg hPending, hResolve]
        rfl

/-- Obligations are the receipts of a semantic type, so every pending receipt of
an evaluation is one of them. -/
theorem pending_obliged {inventory : List FrozenAssertion} {receipts obligations : List AssertionReceipt}
    (h : semanticObligations inventory receipts = .ok obligations)
    (hTypes : ∀ receipt ∈ receipts, receipt.status = .pendingSemantic → semanticTypes.contains receipt.type = true) :
    ∀ receipt ∈ receipts, receipt.status = .pendingSemantic → receipt.key ∈ obligations.map (·.key) := by
  intro receipt hMem hPending
  rw [semanticObligations_ok h, List.map_map]
  exact List.mem_map.mpr ⟨receipt, List.mem_filter.mpr ⟨hMem, hTypes receipt hMem hPending⟩, rfl⟩

/-- What an accepted judgement decides: every obligation, and each for good. -/
theorem parseSemanticOutput_decides {raw : Output} {contract : JudgeContract} {receipt : ProviderReceipt}
    {invocationId : String} {obligations : List AssertionReceipt} {result : SemanticResult}
    (h : parseSemanticOutput raw contract receipt invocationId obligations = .ok result) :
    UniqueOn (·.key) result.decisions ∧ (result.decisions.map (·.key)).Perm (obligations.map (·.key)) ∧
    ∀ decision ∈ result.decisions, decision.status ≠ .pendingSemantic := by
  simp only [parseSemanticOutput, bind_ok, require_ok, exists_const, demand_ok, pure_ok] at h
  obtain ⟨_, _, json, _, document, hDocument, _, _, _, hCount, decisions, hDecisions, _, _, _, rfl⟩ := h
  refine ⟨(parseDecisions_ok hDecisions).2.1, parseDecisions_covers hDecisions hCount, fun decision hMem => ?_⟩
  obtain ⟨⟨raw, hRaw, _, hStatus⟩, _⟩ := parseDecisions_paired hDecisions hMem
  rw [hStatus]
  exact readJudgement_decided hDocument raw hRaw

/-- A judgement that is accepted for an evaluated candidate completes its
inventory: each pending receipt gets its decision and the others stay. -/
theorem semantic_acceptance_completes {library : UnicodeLibrary} {suite : FrozenSuite} {prepared : PreparedExplanation}
    {raw : List Nat} {inventory : List SuiteAssertion} {obligations : List AssertionReceipt} {assets : FrozenAssets}
    {completion : SemanticCompletion} {receipt : ProviderReceipt} {generated : GenerationCompletion}
    {candidate : Candidate} {result : SemanticResult}
    (hInventory : suite.inventory (text generated.caseId) = .ok inventory)
    (hFrozen : assets.inventory generated.caseId = some (inventory.map (·.identity)))
    (hEvaluated : evaluateCandidateAssertions library suite prepared raw (text generated.caseId) = .ok candidate.assertions)
    (hObligations : semanticObligations (inventory.map (·.identity)) candidate.assertions = .ok obligations)
    (hAccepted : parseSemanticOutput completion.normalizedOutput assets.judge receipt completion.invocationId obligations =
      .ok result) :
    ∃ resolved, resolveAssertions result.decisions candidate.assertions = .ok resolved ∧
      (acceptJudgement assets completion receipt generated candidate).map (·.candidate.assertions) = .ok resolved ∧
      (∀ after ∈ resolved, after.status ≠ .pendingSemantic) ∧
      List.Forall₂ (fun before after => before.status ≠ .pendingSemantic → after = before) candidate.assertions resolved ∧
      resolved.map (·.key) = inventory.map (·.identity.key) ∧ UniqueOn (·.key) resolved := by
  obtain ⟨own, hOwn, hIdentities, hTypes⟩ := evaluateCandidateAssertions_ok hEvaluated
  obtain rfl : inventory = own := Except.ok.inj (hInventory.symm.trans hOwn)
  obtain ⟨hUnique, hCovers, hDecided⟩ := parseSemanticOutput_decides hAccepted
  obtain ⟨resolved, hResolve, hEach⟩ := resolveAssertions_total hUnique fun before hMem hPending =>
    hCovers.mem_iff.mpr (pending_obliged hObligations hTypes before hMem hPending)
  obtain ⟨hKeys, hSettled⟩ := AnsweredBy.decided hEach hDecided
  have hNames : resolved.map (·.key) = inventory.map (·.identity.key) := by
    have hMapped := congrArg (List.map FrozenAssertion.key) hIdentities
    rw [List.map_map, List.map_map] at hMapped
    exact hKeys.trans hMapped
  refine ⟨resolved, hResolve, ?_, hSettled, hEach.imp fun _ _ hAnswer => hAnswer.2.2, hNames, ?_⟩
  · simp only [acceptJudgement, hFrozen, hObligations, hAccepted, hResolve, demand, ok_bind]
    rfl
  · obtain ⟨defaults, cases, hNamed⟩ := inventory_named hInventory
    have hApart := assertionInventory_unique defaults cases
    unfold UniqueOn at hApart ⊢
    rw [← hNamed, List.map_map] at hApart
    rw [hNames]
    exact hApart

/-! The pilot case, whose only assertion is the judge's. -/

namespace Pilot

def interpreterLimits : ReportOutput.Limits := ⟨100, 100⟩

def suite : FrozenSuite where
  document := .object [
    (text "cases", .array [.object [(text "case_id", .string (text "a")), (text "stage", .string (text "generation")),
      (text "expected", .object [(text "assertions", .array [
        .object [(text "type", .string (text "no_unprovided_fact"))]])])]]),
    (text "default_generation_assertions", .array [])]
  limits := interpreterLimits

/-- A schema that asks for nothing but its version. -/
def pilotVersion : Text := text "v"

def parsePilot (raw : Text) : OutputCheck Value :=
  if raw.any isSurrogate then invalidOutput "invalid_json"
  else
    match loads distinct (some interpreterLimits.readDepth) raw with
    | .error .malformed => invalidOutput "invalid_json"
    | .error .tooDeep => native (.error .recursion)
    | .ok (.object fields) =>
        if (member fields "schema_version").any (·.isText pilotVersion) then pure (.object fields)
        else invalidOutput "output_schema_invalid"
    | .ok _ => invalidOutput "output_schema_invalid"

/-- The facts of an assessment without dimensions, and the pilot's schema. A
release of another scene refuses every output of this version. -/
def prepared : PreparedExplanation where
  contract :=
    { version := pilotVersion
      schemaVersion := pilotVersion
      schemaGiven := true
      parse := parsePilot
      validate := fun raw => do
        let _ ← parsePilot raw
        invalidOutput "output_contract_mismatch" }
  providerPayload := text "\x7b\"facts\":\x7b\x7d\x7d"

def pilotContent : Value :=
  .object [(text "schema_version", .string pilotVersion),
    (text "limitations", .array [.string (text "本次测评不构成诊断，不构成确定性判断。")])]

/-- The letters of ASCII are all that is folded here. -/
def unicode : UnicodeLibrary := ⟨OutputSafety.asciiLowering, List.map OutputSafety.asciiLower⟩

def rawExplanation : List Nat :=
  (valueText compact pilotContent).flatMap PercentEncoding.utf8Code

/-- What the code says of the explanation. -/
def pendingReceipt : AssertionReceipt :=
  { assertion "no_unprovided_fact" "semantic-required" .pendingSemantic (by decide +kernel) with
    detail := "independent semantic and human review required" }

def pendingCandidate : Candidate where
  id := "c1"
  generationExecutionId := "e1"
  normalizedOutputFingerprint := explanation.fingerprint
  acceptedAt := "now"
  assertions := [pendingReceipt]
  reviewReady := false

theorem explanation_evaluated :
    evaluateCandidateAssertions unicode suite prepared rawExplanation (text "a") = .ok [pendingReceipt] := by
  have hFound : (evaluateCandidateAssertions unicode suite prepared rawExplanation (text "a")).toOption.any
      (fun receipts => decide (receipts = [pendingReceipt])) = true := by decide +kernel
  obtain ⟨receipts, hSome, hSame⟩ := (Option.any_eq_true _ _).mp hFound
  rw [← of_decide_eq_true hSame]
  exact toOption_some.mp hSome

end Pilot

/-- The pilot's judge settles the assertion that the code left pending. -/
theorem semantic_acceptance_completes_pilot : Pilot.pendingCandidate.assertions.map (·.status) = [.pendingSemantic] ∧
    ∃ decisions resolved, resolveAssertions decisions Pilot.pendingCandidate.assertions = .ok resolved ∧
      ∀ after ∈ resolved, after.status ≠ .pendingSemantic := by
  have hEvaluated : evaluateCandidateAssertions Pilot.unicode Pilot.suite Pilot.prepared Pilot.rawExplanation
      (text Pilot.generation.caseId) = .ok Pilot.pendingCandidate.assertions := Pilot.explanation_evaluated
  have hInventory : (Pilot.suite.inventory (text Pilot.generation.caseId)).toOption.any (fun inventory =>
      decide (inventory.map (·.identity) = [⟨"no_unprovided_fact", .case, 1, true⟩])) = true := by decide +kernel
  obtain ⟨inventory, hFound, hNamed⟩ := (Option.any_eq_true _ _).mp hInventory
  have hNamed := of_decide_eq_true hNamed
  have hFrozen : Pilot.assets.inventory Pilot.generation.caseId = some (inventory.map (·.identity)) := by
    rw [hNamed, Pilot.assets]
  have hAnswered : (semanticObligations [⟨"no_unprovided_fact", .case, 1, true⟩]
      Pilot.pendingCandidate.assertions).toOption.any
      (fun obligations => (parseSemanticOutput Pilot.judgement.normalizedOutput Pilot.assets.judge
        (Pilot.receipt "s1" (by decide +kernel)) Pilot.judgement.invocationId obligations).toOption.isSome) = true := by
    decide +kernel
  obtain ⟨obligations, hObligations, hParsed⟩ := (Option.any_eq_true _ _).mp hAnswered
  obtain ⟨result, hResult⟩ := Option.isSome_iff_exists.mp hParsed
  have hObligations := toOption_some.mp hObligations
  rw [← hNamed] at hObligations
  obtain ⟨resolved, hResolve, _, hSettled, _⟩ := semantic_acceptance_completes (toOption_some.mp hFound) hFrozen
    hEvaluated hObligations (toOption_some.mp hResult)
  exact ⟨rfl, result.decisions, resolved, hResolve, hSettled⟩

end QsAi
