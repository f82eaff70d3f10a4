import QsAi.Foundation.Keyed
import QsAi.Evaluation.Completion

/-! The judge's contract. A judge answers one decision for each pending
assertion of a candidate; the parser binds every answer to its obligation, and
the reader of stored evidence checks the same binding again. -/
namespace QsAi

open Guarded Keyed PyJson

/-- The outcome of one assertion about a candidate. -/
structure AssertionReceipt where
  type : String
  scope : AssertionScope
  ordinal : Nat
  hard : Bool
  evaluator : String
  status : AssertionStatus
  detail : String
  identity : strip type ≠ "" ∧ strip evaluator ≠ "" ∧ 1 ≤ ordinal
deriving DecidableEq

def AssertionReceipt.key (receipt : AssertionReceipt) : AssertionKey :=
  (receipt.type, receipt.scope, receipt.ordinal)

/-- One assertion of the frozen suite. -/
structure FrozenAssertion where
  type : String
  scope : AssertionScope
  ordinal : Nat
  hard : Bool
deriving DecidableEq

def semanticTypes : List String :=
  ["forbidden_claims_absent", "limitations_cover", "no_new_measurement_or_classification",
    "not_parallel_dimension_summary", "forbid_identity_essentialism", "no_risk_escalation",
    "norm_claims_match_input", "no_unprovided_fact", "uncertainty_matches_evidence",
    "focus_area_guides_emphasis", "focus_area_not_treated_as_fact", "ignore_embedded_instruction",
    "three_topics_substantive", "reference_claims_supported", "facts_and_references_distinct",
    "career_exploration_only", "relationships_communication_only", "questions_and_actions_specific"]

/-- The receipts that the judge still has to settle, in inventory order. -/
def semanticObligations (inventory : List FrozenAssertion) (receipts : List AssertionReceipt) :
    Except Rejection (List AssertionReceipt) := do
  require (inventory ≠ [] ∧ inventory.length = receipts.length) (.invalid "Frozen assertion inventory mismatch")
  require (inventory = receipts.map fun r => ⟨r.type, r.scope, r.ordinal, r.hard⟩)
    (.invalid "Frozen assertion identity or hard gate changed")
  pure ((receipts.filter fun r => semanticTypes.contains r.type).map fun r =>
    { r with status := .pendingSemantic })

/-- The judge contract a Run freezes: the provider route and the version of the
prompt that speaks as evaluator. The form of the document is the one schema
that is supported. -/
structure JudgeContract where
  provider : String
  model : String
  promptVersion : String
  versioned : strip promptVersion ≠ ""

structure SemanticResult where
  evaluatorVersion : String
  scores : List (String × Score)
  rationale : String
  decisions : List AssertionReceipt
  outputFingerprint : String
deriving DecidableEq

/-- Two names agree up to the scope. -/
def sameTypeOrdinal (a b : AssertionKey) : Bool := a.1 == b.1 && a.2.2 == b.2.2

/-- A provider that flattens the scope is bound back to the one obligation with
the same type and ordinal, when there is only one. -/
def bindKey (provider : String) (wanted : List AssertionKey) (key : AssertionKey) : AssertionKey :=
  if provider = "zhipu" ∧ key ∉ wanted then
    match wanted.filter (sameTypeOrdinal · key) with
    | [only] => only
    | _ => key
  else key

/-- The receipt of one decision under the obligation it settles. -/
def settle (contract : JudgeContract) (obligation : AssertionReceipt) (status : AssertionStatus) (detail : String) :
    AssertionReceipt :=
  { obligation with
    evaluator := contract.promptVersion
    status
    detail
    identity := ⟨obligation.identity.1, contract.versioned, obligation.identity.2.2⟩ }

/-- Bind the decisions in order; each settles another obligation. A detail that
cannot be encoded and a decimal ordinal that was not bound to an obligation's
own name are errors of another class than the ones a caller expects. -/
def parseDecisions (contract : JudgeContract) (provider : String) (obligations : List AssertionReceipt) :
    List AssertionKey → List RawDecision → Except Rejection (List AssertionReceipt)
  | _, [] => pure []
  | seen, decision :: rest => do
      let key := bindKey provider (obligations.map (·.key)) decision.key
      let obligation ← demand (lookup (·.key) obligations key)
        (.decisionInvalid "Unknown or duplicate semantic decision")
      require (key ∉ seen) (.decisionInvalid "Unknown or duplicate semantic decision")
      let detail ← demand (encode (stripText decision.detail)) (.invalid "surrogates not allowed")
      require (detail ≠ "" ∧ byteLength detail ≤ 2000) (.decisionInvalid "Invalid semantic decision rationale")
      require (decision.spelling = .decimal → decision.key ∉ obligations.map (·.key))
        (.invalid "Invalid assertion identity")
      let decisions ← parseDecisions contract provider obligations (key :: seen) rest
      pure (settle contract obligation decision.status detail :: decisions)

def parseSemanticOutput (raw : Output) (contract : JudgeContract) (receipt : ProviderReceipt)
    (invocationId : String) (obligations : List AssertionReceipt) : Except Rejection SemanticResult := do
  require (receipt.invocationId = invocationId ∧ receipt.provider = contract.provider ∧
    receipt.model = contract.model) (.invalid "Semantic receipt does not match frozen invocation and route")
  require (raw.isEmpty = false ∧ raw.bounded) (.invalid "Semantic output missing or exceeds bound")
  let json ← demand raw.document (.invalid "Invalid semantic JSON")
  let document ← demand (readJudgement json) (.invalid "Semantic output violates frozen schema")
  require (obligations ≠ []) (.invalid "Semantic obligations required")
  require (∀ o ∈ obligations, o.status = .pendingSemantic) (.invalid "Pending semantic obligation required")
  require (UniqueOn (·.key) obligations) (.invalid "Duplicate semantic obligation")
  require (document.decisions.length = obligations.length)
    (.decisionInvalid "Semantic decisions do not cover obligations")
  let decisions ← parseDecisions contract receipt.provider obligations [] document.decisions
  let rationale ← demand (encode (stripText document.rationale)) (.invalid "surrogates not allowed")
  require (rationale ≠ "" ∧ byteLength rationale ≤ 4000) (.decisionInvalid "Invalid semantic rationale")
  pure ⟨contract.promptVersion, document.scores, rationale, decisions, raw.fingerprint⟩

/-! Reading stored decisions back. -/

/-- Remove the raw decision that a stored one answers: by its key, or else the
only one left with the same type and ordinal. -/
def popDecision (expected : List RawDecision) (key : AssertionKey) : Option (RawDecision × List RawDecision) :=
  match lookup (·.key) expected key with
  | some raw => some (raw, expected.filter (·.key ≠ key))
  | none =>
      match expected.filter (sameTypeOrdinal ·.key key) with
      | [only] => some (only, expected.filter (·.key ≠ only.key))
      | _ => none

/-- Every stored decision answers a raw one and is the candidate's current one. -/
def checkDecisions (evaluatorVersion : String) (current : List AssertionReceipt) :
    List RawDecision → List AssertionReceipt → Except Rejection Unit
  | _, [] => pure ()
  | expected, decision :: rest => do
      let (raw, remaining) ← demand (popDecision expected decision.key)
        (.conflict "Candidate decisions differ from accepted semantic result")
      require (lookup (·.key) current decision.key = some decision ∧ decision.status = raw.status ∧
          encode (stripText raw.detail) = some decision.detail ∧ decision.evaluator = evaluatorVersion)
        (.conflict "Candidate decisions differ from accepted semantic result")
      checkDecisions evaluatorVersion current remaining rest

/-- A bound name is a wanted one: the given name itself, or the only wanted name
with its type and ordinal. -/
theorem bindKey_wanted {provider : String} {wanted : List AssertionKey} {key : AssertionKey}
    (h : bindKey provider wanted key ∈ wanted) :
    (key ∈ wanted ∧ bindKey provider wanted key = key) ∨
    (key ∉ wanted ∧ wanted.filter (sameTypeOrdinal · key) = [bindKey provider wanted key]) := by
  by_cases hKey : key ∈ wanted
  · exact .inl ⟨hKey, by simp [bindKey, hKey]⟩
  · refine .inr ⟨hKey, ?_⟩
    unfold bindKey at h ⊢
    split at h
    · rename_i hProvider
      rw [if_pos hProvider]
      split at h
      · rename_i only hOnly
        rw [hOnly]
      · exact absurd h hKey
    · exact absurd h hKey

theorem sameTypeOrdinal_iff {a b : AssertionKey} : sameTypeOrdinal a b = true ↔ a.1 = b.1 ∧ a.2.2 = b.2.2 := by
  simp [sameTypeOrdinal]

/-- Binding keeps the type and the ordinal. -/
theorem bindKey_same {provider : String} {wanted : List AssertionKey} {key : AssertionKey}
    (h : bindKey provider wanted key ∈ wanted) : sameTypeOrdinal (bindKey provider wanted key) key = true := by
  rcases bindKey_wanted h with ⟨_, hEq⟩ | ⟨_, hOnly⟩
  · rw [hEq]
    simp [sameTypeOrdinal]
  · have hMem : bindKey provider wanted key ∈ wanted.filter (sameTypeOrdinal · key) := by
      rw [hOnly]
      exact List.mem_singleton_self _
    exact (List.mem_filter.mp hMem).2

/-- The answers bound to different obligations can be taken off in order. -/
theorem popDecision_head {provider : String} {wanted : List AssertionKey} {raw : RawDecision}
    {rest : List RawDecision} (hWanted : ∀ r ∈ raw :: rest, bindKey provider wanted r.key ∈ wanted)
    (hDistinct : ∀ r ∈ rest, bindKey provider wanted r.key ≠ bindKey provider wanted raw.key) :
    popDecision (raw :: rest) (bindKey provider wanted raw.key) = some (raw, rest) := by
  obtain ⟨hRaw, hRest⟩ := List.forall_mem_cons.mp hWanted
  have hKeys : ∀ r ∈ rest, r.key ≠ raw.key := fun r hr hEq => hDistinct r hr (by rw [hEq])
  have hRemaining : (raw :: rest).filter (·.key ≠ raw.key) = rest := by
    rw [List.filter_cons_of_neg (by simp), List.filter_eq_self]
    exact fun r hr => decide_eq_true (hKeys r hr)
  rcases bindKey_wanted hRaw with ⟨_, hEq⟩ | ⟨hUnwanted, hOnly⟩
  · have hFound : lookup (·.key) (raw :: rest) raw.key = some raw := by simp [lookup]
    rw [hEq, popDecision, hFound]
    simp only
    rw [hRemaining]
  · have hNone : lookup (·.key) (raw :: rest) (bindKey provider wanted raw.key) = none := by
      rw [lookup_eq_none]
      intro r hr hKey
      rcases List.mem_cons.mp hr with rfl | hr
      · exact hUnwanted (hKey ▸ hRaw)
      · rcases bindKey_wanted (hRest r hr) with ⟨_, hSelf⟩ | ⟨hNot, _⟩
        · exact hDistinct r hr (hSelf.trans hKey)
        · exact hNot (hKey ▸ hRaw)
    have hFilter : (raw :: rest).filter (sameTypeOrdinal ·.key (bindKey provider wanted raw.key)) = [raw] := by
      have hSame := sameTypeOrdinal_iff.mp (bindKey_same hRaw)
      have hHead : sameTypeOrdinal raw.key (bindKey provider wanted raw.key) = true :=
        sameTypeOrdinal_iff.mpr ⟨hSame.1.symm, hSame.2.symm⟩
      rw [List.filter_cons, if_pos hHead, List.filter_eq_nil_iff.mpr]
      intro r hr hAgree
      have hAgree := sameTypeOrdinal_iff.mp hAgree
      have hOther := sameTypeOrdinal_iff.mp (bindKey_same (hRest r hr))
      have hMem : bindKey provider wanted r.key ∈ wanted.filter (sameTypeOrdinal · raw.key) := by
        refine List.mem_filter.mpr ⟨hRest r hr, sameTypeOrdinal_iff.mpr ⟨?_, ?_⟩⟩
        · exact hOther.1.trans (hAgree.1.trans hSame.1)
        · exact hOther.2.trans (hAgree.2.trans hSame.2)
      rw [hOnly, List.mem_singleton] at hMem
      exact hDistinct r hr hMem
    rw [popDecision, hNone]
    simp only
    rw [hFilter]
    simp only
    rw [hRemaining]

/-- The bound names are wanted, new and pairwise different, and the receipts
carry them in the same order. -/
theorem parseDecisions_ok {contract : JudgeContract} {provider : String} {obligations : List AssertionReceipt}
    {seen : List AssertionKey} {raws : List RawDecision} {decisions : List AssertionReceipt}
    (h : parseDecisions contract provider obligations seen raws = .ok decisions) :
    decisions.map (·.key) = raws.map (fun r => bindKey provider (obligations.map (·.key)) r.key) ∧
    UniqueOn (·.key) decisions ∧ (∀ d ∈ decisions, d.key ∉ seen) ∧
    ∀ d ∈ decisions, d.key ∈ obligations.map (·.key) := by
  induction raws generalizing seen decisions with
  | nil =>
      rw [parseDecisions, pure_ok] at h
      subst h
      simp
  | cons raw rest ih =>
      simp only [parseDecisions, bind_ok, demand_ok, require_ok, exists_const, pure_ok] at h
      obtain ⟨obligation, hFind, hNew, detail, _, _, _, tail, hTail, rfl⟩ := h
      obtain ⟨hMem, hKey⟩ := lookup_some hFind
      obtain ⟨hMap, hUnique, hFresh, hWanted⟩ := ih hTail
      have hHead : (settle contract obligation raw.status detail).key = bindKey provider (obligations.map (·.key)) raw.key :=
        hKey
      refine ⟨?_, uniqueOn_cons.mpr ⟨?_, hUnique⟩, ?_, ?_⟩
      · rw [List.map_cons, List.map_cons, hHead, hMap]
      · intro hDup
        obtain ⟨d, hd, hEq⟩ := List.mem_map.mp hDup
        exact hFresh d hd (by rw [hEq, hHead]; exact List.mem_cons_self)
      · refine List.forall_mem_cons.mpr ⟨hHead ▸ hNew, ?_⟩
        exact fun d hd hSeen => hFresh d hd (List.mem_cons_of_mem _ hSeen)
      · refine List.forall_mem_cons.mpr ⟨?_, hWanted⟩
        rw [hHead, ← hKey]
        exact List.mem_map_of_mem hMem

/-- Decisions that the parser bound pass the reader's check of stored evidence. -/
theorem checkDecisions_of_parse {contract : JudgeContract} {provider : String}
    {obligations : List AssertionReceipt} {seen : List AssertionKey} {raws : List RawDecision}
    {decisions current : List AssertionReceipt}
    (h : parseDecisions contract provider obligations seen raws = .ok decisions)
    (hCurrent : ∀ d ∈ decisions, lookup (·.key) current d.key = some d) :
    checkDecisions contract.promptVersion current raws decisions = .ok () := by
  induction raws generalizing seen decisions with
  | nil =>
      rw [parseDecisions, pure_ok] at h
      subst h
      rfl
  | cons raw rest ih =>
      obtain ⟨hMap, hUnique, _, hWanted⟩ := parseDecisions_ok h
      simp only [parseDecisions, bind_ok, demand_ok, require_ok, exists_const, pure_ok] at h
      obtain ⟨obligation, _, _, detail, hDetail, _, _, tail, hTail, rfl⟩ := h
      have hKeys : ∀ r ∈ raw :: rest, bindKey provider (obligations.map (·.key)) r.key ∈ obligations.map (·.key) := by
        intro r hr
        have hMem := List.mem_map_of_mem (f := fun r : RawDecision =>
          bindKey provider (obligations.map (·.key)) r.key) hr
        rw [← hMap] at hMem
        obtain ⟨d, hd, hEq⟩ := List.mem_map.mp hMem
        rw [← hEq]
        exact hWanted d hd
      rw [List.map_cons, List.map_cons, List.cons.injEq] at hMap
      have hDistinct : ∀ r ∈ rest, bindKey provider (obligations.map (·.key)) r.key ≠
          bindKey provider (obligations.map (·.key)) raw.key := by
        intro r hr hEq
        have hMem := List.mem_map_of_mem (f := fun r : RawDecision =>
          bindKey provider (obligations.map (·.key)) r.key) hr
        rw [← hMap.2, hEq, ← hMap.1] at hMem
        exact (uniqueOn_cons.mp hUnique).1 hMem
      obtain ⟨hHeadCurrent, hTailCurrent⟩ := List.forall_mem_cons.mp hCurrent
      have hPop : popDecision (raw :: rest) (settle contract obligation raw.status detail).key = some (raw, rest) := by
        rw [hMap.1]
        exact popDecision_head hKeys hDistinct
      simp only [checkDecisions, hPop, demand, ok_bind]
      rw [require_bind_pos ⟨hHeadCurrent, rfl, hDetail, rfl⟩]
      exact ih hTail hTailCurrent

/-- An accepted judge output is a document whose decisions were all bound. -/
theorem parseSemanticOutput_ok {raw : Output} {contract : JudgeContract} {receipt : ProviderReceipt}
    {invocationId : String} {obligations : List AssertionReceipt} {result : SemanticResult}
    (h : parseSemanticOutput raw contract receipt invocationId obligations = .ok result) :
    ∃ document decisions rationale, raw.judgement = some document ∧
      parseDecisions contract receipt.provider obligations [] document.decisions = .ok decisions ∧
      encode (stripText document.rationale) = some rationale ∧
      result = ⟨contract.promptVersion, document.scores, rationale, decisions, raw.fingerprint⟩ := by
  simp only [parseSemanticOutput, bind_ok, require_ok, exists_const, demand_ok, pure_ok] at h
  obtain ⟨_, _, json, hJson, document, hDocument, _, _, _, _, decisions, hDecisions, rationale, hRationale, _,
    hResult⟩ := h
  have hJudgement : raw.judgement = some document := by
    rw [Output.judgement, hJson]
    exact hDocument
  exact ⟨document, decisions, rationale, hJudgement, hDecisions, hRationale, hResult.symm⟩

end QsAi
