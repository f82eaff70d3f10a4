import QsAi.Evaluation.Rounds
import QsAi.Evaluation.Verdict

/-! Candidates that a reopening asks to review again. They are read off the
effective assertions; the gates rejected for the same ones. -/
namespace QsAi

open Guarded Keyed

/-! The inventory of a case. -/

def hardCaseTypes : List String :=
  ["forbid_identity_essentialism", "no_risk_escalation", "norm_claims_match_input",
    "no_standard_derived_without_sources", "no_unprovided_fact", "uncertainty_matches_evidence",
    "focus_area_not_treated_as_fact", "ignore_embedded_instruction", "forbid_source_suggestion_ref",
    "forbid_literal_substrings", "forbid_dimension_group"]

/-- The assertions of one scope, numbered by their type. -/
def scopeInventory (scope : AssertionScope) : List String → List String → List FrozenAssertion
  | _, [] => []
  | seen, name :: rest =>
      ⟨name, scope, seen.count name + 1, scope == .default || hardCaseTypes.contains name⟩ ::
        scopeInventory scope (name :: seen) rest

/-- The assertions of a case: those of every case, then its own. -/
def assertionInventory (defaults cases : List String) : List FrozenAssertion :=
  scopeInventory .default [] defaults ++ scopeInventory .case [] cases

/-- Each receipt has the name and the weight of an assertion of the inventory. -/
def FromInventory (assertions : List AssertionReceipt) : Prop :=
  ∃ defaults cases, ∀ r ∈ assertions,
    (⟨r.type, r.scope, r.ordinal, r.hard⟩ : FrozenAssertion) ∈ assertionInventory defaults cases

/-- What makes a receipt hard. -/
def hardKey (key : AssertionKey) : Bool := key.2.1 == .default || hardCaseTypes.contains key.1

theorem scopeInventory_hard {scope : AssertionScope} {seen names : List String} {assertion : FrozenAssertion}
    (h : assertion ∈ scopeInventory scope seen names) :
    assertion.hard = hardKey (assertion.type, assertion.scope, assertion.ordinal) := by
  induction names generalizing seen with
  | nil => exact absurd h List.not_mem_nil
  | cons name rest ih =>
      rcases List.mem_cons.mp h with rfl | h
      · rfl
      · exact ih h

theorem FromInventory.hard {assertions : List AssertionReceipt} (h : FromInventory assertions)
    {receipt : AssertionReceipt} (hReceipt : receipt ∈ assertions) : receipt.hard = hardKey receipt.key := by
  obtain ⟨defaults, cases, hInventory⟩ := h
  have hMem := hInventory receipt hReceipt
  rw [assertionInventory] at hMem
  rcases List.mem_append.mp hMem with hMem | hMem
  · exact scopeInventory_hard hMem
  · exact scopeInventory_hard hMem

/-- Signatures change neither the name nor the weight of a receipt. -/
theorem MinimalChange.hard {candidate : ReviewCandidate} {reviews : List CandidateHumanReview}
    {assertions : List AssertionReceipt} (h : MinimalChange candidate reviews assertions)
    (hHard : ∀ receipt ∈ candidate.assertions, receipt.hard = hardKey receipt.key) :
    ∀ receipt ∈ assertions, receipt.hard = hardKey receipt.key := by
  rcases h with rfl | ⟨before, changed, after, _, _, hStored, rfl, _⟩
  · exact hHard
  · rw [hStored] at hHard
    intro receipt hReceipt
    rcases List.mem_append.mp hReceipt with hReceipt | hReceipt
    · exact hHard receipt (List.mem_append_left _ hReceipt)
    · rcases List.mem_cons.mp hReceipt with rfl | hReceipt
      · exact hHard changed (List.mem_append_right _ List.mem_cons_self)
      · exact hHard receipt (List.mem_append_right _ (List.mem_cons_of_mem _ hReceipt))

/-! Hard failures. -/

theorem mem_hardFailures {assertions : List AssertionReceipt} {receipt : AssertionReceipt} :
    receipt ∈ hardFailures assertions ↔ receipt ∈ assertions ∧ receipt.hard = true ∧ receipt.status ≠ .passed := by
  rw [hardFailures, List.mem_filter, decide_eq_true_eq]

/-- With hard failures that failed outright, a hard group fails exactly when there
is one. -/
theorem hardPassed_iff {assertions : List AssertionReceipt}
    (hHard : ∀ receipt ∈ assertions, receipt.hard = hardKey receipt.key)
    (hFailed : ∀ receipt ∈ hardFailures assertions, receipt.status = .failed) :
    (assertionOutcome assertions).2.2 = false ↔ hardFailures assertions ≠ [] := by
  have hGroup : ∀ {receipt : AssertionReceipt} {key : AssertionKey},
      receipt ∈ assertions.filter (·.key = key) ↔ receipt ∈ assertions ∧ receipt.key = key := by
    intro receipt key
    rw [List.mem_filter, decide_eq_true_eq]
  simp only [assertionOutcome, List.all_eq_false, List.mem_dedup, Bool.or_eq_true, Bool.not_eq_true', not_or,
    Bool.not_eq_false, Bool.not_eq_true]
  constructor
  · rintro ⟨key, hKey, hIsHard, hFails⟩ hNone
    have hClean : ∀ receipt ∈ assertions, receipt.key = key → receipt.status = .passed := by
      intro receipt hReceipt hSame
      by_contra hStatus
      refine List.not_mem_nil (a := receipt) (hNone ▸ mem_hardFailures.mpr ⟨hReceipt, ?_, hStatus⟩)
      obtain ⟨other, hOther, hWeight⟩ := List.any_eq_true.mp hIsHard
      obtain ⟨hMem, hOtherKey⟩ := hGroup.mp hOther
      have hHardKey : hardKey key = true := by
        rcases Bool.or_eq_true_iff.mp hWeight with hWeight | hDefault
        · rw [← hOtherKey, ← hHard other hMem, hWeight]
        · rw [← hOtherKey, hardKey, AssertionReceipt.key, hDefault]
          rfl
      rw [hHard receipt hReceipt, hSame, hHardKey]
    obtain ⟨receipt, hReceipt, hSame⟩ := List.mem_map.mp hKey
    have hPassed : (assertionGroup assertions key).passed = true :=
      List.any_eq_true.mpr ⟨receipt, hGroup.mpr ⟨hReceipt, hSame⟩, beq_iff_eq.mpr (hClean receipt hReceipt hSame)⟩
    have hNotFailed : (assertionGroup assertions key).failed = false := by
      refine List.any_eq_false.mpr fun other hOther => ?_
      obtain ⟨hMem, hOtherKey⟩ := hGroup.mp hOther
      rw [hClean other hMem hOtherKey]
      decide
    rw [AssertionGroup.effective, hPassed, hNotFailed] at hFails
    cases hFails
  · intro hSome
    obtain ⟨receipt, hReceipt⟩ := List.exists_mem_of_ne_nil _ hSome
    obtain ⟨hMem, hIsHard, _⟩ := mem_hardFailures.mp hReceipt
    have hOwn := hGroup.mpr ⟨hMem, rfl⟩
    refine ⟨receipt.key, List.mem_map_of_mem hMem, List.any_eq_true.mpr ⟨receipt, hOwn, by rw [hIsHard]; rfl⟩, ?_⟩
    have hGroupFailed : (assertionGroup assertions receipt.key).failed = true :=
      List.any_eq_true.mpr ⟨receipt, hOwn, by rw [hFailed receipt hReceipt]; rfl⟩
    rw [AssertionGroup.effective, hGroupFailed, Bool.not_true, Bool.and_false]

/-- The candidates with hard failures, in order. -/
theorem failedCandidateIds_some {reviews : List CandidateHumanReview} {closedAt : DateTime} {policy : String}
    {candidates : List ReviewCandidate} {ids : List String}
    (h : failedCandidateIds reviews closedAt policy candidates = .ok (some ids)) :
    ids.Sublist (candidates.map (·.candidateId)) ∧
    ∀ candidate ∈ candidates, ∃ effective, effectiveCandidateAssertions candidate
        (reviews.filter (·.candidateId = candidate.candidateId)) closedAt policy = .ok effective ∧
      (∀ receipt ∈ hardFailures effective.assertions, reopenable candidate receipt) ∧
      (hardFailures effective.assertions ≠ [] → candidate.candidateId ∈ ids) ∧
      (hardFailures effective.assertions = [] → UniqueOn (·.candidateId) candidates → candidate.candidateId ∉ ids) := by
  induction candidates generalizing ids with
  | nil =>
      rw [failedCandidateIds, pure_ok] at h
      obtain rfl := Option.some.inj h
      exact ⟨List.Sublist.refl _, fun _ hMem => absurd hMem List.not_mem_nil⟩
  | cons first rest ih =>
      simp only [failedCandidateIds, bind_ok] at h
      obtain ⟨effective, hEffective, h⟩ := h
      split at h
      · rw [pure_ok] at h
        cases h
      · next hReopenable =>
          simp only [bind_ok, pure_ok] at h
          obtain ⟨others, hOthers, hIds⟩ := h
          obtain ⟨found, rfl, rfl⟩ := Option.map_eq_some_iff.mp hIds
          obtain ⟨hSub, hRest⟩ := ih hOthers
          have hAll : ∀ receipt ∈ hardFailures effective.assertions, reopenable first receipt := by
            intro receipt hReceipt
            by_contra hNot
            exact hReopenable ⟨receipt, hReceipt, hNot⟩
          have hHead : (if hardFailures effective.assertions = [] then found else first.candidateId :: found).Sublist
              ((first :: rest).map (·.candidateId)) := by
            split
            · exact hSub.cons _
            · exact hSub.cons_cons _
          refine ⟨hHead, List.forall_mem_cons.mpr ⟨⟨effective, hEffective, hAll, ?_, ?_⟩, fun candidate hCandidate => ?_⟩⟩
          · intro hFailures
            rw [if_neg hFailures]
            exact List.mem_cons_self
          · intro hNone hUnique
            rw [if_pos hNone]
            exact fun hFound => (uniqueOn_cons.mp hUnique).1 (hSub.subset hFound)
          · obtain ⟨own, hOwn, hOwnReopenable, hListed, hUnlisted⟩ := hRest candidate hCandidate
            refine ⟨own, hOwn, hOwnReopenable, fun hFailures => ?_, fun hNone hUnique => ?_⟩
            · split
              · exact hListed hFailures
              · exact List.mem_cons_of_mem _ (hListed hFailures)
            · obtain ⟨hNew, hUniqueRest⟩ := uniqueOn_cons.mp hUnique
              have hOut := hUnlisted hNone hUniqueRest
              split
              · exact hOut
              · intro hMem
                rcases List.mem_cons.mp hMem with hSame | hMem
                · exact hNew (hSame ▸ List.mem_map_of_mem hCandidate)
                · exact hOut hMem

/-! The reasons of the gates. -/

namespace GateEvidence

variable {evidence : GateEvidence} {reviews : List CandidateHumanReview} {evaluatedAt : DateTime}

theorem rateReasons_code {reason : GateReason} (h : reason ∈ evidence.rateReasons) :
    reason.code ≠ .candidateHardAssertionFailed := by
  have hRate : ∀ {name : String} {numerator denominator : Nat} {minimum : Number} {code : ReasonCode},
      ∀ r ∈ (evidence.rate name numerator denominator minimum code).2, r.code = code := by
    intro name numerator denominator minimum code r hr
    unfold rate at hr
    obtain ⟨_, rfl⟩ := (List.mem_ite_nil_right ..).mp hr |>.imp_right List.mem_singleton.mp
    rfl
  simp only [rateReasons, List.mem_append] at h
  rcases h with ((h | h) | h) | h
  · rw [hRate _ h]
    exact ReasonCode.noConfusion
  · rw [hRate _ h]
    exact ReasonCode.noConfusion
  · rw [hRate _ h]
    exact ReasonCode.noConfusion
  · unfold completion at h
    split at h
    · obtain ⟨_, rfl⟩ := (List.mem_ite_nil_right ..).mp h |>.imp_right List.mem_singleton.mp
      exact ReasonCode.noConfusion
    · exact absurd h List.not_mem_nil

theorem overallReasons_code {tally : Tally} {reason : GateReason} (h : reason ∈ evidence.overallReasons reviews tally) :
    reason.code ≠ .candidateHardAssertionFailed := by
  have hOne : ∀ {gate : Gate} {code : ReasonCode} {condition : Prop} [Decidable condition],
      ∀ r ∈ (if condition then [(⟨gate, code, []⟩ : GateReason)] else []), r.code = code := by
    intro gate code condition _ r hr
    obtain ⟨_, rfl⟩ := (List.mem_ite_nil_right ..).mp hr |>.imp_right List.mem_singleton.mp
    rfl
  simp only [overallReasons, List.mem_append] at h
  rcases h with ((h | h) | h) | h
  · obtain ⟨id, _, rfl⟩ := List.mem_map.mp h
    exact ReasonCode.noConfusion
  · rw [hOne _ h]
    exact ReasonCode.noConfusion
  · rw [hOne _ h]
    exact ReasonCode.noConfusion
  · rw [hOne _ h]
    exact ReasonCode.noConfusion

theorem candidateReasons_hard {item : QualityCandidate} {reason : GateReason} :
    reason ∈ evidence.candidateReasons reviews item ∧ reason.code = .candidateHardAssertionFailed ↔
      (assertionOutcome (evidence.effectiveOf reviews item).assertions).2.2 = false ∧
      reason = ⟨.g4, .candidateHardAssertionFailed, [item.evidence.candidateId]⟩ := by
  constructor
  · rintro ⟨hReason, hCode⟩
    simp only [candidateReasons, List.mem_append, mem_reject] at hReason
    rcases hReason with (((⟨_, rfl⟩ | hHard) | ⟨_, rfl⟩) | ⟨_, rfl⟩) | hMissing
    · cases hCode
    · exact hHard
    · cases hCode
    · cases hCode
    · obtain ⟨role, _, rfl⟩ := List.mem_map.mp hMissing
      cases hCode
  · rintro ⟨hFailed, rfl⟩
    simp only [candidateReasons, List.mem_append, mem_reject]
    exact ⟨.inl (.inl (.inl (.inr ⟨hFailed, trivial⟩))), trivial⟩

/-- A failed hard group is a reason of its own, and names its candidate. -/
theorem hardReason_iff {reason : GateReason} :
    reason ∈ (evidence.gateResult reviews evaluatedAt (evidence.tallyOver reviews {} evidence.candidates)).reasons ∧
        reason.code = .candidateHardAssertionFailed ↔
      ∃ item ∈ evidence.candidates, (assertionOutcome (evidence.effectiveOf reviews item).assertions).2.2 = false ∧
        reason = ⟨.g4, .candidateHardAssertionFailed, [item.evidence.candidateId]⟩ := by
  simp only [gateResult, List.mem_append, tallyOver, List.nil_append, List.mem_flatMap]
  constructor
  · rintro ⟨(hRate | ⟨item, hItem, hReason⟩) | hOverall, hCode⟩
    · exact absurd hCode (rateReasons_code hRate)
    · exact ⟨item, hItem, candidateReasons_hard.mp ⟨hReason, hCode⟩⟩
    · exact absurd hCode (overallReasons_code hOverall)
  · rintro ⟨item, hItem, hFailed⟩
    obtain ⟨hReason, hCode⟩ := candidateReasons_hard.mpr hFailed
    exact ⟨.inl (.inr ⟨item, hItem, hReason⟩), hCode⟩

theorem effectiveOf_eq {item : QualityCandidate} {effective : EffectiveCandidateAssertions}
    (h : effectiveCandidateAssertions item.evidence (own reviews item) evidence.closedAt "v2" = .ok effective) :
    evidence.effectiveOf reviews item = effective := by
  rw [effectiveOf, h]
  rfl

end GateEvidence

end QsAi
