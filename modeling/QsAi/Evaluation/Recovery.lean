import QsAi.Foundation.Keyed
import QsAi.Evaluation.Actions

/-! Manual decisions. An unknown result is settled by an audited resolution, a
broken judge contract by a one-execution exception; neither edits evidence. -/
namespace QsAi

open Guarded Keyed

inductive Decision
  | authorizeReplacement
  | cancelRun
deriving DecidableEq, Repr

/-- An audited decision about one unknown execution. -/
structure ResultUnknownResolution where
  executionId : String
  decision : Decision
  actor : String
  reason : String
  resolvedAt : DateTime
  audit : validId executionId = true ∧ validId actor = true ∧ validReason reason = true
deriving DecidableEq

structure UnknownExecution where
  executionId : String
  kind : ExecutionKind
  executionOrdinal : Nat
  finishedAt : DateTime
deriving DecidableEq

structure ResolutionProgress where
  status : RunStatus
  unresolvedCount : Nat
  resolutions : List ResultUnknownResolution
deriving DecidableEq

def findUnknown (unknowns : List UnknownExecution) (executionId : String) : Option UnknownExecution :=
  lookup (·.executionId) unknowns executionId

/-- A recorded decision that left the Run blocked. -/
def PriorMatches (unknowns : List UnknownExecution) (r : ResultUnknownResolution) : Prop :=
  (∃ e ∈ findUnknown unknowns r.executionId, e.finishedAt ≤ r.resolvedAt) ∧ r.decision ≠ .cancelRun

instance (unknowns : List UnknownExecution) (r : ResultUnknownResolution) : Decidable (PriorMatches unknowns r) :=
  inferInstanceAs (Decidable (_ ∧ _))

/-- Decide about one unknown execution, given all of them and the prior decisions. -/
def resolveUnknown (status : RunStatus) (unknowns : List UnknownExecution)
    (resolutions : List ResultUnknownResolution) (value : ResultUnknownResolution) (policy : ExecutionPolicy) :
    Except Rejection ResolutionProgress := do
  require (status = .blocked) (.invalid "Blocked Run required")
  require (UniqueOn (·.executionId) unknowns ∧ UniqueOn (·.executionId) resolutions)
    (.invalid "Duplicate execution or resolution evidence")
  require (∀ r ∈ resolutions, PriorMatches unknowns r) (.invalid "Prior resolution does not match a blocked Run")
  let target ← demand (findUnknown unknowns value.executionId)
    (.invalid "Unresolved execution and valid resolution time required")
  require (value.executionId ∉ resolutions.map (·.executionId) ∧ target.finishedAt ≤ value.resolvedAt)
    (.invalid "Unresolved execution and valid resolution time required")
  require (value.decision = .authorizeReplacement → target.executionOrdinal < policy.limit target.kind)
    (.invalid "Frozen recovery budget exhausted")
  let remaining := unknowns.length - resolutions.length - 1
  let next : RunStatus :=
    if value.decision = .cancelRun then .canceled
    else if remaining = 0 then .collecting else .blocked
  pure ⟨next, remaining, resolutions ++ [value]⟩

/-- Replay recorded decisions one after the other against the evidence. -/
def replayResolutions (unknowns : List UnknownExecution) (policy : ExecutionPolicy) :
    List ResultUnknownResolution → List ResultUnknownResolution → Except Rejection Unit
  | _, [] => pure ()
  | prior, value :: rest => do
      let result ← resolveUnknown .blocked unknowns prior value policy
      replayResolutions unknowns policy result.resolutions rest

/-- One decision is sound for the unknown execution it names. -/
def Decides (unknowns : List UnknownExecution) (policy : ExecutionPolicy) (r : ResultUnknownResolution) : Prop :=
  ∃ e ∈ unknowns, e.executionId = r.executionId ∧ e.finishedAt ≤ r.resolvedAt ∧
    (r.decision = .authorizeReplacement → e.executionOrdinal < policy.limit e.kind)

/-- An accepted decision in terms of the evidence, whatever order it comes in. -/
theorem resolveUnknown_ok {status : RunStatus} {unknowns : List UnknownExecution}
    {resolutions : List ResultUnknownResolution} {value : ResultUnknownResolution} {policy : ExecutionPolicy}
    {result : ResolutionProgress} :
    resolveUnknown status unknowns resolutions value policy = .ok result ↔
      status = .blocked ∧ UniqueOn (·.executionId) unknowns ∧ UniqueOn (·.executionId) resolutions ∧
      (∀ r ∈ resolutions, (∃ e ∈ unknowns, e.executionId = r.executionId ∧ e.finishedAt ≤ r.resolvedAt) ∧
        r.decision ≠ .cancelRun) ∧
      Decides unknowns policy value ∧ value.executionId ∉ resolutions.map (·.executionId) ∧
      result = ⟨if value.decision = .cancelRun then .canceled
          else if unknowns.length - resolutions.length - 1 = 0 then .collecting else .blocked,
        unknowns.length - resolutions.length - 1, resolutions ++ [value]⟩ := by
  simp only [resolveUnknown, bind_ok, require_ok, exists_const, demand_ok, pure_ok]
  constructor
  · rintro ⟨hStatus, ⟨hUnknowns, hPrior⟩, hMatches, target, hTarget, ⟨hNew, hTime⟩, hBudget, rfl⟩
    obtain ⟨hMem, hId⟩ := lookup_some hTarget
    refine ⟨hStatus, hUnknowns, hPrior, ?_, ⟨target, hMem, hId, hTime, hBudget⟩, hNew, rfl⟩
    intro r hr
    obtain ⟨⟨e, hFind, hResolved⟩, hDecision⟩ := hMatches r hr
    obtain ⟨hMem, hId⟩ := lookup_some hFind
    exact ⟨⟨e, hMem, hId, hResolved⟩, hDecision⟩
  · rintro ⟨hStatus, hUnknowns, hPrior, hMatches, ⟨target, hMem, hId, hTime, hBudget⟩, hNew, rfl⟩
    refine ⟨hStatus, ⟨hUnknowns, hPrior⟩, ?_, target, ?_, ⟨hNew, hTime⟩, hBudget, rfl⟩
    · intro r hr
      obtain ⟨⟨e, hMem, hId, hResolved⟩, hDecision⟩ := hMatches r hr
      exact ⟨⟨e, hUnknowns.lookup_iff.mpr ⟨hMem, hId⟩, hResolved⟩, hDecision⟩
    · exact hUnknowns.lookup_iff.mpr ⟨hMem, hId⟩

/-- What a whole accepted replay says about the decisions. -/
structure Resolved (unknowns : List UnknownExecution) (policy : ExecutionPolicy)
    (resolutions : List ResultUnknownResolution) : Prop where
  evidence : resolutions ≠ [] → UniqueOn (·.executionId) unknowns
  unique : UniqueOn (·.executionId) resolutions
  decides : ∀ r ∈ resolutions, Decides unknowns policy r
  continued : ∀ before r after, resolutions = before ++ r :: after → after ≠ [] → r.decision ≠ .cancelRun

theorem Resolved.nil (unknowns : List UnknownExecution) (policy : ExecutionPolicy) :
    Resolved unknowns policy [] :=
  ⟨fun h => absurd rfl h, List.nodup_nil, by simp, by simp⟩

/-- One more accepted decision keeps the history sound. -/
theorem Resolved.snoc {unknowns : List UnknownExecution} {policy : ExecutionPolicy}
    {resolutions : List ResultUnknownResolution} (h : Resolved unknowns policy resolutions)
    {value : ResultUnknownResolution} {result : ResolutionProgress}
    (hValue : resolveUnknown .blocked unknowns resolutions value policy = .ok result) :
    Resolved unknowns policy (resolutions ++ [value]) ∧ result.resolutions = resolutions ++ [value] := by
  obtain ⟨_, hUnknowns, hPrior, hMatches, hDecides, hNew, rfl⟩ := resolveUnknown_ok.mp hValue
  refine ⟨⟨fun _ => hUnknowns, ?_, ?_, ?_⟩, rfl⟩
  · exact hPrior.snoc hNew
  · intro r hr
    rcases List.mem_append.mp hr with hr | hr
    · exact h.decides r hr
    · rw [List.mem_singleton.mp hr]
      exact hDecides
  · intro before r after hSplit hAfter
    have hMem : r ∈ resolutions := by
      have hInit : after = after.dropLast ++ [after.getLast hAfter] := (List.dropLast_append_getLast hAfter).symm
      rw [hInit, ← List.cons_append, ← List.append_assoc] at hSplit
      have hEq := List.append_inj_left' hSplit rfl
      rw [hEq]
      simp
    exact (hMatches r hMem).2

private theorem Resolved.init {unknowns : List UnknownExecution} {policy : ExecutionPolicy}
    {prior rest : List ResultUnknownResolution} {value : ResultUnknownResolution}
    (h : Resolved unknowns policy (prior ++ value :: rest)) :
    ∃ result, resolveUnknown .blocked unknowns prior value policy = .ok result ∧
      result.resolutions = prior ++ [value] := by
  have hSub : (prior ++ [value]).Sublist (prior ++ value :: rest) :=
    (List.Sublist.refl prior).append ((List.nil_sublist rest).cons_cons value)
  obtain ⟨hPrior, hNew⟩ := (h.unique.sublist hSub).of_snoc
  refine ⟨_, resolveUnknown_ok.mpr ⟨rfl, h.evidence (by simp), hPrior, ?_, h.decides value (by simp), hNew, rfl⟩,
    rfl⟩
  · intro r hr
    obtain ⟨e, hMem, hId, hTime, _⟩ := h.decides r (List.mem_append_left _ hr)
    obtain ⟨before, after, rfl⟩ := List.append_of_mem hr
    exact ⟨⟨e, hMem, hId, hTime⟩, h.continued before r (after ++ value :: rest) (by simp) (by simp)⟩

/-- Replaying accepts exactly the sound histories. -/
theorem replayResolutions_ok {unknowns : List UnknownExecution} {policy : ExecutionPolicy}
    {prior rest : List ResultUnknownResolution} (hPrior : Resolved unknowns policy prior) :
    replayResolutions unknowns policy prior rest = .ok () ↔ Resolved unknowns policy (prior ++ rest) := by
  induction rest generalizing prior with
  | nil => simpa [replayResolutions, pure, Except.pure] using hPrior
  | cons value rest ih =>
      rw [replayResolutions, bind_ok]
      constructor
      · rintro ⟨result, hResult, hRest⟩
        obtain ⟨hNext, hEq⟩ := hPrior.snoc hResult
        rw [hEq, ih hNext] at hRest
        simpa using hRest
      · intro h
        obtain ⟨result, hResult, hEq⟩ := h.init
        obtain ⟨hNext, _⟩ := hPrior.snoc hResult
        refine ⟨result, hResult, ?_⟩
        rw [hEq, ih hNext]
        simpa using h

/-- Sound decisions stay sound when evidence is added or reordered. -/
theorem Resolved.mono {unknowns more : List UnknownExecution} {policy : ExecutionPolicy}
    {resolutions : List ResultUnknownResolution} (h : Resolved unknowns policy resolutions)
    (hUnique : UniqueOn (·.executionId) more) (hSub : unknowns ⊆ more) : Resolved more policy resolutions := by
  refine ⟨fun _ => hUnique, h.unique, ?_, h.continued⟩
  intro r hr
  obtain ⟨e, hMem, hRest⟩ := h.decides r hr
  exact ⟨e, hSub hMem, hRest⟩

/-! Contract recoveries. -/

def recoveryVersion : String := "semantic-contract-recovery/v1"

/-- A one-execution exception for a judge call with a broken contract. The fixed
instruction it adds to the prompt is identified by its version. -/
structure ContractRecovery where
  executionId : String
  candidateId : String
  candidateFingerprint : String
  outputFingerprint : String
  actor : String
  reason : String
  resolvedAt : DateTime
  audit : validId executionId = true ∧ validId candidateId = true ∧ validId actor = true ∧
    validFingerprint candidateFingerprint = true ∧ validFingerprint outputFingerprint = true ∧
    validReason reason = true
deriving DecidableEq

/-- The exception names exactly this failed judge call, with budget left. -/
def ContractRecovery.Targets (value : ContractRecovery) (target : SemanticCompletion) (policy : ExecutionPolicy) :
    Prop :=
  target.status = .failed ∧ contractFailure target.failure = true ∧
    target.failure.all (!·.resultUnknown) = true ∧ target.receipt ≠ none ∧
    target.normalizedOutput.isEmpty = false ∧ target.candidateId = value.candidateId ∧
    target.candidateOutputFingerprint = value.candidateFingerprint ∧
    target.outputFingerprint = value.outputFingerprint ∧ target.finishedAt ≤ value.resolvedAt ∧
    target.executionOrdinal < policy.semanticPerCandidate

instance (value : ContractRecovery) (target : SemanticCompletion) (policy : ExecutionPolicy) :
    Decidable (value.Targets target policy) :=
  inferInstanceAs (Decidable (_ ∧ _))

/-- Every later attempt for the candidate starts after the exception. -/
def ContractRecovery.Precedes (value : ContractRecovery) (target : SemanticCompletion)
    (semantics : List SemanticCompletion) : Prop :=
  ∀ s ∈ semantics, s.candidateId = target.candidateId → target.executionOrdinal < s.executionOrdinal →
    value.resolvedAt ≤ s.startedAt

instance (value : ContractRecovery) (target : SemanticCompletion) (semantics : List SemanticCompletion) :
    Decidable (value.Precedes target semantics) :=
  inferInstanceAs (Decidable (∀ s ∈ semantics, _))

/-- Check the exceptions one by one; each names another execution. -/
def checkRecoveries (semantics : List SemanticCompletion) (policy : ExecutionPolicy) :
    List String → List ContractRecovery → Except Rejection Unit
  | _, [] => pure ()
  | authorized, value :: rest => do
      let target ← demand (lookup (·.executionId) semantics value.executionId)
        (.invalid "Recovery requires matching contract failure and remaining budget")
      require (target.executionId ∉ authorized ∧ value.Targets target policy)
        (.invalid "Recovery requires matching contract failure and remaining budget")
      require (value.Precedes target semantics) (.invalid "Semantic retry precedes recovery authorization")
      checkRecoveries semantics policy (value.executionId :: authorized) rest

/-- The executions that the recorded exceptions authorize to repeat. -/
def validateRecoveries (values : List ContractRecovery) (semantics : List SemanticCompletion)
    (policy : ExecutionPolicy) : Except Rejection (List String) := do
  checkRecoveries semantics policy [] values
  pure (values.map (·.executionId))

/-- One exception is sound for the judge calls. -/
def Excepts (semantics : List SemanticCompletion) (policy : ExecutionPolicy) (value : ContractRecovery) : Prop :=
  ∃ target ∈ semantics, target.executionId = value.executionId ∧ value.Targets target policy ∧
    value.Precedes target semantics

theorem checkRecoveries_ok {semantics : List SemanticCompletion} {policy : ExecutionPolicy}
    {authorized : List String} {values : List ContractRecovery}
    (hUnique : UniqueOn (·.executionId) semantics) :
    checkRecoveries semantics policy authorized values = .ok () ↔
      UniqueOn (·.executionId) values ∧ (∀ value ∈ values, value.executionId ∉ authorized) ∧
      ∀ value ∈ values, Excepts semantics policy value := by
  induction values generalizing authorized with
  | nil => simp [checkRecoveries, pure, Except.pure]
  | cons value rest ih =>
      simp only [checkRecoveries, bind_ok, demand_ok, require_ok, exists_const, ih, uniqueOn_cons,
        List.forall_mem_cons]
      constructor
      · rintro ⟨target, hFind, ⟨hNew, hTargets⟩, hPrecedes, hRest, hFresh, hExcepts⟩
        obtain ⟨hMem, hId⟩ := lookup_some hFind
        refine ⟨⟨?_, hRest⟩, ⟨hId ▸ hNew, ?_⟩, ⟨target, hMem, hId, hTargets, hPrecedes⟩, hExcepts⟩
        · intro hDup
          obtain ⟨other, hOther, hEq⟩ := List.mem_map.mp hDup
          exact hFresh other hOther (hEq ▸ List.mem_cons_self)
        · exact fun other hOther hSeen => hFresh other hOther (List.mem_cons_of_mem _ hSeen)
      · rintro ⟨⟨hDup, hRest⟩, ⟨hNew, hFresh⟩, ⟨target, hMem, hId, hTargets, hPrecedes⟩, hExcepts⟩
        refine ⟨target, hUnique.lookup_iff.mpr ⟨hMem, hId⟩, ⟨hId ▸ hNew, hTargets⟩, hPrecedes, hRest, ?_, hExcepts⟩
        intro other hOther hSeen
        rcases List.mem_cons.mp hSeen with hEq | hSeen
        · exact hDup (hEq ▸ List.mem_map_of_mem hOther)
        · exact hFresh other hOther hSeen

/-- The recorded exceptions are accepted exactly when each of them is sound. -/
theorem validateRecoveries_ok {values : List ContractRecovery} {semantics : List SemanticCompletion}
    {policy : ExecutionPolicy} {recovered : List String} (hUnique : UniqueOn (·.executionId) semantics) :
    validateRecoveries values semantics policy = .ok recovered ↔
      recovered = values.map (·.executionId) ∧ UniqueOn (·.executionId) values ∧
      ∀ value ∈ values, Excepts semantics policy value := by
  simp only [validateRecoveries, bind_ok, pure_ok]
  constructor
  · rintro ⟨⟨⟩, hCheck, rfl⟩
    obtain ⟨hValues, _, hExcepts⟩ := (checkRecoveries_ok hUnique).mp hCheck
    exact ⟨rfl, hValues, hExcepts⟩
  · rintro ⟨rfl, hValues, hExcepts⟩
    exact ⟨(), (checkRecoveries_ok hUnique).mpr ⟨hValues, by simp, hExcepts⟩, rfl⟩

end QsAi
