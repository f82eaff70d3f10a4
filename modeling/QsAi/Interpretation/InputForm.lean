import QsAi.Foundation.Codec
import QsAi.Interpretation.InputClosure

/-! What is assembled from a report can be written and read back: every value of
the facts is one of the report, or is built from such values. -/
namespace QsAi

open Guarded PyJson

namespace ReportInput

/-- Members of an object that is written here are found by their names. -/
theorem item_record_cons (field name : String) (value : Value) (rest : List (String × Value)) :
    (record ((field, value) :: rest)).item name = if field = name then .ok value else (record rest).item name := by
  show demand (List.lookup (text name) ((text field, value) :: rest.map fun field => (text field.1, field.2))) Fault.key =
    if field = name then .ok value else demand (List.lookup (text name) (rest.map fun field => (text field.1, field.2))) Fault.key
  rw [List.lookup_cons]
  by_cases hName : field = name
  · subst hName
    rw [beq_self_eq_true, if_pos rfl]
    rfl
  · have hText : text name ≠ text field := fun h => hName (text_inj.mp h).symm
    rw [beq_false_of_ne hText, if_neg hName]

theorem record_wellFormed {fields : List (String × Value)} (hNames : (fields.map (·.1)).Nodup)
    (hValues : ∀ field ∈ fields, field.2.WellFormed) : (record fields).WellFormed := by
  rw [record, wellFormed_object, List.map_map]
  refine ⟨?_, ?_⟩
  · have hKeys : fields.map ((·.1) ∘ fun field : String × Value => (text field.1, field.2)) = (fields.map (·.1)).map text := by
      rw [List.map_map]
      rfl
    rw [hKeys]
    exact hNames.map fun a b h => text_inj.mp h
  · intro field hMem
    obtain ⟨source, hSource, rfl⟩ := List.mem_map.mp hMem
    exact hValues source hSource

theorem wellFormed_record {fields : List (String × Value)} :
    (record fields).WellFormed ↔ (fields.map (·.1)).Nodup ∧ ∀ field ∈ fields, field.2.WellFormed := by
  refine ⟨fun h => ?_, fun h => record_wellFormed h.1 h.2⟩
  rw [record, wellFormed_object, List.map_map] at h
  refine ⟨List.Nodup.of_map text ?_, fun field hMem => h.2 _ (List.mem_map_of_mem hMem)⟩
  rw [List.map_map]
  exact h.1

theorem number_wellFormed {value found : Value} {optional : Bool} (hWell : value.WellFormed)
    (h : number value optional = .ok found) : found.WellFormed := by
  unfold number at h
  split at h
  · split at h
    · cases h
      trivial
    · simp [invalidInput] at h
  · split at h
    · cases h
      trivial
    · cases h
  · cases h
    exact hWell
  · simp [invalidInput] at h

theorem optional_wellFormed (value : Option Text) : (optional value).WellFormed := by
  cases value <;> trivial

theorem score_wellFormed {value found : Value} (hWell : value.WellFormed) (h : score value = .ok found) :
    found.WellFormed := by
  unfold score at h
  split at h
  · cases h
    trivial
  simp only [bind_ok, native_ok, pure_ok] at h
  obtain ⟨kind, hKind, points, hPoints, tested, hTested, label, hLabel, maximum, hMaximum, bounded, hBounded, rfl⟩ := h
  apply record_wellFormed (by simp)
  simp only [List.forall_mem_cons, List.not_mem_nil, false_implies, implies_true, and_true]
  exact ⟨hWell.item hKind, number_wellFormed (hWell.item hPoints) hTested, hWell.item hLabel,
    number_wellFormed (hWell.item hMaximum) hBounded⟩

theorem level_wellFormed {value found : Value} (hWell : value.WellFormed) (h : level value = .ok found) :
    found.WellFormed := by
  unfold level at h
  split at h
  · cases h
    trivial
  simp only [bind_ok, native_ok] at h
  obtain ⟨code, hCode, label, hLabel, severity, hSeverity, h⟩ := h
  split at h
  · simp only [bind_ok, pure_ok] at h
    obtain ⟨shown, -, rfl⟩ := h
    apply record_wellFormed (by simp)
    simp only [List.forall_mem_cons, List.not_mem_nil, false_implies, implies_true, and_true]
    exact ⟨hWell.item hCode, trivial, hWell.item hSeverity⟩
  · cases h
    apply record_wellFormed (by simp)
    simp only [List.forall_mem_cons, List.not_mem_nil, false_implies, implies_true, and_true]
    exact ⟨hWell.item hCode, hWell.item hLabel, hWell.item hSeverity⟩

theorem norm_wellFormed {value found : Value} (hWell : value.WellFormed) (h : norm value = .ok found) :
    found.WellFormed := by
  unfold norm at h
  split at h
  · cases h
    trivial
  simp only [bind_ok, native_ok, pure_ok] at h
  obtain ⟨a, ha, b, hb, c, hc, d, hd, e, he, f, hf, g, hg, _, -, rfl⟩ := h
  apply record_wellFormed (by simp)
  simp only [List.forall_mem_cons, List.not_mem_nil, false_implies, implies_true, and_true]
  exact ⟨hWell.item ha, hWell.item hb, hWell.item hc, hWell.item hd, hWell.item he, hWell.item hf, hWell.item hg⟩

theorem getD_wellFormed {value fallback : Value} {found : Option Value} {name : String} (hWell : value.WellFormed)
    (hFallback : fallback.WellFormed) (h : value.get name = .ok found) : (found.getD fallback).WellFormed := by
  cases found with
  | none => exact hFallback
  | some inner => exact hWell.get h inner rfl

theorem modelResult_wellFormed {value found : Value} (hWell : value.WellFormed) (h : modelResult value = .ok found) :
    found.WellFormed := by
  unfold modelResult at h
  split at h
  · cases h
    trivial
  simp only [bind_ok, native_ok] at h
  obtain ⟨_, -, percent, hPercent, h⟩ := h
  split at h
  · simp [invalidInput] at h
  simp only [bind_ok, native_ok, pure_ok] at h
  obtain ⟨kind, hKind, typeCode, hTypeCode, typeName, hTypeName, oneLiner, hOneLiner, commentary, hCommentary, rfl⟩ := h
  apply record_wellFormed (by simp)
  simp only [List.forall_mem_cons, List.not_mem_nil, false_implies, implies_true, and_true]
  exact ⟨hWell.item hKind, hWell.item hTypeCode, hWell.item hTypeName, hWell.item hOneLiner,
    getD_wellFormed hWell trivial hPercent, getD_wellFormed hWell trivial hCommentary⟩

/-! Facts. -/

theorem projected_wellFormed {policy : InputPolicy} {refs : List (Text × Text)} {collected : Collected} {d : Value}
    {code ownRef : Text} {projected : ProjectedDimension} (hWell : d.WellFormed)
    (h : project policy refs collected d code ownRef = .ok projected) : projected.value.WellFormed := by
  simp only [project, bind_ok, native_ok] at h
  obtain ⟨_, -, _, -, _, -, _, -, _, -, _, -, role, hRole, _, -, _, -, raw, hRaw, rawScore, hRawScore, maximum, hMaximum,
    maxScore, hMaxScore, derived, hDerived, items, hItems, derivedScores, hDerivedScores, found, hFound, shown, hShown, h⟩ := h
  have hScores : ∀ item ∈ derivedScores, item.WellFormed := by
    intro item hMem
    obtain ⟨source, hSource, hScore⟩ := mem_mapM hDerivedScores hMem
    exact score_wellFormed ((hWell.item hDerived).elements hItems source hSource) hScore
  have hRawWell := number_wellFormed (hWell.item hRaw) hRawScore
  have hMaxWell := number_wellFormed (hWell.item hMaximum) hMaxScore
  have hLevelWell := level_wellFormed (hWell.item hFound) hShown
  have hRoleWell := hWell.item hRole
  obtain ⟨normContext, hNorm, description, hProjected⟩ : ∃ normContext : Value, normContext.WellFormed ∧
      ∃ description, projected = ⟨projected.ref, projected.code, projected.kind, projected.name, role,
        projected.parentRef, projected.hierarchyLevel, projected.sortOrder, rawScore, maxScore, derivedScores, shown,
        normContext, description, projected.standardSuggestionRefs⟩ := by
    split at h
    · simp only [bind_ok, pure_ok, native_ok] at h
      obtain ⟨reference, hReference, normContext, hNorm, _, -, description, -, rfl⟩ := h
      exact ⟨normContext, norm_wellFormed (hWell.item hReference) hNorm, description, rfl⟩
    · simp only [bind_ok, pure_ok, native_ok] at h
      obtain ⟨_, rfl, _, -, description, -, rfl⟩ := h
      exact ⟨.null, trivial, description, rfl⟩
  rw [hProjected]
  apply record_wellFormed (by simp)
  simp only [List.forall_mem_cons, List.not_mem_nil, false_implies, implies_true, and_true]
  refine ⟨trivial, trivial, trivial, trivial, hRoleWell, optional_wellFormed _, trivial, trivial, ?_,
    wellFormed_array.mpr hScores, hLevelWell, hNorm, trivial, wellFormed_strings _⟩
  apply record_wellFormed (by simp)
  simp only [List.forall_mem_cons, List.not_mem_nil, false_implies, implies_true, and_true]
  exact ⟨trivial, hRawWell, trivial, hMaxWell⟩

/-- A suggestion is added at the end or not at all. -/
theorem append_result {refs : List (Text × Text)} {collected next : Collected} {ref : Text} {category content code : Value}
    (h : append refs collected ref category content code = .ok next) : next.result = collected.result ∨
      ∃ words dimensionRefs, next.result = collected.result ++ [⟨ref, category, words, dimensionRefs⟩] := by
  unfold append at h
  split at h
  · simp [invalidInput] at h
  rw [bind_ok] at h
  obtain ⟨words, -, h⟩ := h
  rw [bind_ok] at h
  obtain ⟨-, -, h⟩ := h
  split at h
  · cases h
    exact .inl rfl
  simp only at h
  split at h
  · cases h
    exact .inr ⟨words, [], rfl⟩
  split at h
  · split at h
    · cases h
      exact .inr ⟨words, _, rfl⟩
    · cases h
      exact .inl rfl
  · cases h
    exact .inl rfl

/-- Every category so far can be written. -/
def Collected.WellFormed (collected : Collected) : Prop := ∀ suggestion ∈ collected.result, suggestion.category.WellFormed

theorem append_wellFormed {refs : List (Text × Text)} {collected next : Collected} {ref : Text} {category content code : Value}
    (hCategory : category.WellFormed) (hWell : collected.WellFormed)
    (h : append refs collected ref category content code = .ok next) : next.WellFormed := by
  intro suggestion hMem
  rcases append_result h with hSame | ⟨words, dimensionRefs, hSame⟩
  · exact hWell suggestion (hSame ▸ hMem)
  · rw [hSame, List.mem_append, List.mem_singleton] at hMem
    rcases hMem with hMem | rfl
    · exact hWell suggestion hMem
    · exact hCategory

theorem reportSuggestions_wellFormed {refs : List (Text × Text)} {entries : List Value} {indices : List Int}
    {collected next : Collected} (hEntries : ∀ entry ∈ entries, entry.WellFormed) (hWell : collected.WellFormed)
    (h : reportSuggestions refs indices collected entries = .ok next) : next.WellFormed := by
  induction entries generalizing indices collected with
  | nil =>
      cases h
      exact hWell
  | cons entry entries ih =>
      rw [reportSuggestions, bind_ok] at h
      obtain ⟨⟨nextIndices, added⟩, hStep, h⟩ := h
      obtain ⟨hEntry, hRest⟩ := List.forall_mem_cons.mp hEntries
      refine ih hRest ?_ h
      rw [reportSuggestion, bind_ok] at hStep
      obtain ⟨index, -, hStep⟩ := hStep
      split at hStep
      · split at hStep
        · simp [invalidInput] at hStep
        simp only [bind_ok, native_ok, pure_ok, Prod.mk.injEq] at hStep
        obtain ⟨_, -, category, hCategory, _, -, _, -, _, hAppend, -, rfl⟩ := hStep
        exact append_wellFormed (hEntry.item hCategory) hWell hAppend
      · simp [invalidInput] at hStep

theorem dimensionSuggestions_wellFormed {refs : List (Text × Text)} {dimensions : List Value} {collected next : Collected}
    (hWell : collected.WellFormed) (h : dimensions.foldlM (dimensionSuggestion refs) collected = .ok next) :
    next.WellFormed := by
  induction dimensions generalizing collected with
  | nil =>
      cases h
      exact hWell
  | cons d dimensions ih =>
      rw [List.foldlM_cons, bind_ok] at h
      obtain ⟨added, hStep, h⟩ := h
      refine ih ?_ h
      simp only [dimensionSuggestion, bind_ok, native_ok] at hStep
      obtain ⟨_, -, _, -, hStep⟩ := hStep
      split at hStep
      · cases hStep
        exact hWell
      · simp only [bind_ok, native_ok] at hStep
        obtain ⟨_, -, _, -, _, -, hAppend⟩ := hStep
        refine append_wellFormed ?_ hWell hAppend
        trivial

theorem suggestions_wellFormed {snapshot : Value} {refs : List (Text × Text)} {collected : Collected}
    (hWell : snapshot.WellFormed) (h : suggestions snapshot refs = .ok collected) : collected.WellFormed := by
  simp only [suggestions, bind_ok, native_ok] at h
  obtain ⟨reported, hReported, entries, hEntries, fromReport, hReport, _, -, _, -, hDimensions⟩ := h
  refine dimensionSuggestions_wellFormed ?_ hDimensions
  exact reportSuggestions_wellFormed ((hWell.item hReported).elements hEntries)
    (fun _ hMem => absurd hMem List.not_mem_nil) hReport

theorem suggestion_wellFormed {suggestion : Suggestion} (h : suggestion.category.WellFormed) : suggestion.value.WellFormed := by
  apply record_wellFormed (by simp)
  simp only [List.forall_mem_cons, List.not_mem_nil, false_implies, implies_true, and_true]
  exact ⟨trivial, h, trivial, wellFormed_strings _⟩

/-- The values of some members, each under its name. -/
theorem members_wellFormed {value : Value} {names : List String} {fields : List (String × Value)} (hNames : names.Nodup)
    (hWell : value.WellFormed) (h : (names.mapM fun name => do
      let found ← native (value.item name)
      pure (name, found) : Assembly _) = .ok fields) : (record fields).WellFormed := by
  have hStep : ∀ {name : String} {field : String × Value}, (do
      let found ← native (value.item name)
      pure (name, found) : Assembly _) = .ok field → field.1 = name ∧ field.2.WellFormed := by
    intro name field hField
    simp only [bind_ok, native_ok, pure_ok] at hField
    obtain ⟨found, hFound, rfl⟩ := hField
    exact ⟨rfl, hWell.item hFound⟩
  apply record_wellFormed
  · have hSame : names = fields.map (·.1) := by
      have hPairs := (mapM_ok _ _ _).mp h
      clear h hNames
      induction hPairs with
      | nil => rfl
      | cons hField _ ih => rw [List.map_cons, (hStep hField).1, ← ih]
    exact hSame ▸ hNames
  · intro field hMem
    obtain ⟨name, -, hField⟩ := mem_mapM h hMem
    exact (hStep hField).2

theorem scaleFacts_wellFormed {snapshot : Value} {policy : InputPolicy} {facts : ScaleFacts} (hWell : snapshot.WellFormed)
    (h : scaleFacts snapshot policy = .ok facts) : facts.value.WellFormed := by
  simp only [scaleFacts, bind_ok, native_ok] at h
  obtain ⟨model, hModel, runtime, hRuntime, _, -, _, -, _, -, dimensions, hDimensions, listed, hListed, coded, hCoded,
    selected, hSelected, collected, hCollected, projected, hProjected, decision, hDecision, modelFields, hModelFields,
    primary, hPrimary, shownPrimary, hShownPrimary, overall, hOverall, shownOverall, hShownOverall, conclusion,
    hConclusion, h⟩ := h
  have hSource : ∀ d ∈ selected, d.2.2.WellFormed := by
    intro d hMem
    have hCodes := codedDimensions_ok hCoded
    have hCodedMem := ((selectedDimensions_ok hCodes.distinct hSelected).source d hMem).1
    have hListedMem : d.2.2 ∈ listed := by
      rw [← hCodes.covers]
      exact List.mem_map.mpr ⟨_, hCodedMem, rfl⟩
    exact (hWell.item hDimensions).elements hListed _ hListedMem
  have hProjectedWell : ∀ d ∈ projected, d.value.WellFormed := by
    intro d hMem
    obtain ⟨source, hSourceMem, hStep⟩ := mem_mapM hProjected hMem
    exact projected_wellFormed (hSource source hSourceMem) hStep
  have hSuggestions := suggestions_wellFormed hWell hCollected
  have hRuntimeWell : (record [("decision_kind", decision)]).WellFormed := by
    apply record_wellFormed (by simp)
    simp only [List.forall_mem_cons, List.not_mem_nil, false_implies, implies_true, and_true]
    exact (hWell.item hRuntime).item hDecision
  have hModelWell : (record modelFields).WellFormed := members_wellFormed (by decide) (hWell.item hModel) hModelFields
  have hOverallWell : (record [("primary_score", shownPrimary), ("level", shownOverall),
      ("standard_conclusion", conclusion)]).WellFormed := by
    apply record_wellFormed (by simp)
    simp only [List.forall_mem_cons, List.not_mem_nil, false_implies, implies_true, and_true]
    exact ⟨score_wellFormed (hWell.item hPrimary) hShownPrimary, level_wellFormed (hWell.item hOverall) hShownOverall,
      hWell.item hConclusion⟩
  obtain ⟨result, hResult, hFacts⟩ : ∃ result : Value, result.WellFormed ∧ facts = ⟨record [("decision_kind", decision)],
      record modelFields, record [("primary_score", shownPrimary), ("level", shownOverall),
        ("standard_conclusion", conclusion)], projected.insertionSort (before · ·), collected.result, result⟩ := by
    split at h
    · simp only [bind_ok, pure_ok, native_ok] at h
      obtain ⟨extra, hExtra, result, hResult, rfl⟩ := h
      exact ⟨result, modelResult_wellFormed (hWell.item hExtra) hResult, rfl⟩
    · simp only [bind_ok, pure_ok] at h
      obtain ⟨_, rfl, rfl⟩ := h
      exact ⟨.null, trivial, rfl⟩
  rw [hFacts]
  apply record_wellFormed (by simp)
  simp only [List.forall_mem_cons, List.not_mem_nil, false_implies, implies_true, and_true]
  refine ⟨hRuntimeWell, hModelWell, hOverallWell, ?_, ?_, hResult⟩
  · rw [wellFormed_array]
    intro item hMem
    obtain ⟨d, hd, rfl⟩ := List.mem_map.mp hMem
    exact hProjectedWell d ((List.perm_insertionSort _ _).mem_iff.mp hd)
  · rw [wellFormed_array]
    intro item hMem
    obtain ⟨suggestion, hListedMem, rfl⟩ := List.mem_map.mp hMem
    exact suggestion_wellFormed (hSuggestions suggestion hListedMem)

theorem context_wellFormed (locale : Text) (focus : List Text) : (context locale focus).WellFormed := by
  apply record_wellFormed (by simp)
  simp only [List.forall_mem_cons, List.not_mem_nil, false_implies, implies_true, and_true]
  exact ⟨trivial, trivial, trivial, trivial, wellFormed_strings _⟩

/-- What is shown to the provider of a report: its context and its facts. -/
def scalePayload (locale : Text) (focus : List Text) (facts : ScaleFacts) : Value :=
  record [("context", context locale focus), ("facts", facts.value)]

/-- An assembled report shows its facts to the provider. -/
theorem assembleScale_payload {library : Library} {snapshot : Value} {policy : InputPolicy} {locale : Text}
    {focus : List Text} {input : AssembledInput} (h : assembleScale library snapshot policy locale focus = .ok input) :
    ∃ facts, scaleFacts snapshot policy = .ok facts ∧
      dumps compact false (some library.writeDepth) (scalePayload locale focus facts) = .ok input.providerPayload := by
  simp only [assembleScale, bind_ok, native_ok] at h
  obtain ⟨_, -, h⟩ := h
  split at h
  · simp [invalidInput] at h
  rw [bind_ok] at h
  obtain ⟨_, -, h⟩ := h
  split at h
  · simp [invalidInput] at h
  simp only [bind_ok, native_ok] at h
  obtain ⟨_, -, facts, hFacts, _, -, _, -, h⟩ := h
  simp only [sealInput, json, bind_ok, native_ok, pure_ok] at h
  obtain ⟨_, -, _, -, provider, hProvider, rfl⟩ := h
  exact ⟨facts, hFacts, hProvider⟩

/-- The provider's payload is read back as it was written. -/
theorem loads_scalePayload {library : Library} {snapshot : Value} {policy : InputPolicy} {locale : Text}
    {focus : List Text} {input : AssembledInput} (hWell : snapshot.WellFormed)
    (h : assembleScale library snapshot policy locale focus = .ok input) {depth : Option Nat} {payload : Value}
    (hLoad : loads overwrite depth input.providerPayload = .ok payload) :
    ∃ facts, scaleFacts snapshot policy = .ok facts ∧ payload = scalePayload locale focus facts := by
  obtain ⟨facts, hFacts, hDump⟩ := assembleScale_payload h
  refine ⟨facts, hFacts, loads_of_dumps ?_ hDump hLoad⟩
  apply record_wellFormed (by simp)
  simp only [List.forall_mem_cons, List.not_mem_nil, false_implies, implies_true, and_true]
  exact ⟨context_wellFormed locale focus, scaleFacts_wellFormed hWell hFacts⟩

end ReportInput

end QsAi
