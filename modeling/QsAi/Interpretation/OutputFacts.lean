import QsAi.Interpretation.InputForm
import QsAi.Interpretation.Output

/-! What an output can refer to. The references that the gates allow are those
of the assembled facts, and each of them is the reference of exactly one fact. -/
namespace QsAi

open Guarded PyJson ReportInput

namespace ReportOutput

/-- The facts of a payload as the gates read them. -/
def factsOf (facts : ScaleFacts) : Facts :=
  ⟨facts.dimensions.map fun d => (d.ref, d.value), facts.suggestions.map (·.ref), facts.modelResult⟩

theorem refOf_dimension (d : ProjectedDimension) : refOf d.value = .ok d.ref := by
  rw [refOf, ProjectedDimension.value, item_record_cons, if_pos rfl]
  rfl

theorem refOf_suggestion (suggestion : Suggestion) : refOf suggestion.value = .ok suggestion.ref := by
  rw [refOf, Suggestion.value, item_record_cons, if_pos rfl]
  rfl

/-- The gates read back the facts that were assembled. -/
theorem readFacts_scalePayload {locale : Text} {focus : List Text} {facts : ScaleFacts}
    (hDistinct : (facts.dimensions.map (·.ref)).Nodup) :
    readFacts (scalePayload locale focus facts) = .ok (factsOf facts) := by
  have hFacts : (scalePayload locale focus facts).item "facts" = .ok facts.value := by
    simp [scalePayload, item_record_cons]
  have hDimensions : facts.value.item "dimensions" = .ok (.array (facts.dimensions.map ProjectedDimension.value)) := by
    simp [ScaleFacts.value, item_record_cons]
  have hSuggestions : facts.value.item "standard_suggestions" = .ok (.array (facts.suggestions.map Suggestion.value)) := by
    simp [ScaleFacts.value, item_record_cons]
  have hResult : facts.value.item "model_result" = .ok facts.modelResult := by
    simp [ScaleFacts.value, item_record_cons]
  have hRefs : (facts.dimensions.map ProjectedDimension.value).mapM refOf = .ok (facts.dimensions.map (·.ref)) :=
    mapM_map fun d _ => refOf_dimension d
  have hNames : (facts.suggestions.map Suggestion.value).mapM refOf = .ok (facts.suggestions.map (·.ref)) :=
    mapM_map fun suggestion _ => refOf_suggestion suggestion
  have hZip : (facts.dimensions.map (·.ref)).zip (facts.dimensions.map ProjectedDimension.value) =
      facts.dimensions.map fun d => (d.ref, d.value) := List.zip_map' ..
  have hDict : (facts.dimensions.map fun d => (d.ref, d.value)).foldl (fun dict entry => insert dict entry.1 entry.2) [] =
      facts.dimensions.map fun d => (d.ref, d.value) := by
    rw [foldl_insert (by simpa [Function.comp_def] using hDistinct), List.nil_append]
  rw [readFacts, hFacts, ok_bind, hDimensions, ok_bind, Value.elements, ok_bind, hRefs, ok_bind, hSuggestions, ok_bind,
    Value.elements, ok_bind, hNames, ok_bind, hResult, ok_bind, hZip, hDict]
  rfl

/-! Facts by their references. -/

/-- Something an output can refer to. -/
inductive Fact
  | dimension (d : ProjectedDimension)
  | standardSuggestion (suggestion : Suggestion)
  | overallResult (value : Value)
  | modelResult (value : Value)

/-- Every fact with its reference. -/
def named (facts : ScaleFacts) : List (Text × Fact) :=
  facts.dimensions.map (fun d => (d.ref, .dimension d)) ++
    (facts.suggestions.map (fun suggestion => (suggestion.ref, .standardSuggestion suggestion)) ++
      [(text "overall_result", .overallResult facts.overallResult), (text "model_result", .modelResult facts.modelResult)])

/-- A reference of the kind names a fact of the facts. -/
theorem named_of_allowed {facts : ScaleFacts} {kind : EvidenceKind} {ref : Text} (h : ref ∈ (factsOf facts).allowed kind) :
    ref ∈ (named facts).map (·.1) := by
  rw [named, List.map_append, List.map_append, List.map_map, List.map_map, List.mem_append, List.mem_append]
  cases kind with
  | dimension =>
      rw [Facts.allowed, factsOf, List.map_map] at h
      exact .inl h
  | standardSuggestion => exact .inr (.inl h)
  | overallResult =>
      rw [Facts.allowed, List.mem_singleton] at h
      exact .inr (.inr (h ▸ List.mem_cons_self))
  | modelResult =>
      simp only [Facts.allowed] at h
      split at h
      · cases h
      · rw [List.mem_singleton] at h
        exact .inr (.inr (h ▸ List.mem_cons_of_mem _ List.mem_cons_self))

theorem suggestionRef_head {policy : InputPolicy} {reported listed : List Value} {suggestion : Suggestion}
    (h : suggestion.OfSelected policy reported listed) : suggestion.ref.head? = some 115 := by
  cases h with
  | whole entry index code hEntry hIndex hCode hRef hNone hRefs => rw [hRef]; rfl
  | report entry index name hEntry hIndex hCode hRef hSelected => rw [hRef]; rfl
  | dimension entry name reference hEntry hCode hQuoted hRef hSelected => rw [hRef]; rfl

theorem dimensionRef_head {code ref : Text} (h : dimensionRef code = some ref) : ref.head? = some 100 := by
  obtain ⟨reference, -, rfl⟩ := Option.map_eq_some_iff.mp h
  rfl

/-- No two facts go by one reference. -/
theorem named_distinct {facts : ScaleFacts} {policy : InputPolicy} {reported listed : List Value}
    (h : facts.Closed policy reported listed) : ((named facts).map (·.1)).Nodup := by
  have hDimension : ∀ ref ∈ facts.dimensions.map (·.ref), ref.head? = some 100 := by
    intro ref hMem
    obtain ⟨d, hd, rfl⟩ := List.mem_map.mp hMem
    exact dimensionRef_head (h.named d hd)
  have hSuggestion : ∀ ref ∈ facts.suggestions.map (·.ref), ref.head? = some 115 := by
    intro ref hMem
    obtain ⟨suggestion, hListed, rfl⟩ := List.mem_map.mp hMem
    exact suggestionRef_head (h.selected suggestion hListed)
  have hResult : ∀ ref ∈ [text "overall_result", text "model_result"], ref.head? ≠ some 115 ∧ ref.head? ≠ some 100 := by
    decide
  have hForm : (named facts).map (·.1) = facts.dimensions.map (·.ref) ++
      (facts.suggestions.map (·.ref) ++ [text "overall_result", text "model_result"]) := by
    rw [named, List.map_append, List.map_append, List.map_map, List.map_map]
    rfl
  rw [hForm, List.nodup_append]
  refine ⟨h.dimensions, ?_, ?_⟩
  · rw [List.nodup_append]
    refine ⟨h.suggestions, by decide, fun a ha b hb hSame => ?_⟩
    exact (hResult b hb).1 (hSame ▸ hSuggestion a ha)
  · rintro a ha b hb rfl
    have hHead := hDimension a ha
    rcases List.mem_append.mp hb with hb | hb
    · rw [hSuggestion a hb] at hHead
      cases hHead
    · exact (hResult a hb).2 hHead

/-- A reference that the gates allow is the reference of one fact only. -/
theorem allowed_resolves {facts : ScaleFacts} {policy : InputPolicy} {reported listed : List Value}
    (h : facts.Closed policy reported listed) {kind : EvidenceKind} {ref : Text} (hRef : ref ∈ (factsOf facts).allowed kind) :
    ∃! fact, (ref, fact) ∈ named facts := by
  obtain ⟨⟨found, fact⟩, hMem, rfl⟩ := List.mem_map.mp (named_of_allowed hRef)
  refine ⟨fact, hMem, fun other hOther => ?_⟩
  exact congrArg Prod.snd (List.inj_on_of_nodup_map (named_distinct h) hOther hMem rfl)

/-- An assembled report is closed: its facts refer to each other only, with
different references, and what the gates allow an output to refer to is always
exactly one of them. -/
theorem assembled_facts_closed {library : Library} {snapshot : Value} {policy : InputPolicy} {locale : Text}
    {focus : List Text} {input : AssembledInput} (h : assembleScale library snapshot policy locale focus = .ok input) :
    ∃ facts reported listed, scaleFacts snapshot policy = .ok facts ∧
      (snapshot.item "suggestions").bind Value.elements = .ok reported ∧
      (snapshot.item "dimensions").bind Value.elements = .ok listed ∧ facts.Closed policy reported listed ∧
      dumps compact false (some library.writeDepth) (scalePayload locale focus facts) = .ok input.providerPayload ∧
      readFacts (scalePayload locale focus facts) = .ok (factsOf facts) ∧
      ∀ kind, ∀ ref ∈ (factsOf facts).allowed kind, ∃! fact, (ref, fact) ∈ named facts := by
  obtain ⟨facts, hFacts, hPayload⟩ := assembleScale_payload h
  obtain ⟨reported, listed, hReported, hListed, hClosed⟩ := scaleFacts_closed hFacts
  exact ⟨facts, reported, listed, hFacts, hReported, hListed, hClosed, hPayload,
    readFacts_scalePayload hClosed.dimensions, fun kind ref hRef => allowed_resolves hClosed hRef⟩

/-! A report of three dimensions, one below the other. -/

def chainDimension (code parent suggestion : String) (order : Int) : Value :=
  record [("code", .string (text code)), ("kind", .string (text "factor")), ("name", .string (text code)),
    ("role", .string []), ("parent_code", .string (text parent)), ("hierarchy_level", .int 1), ("sort_order", .int order),
    ("raw_score", .int 3), ("max_score", .null), ("derived_scores", .array []), ("level", .null), ("norm_reference", .null),
    ("description", .string []), ("suggestion", .string (text suggestion))]

def chainSnapshot : Value :=
  record [("schema_version", .string (text "qs-report-snapshot/v1")),
    ("model", record [("kind", .string (text "scale")), ("algorithm", .string (text "sum")), ("code", .string (text "S")),
      ("version", .string (text "1")), ("title", .string (text "S"))]),
    ("runtime", record [("decision_kind", .string (text "score_range"))]),
    ("source", record [("report_id", .string (text "1")), ("outcome_id", .string (text "2")),
      ("report_type", .string (text "standard")), ("report_template_version", .string (text "1")),
      ("content_schema_version", .string (text "1")), ("builder_identity", .string (text "b")),
      ("generated_at", .string (text "2026"))]),
    ("dimensions", .array [chainDimension "A" "P" "Walk" 1, chainDimension "P" "B" "" 2, chainDimension "B" "" "" 3]),
    ("suggestions", .array [record [("source_index", .int 0), ("category", .string (text "daily")),
      ("content", .string (text "Rest")), ("dimension_code", .string (text "B"))]]),
    ("primary_score", .null), ("level", .null), ("conclusion", .string []), ("model_extra", .null)]

/-- The dimension in the middle is excluded. -/
def chainPolicy : InputPolicy where
  profileId := text "p"
  profileVersion := text "1"
  profileFingerprint := text "sha256:0000000000000000000000000000000000000000000000000000000000000000"
  modelCode := none
  modelVersion := none
  minDimensions := 2
  maxDimensions := 2
  eligibleCodes := []
  excludedCodes := [text "P"]
  allowedFocusAreas := []
  includeNormContext := false
  includeModelResult := false

def chainLibrary : Library := ⟨100, 100, id⟩

def chainInput : Assembly AssembledInput := assembleScale chainLibrary chainSnapshot chainPolicy (text "zh-CN") []

theorem chain_assembled : ∃ input, chainInput = .ok input := by
  have hSome : chainInput.toOption.isSome = true := by decide +kernel
  obtain ⟨input, hInput⟩ := Option.isSome_iff_exists.mp hSome
  exact ⟨input, toOption_some.mp hInput⟩

/-- Its facts are closed. -/
theorem assembled_facts_closed_chain : ∃ facts reported listed, scaleFacts chainSnapshot chainPolicy = .ok facts ∧
    facts.Closed chainPolicy reported listed := by
  obtain ⟨input, hInput⟩ := chain_assembled
  obtain ⟨facts, reported, listed, hFacts, -, -, hClosed, -⟩ := assembled_facts_closed hInput
  exact ⟨facts, reported, listed, hFacts, hClosed⟩

end ReportOutput

end QsAi
